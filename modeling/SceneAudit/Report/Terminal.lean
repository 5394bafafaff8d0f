import SceneAudit.Audit.Report

/-! # The report on a terminal

A few lines for a reader, with colors where the terminal shows them. A painted text that resets the
colors by itself is painted anew behind each reset.
-/

namespace SceneAudit.Terminal

/-- How text looks: codes for weight and color. -/
structure Style where
  codes : Text
  deriving DecidableEq, Repr

namespace Style

def bold : Style := ⟨['1']⟩
def dimmed : Style := ⟨['2']⟩
def red : Style := ⟨['3', '1']⟩
def green : Style := ⟨['3', '2']⟩
def yellow : Style := ⟨['3', '3']⟩
def cyan : Style := ⟨['3', '6']⟩
def boldGreen : Style := ⟨['1', ';', '3', '2']⟩
def boldYellow : Style := ⟨['1', ';', '3', '3']⟩

end Style

def sequence (codes : Text) : Text :=
  '\x1b' :: '[' :: codes ++ ['m']

def reset : Text :=
  sequence ['0']

def paint (color : Bool) (style : Style) (t : Text) : Text :=
  if color then sequence style.codes ++ Text.follow reset (sequence style.codes) t ++ reset else t

def failureLine (color : Bool) (f : SceneFailure) : Text :=
  paint color .boldYellow "skipped".toList ++ ' ' :: f.scene ++ [':', ' '] ++
    paint color .dimmed f.reason

def cycleLines (color : Bool) (cycles : Nat) : List Text :=
  if cycles = 0 then []
  else
    [paint color .yellow
      (Text.ofNat cycles ++ " hierarchy cycle(s) cut short, see log for anchors".toList)]

def unusedLine (color : Bool) (s : UnusedScript) : Text :=
  [' ', ' '] ++ paint color .cyan s.relativePath ++ ' ' :: paint color .dimmed s.identifier

def unusedLines (color : Bool) (unused : List UnusedScript) : List Text :=
  if unused.isEmpty then [paint color .boldGreen "No unused scripts found!".toList]
  else
    paint color .boldYellow
      ("Found ".toList ++ Text.ofNat unused.length ++ " unused scripts:".toList) ::
      unused.map (unusedLine color)

def summaryLine (color : Bool) (r : AuditReport) : Text :=
  paint color .bold "Summary:".toList ++ ' ' :: Text.ofNat r.scenesProcessed ++
    " scenes, ".toList ++ Text.ofNat r.scriptsFound ++ " scripts (".toList ++
    Text.ofNat r.scriptsRegistered ++ " registered, ".toList ++
    paint color .green (Text.ofNat r.usedCount) ++ " used, ".toList ++
    paint color .red (Text.ofNat r.unused.length) ++ " unused)".toList

def render (color : Bool) (r : AuditReport) : Text :=
  Text.unlines
    ([[]] ++ r.failures.map (failureLine color) ++ cycleLines color r.cycleCount ++
      unusedLines color r.unused ++ [[], summaryLine color r])

end SceneAudit.Terminal
