import SceneAudit.Hierarchy.Arena

/-! # The walk over the hierarchy

The walk starts at each root in turn and goes down to the children. It keeps a log of its visits. A
transform that the log has already is cut off, and so is one whose owner is no object; every other
one is listed with its depth, and its children are visited.
-/

namespace SceneAudit

open Scene

/-- What a visit comes to. -/
inductive Outcome where
  | listed (name : Text)
  | revisited
  | ownerless
  deriving DecidableEq, Repr

/-- A visit to the transform with a number. -/
structure Visit where
  number : Nat
  depth : Nat
  outcome : Outcome
  deriving DecidableEq, Repr

/-- A structural problem of a hierarchy. -/
inductive Issue where
  /-- The walk came to a transform that it had visited before. -/
  | cycle (anchor : Text)
  /-- The owner of a transform is no scene object. -/
  | dangling (anchor owner : Text)
  deriving DecidableEq, Repr

namespace Issue

def isCycle : Issue → Bool
  | .cycle _ => true
  | .dangling _ _ => false

end Issue

namespace Arena

def visited (log : List Visit) (number : Nat) : Bool :=
  log.any fun v => v.number == number

/-- Visit a transform and those below it; the log has the latest visit first. The first argument
bounds how far the walk goes down. -/
def visit (arena : Arena) : Nat → (depth : Nat) → List Visit → Nat → List Visit
  | 0, _, log, _ => log
  | fuel + 1, depth, log, number =>
    if visited log number then ⟨number, depth, .revisited⟩ :: log
    else match arena.transforms[number]? with
      | none => log
      | some t =>
        match arena.ownerName? t.owner with
        | none => ⟨number, depth, .ownerless⟩ :: log
        | some name =>
          (arena.children number).foldl (visit arena fuel (depth + 1))
            (⟨number, depth, .listed name⟩ :: log)

/-- Visits to the roots and all below them, in the order of the walk. A walk never goes down further
than there are transforms, since each step down is to a new one or the last. -/
def walk (arena : Arena) : List Visit :=
  (arena.roots.foldl (arena.visit (arena.transforms.length + 1) 0) []).reverse

def line? (v : Visit) : Option Text :=
  match v.outcome with
  | .listed name => some (List.replicate v.depth '-' ++ name)
  | _ => none

def issue? (arena : Arena) (v : Visit) : Option Issue :=
  match v.outcome, arena.transforms[v.number]? with
  | .revisited, some t => some (.cycle t.anchor)
  | .ownerless, some t => some (.dangling t.anchor t.owner)
  | _, _ => none

end Arena

/-- The hierarchy of a scene: its arena, the lines of the objects that the walk reaches and the
issues met on the way. -/
structure Hierarchy where
  arena : Arena
  lines : List Text
  issues : List Issue
  deriving Repr

namespace Hierarchy

def ofArena (arena : Arena) : Hierarchy where
  arena := arena
  lines := arena.walk.filterMap Arena.line?
  issues := arena.walk.filterMap arena.issue?

def ofScene (scene : Scene) : Hierarchy :=
  ofArena (Arena.ofScene scene)

/-- The dump of a hierarchy: its lines, each ended by a line feed. -/
def render (h : Hierarchy) : Text :=
  Text.unlines h.lines

def cycleCount (issues : List Issue) : Nat :=
  issues.countP Issue.isCycle

end Hierarchy

end SceneAudit
