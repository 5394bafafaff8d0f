import SceneAudit.Proofs.Scene.PropertyTexts
import SceneAudit.Proofs.Text.Lines
import SceneAudit.Proofs.Yaml.Values

/-! # Contents of properties

What stands behind the colon of a property: nothing, a scalar, or a mapping of scalars in flow style
on one line or in block style on the lines below. Each is given by its lines and by what it stands
for.
-/

namespace SceneAudit.Scene

open Yaml (Atom Value Stands IsAtomic IsInline)

theorem isLine_of_isInline {t : Text} (h : IsInline t) : Text.IsLine t := by
  intro c hc
  constructor <;> rintro rfl <;> exact absurd (h _ hc).2 (by decide)

/-- What stands behind the colon of a property. -/
inductive Content where
  | nothing (spaces : Nat)
  | atom (a : Atom)
  | noItems
  | flow (entries : List (Text × Atom))
  | nested (column : Nat) (entries : List (Text × Atom))
  deriving DecidableEq, Repr

namespace Content

def margin : Nat := 2

def nestedLine (column : Nat) (e : Text × Atom) : Text :=
  List.replicate column ' ' ++ (e.1 ++ ':' :: ' ' :: e.2.text)

/-- The rest of the property's line. -/
def first : Content → Text
  | nothing spaces => List.replicate spaces ' '
  | atom a => ' ' :: a.text
  | noItems => " []".toList
  | flow entries => Yaml.flowText entries
  | nested _ _ => []

/-- The lines below the property's line. -/
def more : Content → List Text
  | nothing _ => []
  | atom _ => []
  | noItems => []
  | flow _ => []
  | nested column entries => entries.map (nestedLine column)

/-- The text behind the colon, up to the next property. -/
def text (c : Content) : Text :=
  Text.unlines (c.first :: c.more)

def writtenText (c : Content) : Text :=
  Text.trim c.first ++ c.more.flatMap fun line => '\n' :: Text.trim line

/-- What the content stands for; nothing if a scalar in it is refused. -/
def value? : Content → Option Value
  | nothing _ => some .null
  | atom a => a.value?
  | noItems => some (.sequence [])
  | flow entries => (Yaml.allEntries (Yaml.atomPairs entries)).map .mapping
  | nested _ entries => (Yaml.allEntries (Yaml.atomPairs entries)).map .mapping

/-- The scalars of the content stand for themselves, and its lines are indented below the property.
-/
def IsVerbatim : Content → Prop
  | nothing _ => True
  | atom a => a.IsVerbatim
  | noItems => True
  | flow entries => IsAtomic entries
  | nested column entries => margin < column ∧ entries ≠ [] ∧ IsAtomic entries

instance : DecidablePred IsVerbatim := fun c =>
  match c with
  | nothing _ => inferInstanceAs (Decidable True)
  | atom a => inferInstanceAs (Decidable a.IsVerbatim)
  | noItems => inferInstanceAs (Decidable True)
  | flow entries => inferInstanceAs (Decidable (IsAtomic entries))
  | nested column entries =>
    inferInstanceAs (Decidable (margin < column ∧ entries ≠ [] ∧ IsAtomic entries))

variable {c : Content} (h : c.IsVerbatim)

def nestedEntry (e : Text × Atom) : Yaml.Entry :=
  ⟨e.1, ' ' :: (e.2.text ++ ['\n']), e.2.value?⟩

theorem unlines_nested (column : Nat) (entries : List (Text × Atom)) :
    Text.unlines (entries.map (nestedLine column)) =
      (entries.map nestedEntry).flatMap (Yaml.Entry.written column) := by
  induction entries with
  | nil => rfl
  | cons e entries ih =>
    simp only [Text.unlines] at ih
    simp [Text.unlines, nestedLine, nestedEntry, Yaml.Entry.written, ih]

theorem isSound_nestedEntry {entries : List (Text × Atom)} (h : IsAtomic entries) (column : Nat) :
    ∀ e ∈ entries.map nestedEntry, e.IsSound column 0 := by
  intro entry hentry
  obtain ⟨e, he, rfl⟩ := List.mem_map.mp hentry
  obtain ⟨hkey, hatom⟩ := h.flow e he
  exact ⟨hkey, h.names e he, Yaml.stands_atom hatom⟩

include h

theorem IsVerbatim.stands : Stands margin 1 c.text c.value? := by
  have hline : ∀ l : Text, Text.unlines [l] = l ++ ['\n'] := fun l => List.append_nil _
  cases c with
  | nothing spaces =>
    rw [text, more, hline]
    exact (Yaml.stands_nothing spaces).mono (Nat.zero_le 1)
  | atom a =>
    rw [text, more, hline]
    exact (Yaml.stands_atom h).mono (Nat.zero_le 1)
  | noItems => exact Yaml.stands_noItems
  | flow entries =>
    rw [text, more, hline]
    exact Yaml.stands_flow h
  | nested column entries =>
    obtain ⟨hcolumn, hne, hatomic⟩ := h
    have hnodup : ((entries.map nestedEntry).map Yaml.Entry.key).Nodup := by
      rw [List.map_map]
      exact hatomic.nodup
    have hstands := Yaml.stands_nested (isSound_nestedEntry hatomic column) hnodup hcolumn
      (by simpa using hne)
    rw [← unlines_nested, List.map_map] at hstands
    exact hstands

theorem IsVerbatim.isLine : ∀ l ∈ c.first :: c.more, Text.IsLine l := by
  cases c with
  | nothing spaces => exact List.forall_mem_singleton.mpr (isLine_of_isInline (.spaces spaces))
  | atom a =>
    exact List.forall_mem_singleton.mpr
      (isLine_of_isInline (.cons (by decide) (Atom.IsVerbatim.isInline h)))
  | noItems => exact List.forall_mem_singleton.mpr (isLine_of_isInline (by unfold IsInline; decide))
  | flow entries =>
    exact List.forall_mem_singleton.mpr (isLine_of_isInline (Yaml.isInline_flowText h.flow))
  | nested column entries =>
    refine List.forall_mem_cons.mpr ⟨by rintro x ⟨⟩, ?_⟩
    intro l hl
    obtain ⟨e, he, rfl⟩ := List.mem_map.mp hl
    obtain ⟨hkey, hatom⟩ := h.2.2.flow e he
    exact isLine_of_isInline (.append (.spaces column) (hkey.isInline.append
      (.cons (by decide) (.cons (by decide) hatom.isInline))))

theorem IsVerbatim.deeper : ∀ l ∈ c.more, margin < depth l := by
  cases c with
  | nested column entries =>
    intro l hl
    obtain ⟨e, he, rfl⟩ := List.mem_map.mp hl
    obtain ⟨c, t, hkey, hquiet⟩ := (h.2.2.flow e he).1.head
    have hdepth : depth (nestedLine column e) = column := by
      rw [nestedLine, hkey]
      exact depth_spaces column (ne_space_of_not_blank (Yaml.isBlank_of_isQuiet hquiet))
    rw [hdepth]
    exact h.1
  | _ => rintro l ⟨⟩

end Content

end SceneAudit.Scene
