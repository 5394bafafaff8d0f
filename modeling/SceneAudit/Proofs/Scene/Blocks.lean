import SceneAudit.Proofs.Text.Basic
import SceneAudit.Proofs.Text.Blank
import SceneAudit.Proofs.Text.Decimal
import SceneAudit.Proofs.Text.Lines
import SceneAudit.Scene.Basic

/-! # Scenes as lists of blocks

A scene text made of blocks is cut exactly where one block ends and the next begins, and each block
is read on its own. What the scene holds is therefore what its blocks hold, one after another.
-/

namespace SceneAudit.Scene

/-- Text of a block: it begins with the mark of a header and ends with a line feed. -/
structure IsBlock (t : Text) : Prop where
  header : Text.startsWith RawBlock.headerMark t = true
  ended : t.getLast? = some '\n'

instance : DecidablePred IsBlock := fun t =>
  decidable_of_iff (Text.startsWith RawBlock.headerMark t = true ∧ t.getLast? = some '\n')
    ⟨fun h => ⟨h.1, h.2⟩, fun h => ⟨h.1, h.2⟩⟩

theorem canonicalAnchor_of_spells {s : Text} {n : Int} (h : Text.Spells s n)
    (hn : Text.fitsSigned 64 n = true) : canonicalAnchor s = Text.ofInt n := by
  rw [canonicalAnchor, h.readInt64?_eq hn]

namespace RawBlock

/-- Three dots, with nothing behind them but white space. -/
def EndsDocument (line : Text) : Prop :=
  ∃ blanks, line = ['.', '.', '.'] ++ blanks ∧ ∀ c ∈ blanks, Text.isBlank c = true

theorem isDocumentEnd_iff {line : Text} : isDocumentEnd line = true ↔ EndsDocument line := by
  rw [isDocumentEnd, beq_iff_eq]
  constructor
  · intro h
    obtain ⟨blanks, hline, hblanks⟩ := Text.trimEnd_prefix line
    exact ⟨blanks, h ▸ hline, hblanks⟩
  · rintro ⟨blanks, rfl, hblanks⟩
    rw [Text.trimEnd_append hblanks]
    exact Text.trimEnd_eq_self (by simp; decide)

instance : DecidablePred EndsDocument := fun _ =>
  decidable_of_iff _ isDocumentEnd_iff

/-- The lines that go into a body, each ended by a line feed. -/
def kept (ls : List Text) : Text :=
  Text.unlines (ls.filter fun l => ¬EndsDocument l)

theorem kept_append (ls ls' : List Text) : kept (ls ++ ls') = kept ls ++ kept ls' := by
  rw [kept, List.filter_append, Text.unlines, List.flatMap_append]
  rfl

theorem cut_cons_header (header : Text) (ls : List Text) :
    cut ((headerMark ++ header) :: ls) = ([], ofHeader header (cut ls).1 :: (cut ls).2) := by
  rw [cut, Text.dropStart?_append]

theorem cut_cons_line {line : Text} (h : Text.startsWith headerMark line = false)
    (ls : List Text) : cut (line :: ls) = (kept [line] ++ (cut ls).1, (cut ls).2) := by
  have hnone : Text.dropStart? headerMark line = none := by
    rw [Text.startsWith] at h
    simpa using h
  rw [cut, hnone]
  by_cases hend : EndsDocument line
  · simp [kept, isDocumentEnd_iff.mpr hend, hend, Text.unlines]
  · have hgoes : isDocumentEnd line = false := by
      rwa [← Bool.not_eq_true, isDocumentEnd_iff]
    simp [kept, hgoes, hend, Text.unlines]

theorem cut_of_headerless {ls : List Text}
    (h : ∀ l ∈ ls, Text.startsWith headerMark l = false) : cut ls = (kept ls, []) := by
  induction ls with
  | nil => rfl
  | cons line ls ih =>
    obtain ⟨hline, hls⟩ := List.forall_mem_cons.mp h
    rw [cut_cons_line hline, ih hls, ← kept_append]
    rfl

theorem cut_header {t : Text} (h : Text.startsWith headerMark t = true) :
    (cut (Text.lines t)).1 = [] := by
  obtain ⟨r, rfl⟩ := Text.startsWith_iff.mp h
  have hmark : ∀ c ∈ headerMark, c ≠ '\n' ∧ c ≠ '\r' := by simp [headerMark]
  obtain ⟨l, ls, hl⟩ := Text.lines_append_left hmark r (List.cons_ne_nil _ _)
  rw [hl, cut, Text.dropStart?_append]

theorem cut_append {ls ls' : List Text} (h : (cut ls').1 = []) :
    cut (ls ++ ls') = ((cut ls).1, (cut ls).2 ++ (cut ls').2) := by
  induction ls with
  | nil => exact Prod.ext h rfl
  | cons line ls ih =>
    rw [List.cons_append, cut, cut, ih]
    cases Text.dropStart? headerMark line with
    | some header => rfl
    | none => cases isDocumentEnd line <;> rfl

/-- Text that ends where a line ends is cut apart from the header that follows it. -/
theorem split_append {s t : Text} (hs : Text.Ended s)
    (ht : Text.startsWith headerMark t = true) : split (s ++ t) = split s ++ split t := by
  rw [split, Text.lines_append hs, cut_append (cut_header ht)]
  rfl

theorem split_flatten {blocks : List Text} (h : ∀ b ∈ blocks, IsBlock b) :
    split blocks.flatten = blocks.flatMap split := by
  induction blocks with
  | nil => rfl
  | cons b blocks ih =>
    obtain ⟨hb, hrest⟩ := List.forall_mem_cons.mp h
    rw [List.flatten_cons, List.flatMap_cons, ← ih hrest]
    rcases blocks with _ | ⟨c, blocks⟩
    · simp [split, cut, Text.lines]
    · refine split_append (Text.ended_of_getLast? hb.ended) ?_
      obtain ⟨r, rfl⟩ := Text.startsWith_iff.mp (hrest c List.mem_cons_self).header
      rw [List.flatten_cons, List.append_assoc]
      exact Text.startsWith_iff.mpr ⟨_, rfl⟩

end RawBlock

theorem parse_flatten (reserved : List Text) {blocks : List Text} (h : ∀ b ∈ blocks, IsBlock b) :
    parse reserved blocks.flatten =
      ofReadings ((blocks.flatMap RawBlock.split).map (Reading.ofRaw reserved)) := by
  rw [parse, RawBlock.split_flatten h]

section Permuted

variable {reserved : List Text} {blocks blocks' : List Text}
  (h : ∀ b ∈ blocks, IsBlock b) (hp : blocks.Perm blocks')

include h hp

theorem parse_entities_perm :
    (parse reserved blocks.flatten).entities.Perm (parse reserved blocks'.flatten).entities := by
  rw [parse_flatten reserved h, parse_flatten reserved fun b hb => h b (hp.mem_iff.mpr hb)]
  exact ((hp.flatMap_right _).map _).filterMap _

theorem parse_malformed_eq :
    (parse reserved blocks.flatten).malformed = (parse reserved blocks'.flatten).malformed := by
  rw [parse_flatten reserved h, parse_flatten reserved fun b hb => h b (hp.mem_iff.mpr hb)]
  exact ((hp.flatMap_right _).map _).countP_eq _

theorem parse_objects_perm :
    (parse reserved blocks.flatten).objects.Perm (parse reserved blocks'.flatten).objects :=
  (parse_entities_perm h hp).filterMap _

theorem parse_transforms_perm :
    (parse reserved blocks.flatten).transforms.Perm (parse reserved blocks'.flatten).transforms :=
  (parse_entities_perm h hp).filterMap _

end Permuted

end SceneAudit.Scene
