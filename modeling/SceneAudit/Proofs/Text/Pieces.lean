import SceneAudit.Proofs.Text.Basic
import SceneAudit.Text.Lines

/-! # Lines between line feeds

A text is cut at its line feeds alone. A line stands in its place between the lines in front of it,
each ended by a line feed, and what follows it: nothing, or a line feed and more text.
-/

namespace SceneAudit.Text

/-- Nothing, or a line feed and more text. -/
def EndsLine (back : Text) : Prop :=
  back = [] ∨ ∃ rest, back = '\n' :: rest

/-- A line of a text behind the lines in front of it. -/
structure LineAt (text : Text) (front : List Text) (line back : Text) : Prop where
  text_eq : text = unlines front ++ (line ++ back)
  front_whole : ∀ l ∈ front, '\n' ∉ l
  line_whole : '\n' ∉ line
  ends : EndsLine back

theorem unlines_cons (l : Text) (ls : List Text) : unlines (l :: ls) = l ++ '\n' :: unlines ls := by
  rw [unlines, List.flatMap_cons, List.append_assoc, List.singleton_append]
  rfl

theorem splitOn_unlines_append {ls : List Text} (h : ∀ l ∈ ls, '\n' ∉ l) (t : Text) :
    splitOn '\n' (unlines ls ++ t) = ls ++ splitOn '\n' t := by
  induction ls with
  | nil => rfl
  | cons l ls ih =>
    obtain ⟨hl, hls⟩ := List.forall_mem_cons.mp h
    rw [unlines_cons, List.append_assoc, List.cons_append, splitOn_append_sep,
      splitOn_of_not_mem hl, ih hls]
    rfl

theorem flatMap_splitOn (sep : Char) (t : Text) :
    (splitOn sep t).flatMap (sep :: ·) = sep :: t := by
  induction t using splitOn_induct sep with
  | nil => rfl
  | separator t ih =>
    rw [splitOn_cons_sep, List.flatMap_cons, ih]
    rfl
  | other c t piece pieces hc ht ih =>
    rw [ht, List.flatMap_cons, List.cons_append] at ih
    rw [splitOn_cons hc ht, List.flatMap_cons, List.cons_append, List.cons_append,
      (List.cons.inj ih).2]

theorem cons_unlines (ls : List Text) :
    '\n' :: unlines ls = ls.flatMap ('\n' :: ·) ++ ['\n'] := by
  induction ls with
  | nil => rfl
  | cons l ls ih =>
    rw [unlines_cons, ih, List.flatMap_cons, List.append_assoc]
    rfl

theorem exists_splitOn_of_endsLine {line back : Text} (hline : '\n' ∉ line)
    (hback : EndsLine back) : ∃ after, splitOn '\n' (line ++ back) = line :: after := by
  rcases hback with rfl | ⟨rest, rfl⟩
  · exact ⟨[], by rw [List.append_nil, splitOn_of_not_mem hline]⟩
  · exact ⟨splitOn '\n' rest, by rw [splitOn_append_sep, splitOn_of_not_mem hline]; rfl⟩

theorem exists_lineAt_iff {text : Text} {front : List Text} {line : Text} :
    (∃ back, LineAt text front line back) ↔
      ∃ after, splitOn '\n' text = front ++ line :: after := by
  constructor
  · rintro ⟨back, rfl, hfront, hline, hback⟩
    obtain ⟨after, hafter⟩ := exists_splitOn_of_endsLine hline hback
    exact ⟨after, by rw [splitOn_unlines_append hfront, hafter]⟩
  · rintro ⟨after, h⟩
    have hwhole : ∀ l ∈ front ++ line :: after, '\n' ∉ l := fun l hl =>
      not_mem_of_mem_splitOn (h ▸ hl)
    refine ⟨after.flatMap ('\n' :: ·), ?_, fun l hl => hwhole l (List.mem_append_left _ hl),
      hwhole line (by simp), ?_⟩
    · have htext := flatMap_splitOn '\n' text
      rw [h, List.flatMap_append, List.flatMap_cons, List.cons_append, ← List.singleton_append,
        ← List.append_assoc, ← cons_unlines, List.cons_append] at htext
      exact (List.cons.inj htext).2.symm
    · cases after with
      | nil => exact Or.inl rfl
      | cons l after => exact Or.inr ⟨_, rfl⟩

end SceneAudit.Text
