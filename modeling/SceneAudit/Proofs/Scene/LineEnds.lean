import Mathlib.Data.List.Forall2
import SceneAudit.Hierarchy.Walk
import SceneAudit.Proofs.Registry.SidecarLines
import SceneAudit.Proofs.Text.Lines

/-! # Ends of lines

A carriage return in front of a line feed belongs to the end of the line. With such carriage returns
put in, at some line feeds or at all, a scene text has the same lines and is read as the same scene,
and a sidecar has the same identifier.
-/

namespace SceneAudit

namespace Text

/-- The second text is the first with carriage returns put in front of line feeds. -/
inductive Returned : Text → Text → Prop where
  | nil : Returned [] []
  | feed {s t : Text} : Returned s t → Returned ('\n' :: s) ('\n' :: t)
  | pair {s t : Text} : Returned s t → Returned ('\n' :: s) ('\r' :: '\n' :: t)
  | char {c : Char} {s t : Text} (hc : c ≠ '\n') : Returned s t → Returned (c :: s) (c :: t)

/-- The text with a carriage return in front of every line feed. -/
def withReturns (t : Text) : Text :=
  t.flatMap fun c => if c = '\n' then ['\r', '\n'] else [c]

theorem returned_withReturns (t : Text) : Returned t (withReturns t) := by
  induction t with
  | nil => exact .nil
  | cons c t ih =>
    rw [withReturns, List.flatMap_cons]
    split
    · rename_i hc
      rw [hc]
      exact .pair ih
    · rename_i hc
      exact .char hc ih

namespace Returned

variable {s t : Text}

theorem lines_eq (h : Returned s t) (hs : '\r' ∉ s) : lines t = lines s := by
  induction h with
  | nil => rfl
  | feed _ ih => rw [lines, lines, ih (List.not_mem_of_not_mem_cons hs)]
  | pair _ ih => rw [lines, lines, ih (List.not_mem_of_not_mem_cons hs)]
  | char hc _ ih =>
    obtain ⟨hreturn, hs⟩ := List.ne_and_not_mem_of_not_mem_cons hs
    rw [lines_cons hc fun heq => absurd heq.symm hreturn,
      lines_cons hc fun heq => absurd heq.symm hreturn, ih hs]

theorem forall₂_splitOn (h : Returned s t) :
    List.Forall₂ (fun l l' => l' = l ∨ l' = l ++ ['\r']) (splitOn '\n' s) (splitOn '\n' t) := by
  induction h with
  | nil => exact .cons (Or.inl rfl) .nil
  | feed _ ih =>
    rw [splitOn_cons_sep, splitOn_cons_sep]
    exact .cons (Or.inl rfl) ih
  | pair _ ih =>
    rw [splitOn_cons_sep, splitOn_cons (by decide) (splitOn_cons_sep _)]
    exact .cons (Or.inr rfl) ih
  | @char c s t hc _ ih =>
    obtain ⟨piece, pieces, hs⟩ := List.exists_cons_of_ne_nil (splitOn_ne_nil '\n' s)
    obtain ⟨piece', pieces', ht⟩ := List.exists_cons_of_ne_nil (splitOn_ne_nil '\n' t)
    rw [hs, ht] at ih
    rw [splitOn_cons hc hs, splitOn_cons hc ht]
    obtain ⟨hpiece, hpieces⟩ := List.forall₂_cons.mp ih
    refine .cons ?_ hpieces
    rcases hpiece with rfl | rfl
    · exact Or.inl rfl
    · exact Or.inr rfl

end Returned

end Text

namespace Identifier

theorem Carries.concat_return {line token : Text} (h : Carries line token) :
    Carries (line ++ ['\r']) token := by
  obtain ⟨hindent, hgap, htoken, hne, hrest⟩ := h
  rename_i indent gap rest
  have hlongest : ∀ c, (rest ++ ['\r']).head? = some c → Text.isBlank c = true ∨ c = '#' := by
    intro c hc
    cases rest with
    | nil =>
      obtain rfl := Option.some.inj hc
      exact Or.inl rfl
    | cons d rest => exact hrest c hc
  simpa only [List.append_assoc] using Carries.intro hindent hgap htoken hne hlongest

theorem Carries.of_concat_return {line token : Text} (h : Carries (line ++ ['\r']) token) :
    Carries line token := by
  generalize hline : line ++ ['\r'] = line' at h
  obtain ⟨hindent, hgap, htoken, hne, hrest⟩ := h
  rename_i indent gap rest
  rcases List.eq_nil_or_concat' rest with rfl | ⟨rest, c, rfl⟩
  · have hlast := congrArg List.getLast? hline
    obtain ⟨token, c, rfl⟩ := (List.eq_nil_or_concat' token).resolve_left hne
    simp only [List.append_nil, ← List.append_assoc, List.getLast?_concat] at hlast
    obtain rfl := Option.some.inj hlast
    exact absurd (htoken '\r' (by simp)).1 (by decide)
  · simp only [← List.append_assoc] at hline
    obtain ⟨rfl, -⟩ := List.append_inj' hline rfl
    simp only [List.append_assoc]
    refine .intro hindent hgap htoken hne fun d hd => hrest d ?_
    rw [List.head?_append, hd, Option.some_or]

theorem ofLine?_concat_return (line : Text) : ofLine? (line ++ ['\r']) = ofLine? line := by
  ext token
  rw [ofLine?_eq_some_iff, ofLine?_eq_some_iff]
  exact ⟨Carries.of_concat_return, Carries.concat_return⟩

theorem scan?_returned {s t : Text} (h : Text.Returned s t) : scan? t = scan? s := by
  have hpieces := h.forall₂_splitOn
  rw [scan?, scan?]
  generalize Text.splitOn '\n' s = ls, Text.splitOn '\n' t = ls' at hpieces ⊢
  induction hpieces with
  | nil => rfl
  | cons hline _ ih =>
    rw [List.findSome?_cons, List.findSome?_cons, ih]
    rcases hline with rfl | rfl
    · rfl
    · rw [ofLine?_concat_return]

end Identifier

open Scene

/-- Carriage returns in front of line feeds, all of them or some, change neither the blocks of a
scene text nor the scene and its dump nor the identifier of a sidecar. -/
theorem line_ends_irrelevant (reserved : List Text) {text : Text} (h : '\r' ∉ text) :
    Text.Returned text (Text.withReturns text) ∧
    ∀ text', Text.Returned text text' →
      RawBlock.split text' = RawBlock.split text ∧
      parse reserved text' = parse reserved text ∧
      (Hierarchy.ofScene (parse reserved text')).render =
        (Hierarchy.ofScene (parse reserved text)).render ∧
      Identifier.scan? text' = Identifier.scan? text := by
  refine ⟨Text.returned_withReturns text, fun text' hreturned => ?_⟩
  have hsplit : RawBlock.split text' = RawBlock.split text := by
    rw [RawBlock.split, RawBlock.split, hreturned.lines_eq h]
  have hparse : parse reserved text' = parse reserved text := by
    rw [parse, parse, hsplit]
  exact ⟨hsplit, hparse, by rw [hparse], Identifier.scan?_returned hreturned⟩

/-- An identifier in front of blocks with a blank line and a document end, the last line not ended.
-/
theorem line_ends_irrelevant_of_two_blocks :
    let text := ("guid:\tab \n--- !u!1 &2\nGameObject:\n\n  m_Name: Top\n...\n" ++
      "--- &3\nTransform:").toList
    let text' := Text.withReturns text
    '\r' ∉ text ∧
      text' = ("guid:\tab \r\n--- !u!1 &2\r\nGameObject:\r\n\r\n  m_Name: Top\r\n...\r\n" ++
        "--- &3\r\nTransform:").toList ∧
      (parse [] text').entities =
        [.object ⟨['2'], "Top".toList⟩, .transform ⟨['3'], ['0'], ['0']⟩] ∧
      Identifier.scan? text' = some "ab".toList := by
  repeat rw [String.toList_append]
  repeat rw [String.toList_ofList]
  intro text text'
  have htext : '\r' ∉ text := by decide
  obtain ⟨hreturned, hsame⟩ := line_ends_irrelevant [] htext
  obtain ⟨-, hparse, -, hscan⟩ := hsame text' hreturned
  refine ⟨htext, by decide +kernel, ?_, ?_⟩
  · rw [hparse]
    decide +kernel
  · rw [hscan]
    decide

end SceneAudit
