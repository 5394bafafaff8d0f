import Mathlib.Data.List.Basic
import SceneAudit.Text.Lines

/-! # Laws of lines

A text that ends where a line ends can be put in front of any other text without changing the lines
of either. A text that begins with characters of a line passes them on to its first line.
-/

namespace SceneAudit.Text

/-- Text that is empty or ends with a line feed. -/
def Ended (t : Text) : Prop :=
  ∀ c, t.getLast? = some c → c = '\n'

theorem ended_of_getLast? {t : Text} (h : t.getLast? = some '\n') : Ended t := by
  intro c hc
  exact Option.some.inj (hc.symm.trans h)

theorem Ended.tail {c : Char} {t : Text} (h : Ended (c :: t)) : Ended t := by
  intro d hd
  refine h d ?_
  rw [List.getLast?_cons, hd, Option.getD_some]

theorem lines_eq_nil_iff {t : Text} : lines t = [] ↔ t = [] := by
  fun_cases lines t <;> simp_all

theorem lines_cons {c : Char} {t : Text} (hfeed : c ≠ '\n')
    (hreturn : c = '\r' → t.head? ≠ some '\n') :
    lines (c :: t) = match lines t with
      | [] => [[c]]
      | l :: ls => (c :: l) :: ls := by
  rw [lines.eq_def]
  split
  · rename_i heq
    exact absurd heq (List.cons_ne_nil c t)
  · rename_i heq
    exact absurd (List.cons.inj heq).1 hfeed
  · rename_i heq
    obtain ⟨rfl, rfl⟩ := List.cons.inj heq
    exact absurd rfl (hreturn rfl)
  · rename_i heq
    obtain ⟨rfl, rfl⟩ := List.cons.inj heq
    rfl

theorem lines_append {s : Text} (hs : Ended s) (t : Text) :
    lines (s ++ t) = lines s ++ lines t := by
  fun_induction lines s with
  | case1 => rfl
  | case2 s ih => rw [List.cons_append, lines, ih hs.tail, List.cons_append]
  | case3 s ih => rw [List.cons_append, List.cons_append, lines, ih hs.tail.tail, List.cons_append]
  | case4 c s hfeed hreturn hnil ih =>
    obtain rfl := lines_eq_nil_iff.mp hnil
    exact absurd (hs c rfl) hfeed
  | case5 c s hfeed hreturn l ls hcons ih =>
    have hne : s ≠ [] := fun hnil => by simp [lines_eq_nil_iff.mpr hnil] at hcons
    obtain ⟨d, s', rfl⟩ := List.exists_cons_of_ne_nil hne
    rw [List.cons_append, lines_cons hfeed, ih hs.tail, hcons]
    · rfl
    · rintro rfl hd
      obtain rfl : d = '\n' := Option.some.inj hd
      exact hreturn s' rfl rfl

theorem lines_append_left {s : Text} (hs : ∀ c ∈ s, c ≠ '\n' ∧ c ≠ '\r') (t : Text)
    (hne : s ≠ []) : ∃ l ls, lines (s ++ t) = (s ++ l) :: ls := by
  induction s with
  | nil => exact absurd rfl hne
  | cons c s ih =>
    obtain ⟨⟨hfeed, hreturn⟩, hrest⟩ := List.forall_mem_cons.mp hs
    rw [List.cons_append, lines_cons hfeed fun h => absurd h hreturn]
    rcases s with _ | ⟨d, s⟩
    · rcases hl : lines ([] ++ t) with _ | ⟨l, ls⟩
      · exact ⟨[], [], rfl⟩
      · exact ⟨l, ls, rfl⟩
    · obtain ⟨l, ls, hl⟩ := ih hrest (List.cons_ne_nil d s)
      exact ⟨l, ls, by rw [hl]; rfl⟩

def IsLine (l : Text) : Prop :=
  ∀ c ∈ l, c ≠ '\n' ∧ c ≠ '\r'

theorem lines_of_isLine {l : Text} (h : IsLine l) : lines (l ++ ['\n']) = [l] := by
  induction l with
  | nil => rfl
  | cons c l ih =>
    obtain ⟨⟨hfeed, hreturn⟩, hrest⟩ := List.forall_mem_cons.mp h
    rw [List.cons_append, lines_cons hfeed fun hc => absurd hc hreturn, ih hrest]

theorem lines_eq_self {l : Text} (h : IsLine l) (hne : l ≠ []) : lines l = [l] := by
  induction l with
  | nil => exact absurd rfl hne
  | cons c l ih =>
    obtain ⟨⟨hfeed, hreturn⟩, hrest⟩ := List.forall_mem_cons.mp h
    rw [lines_cons hfeed fun hc => absurd hc hreturn]
    rcases l with _ | ⟨d, l⟩
    · rfl
    · rw [ih hrest (List.cons_ne_nil d l)]

theorem getLast?_unlines {ls : List Text} (hne : ls ≠ []) : (unlines ls).getLast? = some '\n' := by
  obtain ⟨us, l, rfl⟩ := (List.eq_nil_or_concat ls).resolve_left hne
  simp [unlines]

theorem lines_unlines {ls : List Text} (h : ∀ l ∈ ls, IsLine l) : lines (unlines ls) = ls := by
  induction ls with
  | nil => rfl
  | cons l ls ih =>
    obtain ⟨hl, hls⟩ := List.forall_mem_cons.mp h
    have hended : Ended (l ++ ['\n']) := ended_of_getLast? (by simp)
    have hcons : unlines (l :: ls) = l ++ ['\n'] ++ unlines ls := rfl
    rw [hcons, lines_append hended, lines_of_isLine hl, ih hls]
    rfl

end SceneAudit.Text
