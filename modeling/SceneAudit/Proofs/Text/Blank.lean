import SceneAudit.Proofs.Text.Basic
import SceneAudit.Text.Blank

/-! # Laws of white space

Trimming takes away what is white space at either end and nothing else, and words that are kept
apart by white space are found again.
-/

namespace SceneAudit.Text

def IsWord (t : Text) : Prop :=
  ∀ c ∈ t, isBlank c = false

instance : DecidablePred IsWord := fun t =>
  inferInstanceAs (Decidable (∀ c ∈ t, isBlank c = false))

theorem trimEnd_eq_self {t : Text} (h : ∀ c, t.getLast? = some c → isBlank c = false) :
    trimEnd t = t := by
  rw [trimEnd, dropEnd]
  rcases List.eq_nil_or_concat t with rfl | ⟨u, c, rfl⟩
  · rfl
  · have hc : isBlank c = false := h c (by simp)
    simp [hc]

theorem trimEnd_append {v : Text} (hv : ∀ c ∈ v, isBlank c = true) (t : Text) :
    trimEnd (t ++ v) = trimEnd t := by
  rw [trimEnd, trimEnd, dropEnd, dropEnd, List.reverse_append,
    List.dropWhile_append_of_pos fun c hc => hv c (List.mem_reverse.mp hc)]

theorem trim_around {u t v : Text} (hu : ∀ c ∈ u, isBlank c = true)
    (hv : ∀ c ∈ v, isBlank c = true) (hhead : ∀ c, t.head? = some c → isBlank c = false)
    (hlast : ∀ c, t.getLast? = some c → isBlank c = false) : trim (u ++ (t ++ v)) = t := by
  rw [trim, trimStart, List.dropWhile_append_of_pos hu]
  cases t with
  | nil =>
    rw [List.nil_append, List.dropWhile_eq_nil_iff.mpr hv]
    rfl
  | cons c t =>
    rw [List.cons_append, List.dropWhile_cons_of_neg (by simp [hhead c rfl]), ← List.cons_append,
      trimEnd_append hv, trimEnd_eq_self hlast]

theorem trim_replicate_append (n : Nat) {t : Text}
    (hhead : ∀ c, t.head? = some c → isBlank c = false)
    (hlast : ∀ c, t.getLast? = some c → isBlank c = false) :
    trim (List.replicate n ' ' ++ t) = t := by
  have hspaces : ∀ c ∈ List.replicate n ' ', isBlank c = true := by
    intro c hc
    rw [List.eq_of_mem_replicate hc]
    rfl
  have hnothing : ∀ c ∈ ([] : Text), isBlank c = true := by simp
  simpa using trim_around hspaces hnothing hhead hlast

theorem IsWord.trim_eq {t : Text} (h : IsWord t) : trim t = t :=
  trim_replicate_append 0 (fun c hc => h c (List.mem_of_mem_head? hc))
    fun c hc => h c (List.mem_of_getLast? hc)

theorem trim_ne_nil {t : Text} {c : Char} (hc : c ∈ t) (hblank : isBlank c = false) :
    trim t ≠ [] := by
  intro hnil
  have hall : ∀ x ∈ t.dropWhile isBlank, isBlank x = true := by
    rw [trim, trimEnd, dropEnd, List.reverse_eq_nil_iff, List.dropWhile_eq_nil_iff] at hnil
    exact fun x hx => hnil x (List.mem_reverse.mpr hx)
  rw [← List.takeWhile_append_dropWhile (p := isBlank) (l := t)] at hc
  have hc' : isBlank c = true := by
    rcases List.mem_append.mp hc with hc | hc
    · exact List.mem_takeWhile_imp hc
    · exact hall c hc
  rw [hc'] at hblank
  contradiction

theorem trim_eq_nil_iff {t : Text} : trim t = [] ↔ ∀ c ∈ t, isBlank c = true := by
  constructor
  · intro h c hc
    by_contra hblank
    exact trim_ne_nil hc (by simpa using hblank) h
  · intro h
    simpa using trim_around (t := []) (v := []) h (by simp) (by simp) (by simp)

theorem trimEnd_prefix (t : Text) : ∃ u, t = trimEnd t ++ u ∧ ∀ c ∈ u, isBlank c = true := by
  refine ⟨(t.reverse.takeWhile isBlank).reverse, ?_, ?_⟩
  · rw [trimEnd, dropEnd, ← List.reverse_append, List.takeWhile_append_dropWhile,
      List.reverse_reverse]
  · exact fun c hc => List.mem_takeWhile_imp (List.mem_reverse.mp hc)

theorem words_blank {c : Char} (hc : isBlank c = true) (t : Text) : words (c :: t) = words t := by
  rw [words.eq_def]
  exact if_pos hc

theorem words_append {w t : Text} (hw : IsWord w) (hne : w ≠ [])
    (ht : ∀ c, t.head? = some c → isBlank c = true) : words (w ++ t) = w :: words t := by
  induction w with
  | nil => exact absurd rfl hne
  | cons c w ih =>
    obtain ⟨hc, hrest⟩ := List.forall_mem_cons.mp hw
    rw [List.cons_append, words.eq_def]
    simp only [hc, Bool.false_eq_true, if_false]
    rcases w with _ | ⟨d, w⟩
    · rcases t with _ | ⟨d, t⟩
      · rfl
      · simp [ht d rfl]
    · have hd : isBlank d = false := hrest d List.mem_cons_self
      have hmore := ih hrest (List.cons_ne_nil d w)
      rw [List.cons_append] at hmore
      simp [hd, hmore]

end SceneAudit.Text
