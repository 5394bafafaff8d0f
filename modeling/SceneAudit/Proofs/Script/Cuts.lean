import Mathlib.Data.List.Basic
import Mathlib.Data.List.TakeWhile
import SceneAudit.Script.Lexeme

/-! # Cuts

A script may be cut where a lexeme ends. What stands in front of the cut is read in the same way if
the text behind it is replaced, as long as that text begins with white space or a comment.
-/

namespace SceneAudit.Script

/-- The text begins as white space and comments do. -/
def Parting (t : Text) : Prop :=
  ∃ c u, t = c :: u ∧ (isSpace c = true ∨ c = '/')

section Runs

variable {p : Char → Bool} {a v v' y : Text}

theorem Parting.not_any (h : Parting v') (hspace : ∀ c, p c = true → isSpace c = false)
    (hslash : p '/' = false) : v'.head?.any p = false := by
  obtain ⟨c, u, rfl, hc⟩ := h
  cases hpc : p c with
  | false => exact hpc
  | true =>
    rcases hc with hc | rfl
    · exact absurd ((hspace c hpc).symm.trans hc) Bool.false_ne_true
    · exact absurd (hslash.symm.trans hpc) Bool.false_ne_true

theorem Parting.not_beginsWith {c : Char} (h : Parting v') (hspace : isSpace c = false)
    (hslash : c ≠ '/') : beginsWith c v' = false := by
  obtain ⟨d, u, rfl, hd⟩ := h
  rw [beginsWith, List.head?_cons, beq_eq_false_iff_ne]
  intro hdc
  obtain rfl := Option.some.inj hdc
  rcases hd with hd | rfl
  · exact absurd (hspace.symm.trans hd) Bool.false_ne_true
  · exact hslash rfl

theorem beginsWith_iff {c : Char} : beginsWith c a = true ↔ ∃ u, a = c :: u := by
  rw [beginsWith, beq_iff_eq, List.head?_eq_some_iff]

theorem beginsWith_append (ha : a ≠ []) (c : Char) (v : Text) :
    beginsWith c (a ++ v) = beginsWith c a := by
  rw [beginsWith, beginsWith, List.head?_append_of_ne_nil _ ha]

theorem takeWhile_of_not_any (h : v.head?.any p = false) : v.takeWhile p = [] := by
  cases v with
  | nil => rfl
  | cons c u => exact List.takeWhile_cons_of_neg (by simpa using h)

theorem not_any_of_takeWhile (h : v.takeWhile p = []) : v.head?.any p = false := by
  cases v with
  | nil => rfl
  | cons c u =>
    rw [List.head?_cons, Option.any_some, Bool.eq_false_iff]
    intro hc
    rw [List.takeWhile_cons_of_pos hc] at h
    exact List.cons_ne_nil _ _ h

theorem dropWhile_of_not_any (h : v.head?.any p = false) : v.dropWhile p = v := by
  cases v with
  | nil => rfl
  | cons c u => exact List.dropWhile_cons_of_neg (by simpa using h)

theorem dropWhile_eq_append (h : v.dropWhile p = y ++ v) : y = [] ∧ v.takeWhile p = [] := by
  have hlength := congrArg List.length (List.takeWhile_append_dropWhile (p := p) (l := v))
  rw [h, List.length_append, List.length_append] at hlength
  exact ⟨List.eq_nil_of_length_eq_zero (by omega), List.eq_nil_of_length_eq_zero (by omega)⟩

theorem run_swap (hend : y = [] → v'.head?.any p = false)
    (h : (a ++ v).dropWhile p = y ++ v) :
    (a ++ v').takeWhile p = (a ++ v).takeWhile p ∧ (a ++ v').dropWhile p = y ++ v' := by
  induction a with
  | nil =>
    obtain ⟨rfl, hrun⟩ := dropWhile_eq_append h
    have hnot := hend rfl
    exact ⟨(takeWhile_of_not_any hnot).trans hrun.symm, dropWhile_of_not_any hnot⟩
  | cons c a ih =>
    rw [List.cons_append] at h ⊢
    cases hc : p c with
    | true =>
      rw [List.dropWhile_cons_of_pos hc] at h
      obtain ⟨htake, hdrop⟩ := ih h
      rw [List.cons_append, List.takeWhile_cons_of_pos hc, List.takeWhile_cons_of_pos hc,
        List.dropWhile_cons_of_pos hc, htake]
      exact ⟨rfl, hdrop⟩
    | false =>
      have hnot : ¬ p c = true := by rw [hc]; exact Bool.false_ne_true
      rw [List.dropWhile_cons_of_neg hnot] at h
      obtain rfl : c :: a = y := List.append_cancel_right h
      rw [List.cons_append, List.takeWhile_cons_of_neg hnot, List.takeWhile_cons_of_neg hnot,
        List.dropWhile_cons_of_neg hnot]
      exact ⟨rfl, rfl⟩

theorem takeWhile_append_of_not_any (h : v.head?.any p = false) (a : Text) :
    (a ++ v).takeWhile p = a.takeWhile p := by
  rw [List.takeWhile_append, takeWhile_of_not_any h, List.append_nil]
  split
  · rename_i hall
    exact ((List.takeWhile_prefix p).eq_of_length hall).symm
  · rfl

theorem takeWhile_append_length (a v : Text) :
    (a.takeWhile p).length = min ((a ++ v).takeWhile p).length a.length := by
  have hle := (List.takeWhile_prefix p (l := a)).length_le
  rw [List.takeWhile_append]
  split
  · rename_i hall
    rw [List.length_append]
    omega
  · omega

end Runs

section Openings

variable {a v v' : Text}

theorem quoteRun_append (a v : Text) : quoteRun a = min (quoteRun (a ++ v)) a.length :=
  takeWhile_append_length a v

theorem quoteRun_parting (h : Parting v') (a : Text) : quoteRun (a ++ v') = quoteRun a := by
  rw [quoteRun, takeWhile_append_of_not_any, quoteRun]
  exact h.not_any (fun c hc => by rw [beq_iff_eq.mp hc]; decide) (by decide)

theorem quoteRun_swap (h : Parting v') (hle : quoteRun (a ++ v) ≤ a.length) :
    quoteRun (a ++ v') = quoteRun (a ++ v) := by
  rw [quoteRun_parting h, quoteRun_append a v, Nat.min_eq_left hle]

def isMark (c : Char) : Bool :=
  c == '$' || c == '@'

def openingOf? (marks : Text) (quotes : Nat) (first : Option Char) : Option (Frame × Nat) :=
  if quotes = 0 then
    if first = some '\'' then some (.character, 1) else none
  else if marks.contains '@' then some (.quoted true (marks.contains '$'), marks.length + 1)
  else if 3 ≤ quotes then some (.raw quotes, marks.length + quotes)
  else some (.quoted false (marks.contains '$'), marks.length + 1)

theorem opening?_eq (t : Text) : opening? t =
    openingOf? (t.takeWhile isMark) (quoteRun (t.dropWhile isMark)) t.head? := by
  have hdrop : (t.takeWhile isMark ++ t.dropWhile isMark).drop (t.takeWhile isMark).length =
      t.dropWhile isMark := List.drop_left
  rw [List.takeWhile_append_dropWhile] at hdrop
  rw [← hdrop]
  rfl

variable {marks : Text} {quotes k n : Nat} {first : Option Char} {frame : Frame}

theorem lt_of_openingOf? (h : openingOf? marks quotes first = some (frame, n))
    (hfirst : first ≠ some '\'') : marks.length < n := by
  have hlength : n = marks.length + 1 ∨ (3 ≤ quotes ∧ n = marks.length + quotes) := by
    rw [openingOf?, if_neg hfirst] at h
    grind
  omega

theorem openingOf?_min (hk : 0 < k)
    (h : ∀ frame n, openingOf? marks quotes first = some (frame, n) → n ≤ marks.length + k) :
    openingOf? marks (min quotes k) first = openingOf? marks quotes first := by
  rcases Nat.lt_or_ge k quotes with hlt | hle
  · have hnone : quotes ≠ 0 := by omega
    rw [Nat.min_eq_right (by omega)]
    simp only [openingOf?, if_neg hnone, if_neg (Nat.pos_iff_ne_zero.mp hk)] at h ⊢
    split
    · rfl
    · rename_i hverbatim
      have hraw : ¬ 3 ≤ quotes := by
        intro hraw
        have hle := h (.raw quotes) (marks.length + quotes)
        rw [if_neg hverbatim, if_pos hraw] at hle
        exact absurd (hle rfl) (by omega)
      rw [if_neg hraw, if_neg (by omega)]
  · rw [Nat.min_eq_left hle]

theorem Parting.not_mark (h : Parting v') : v'.head?.any isMark = false := by
  refine h.not_any (fun c hc => ?_) (by decide)
  rw [isMark, Bool.or_eq_true, beq_iff_eq, beq_iff_eq] at hc
  rcases hc with rfl | rfl <;> decide

theorem head?_of_marks (hmarks : ∀ c ∈ a, isMark c = true) : a.head? ≠ some '\'' :=
  fun hfirst => absurd (hmarks _ (List.mem_of_head? hfirst)) (by decide)

theorem opening?_of_marks (ha : a ≠ []) (hmarks : ∀ c ∈ a, isMark c = true) (v : Text) :
    opening? (a ++ v) = openingOf? (a ++ v.takeWhile isMark) (quoteRun (v.dropWhile isMark))
      a.head? := by
  rw [opening?_eq, List.takeWhile_append_of_pos hmarks, List.dropWhile_append_of_pos hmarks,
    List.head?_append_of_ne_nil _ ha]

theorem opening?_of_rest (hrest : a.dropWhile isMark ≠ []) (v : Text) :
    opening? (a ++ v) = openingOf? (a.takeWhile isMark) (quoteRun (a.dropWhile isMark ++ v))
      a.head? := by
  have hlength := congrArg List.length (List.takeWhile_append_dropWhile (p := isMark) (l := a))
  rw [List.length_append] at hlength
  have hpos := List.length_pos_iff.mpr hrest
  have ha : a ≠ [] := fun ha => hrest (by rw [ha]; rfl)
  rw [opening?_eq, List.takeWhile_append, if_neg (by omega), List.dropWhile_append, if_neg,
    List.head?_append_of_ne_nil _ ha]
  rwa [List.isEmpty_iff]

theorem opening?_swap (h : Parting v') (ha : a ≠ [])
    (hlength : ∀ frame n, opening? (a ++ v) = some (frame, n) → n ≤ a.length) :
    opening? (a ++ v') = opening? (a ++ v) := by
  by_cases hrest : a.dropWhile isMark = []
  · have hmarks := List.dropWhile_eq_nil_iff.mp hrest
    have hnone : opening? (a ++ v) = none := by
      cases hfound : opening? (a ++ v) with
      | none => rfl
      | some found =>
        have hle := hlength _ _ hfound
        rw [opening?_of_marks ha hmarks] at hfound
        have hlt := lt_of_openingOf? hfound (head?_of_marks hmarks)
        rw [List.length_append] at hlt
        omega
    rw [hnone, opening?_of_marks ha hmarks, dropWhile_of_not_any h.not_mark,
      ← List.nil_append v', quoteRun_parting h]
    exact if_neg (head?_of_marks hmarks)
  · have hparts := congrArg List.length (List.takeWhile_append_dropWhile (p := isMark) (l := a))
    rw [List.length_append] at hparts
    simp only [opening?_of_rest hrest] at hlength ⊢
    rw [quoteRun_parting h, quoteRun_append _ v]
    refine openingOf?_min (List.length_pos_iff.mpr hrest) fun frame n hfound => ?_
    rw [hparts]
    exact hlength frame n hfound

end Openings

section Literals

variable {a v v' y i : Text} {c : Char} {t : Text} {frames : List Frame} {skip : Nat}

/-- The frames that are open behind a character, and the characters that are passed over then. -/
def nextFrames : List Frame → Char → Text → List Frame × Nat
  | [], _, _ => ([], 0)
  | .quoted verbatim holes :: frames, c, t =>
    let same := Frame.quoted verbatim holes :: frames
    if c == '\\' && !verbatim then (same, 1)
    else if c == '"' then if verbatim && beginsWith '"' t then (same, 1) else (frames, 0)
    else if holes && c == '\x7b' then
      if beginsWith '\x7b' t then (same, 1) else (.hole 0 :: same, 0)
    else (same, 0)
  | .raw quotes :: frames, c, t =>
    (if quotes ≤ quoteRun (c :: t) then frames else .raw quotes :: frames, quoteRun (c :: t) - 1)
  | .character :: frames, c, _ =>
    if c == '\\' then (.character :: frames, 1)
    else if c == '\'' then (frames, 0)
    else (.character :: frames, 0)
  | .hole depth :: frames, c, t =>
    match opening? (c :: t) with
    | some (frame, length) => (frame :: .hole depth :: frames, length - 1)
    | none =>
      if c == '\x7b' then (.hole (depth + 1) :: frames, 0)
      else if c == '\x7d' then
        match depth with
        | 0 => (frames, 0)
        | depth + 1 => (.hole depth :: frames, 0)
      else (.hole depth :: frames, 0)

theorem literalFrom_cons (hframes : frames ≠ []) (c : Char) (t : Text) :
    literalFrom frames 0 (c :: t) =
      inFront c (literalFrom (nextFrames frames c t).1 (nextFrames frames c t).2 t) := by
  cases frames with
  | nil => exact absurd rfl hframes
  | cons frame frames =>
    cases frame with
    | quoted verbatim holes =>
      rw [literalFrom, nextFrames]
      split
      · rfl
      · split
        · split <;> rfl
        · split
          · split <;> rfl
          · rfl
    | raw quotes =>
      rw [literalFrom, nextFrames]
      split <;> rfl
    | character =>
      rw [literalFrom, nextFrames]
      split
      · rfl
      · split <;> rfl
    | hole depth =>
      rw [literalFrom.eq_def, nextFrames.eq_def]
      dsimp only
      cases opening? (c :: t) with
      | some found => rfl
      | none =>
        dsimp only
        split
        · rfl
        · split
          · cases depth <;> rfl
          · rfl

theorem literalFrom_nil (frames : List Frame) (skip : Nat) :
    literalFrom frames skip [] = ([], []) := by
  rw [literalFrom]

theorem literalFrom_closed (t : Text) : literalFrom [] 0 t = ([], t) := by
  cases t <;> rfl

theorem literalFrom_skip (frames : List Frame) (skip : Nat) (c : Char) (t : Text) :
    literalFrom frames (skip + 1) (c :: t) = inFront c (literalFrom frames skip t) := by
  rw [literalFrom]

theorem literalFrom_append (frames : List Frame) (skip : Nat) (t : Text) :
    (literalFrom frames skip t).1 ++ (literalFrom frames skip t).2 = t := by
  induction t generalizing frames skip with
  | nil => rw [literalFrom_nil, List.append_nil]
  | cons c t ih =>
    cases skip with
    | succ skip =>
      rw [literalFrom_skip]
      exact congrArg (c :: ·) (ih frames skip)
    | zero =>
      by_cases hframes : frames = []
      · rw [hframes, literalFrom_closed, List.nil_append]
      · rw [literalFrom_cons hframes]
        exact congrArg (c :: ·) (ih _ _)

theorem skip_le (hrest : (literalFrom frames skip t).2 ≠ []) :
    skip ≤ (literalFrom frames skip t).1.length := by
  induction t generalizing skip with
  | nil =>
    rw [literalFrom_nil] at hrest
    exact absurd rfl hrest
  | cons c t ih =>
    cases skip with
    | zero => exact Nat.zero_le _
    | succ skip =>
      rw [literalFrom_skip] at hrest ⊢
      exact Nat.succ_le_succ (ih hrest)

theorem nextFrames_swap (h : Parting v') (hskip : (nextFrames frames c (a ++ v)).2 ≤ a.length) :
    nextFrames frames c (a ++ v') = nextFrames frames c (a ++ v) := by
  rcases frames with _ | ⟨⟨verbatim, holes⟩ | quotes | _ | depth, frames⟩
  · rfl
  · cases a with
    | cons d a => rfl
    | nil =>
      have hquote := h.not_beginsWith (c := '"') (by decide) (by decide)
      have hbrace := h.not_beginsWith (c := '\x7b') (by decide) (by decide)
      rw [List.nil_append, List.length_nil, nextFrames] at hskip
      rw [List.nil_append, List.nil_append, nextFrames, nextFrames, hquote, hbrace, Bool.and_false]
      grind
  · have hle : quoteRun (c :: a ++ v) ≤ (c :: a).length := by
      rw [nextFrames] at hskip
      rw [List.cons_append, List.length_cons]
      omega
    have hrun := quoteRun_swap h hle
    rw [List.cons_append, List.cons_append] at hrun
    rw [nextFrames, nextFrames, hrun]
  · rfl
  · have hopening : opening? (c :: a ++ v') = opening? (c :: a ++ v) := by
      refine opening?_swap h (List.cons_ne_nil c a) fun frame n hfound => ?_
      rw [List.cons_append] at hfound
      rw [nextFrames.eq_def] at hskip
      dsimp only at hskip
      rw [hfound] at hskip
      rw [List.length_cons]
      exact Nat.le_succ_of_pred_le hskip
    rw [List.cons_append, List.cons_append] at hopening
    rw [nextFrames.eq_def, nextFrames.eq_def]
    dsimp only
    rw [hopening]

theorem inFront_eq {parts : Text × Text} (h : inFront c parts = (i, y)) :
    ∃ j, i = c :: j ∧ parts = (j, y) := by
  obtain ⟨rfl, rfl⟩ := Prod.mk.inj h
  exact ⟨parts.1, rfl, rfl⟩

theorem closed_of_read (ht : t ≠ []) (hread : literalFrom frames skip t = ([], t)) :
    frames = [] ∧ skip = 0 := by
  cases t with
  | nil => exact absurd rfl ht
  | cons c t =>
    cases skip with
    | succ skip =>
      rw [literalFrom_skip] at hread
      obtain ⟨j, hj, -⟩ := inFront_eq hread
      exact absurd hj.symm (List.cons_ne_nil c j)
    | zero =>
      by_cases hframes : frames = []
      · exact ⟨hframes, rfl⟩
      · rw [literalFrom_cons hframes] at hread
        obtain ⟨j, hj, -⟩ := inFront_eq hread
        exact absurd hj.symm (List.cons_ne_nil c j)

/-- A literal that ends in front of a cut is read in the same way if the text behind the cut is
replaced. -/
theorem literalFrom_swap (h : Parting v') (hrest : y ++ v ≠ [])
    (hread : literalFrom frames skip (a ++ v) = (i, y ++ v)) :
    literalFrom frames skip (a ++ v') = (i, y ++ v') := by
  have hlength : i.length + y.length = a.length := by
    have happend := congrArg List.length (literalFrom_append frames skip (a ++ v))
    simp only [hread, List.length_append] at happend
    omega
  induction a generalizing frames skip i with
  | nil =>
    obtain ⟨hi, hy⟩ := Nat.add_eq_zero_iff.mp hlength
    obtain rfl := List.eq_nil_of_length_eq_zero hi
    obtain rfl := List.eq_nil_of_length_eq_zero hy
    obtain ⟨rfl, rfl⟩ := closed_of_read hrest hread
    exact literalFrom_closed v'
  | cons c a ih =>
    rw [List.length_cons] at hlength
    cases skip with
    | succ skip =>
      rw [List.cons_append, literalFrom_skip] at hread ⊢
      obtain ⟨j, rfl, hinside⟩ := inFront_eq hread
      rw [ih hinside (Nat.succ.inj ((Nat.succ_add _ _).symm.trans hlength))]
      rfl
    | zero =>
      by_cases hframes : frames = []
      · rw [hframes, literalFrom_closed] at hread ⊢
        obtain ⟨rfl, hy⟩ := Prod.mk.inj hread
        rw [List.append_cancel_right hy]
      · rw [List.cons_append, literalFrom_cons hframes] at hread ⊢
        obtain ⟨j, rfl, hinside⟩ := inFront_eq hread
        have hj : j.length + y.length = a.length :=
          Nat.succ.inj ((Nat.succ_add _ _).symm.trans hlength)
        have hskip := skip_le (by rw [hinside]; exact hrest)
        rw [hinside] at hskip
        rw [nextFrames_swap h (hskip.trans (Nat.le.intro hj)), ih hinside hj]
        rfl

end Literals

section Comments

variable {a v y i : Text} {c : Char} {t : Text}

theorem commentFrom_cons (c : Char) (t : Text) : commentFrom (c :: t) =
    if c = '*' ∧ beginsWith '/' t = true then (['*', '/'], t.drop 1)
    else inFront c (commentFrom t) := by
  split
  · rename_i hends
    obtain ⟨rfl, hslash⟩ := hends
    obtain ⟨u, rfl⟩ := beginsWith_iff.mp hslash
    rfl
  · rename_i hends
    rw [commentFrom.eq_def]
    split
    · rename_i heq
      exact absurd heq (List.cons_ne_nil c t)
    · rename_i heq
      obtain ⟨rfl, rfl⟩ := List.cons.inj heq
      exact absurd ⟨rfl, rfl⟩ hends
    · rename_i heq
      obtain ⟨rfl, rfl⟩ := List.cons.inj heq
      rfl

theorem commentFrom_append (t : Text) : (commentFrom t).1 ++ (commentFrom t).2 = t := by
  induction t with
  | nil => rfl
  | cons c t ih =>
    rw [commentFrom_cons]
    split
    · rename_i hends
      obtain ⟨rfl, hslash⟩ := hends
      obtain ⟨u, rfl⟩ := beginsWith_iff.mp hslash
      rfl
    · exact congrArg (c :: ·) ih

theorem commentFrom_swap (v' : Text) (hy : y ≠ []) (hread : commentFrom (a ++ v) = (i, y ++ v)) :
    commentFrom (a ++ v') = (i, y ++ v') := by
  have hlength : i.length + y.length = a.length := by
    have happend := congrArg List.length (commentFrom_append (a ++ v))
    simp only [hread, List.length_append] at happend
    omega
  have hpos := List.length_pos_iff.mpr hy
  induction a generalizing i with
  | nil =>
    rw [List.length_nil] at hlength
    omega
  | cons c a ih =>
    rw [List.length_cons] at hlength
    rw [List.cons_append, commentFrom_cons] at hread ⊢
    split at hread
    · rename_i hends
      obtain ⟨rfl, hdrop⟩ := Prod.mk.inj hread
      cases a with
      | nil => exact absurd hlength (by rw [List.length_cons, List.length_cons]; omega)
      | cons d a =>
        obtain rfl : a = y := List.append_cancel_right hdrop
        exact if_pos hends
    · rename_i hends
      obtain ⟨j, rfl, hinside⟩ := inFront_eq hread
      rw [List.length_cons] at hlength
      cases a with
      | nil => exact absurd hlength (by rw [List.length_nil]; omega)
      | cons d a =>
        rw [ih hinside (by omega)]
        exact if_neg hends

end Comments

end SceneAudit.Script
