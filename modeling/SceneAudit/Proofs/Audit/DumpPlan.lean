import SceneAudit.Audit.DumpPlan
import SceneAudit.Proofs.Files.OsPath
import SceneAudit.Proofs.Text.Lossy

/-! # What a plan of dumps gives out

A scene gets the dump that it asks for unless the dump was given out before or an earlier scene asks
for it. Scenes of one directory of dumps ask for one dump exactly if their file names are read as
one text. Between texts the plan is that of the texts themselves.
-/

namespace SceneAudit.DumpPlan

section Assign

variable {Scene Dump : Type} {target? : Scene → Option Dump} {same : Dump → Dump → Bool}
  {taken : List Dump} {scenes : List Scene} {scene : Scene} {dump : Dump} {i : Nat}

theorem length_assign (target? : Scene → Option Dump) (same : Dump → Dump → Bool)
    (taken : List Dump) (scenes : List Scene) :
    (assign target? same taken scenes).length = scenes.length := by
  fun_induction assign target? same taken scenes <;> simp_all

/-- The dump is free for the scene after those that come earlier. -/
def IsFree (target? : Scene → Option Dump) (same : Dump → Dump → Bool) (taken : List Dump)
    (earlier : List Scene) (dump : Dump) : Prop :=
  (∀ other ∈ taken, same dump other = false) ∧
    ∀ scene ∈ earlier, ∀ other, target? scene = some other → same dump other = false

theorem isFree_cons_earlier {earlier : List Scene} :
    IsFree target? same taken (scene :: earlier) dump ↔
      (∀ other, target? scene = some other → same dump other = false) ∧
        IsFree target? same taken earlier dump := by
  rw [IsFree, IsFree, List.forall_mem_cons, and_left_comm]

theorem isFree_cons_taken {earlier : List Scene} {other : Dump} :
    IsFree target? same (other :: taken) earlier dump ↔
      same dump other = false ∧ IsFree target? same taken earlier dump := by
  rw [IsFree, IsFree, List.forall_mem_cons, and_assoc]

theorem isFree_nil_iff : IsFree target? same taken [] dump ↔ taken.any (same dump) = false := by
  rw [IsFree, and_iff_left (List.forall_mem_nil _), List.any_eq_false]
  simp only [Bool.not_eq_true]

theorem IsFree.same_eq_false {earlier : List Scene} {other : Dump}
    (htrans : ∀ a b c, same a b = true → same b c = true → same a c = true)
    (h : IsFree target? same taken earlier dump) (htaken : taken.any (same other) = true) :
    same dump other = false := by
  obtain ⟨given, hgiven, hsame⟩ := List.any_eq_true.mp htaken
  refine Bool.eq_false_iff.mpr fun hdump => ?_
  exact Bool.false_ne_true ((h.1 given hgiven).symm.trans (htrans _ _ _ hdump hsame))

/-- A scene gets the dump that it asks for exactly if that is free. -/
theorem getElem?_assign (htrans : ∀ a b c, same a b = true → same b c = true → same a c = true)
    (hscene : scenes[i]? = some scene) :
    (assign target? same taken scenes)[i]? = some (some dump) ↔
      target? scene = some dump ∧ IsFree target? same taken (scenes.take i) dump := by
  fun_induction assign target? same taken scenes generalizing i with
  | case1 => exact nomatch hscene
  | case2 taken s scenes hnone ih =>
    cases i with
    | zero =>
      obtain rfl : s = scene := by simpa using hscene
      simp [hnone]
    | succ i =>
      have hearlier : ∀ other, target? s = some other → same dump other = false := by simp [hnone]
      rw [List.getElem?_cons_succ, ih (by simpa using hscene), List.take_succ_cons,
        isFree_cons_earlier, and_iff_right hearlier]
  | case3 taken s scenes d hsome htaken ih =>
    cases i with
    | zero =>
      obtain rfl : s = scene := by simpa using hscene
      rw [List.getElem?_cons_zero, hsome, List.take_zero, isFree_nil_iff]
      refine iff_of_false (by simp) ?_
      rintro ⟨⟨⟩, hfree⟩
      exact Bool.false_ne_true (hfree.symm.trans htaken)
    | succ i =>
      rw [List.getElem?_cons_succ, ih (by simpa using hscene), List.take_succ_cons,
        isFree_cons_earlier, hsome]
      refine and_congr_right fun _ => (and_iff_right_of_imp fun hfree => ?_).symm
      rintro _ ⟨⟩
      exact hfree.same_eq_false htrans htaken
  | case4 taken s scenes d hsome hfree ih =>
    cases i with
    | zero =>
      obtain rfl : s = scene := by simpa using hscene
      rw [List.getElem?_cons_zero, hsome, List.take_zero, isFree_nil_iff, Option.some.injEq]
      refine (and_iff_left_of_imp ?_).symm
      rintro ⟨⟩
      exact Bool.eq_false_iff.mpr hfree
    | succ i =>
      rw [List.getElem?_cons_succ, ih (by simpa using hscene), List.take_succ_cons,
        isFree_cons_earlier, isFree_cons_taken, hsome]
      simp only [Option.some.injEq, forall_eq']

theorem exists_scene_of_getElem?_assign
    (h : (assign target? same taken scenes)[i]? = some (some dump))
    (htrans : ∀ a b c, same a b = true → same b c = true → same a c = true) :
    ∃ scene, scenes[i]? = some scene ∧ target? scene = some dump ∧
      IsFree target? same taken (scenes.take i) dump := by
  obtain ⟨hi, -⟩ := List.getElem?_eq_some_iff.mp h
  rw [length_assign] at hi
  have hscene := List.getElem?_eq_getElem hi
  exact ⟨_, hscene, (getElem?_assign htrans hscene).mp h⟩

theorem getElem?_assign_eq_none_iff
    (htrans : ∀ a b c, same a b = true → same b c = true → same a c = true)
    (hscene : scenes[i]? = some scene) (htarget : target? scene = some dump) :
    (assign target? same taken scenes)[i]? = some none ↔
      ¬ IsFree target? same taken (scenes.take i) dump := by
  obtain ⟨hi, -⟩ := List.getElem?_eq_some_iff.mp hscene
  rw [← length_assign target? same taken] at hi
  have hall : ∀ d, (assign target? same taken scenes)[i]? = some (some d) ↔
      dump = d ∧ IsFree target? same taken (scenes.take i) d := by
    intro d
    rw [getElem?_assign htrans hscene, htarget, Option.some.injEq]
  rw [List.getElem?_eq_getElem hi] at hall ⊢
  cases hentry : (assign target? same taken scenes)[i] with
  | none =>
    refine iff_of_true rfl fun hfree => ?_
    simpa [hentry] using (hall dump).mpr ⟨rfl, hfree⟩
  | some d =>
    obtain ⟨rfl, hfree⟩ := (hall d).mp (by rw [hentry])
    exact iff_of_false (by simp) (not_not_intro hfree)

theorem distinct_assign (hsymm : ∀ a b, same a b = true → same b a = true)
    (htrans : ∀ a b c, same a b = true → same b c = true → same a c = true) :
    (assign target? same taken scenes).Pairwise fun a b =>
      ∀ d, a = some d → ∀ d', b = some d' → same d d' = false := by
  refine List.pairwise_iff_getElem.mpr fun j i hj hi hji d hd d' hd' => ?_
  obtain ⟨scene, hscene, htarget, -⟩ :=
    exists_scene_of_getElem?_assign (hd ▸ List.getElem?_eq_getElem hj) htrans
  obtain ⟨-, -, -, -, hfree⟩ :=
    exists_scene_of_getElem?_assign (hd' ▸ List.getElem?_eq_getElem hi) htrans
  have hearlier : scene ∈ scenes.take i :=
    List.mem_of_getElem? (by rwa [List.getElem?_take_of_lt hji])
  refine Bool.eq_false_iff.mpr fun hsame => ?_
  exact Bool.false_ne_true ((hfree scene hearlier d htarget).symm.trans (hsymm _ _ hsame))

theorem assign_map {Scene' Dump' : Type} {target?' : Scene' → Option Dump'}
    {same' : Dump' → Dump' → Bool} {f : Dump → Dump'} {g : Scene → Scene'} {P : Dump → Prop}
    (htarget : ∀ scene, target?' (g scene) = (target? scene).map f)
    (hasked : ∀ scene dump, target? scene = some dump → P dump)
    (hsame : ∀ a b, P a → P b → same' (f a) (f b) = same a b) (htaken : ∀ d ∈ taken, P d) :
    assign target?' same' (taken.map f) (scenes.map g) =
      (assign target? same taken scenes).map (Option.map f) := by
  induction scenes generalizing taken with
  | nil => rfl
  | cons scene scenes ih =>
    rw [List.map_cons, assign, assign, htarget]
    cases hasks : target? scene with
    | none => exact congrArg _ (ih htaken)
    | some d =>
      have hd := hasked scene d hasks
      have hany : (taken.map f).any (same' (f d)) = taken.any (same d) := by
        rw [List.any_map, Bool.eq_iff_iff, List.any_eq_true, List.any_eq_true]
        refine exists_congr fun other => and_congr_right fun hother => ?_
        rw [Function.comp, hsame d other hd (htaken other hother)]
      rw [Option.map_some]
      dsimp only
      rw [hany]
      split
      · exact congrArg _ (ih htaken)
      · exact congrArg _ (ih (List.forall_mem_cons.mpr ⟨hd, htaken⟩))

end Assign

section Names

open Utf8

variable {output : OsPath} {suffix : Text} {name name' : Bytes}

def dumpOf (output : OsPath) (suffix : Text) (name : Bytes) : OsPath :=
  OsPath.join output (encode (decodeLossy name ++ '.' :: suffix))

theorem slash_mem_encode_iff {t : Text} : OsPath.slash ∈ encode t ↔ '/' ∈ t := by
  simp only [encode, List.mem_flatMap, slash_mem_encodeChar_iff, exists_eq_right]

theorem isName_dumpOf (h : OsPath.IsName name) (hsuffix : '/' ∉ suffix) :
    OsPath.IsName (encode (decodeLossy name ++ '.' :: suffix)) := by
  have hslash : '/' ∉ decodeLossy name := fun hmem =>
    h.slash (encodeChar_subset (by decide) hmem (slash_mem_encodeChar_iff.mpr rfl))
  have hread : ∀ {t : Text}, replacement ∉ t → decodeLossy name = t → name = encode t := by
    rintro t hreplaced rfl
    exact (encode_decodeLossy hreplaced).symm
  have hnil : decodeLossy name ≠ [] := fun heq => h.ne_nil (hread (by decide) heq)
  have hhere : decodeLossy name ≠ ['.'] := fun heq => h.ne_here (hread (by decide) heq)
  obtain ⟨c, t, hread⟩ := List.exists_cons_of_ne_nil hnil
  rw [hread] at hslash hhere ⊢
  refine ⟨?_, ?_, ?_, ?_⟩
  · rw [ne_eq, encode_eq_nil_iff]
    exact List.cons_ne_nil _ _
  · rw [ne_eq, OsPath.encode_eq_dot_iff]
    intro heq
    simpa using congrArg List.length heq
  · rw [ne_eq, OsPath.encode_eq_up_iff]
    intro heq
    cases t with
    | nil => exact hhere (by rw [(List.cons.inj heq).1])
    | cons d t => simpa using congrArg List.length heq
  · rw [slash_mem_encode_iff, List.mem_append, not_or]
    exact ⟨hslash, by simpa using hsuffix⟩

/-- Dumps below one directory are told apart by what is read off the names of their scenes. -/
theorem same_dumpOf_iff (h : OsPath.IsName name) (h' : OsPath.IsName name')
    (hsuffix : '/' ∉ suffix) :
    OsPath.same (dumpOf output suffix name) (dumpOf output suffix name') = true ↔
      decodeLossy name = decodeLossy name' := by
  constructor
  · intro hsame
    have hfile := OsPath.fileName?_eq_of_same hsame
    rw [dumpOf, dumpOf, (isName_dumpOf h hsuffix).fileName?_join,
      (isName_dumpOf h' hsuffix).fileName?_join] at hfile
    exact List.append_cancel_right (encode_injective (Option.some.inj hfile))
  · intro hread
    rw [dumpOf, dumpOf, hread]
    exact decide_eq_true ⟨rfl, rfl⟩

end Names

section Texts

def askedBy? (output suffix scene : Text) : Option Text :=
  (Path.fileName? scene).map fun name => Path.join output (name ++ '.' :: suffix)

theorem target?_encode (output suffix scene : Text) :
    target? (Utf8.encode output) suffix (Utf8.encode scene) =
      (askedBy? output suffix scene).map Utf8.encode := by
  rw [target?, askedBy?, OsPath.fileName?_encode, Option.map_map, Option.map_map]
  congr 1
  funext name
  simp only [Function.comp, Utf8.decodeLossy_encode, OsPath.join_encode]

/-- Between texts the plan is that of the texts. -/
theorem ofTexts_eq (output suffix : Text) (scenes : List Text) : ofTexts output suffix scenes =
    assign (askedBy? output suffix) Path.same [] scenes := by
  have hplan : plan (Utf8.encode output) suffix (scenes.map Utf8.encode) =
      (assign (askedBy? output suffix) Path.same [] scenes).map (Option.map Utf8.encode) :=
    assign_map (target?_encode output suffix) (fun _ _ _ => trivial)
      (fun _ _ _ _ => OsPath.same_encode) (List.forall_mem_nil fun _ => True)
  rw [ofTexts, hplan, List.map_map, Option.map_comp_map]
  have hread : Utf8.decodeLossy ∘ Utf8.encode = id := funext Utf8.decodeLossy_encode
  rw [hread, Option.map_id, List.map_id]

end Texts

end SceneAudit.DumpPlan
