import Mathlib.Data.Finset.Card
import SceneAudit.Hierarchy.Walk
import SceneAudit.Proofs.Hierarchy.Arena

/-! # The log of a walk

The walk as a relation that has no bound on its depth, and the laws of its log. The bounded walk is
an instance of the relation, so a walk always comes to an end. Each transform that the walk is sent
to is visited, each visit answers one sending, and a first visit is never repeated.
-/

namespace SceneAudit

open Scene

namespace Visit

def listed? (v : Visit) : Option Nat :=
  match v.outcome with
  | .listed _ => some v.number
  | _ => none

/-- The number of a transform that the visit finds without an owner. -/
def ownerless? (v : Visit) : Option Nat :=
  match v.outcome with
  | .ownerless => some v.number
  | _ => none

variable {number depth : Nat} {name : Text}

@[simp] theorem listed?_listed : listed? ⟨number, depth, .listed name⟩ = some number := rfl
@[simp] theorem listed?_ownerless : listed? ⟨number, depth, .ownerless⟩ = none := rfl
@[simp] theorem listed?_revisited : listed? ⟨number, depth, .revisited⟩ = none := rfl

theorem listed?_eq_some_iff {v : Visit} {i : Nat} :
    v.listed? = some i ↔ v.number = i ∧ ∃ name, v.outcome = .listed name := by
  rcases v with ⟨n, d, _ | _ | _⟩ <;> simp [listed?]

theorem ownerless?_eq_some_iff {v : Visit} {i : Nat} :
    v.ownerless? = some i ↔ v.number = i ∧ v.outcome = .ownerless := by
  rcases v with ⟨n, d, _ | _ | _⟩ <;> simp [ownerless?]

end Visit

namespace Arena

variable {arena : Arena}

/-- The walk over the transforms with some numbers at one depth leads from a log to another one. -/
inductive Walks (arena : Arena) : Nat → List Visit → List Nat → List Visit → Prop
  | done {depth : Nat} {log : List Visit} : Walks arena depth log [] log
  | revisit {depth number : Nat} {numbers : List Nat} {log log' : List Visit} :
      visited log number = true →
      Walks arena depth (⟨number, depth, .revisited⟩ :: log) numbers log' →
      Walks arena depth log (number :: numbers) log'
  | ownerless {depth number : Nat} {numbers : List Nat} {log log' : List Visit} {t : Transform} :
      visited log number = false → arena.transforms[number]? = some t →
      arena.ownerName? t.owner = none →
      Walks arena depth (⟨number, depth, .ownerless⟩ :: log) numbers log' →
      Walks arena depth log (number :: numbers) log'
  | listed {depth number : Nat} {numbers : List Nat} {log below log' : List Visit} {t : Transform}
      {name : Text} :
      visited log number = false → arena.transforms[number]? = some t →
      arena.ownerName? t.owner = some name →
      Walks arena (depth + 1) (⟨number, depth, .listed name⟩ :: log) (arena.children number)
        below →
      Walks arena depth below numbers log' →
      Walks arena depth log (number :: numbers) log'

theorem visited_iff {log : List Visit} {number : Nat} :
    visited log number = true ↔ ∃ v ∈ log, v.number = number := by
  simp [visited]

theorem visited_cons {v : Visit} {log : List Visit} {number : Nat} :
    visited (v :: log) number = (v.number == number || visited log number) := rfl

theorem visit_revisit {log : List Visit} {number : Nat} (hv : visited log number = true)
    (fuel depth : Nat) :
    arena.visit (fuel + 1) depth log number = ⟨number, depth, .revisited⟩ :: log := by
  simp [visit, hv]

theorem visit_ownerless {log : List Visit} {number : Nat} {t : Transform}
    (hv : visited log number = false) (ht : arena.transforms[number]? = some t)
    (hn : arena.ownerName? t.owner = none) (fuel depth : Nat) :
    arena.visit (fuel + 1) depth log number = ⟨number, depth, .ownerless⟩ :: log := by
  simp [visit, hv, ht, hn]

theorem visit_listed {log : List Visit} {number : Nat} {t : Transform} {name : Text}
    (hv : visited log number = false) (ht : arena.transforms[number]? = some t)
    (hn : arena.ownerName? t.owner = some name) (fuel depth : Nat) :
    arena.visit (fuel + 1) depth log number =
      (arena.children number).foldl (arena.visit fuel (depth + 1))
        (⟨number, depth, .listed name⟩ :: log) := by
  simp [visit, hv, ht, hn]

def unvisited (arena : Arena) (log : List Visit) : Finset Nat :=
  (Finset.range arena.transforms.length).filter fun i => visited log i = false

theorem unvisited_subset {log log' : List Visit} (h : log <:+ log') :
    arena.unvisited log' ⊆ arena.unvisited log := by
  intro i hi
  simp only [unvisited, Finset.mem_filter, Bool.eq_false_iff, ne_eq, visited_iff] at hi ⊢
  exact ⟨hi.1, fun ⟨v, hv, heq⟩ => hi.2 ⟨v, h.subset hv, heq⟩⟩

theorem card_unvisited_le {log log' : List Visit} (h : log <:+ log') :
    (arena.unvisited log').card ≤ (arena.unvisited log).card :=
  Finset.card_le_card (unvisited_subset h)

theorem card_unvisited_nil_le (arena : Arena) :
    (arena.unvisited []).card ≤ arena.transforms.length := by
  simpa only [unvisited, Finset.card_range] using
    Finset.card_filter_le (Finset.range arena.transforms.length) fun i => visited [] i = false

theorem card_unvisited_cons_lt {v : Visit} {log : List Visit}
    (hlt : v.number < arena.transforms.length) (hv : visited log v.number = false) :
    (arena.unvisited (v :: log)).card < (arena.unvisited log).card := by
  apply Finset.card_lt_card
  refine (Finset.ssubset_iff_of_subset ?_).mpr ⟨v.number, ?_, ?_⟩
  · exact unvisited_subset (List.suffix_cons v log)
  · simp [unvisited, hlt, hv]
  · simp [unvisited, visited_cons]

/-- A visit that may come next after a log. -/
def Fits (arena : Arena) (log : List Visit) (v : Visit) : Prop :=
  match v.outcome with
  | .revisited => visited log v.number = true
  | .ownerless => visited log v.number = false ∧
      ∃ t, arena.transforms[v.number]? = some t ∧ arena.ownerName? t.owner = none
  | .listed name => visited log v.number = false ∧
      ∃ t, arena.transforms[v.number]? = some t ∧ arena.ownerName? t.owner = some name

namespace Walks

variable {depth : Nat} {numbers : List Nat} {log log' : List Visit}

theorem preserves {P : List Visit → Prop} (h : Walks arena depth log numbers log')
    (hstep : ∀ {log v}, Fits arena log v → P log → P (v :: log)) (hlog : P log) : P log' := by
  induction h with
  | done => exact hlog
  | revisit hv _ ih => exact ih (hstep hv hlog)
  | ownerless hv ht hn _ ih => exact ih (hstep ⟨hv, _, ht, hn⟩ hlog)
  | listed hv ht hn _ _ ihb ih => exact ih (ihb (hstep ⟨hv, _, ht, hn⟩ hlog))

theorem suffix (h : Walks arena depth log numbers log') : log <:+ log' :=
  h.preserves (fun _ hs => hs.trans (List.suffix_cons _ _)) List.suffix_rfl

theorem visited_mono (h : Walks arena depth log numbers log') {number : Nat}
    (hv : visited log number = true) : visited log' number = true := by
  obtain ⟨v, hmem, rfl⟩ := visited_iff.mp hv
  exact visited_iff.mpr ⟨v, h.suffix.subset hmem, rfl⟩

end Walks

/-- With a bound above the number of transforms not yet visited, the bounded walk is the walk: each
step down has visited one more. -/
theorem walks_foldl_visit {fuel depth : Nat} {numbers : List Nat} {log : List Visit}
    (hfuel : (arena.unvisited log).card < fuel)
    (hnumbers : ∀ i ∈ numbers, i < arena.transforms.length) :
    Walks arena depth log numbers (numbers.foldl (arena.visit fuel depth) log) := by
  induction fuel generalizing depth numbers log with
  | zero => omega
  | succ fuel ih =>
    induction numbers generalizing log with
    | nil => exact .done
    | cons i numbers ihn =>
      have hi : i < arena.transforms.length := hnumbers i List.mem_cons_self
      have hrest : ∀ j ∈ numbers, j < arena.transforms.length :=
        fun j hj => hnumbers j (List.mem_cons_of_mem i hj)
      have hgrow : ∀ {log' : List Visit}, log <:+ log' → (arena.unvisited log').card < fuel + 1 :=
        fun h => (card_unvisited_le h).trans_lt hfuel
      rw [List.foldl_cons]
      cases hv : visited log i with
      | true =>
        rw [visit_revisit hv]
        exact .revisit hv (ihn (hgrow (List.suffix_cons _ _)) hrest)
      | false =>
        have ht : arena.transforms[i]? = some arena.transforms[i] := List.getElem?_eq_getElem hi
        cases hn : arena.ownerName? arena.transforms[i].owner with
        | none =>
          rw [visit_ownerless hv ht hn]
          exact .ownerless hv ht hn (ihn (hgrow (List.suffix_cons _ _)) hrest)
        | some name =>
          rw [visit_listed hv ht hn]
          let v : Visit := ⟨i, depth, .listed name⟩
          have hless : (arena.unvisited (v :: log)).card < fuel := by
            have := card_unvisited_cons_lt (v := v) hi hv
            omega
          have hbelow : Walks arena (depth + 1) (v :: log) (arena.children i) _ :=
            ih hless fun j hj => by
              obtain ⟨_, _, _, hu, _⟩ := mem_children.mp hj
              exact lt_length hu
          exact .listed hv ht hn hbelow
            (ihn (hgrow ((List.suffix_cons _ _).trans hbelow.suffix)) hrest)

theorem walks_walk (arena : Arena) : Walks arena 0 [] arena.roots arena.walk.reverse := by
  rw [walk, List.reverse_reverse]
  refine walks_foldl_visit ?_ fun i hi => ?_
  · exact Nat.lt_succ_of_le arena.card_unvisited_nil_le
  · obtain ⟨t, ht, _⟩ := mem_roots.mp hi
    exact lt_length ht

/-- A chain of owned transforms leads from a root down to the transform with a number. -/
inductive Linked (arena : Arena) : Nat → Prop
  | root {i : Nat} {t : Transform} :
      arena.transforms[i]? = some t → t.parent = noAnchor → arena.Owned t → Linked arena i
  | child {i j : Nat} {t u : Transform} :
      Linked arena i → arena.transforms[i]? = some t → arena.transforms[j]? = some u →
      u.parent ≠ noAnchor → u.parent = t.anchor → arena.Owned u → Linked arena j

/-- The walk is sent to the transform with a number: it is a root or the child of a linked one. -/
def Sent (arena : Arena) (i : Nat) : Prop :=
  i ∈ arena.roots ∨ ∃ p, Linked arena p ∧ i ∈ arena.children p

theorem Sent.linked {i : Nat} {t : Transform} (h : Sent arena i)
    (ht : arena.transforms[i]? = some t) (ho : arena.Owned t) : Linked arena i := by
  rcases h with h | ⟨p, hp, h⟩
  · obtain ⟨u, hu, hroot⟩ := mem_roots.mp h
    obtain rfl : t = u := Option.some.inj (ht.symm.trans hu)
    exact .root ht hroot ho
  · obtain ⟨u, v, hu, hv, hne, heq⟩ := mem_children.mp h
    obtain rfl : t = v := Option.some.inj (ht.symm.trans hv)
    exact .child hp hu ht hne heq ho

/-- A visit has the outcome that the owner of its transform asks for, unless it is a repeated one.
-/
def Faithful (arena : Arena) (v : Visit) : Prop :=
  ∃ t, arena.transforms[v.number]? = some t ∧ match v.outcome with
    | .listed name => arena.ownerName? t.owner = some name
    | .ownerless => arena.ownerName? t.owner = none
    | .revisited => True

namespace Walks

variable {depth : Nat} {numbers : List Nat} {log log' : List Visit}

theorem visited_of_mem (h : Walks arena depth log numbers log') {i : Nat} (hi : i ∈ numbers) :
    visited log' i = true := by
  induction h with
  | done => simp at hi
  | revisit _ hw ih =>
    rcases List.mem_cons.mp hi with rfl | hi
    · exact hw.visited_mono (by simp [visited_cons])
    · exact ih hi
  | ownerless _ _ _ hw ih =>
    rcases List.mem_cons.mp hi with rfl | hi
    · exact hw.visited_mono (by simp [visited_cons])
    · exact ih hi
  | listed _ _ _ hb hw _ ih =>
    rcases List.mem_cons.mp hi with rfl | hi
    · exact hw.visited_mono (hb.visited_mono (by simp [visited_cons]))
    · exact ih hi

theorem visited_children (h : Walks arena depth log numbers log') {v : Visit} (hv : v ∈ log') :
    v ∈ log ∨ ∀ i ∈ v.listed?, ∀ j ∈ arena.children i, visited log' j = true := by
  induction h with
  | done => exact .inl hv
  | revisit _ _ ih =>
    rcases ih hv with hv | h
    · rcases List.mem_cons.mp hv with rfl | hv
      · exact .inr (by simp)
      · exact .inl hv
    · exact .inr h
  | ownerless _ _ _ _ ih =>
    rcases ih hv with hv | h
    · rcases List.mem_cons.mp hv with rfl | hv
      · exact .inr (by simp)
      · exact .inl hv
    · exact .inr h
  | listed _ _ _ hb hw ihb ih =>
    rcases ih hv with hv | h
    · rcases ihb hv with hv | h
      · rcases List.mem_cons.mp hv with rfl | hv
        · refine .inr fun i hi j hj => ?_
          obtain rfl : _ = i := Option.some.inj hi
          exact hw.visited_mono (hb.visited_of_mem hj)
        · exact .inl hv
      · exact .inr fun i hi j hj => hw.visited_mono (h i hi j hj)
    · exact .inr h

theorem faithful (h : Walks arena depth log numbers log') (hlog : ∀ v ∈ log, Faithful arena v) :
    ∀ v ∈ log', Faithful arena v := by
  refine h.preserves (P := fun log => ∀ v ∈ log, Faithful arena v)
    (fun {log v} hfit hlog => List.forall_mem_cons.mpr ⟨?_, hlog⟩) hlog
  rcases v with ⟨number, depth, name | _ | _⟩
  · exact hfit.2
  · obtain ⟨w, hw, rfl⟩ := visited_iff.mp hfit
    obtain ⟨t, ht, _⟩ := hlog w hw
    exact ⟨t, ht, trivial⟩
  · exact hfit.2

theorem sent (h : Walks arena depth log numbers log') (hnumbers : ∀ i ∈ numbers, Sent arena i)
    (hlog : ∀ v ∈ log, Sent arena v.number) : ∀ v ∈ log', Sent arena v.number := by
  induction h with
  | done => exact hlog
  | revisit _ _ ih =>
    obtain ⟨hi, hrest⟩ := List.forall_mem_cons.mp hnumbers
    exact ih hrest (List.forall_mem_cons.mpr ⟨hi, hlog⟩)
  | ownerless _ _ _ _ ih =>
    obtain ⟨hi, hrest⟩ := List.forall_mem_cons.mp hnumbers
    exact ih hrest (List.forall_mem_cons.mpr ⟨hi, hlog⟩)
  | listed _ ht hn _ _ ihb ih =>
    obtain ⟨hi, hrest⟩ := List.forall_mem_cons.mp hnumbers
    have hl := hi.linked ht (owned_iff.mpr ⟨_, hn⟩)
    refine ih hrest (ihb (fun j hj => .inr ⟨_, hl, hj⟩) (List.forall_mem_cons.mpr ⟨hi, hlog⟩))

theorem pairwise_first (h : Walks arena depth log numbers log')
    (hlog : log.Pairwise fun v w => v.outcome ≠ .revisited → v.number ≠ w.number) :
    log'.Pairwise fun v w => v.outcome ≠ .revisited → v.number ≠ w.number := by
  refine h.preserves (fun {log v} hfit hlog => List.pairwise_cons.mpr ⟨?_, hlog⟩) hlog
  intro w hw hfirst heq
  have hseen : visited log v.number = true := visited_iff.mpr ⟨w, hw, heq.symm⟩
  rcases v with ⟨number, depth, name | _ | _⟩
  · exact Bool.noConfusion (hseen.symm.trans hfit.1)
  · exact hfirst rfl
  · exact Bool.noConfusion (hseen.symm.trans hfit.1)

theorem exists_first (h : Walks arena depth log numbers log')
    (hlog : ∀ v ∈ log, ∃ w ∈ log, w.number = v.number ∧ w.outcome ≠ .revisited) :
    ∀ v ∈ log', ∃ w ∈ log', w.number = v.number ∧ w.outcome ≠ .revisited := by
  refine h.preserves
    (P := fun log => ∀ v ∈ log, ∃ w ∈ log, w.number = v.number ∧ w.outcome ≠ .revisited)
    (fun {log v} hfit hlog => List.forall_mem_cons.mpr ⟨?_, fun u hu => ?_⟩) hlog
  · rcases v with ⟨number, depth, name | _ | _⟩
    · exact ⟨_, List.mem_cons_self, rfl, by simp⟩
    · obtain ⟨u, hu, rfl⟩ := visited_iff.mp hfit
      obtain ⟨w, hw, hfirst⟩ := hlog u hu
      exact ⟨w, List.mem_cons_of_mem _ hw, hfirst⟩
    · exact ⟨_, List.mem_cons_self, rfl, by simp⟩
  · obtain ⟨w, hw, hfirst⟩ := hlog u hu
    exact ⟨w, List.mem_cons_of_mem v hw, hfirst⟩

/-- The visits of a walk answer, one by one, the numbers it starts from and the children of the
transforms it lists. -/
theorem perm (h : Walks arena depth log numbers log') :
    ∃ new, log' = new ++ log ∧ (new.map Visit.number).Perm
      (numbers ++ (new.filterMap Visit.listed?).flatMap arena.children) := by
  induction h with
  | done => exact ⟨[], by simp⟩
  | @revisit depth number numbers log log' _ _ ih =>
    obtain ⟨new, rfl, hp⟩ := ih
    refine ⟨new ++ [⟨number, depth, .revisited⟩], by simp, ?_⟩
    simpa [List.filterMap_cons] using (List.perm_append_singleton number _).trans (hp.cons number)
  | @ownerless depth number numbers log log' _ _ _ _ _ ih =>
    obtain ⟨new, rfl, hp⟩ := ih
    refine ⟨new ++ [⟨number, depth, .ownerless⟩], by simp, ?_⟩
    simpa [List.filterMap_cons] using (List.perm_append_singleton number _).trans (hp.cons number)
  | @listed depth number numbers log below log' _ name _ _ _ _ _ ihb ih =>
    obtain ⟨new, rfl, hp⟩ := ihb
    obtain ⟨new', rfl, hp'⟩ := ih
    refine ⟨new' ++ new ++ [⟨number, depth, .listed name⟩], by simp, ?_⟩
    refine List.perm_iff_count.mpr fun i => ?_
    have hi := hp.count_eq i
    have hi' := hp'.count_eq i
    simp only [List.map_append, List.map_cons, List.map_nil, List.filterMap_append,
      List.filterMap_cons, List.filterMap_nil, List.flatMap_append, List.flatMap_cons,
      List.flatMap_nil, List.append_nil, List.count_append, List.count_cons, List.count_nil,
      List.cons_append, Visit.listed?_listed] at hi hi' ⊢
    omega

end Walks

end Arena

end SceneAudit
