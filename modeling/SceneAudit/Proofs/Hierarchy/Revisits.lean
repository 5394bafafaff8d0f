import SceneAudit.Proofs.Hierarchy.Cycles

/-! # What a cycle issue refers to

The walk notes a transform as visited before it looks for the owner. A cycle is therefore reported
behind a line of the same transform where that has an owner, and behind its dangling owner where it
has none; such a transform gets no line at all, and its cycle refers to nothing in the dump.
-/

namespace SceneAudit

open Scene

namespace Arena

variable {arena : Arena} {before after : List Visit} {v : Visit}

def LinedIn (arena : Arena) (visits : List Visit) (i : Nat) : Prop :=
  ∃ w ∈ visits, w.number = i ∧ ∃ line, line? w = some line ∧ LineOf arena i line

/-- Some visits report the transform with a number to have no owner. -/
def DanglingIn (arena : Arena) (visits : List Visit) (i : Nat) : Prop :=
  ∃ w ∈ visits, w.number = i ∧ ∃ issue, arena.issue? w = some issue ∧ DanglingOf arena i issue

theorem Walks.fits {depth : Nat} {numbers : List Nat} {log newer older : List Visit}
    (h : Walks arena depth [] numbers log) (hlog : log = newer ++ v :: older) :
    Fits arena older v := by
  refine h.preserves
    (P := fun log => ∀ newer v older, log = newer ++ v :: older → Fits arena older v)
    (fun {log w} hfit hlog => ?_) (by simp) newer v older hlog
  rintro (_ | ⟨x, newer⟩) v older heq
  · obtain ⟨rfl, rfl⟩ := List.cons_eq_cons.mp heq
    exact hfit
  · exact hlog newer v older (List.cons_eq_cons.mp heq).2

theorem fits_of_walk_eq (h : arena.walk = before ++ v :: after) : Fits arena before.reverse v := by
  have hlog : arena.walk.reverse = after.reverse ++ v :: before.reverse := by
    rw [h]
    simp
  exact arena.walks_walk.fits hlog

theorem visited_reverse {log : List Visit} {i : Nat} : visited log.reverse i = visited log i := by
  rw [Bool.eq_iff_iff]
  simp [visited_iff]

theorem exists_earliest (h : arena.walk = before ++ after) {i : Nat}
    (hi : visited before i = true) :
    ∃ w ∈ before, w.number = i ∧ w.outcome ≠ .revisited := by
  obtain ⟨w, hw⟩ : ∃ w, before.find? (fun w => w.number == i) = some w := by
    rwa [← Option.isSome_iff_exists, List.find?_isSome, ← List.any_eq_true]
  obtain ⟨hnumber, first, rest, rfl, hfirst⟩ := List.find?_eq_some_iff_append.mp hw
  refine ⟨w, by simp, by simpa using hnumber, fun hout => ?_⟩
  rw [List.append_assoc, List.cons_append] at h
  have hfit := fits_of_walk_eq h
  rw [Fits, hout] at hfit
  obtain ⟨u, hu, heq⟩ := visited_iff.mp (visited_reverse.symm.trans hfit)
  have := hfirst u hu
  simp_all

theorem linedIn_of_listed {i depth : Nat} {name : Text}
    (hv : Visit.mk i depth (.listed name) ∈ arena.walk) (hmem : ⟨i, depth, .listed name⟩ ∈ before) :
    LinedIn arena before i := by
  obtain ⟨t, ht, hname⟩ := faithful_of_mem_walk hv
  exact ⟨_, hmem, rfl, _, rfl, t, name, depth, ht, hname, rfl⟩

theorem LinedIn.owned {i : Nat} {t : Transform} (h : LinedIn arena before i)
    (ht : arena.transforms[i]? = some t) : arena.Owned t := by
  obtain ⟨_, _, _, _, _, u, name, _, hu, hname, _⟩ := h
  obtain rfl : t = u := Option.some.inj (ht.symm.trans hu)
  exact owned_iff.mpr ⟨name, hname⟩

theorem linedIn_or_danglingIn (h : arena.walk = before ++ after) {i : Nat} {t : Transform}
    (hi : visited before i = true) (ht : arena.transforms[i]? = some t) :
    (arena.Owned t ∧ LinedIn arena before i) ∨ (¬ arena.Owned t ∧ DanglingIn arena before i) := by
  obtain ⟨⟨number, depth, outcome⟩, hmem, rfl, hfirst⟩ := exists_earliest h hi
  have hwalk : ⟨number, depth, outcome⟩ ∈ arena.walk := h ▸ List.mem_append_left after hmem
  cases outcome with
  | listed name =>
    have hlined := linedIn_of_listed hwalk hmem
    exact .inl ⟨hlined.owned ht, hlined⟩
  | revisited => exact absurd rfl hfirst
  | ownerless =>
    obtain ⟨u, hu, hout⟩ := faithful_of_mem_walk hwalk
    obtain rfl : t = u := Option.some.inj (ht.symm.trans hu)
    refine .inr ⟨ownerName?_eq_none_iff.mp hout, _, hmem, rfl, _, issue?_ownerless ht depth, ?_⟩
    exact ⟨t, ht, rfl⟩

theorem issue?_eq_cycle_iff {anchor : Text} : arena.issue? v = some (.cycle anchor) ↔
    v.outcome = .revisited ∧ ∃ t, arena.transforms[v.number]? = some t ∧ t.anchor = anchor := by
  rcases v with ⟨number, depth, name | _ | _⟩ <;> cases h : arena.transforms[number]? <;>
    simp [issue?, h]

end Arena

open Arena

/-- Whenever the walk over the transforms of a scene records a cycle, it is for a transform with the
anchor of the cycle that it has visited earlier. It has given that transform a line earlier if and
only if the owner of the transform is an object. If it is none, then it has reported the owner
earlier, and no visit gives the transform a line. -/
theorem cycle_behind_line (scene : Scene) {before after : List Visit} {v : Visit} {anchor : Text}
    (hwalk : (Arena.ofScene scene).walk = before ++ v :: after)
    (hcycle : (Arena.ofScene scene).issue? v = some (.cycle anchor)) :
    let arena := Arena.ofScene scene
    ∃ t, arena.transforms[v.number]? = some t ∧ t.anchor = anchor ∧ visited before v.number = true ∧
      (LinedIn arena before v.number ↔ ∃ o ∈ scene.objects, o.anchor = t.owner) ∧
      ((∀ o ∈ scene.objects, o.anchor ≠ t.owner) →
        DanglingIn arena before v.number ∧ ¬ LinedIn arena arena.walk v.number) := by
  intro arena
  obtain ⟨hout, t, ht, hanchor⟩ := issue?_eq_cycle_iff.mp hcycle
  have hvisited : visited before v.number = true := by
    have hfit := fits_of_walk_eq hwalk
    rw [Fits, hout] at hfit
    exact visited_reverse.symm.trans hfit
  have howned : arena.Owned t ↔ ∃ o ∈ scene.objects, o.anchor = t.owner := Iff.rfl
  have hnone : ¬ arena.Owned t ↔ ∀ o ∈ scene.objects, o.anchor ≠ t.owner := by
    rw [howned]
    push Not
    rfl
  refine ⟨t, ht, hanchor, hvisited, ?_, fun h => ?_⟩
  · rw [← howned]
    refine ⟨fun h => h.owned ht, fun h => ?_⟩
    rcases linedIn_or_danglingIn hwalk hvisited ht with ⟨_, hlined⟩ | ⟨hnot, _⟩
    · exact hlined
    · exact absurd h hnot
  · rw [← hnone] at h
    rcases linedIn_or_danglingIn hwalk hvisited ht with ⟨hown, _⟩ | ⟨_, hdangling⟩
    · exact absurd hown h
    · exact ⟨hdangling, fun hlined => h (hlined.owned ht)⟩

/-- The child of two transforms with one anchor is listed below the first and reported below the
second. -/
theorem cycle_behind_line_of_two_parents :
    let scene : Scene := ⟨[], [.object ⟨['1'], ['A']⟩, .object ⟨['3'], ['B']⟩,
      .transform ⟨['2'], ['1'], ['0']⟩, .transform ⟨['2'], ['1'], ['0']⟩,
      .transform ⟨['4'], ['3'], ['2']⟩], 0⟩
    let arena := Arena.ofScene scene
    let v : Visit := ⟨2, 1, .revisited⟩
    arena.walk = arena.walk.take 3 ++ v :: [] ∧ arena.issue? v = some (.cycle ['4']) ∧
      ∃ t, arena.transforms[2]? = some t ∧ t.anchor = ['4'] ∧
        visited (arena.walk.take 3) 2 = true ∧
        (LinedIn arena (arena.walk.take 3) 2 ↔ ∃ o ∈ scene.objects, o.anchor = t.owner) ∧
        ((∀ o ∈ scene.objects, o.anchor ≠ t.owner) →
          DanglingIn arena (arena.walk.take 3) 2 ∧ ¬ LinedIn arena arena.walk 2) := by
  intro scene arena v
  have hwalk : arena.walk = arena.walk.take 3 ++ v :: [] := by decide
  have hcycle : arena.issue? v = some (.cycle ['4']) := by decide
  exact ⟨hwalk, hcycle, cycle_behind_line scene hwalk hcycle⟩

/-- An ownerless child of two transforms with one anchor: its owner is reported and then a cycle,
but no visit gives it a line. -/
theorem not_cycle_behind_line_of_ownerless :
    let scene : Scene := ⟨[], [.object ⟨['1'], ['R']⟩, .transform ⟨['2'], ['1'], ['0']⟩,
      .transform ⟨['2'], ['1'], ['0']⟩, .transform ⟨['3'], ['9', '9', '9'], ['2']⟩], 0⟩
    let arena := Arena.ofScene scene
    (∃ v ∈ arena.walk, arena.issue? v = some (.cycle ['3']) ∧
        ∀ w ∈ arena.walk, w.number = v.number → line? w = none) ∧
      (Hierarchy.ofScene scene).lines = [['R'], ['R']] ∧
      (Hierarchy.ofScene scene).issues =
        [.dangling ['3'] ['9', '9', '9'], .cycle ['3']] := by
  decide

/-- Every cycle that the walk of a scene records refers to a transform with a line exactly if no
transform without an owner lies below two listed ones. -/
theorem cycles_behind_lines_iff (scene : Scene) :
    let arena := Arena.ofScene scene
    (∀ v ∈ arena.walk, v.outcome = .revisited → v.number ∈ arena.emitted) ↔
      ∀ i ∈ arena.dangling, ∀ p ∈ arena.emitted, ∀ q ∈ arena.emitted, arena.Refers i p →
        arena.Refers i q → p = q := by
  intro arena
  have hfree : ∀ {i}, i ∈ arena.dangling → i ∉ arena.emitted := by
    intro i hi hemitted
    obtain ⟨t, ht, hnot, -⟩ := mem_dangling_iff.mp hi
    obtain ⟨v, hv, rfl, name, hname⟩ := emitted_iff.mp hemitted
    obtain ⟨u, hu, hout⟩ := faithful_of_mem_walk hv
    obtain rfl : t = u := Option.some.inj (ht.symm.trans hu)
    rw [hname] at hout
    exact hnot (owned_iff.mpr ⟨name, hout⟩)
  constructor
  · intro h i hi p hp q hq hip hiq
    by_contra hne
    obtain ⟨v, hv, rfl, hout⟩ := revisited_iff.mpr ⟨p, hp, q, hq, hne, hip, hiq⟩
    exact hfree hi (h v hv hout)
  · intro h v hv hout
    obtain ⟨t, ht, -⟩ := faithful_of_mem_walk hv
    have hvisited : visited arena.walk.reverse v.number = true :=
      visited_iff.mpr ⟨v, List.mem_reverse.mpr hv, rfl⟩
    by_cases howned : arena.Owned t
    · exact mem_emitted_of_visited hvisited ht howned
    · obtain ⟨p, hp, q, hq, hne, hip, hiq⟩ := revisited_iff.mp ⟨v, hv, rfl, hout⟩
      exact absurd (h _ (mem_dangling_of_visited hvisited ht howned) p hp q hq hip hiq) hne

end SceneAudit
