import SceneAudit.Proofs.Script.Likeness

/-! # What is collected from a syntax tree

The types of a script are the type declarations that lie in nothing but namespaces, declaration
lists and regions, each once and in the order of the source. Their members are those that lie
directly in the body of the type or in regions there.
-/

namespace SceneAudit.Script

/-- The places and nodes that have a property, each once, in the order of the source. -/
structure Lists (found : List (Place × Node)) (P : Place → Node → Prop) : Prop where
  inOrder : InOrder found
  mem_iff : ∀ p n, (p, n) ∈ found ↔ P p n

namespace Node

def spot? (wanted : NodeKind → Bool) (n : Node) : Option (List (Place × Node)) :=
  if wanted n.kind then some [([], n)] else none

def declaratorSpots (n : Node) : List (Place × Node) :=
  (n.children.zipIdx.filter fun v => v.1.kind == .variables).flatMap fun v =>
    (v.1.children.zipIdx.filter fun d => d.1.kind == .declarator).map fun d => ([v.2, d.2], d.1)

/-- The variables that are declared in a field, if the node is one. -/
def fieldSpots? (n : Node) : Option (List (Place × Node)) :=
  if n.kind = .field then some n.declaratorSpots else none

end Node

section Spots

variable {wanted enters : NodeKind → Bool} {ns : List Node}

/-- The wanted nodes that lie in entered nodes only. -/
theorem lists_spot? (hapart : ∀ k, enters k = true → wanted k = false) (ns : List Node) :
    Lists (foundAmong (Node.spot? wanted) enters 0 ns) fun p n =>
      wanted n.kind = true ∧ ∃ kinds, Below ns p kinds n ∧ ∀ k ∈ kinds, enters k = true := by
  have hnone : ∀ n : Node, enters n.kind = true → Node.spot? wanted n = none := by
    intro n henters
    rw [Node.spot?, hapart _ henters]
    rfl
  constructor
  · refine inOrder_foundAmong fun n _ => inOrder_foundIn (fun m found hfound => ?_) n
    unfold Node.spot? at hfound
    split at hfound
    · obtain rfl := Option.some.inj hfound
      exact List.pairwise_singleton _ _
    · contradiction
  · intro p n
    rw [mem_foundAmong_iff hnone]
    constructor
    · rintro ⟨q, r, kinds, l, found, rfl, hl, hkinds, hfound, hm⟩
      unfold Node.spot? at hfound
      split at hfound
      · rename_i hwanted
        obtain rfl := Option.some.inj hfound
        obtain ⟨rfl, rfl⟩ := Prod.mk.inj (List.mem_singleton.mp hm)
        exact ⟨hwanted, kinds, by rwa [List.append_nil], hkinds⟩
      · contradiction
    · rintro ⟨hwanted, kinds, hl, hkinds⟩
      exact ⟨p, [], kinds, n, _, (List.append_nil p).symm, hl, hkinds, if_pos hwanted,
        List.mem_singleton_self _⟩

theorem mem_zipIdx_filter {kind : NodeKind} {n : Node} {i : Nat} :
    (n, i) ∈ ns.zipIdx.filter (fun v => v.1.kind == kind) ↔ ns[i]? = some n ∧ n.kind = kind := by
  rw [List.mem_filter, List.mem_zipIdx_iff_getElem?, beq_iff_eq]

theorem pairwise_zipIdx_filter (f : Node × Nat → Bool) :
    (ns.zipIdx.filter f).Pairwise fun a b => a.2 < b.2 := by
  have hrange : (ns.zipIdx.map Prod.snd).Pairwise (· < ·) := by
    rw [List.zipIdx_map_snd]
    exact List.pairwise_lt_range' 1
  exact (List.pairwise_map.mp hrange).filter f

theorem mem_declaratorSpots {n d : Node} {p : Place} : (p, d) ∈ n.declaratorSpots ↔
    d.kind = .declarator ∧ Below n.children p [.variables] d := by
  have hsplit : Below n.children p [.variables] d ↔ ∃ i j v, p = [i, j] ∧
      n.children[i]? = some v ∧ v.kind = .variables ∧ v.children[j]? = some d := by
    rw [show [NodeKind.variables] = [] ++ .variables :: [] from rfl, below_append_iff]
    constructor
    · rintro ⟨q, r, v, rfl, hq, hkind, hr⟩
      obtain ⟨i, rfl, hi⟩ := below_nil_iff.mp hq
      obtain ⟨j, rfl, hj⟩ := below_nil_iff.mp hr
      exact ⟨i, j, v, rfl, hi, hkind, hj⟩
    · rintro ⟨i, j, v, rfl, hi, hkind, hj⟩
      exact ⟨[i], [j], v, rfl, .here hi, hkind, .here hj⟩
  rw [hsplit, Node.declaratorSpots, List.mem_flatMap]
  constructor
  · rintro ⟨⟨v, i⟩, hv, hd⟩
    obtain ⟨⟨d', j⟩, hd', heq⟩ := List.mem_map.mp hd
    obtain ⟨rfl, rfl⟩ := Prod.mk.inj heq
    obtain ⟨hi, hkind⟩ := mem_zipIdx_filter.mp hv
    have hmem : (d', j) ∈ v.children.zipIdx.filter fun d => d.1.kind == .declarator := hd'
    obtain ⟨hj, hdeclarator⟩ := mem_zipIdx_filter.mp hmem
    exact ⟨hdeclarator, i, j, v, rfl, hi, hkind, hj⟩
  · rintro ⟨hdeclarator, i, j, v, rfl, hi, hkind, hj⟩
    exact ⟨(v, i), mem_zipIdx_filter.mpr ⟨hi, hkind⟩, List.mem_map.mpr
      ⟨(d, j), mem_zipIdx_filter.mpr ⟨hj, hdeclarator⟩, rfl⟩⟩

theorem inOrder_declaratorSpots (n : Node) : InOrder n.declaratorSpots := by
  refine List.pairwise_flatMap.mpr ⟨fun v _ => ?_, ?_⟩
  · refine List.pairwise_map.mpr ((pairwise_zipIdx_filter _).imp fun hlt => ?_)
    exact List.cons_lt_cons_iff.mpr (.inr ⟨rfl, List.cons_lt_cons_iff.mpr (.inl hlt)⟩)
  · refine (pairwise_zipIdx_filter _).imp fun hlt a ha b hb => ?_
    obtain ⟨d, -, rfl⟩ := List.mem_map.mp ha
    obtain ⟨d', -, rfl⟩ := List.mem_map.mp hb
    exact List.cons_lt_cons_iff.mpr (.inl hlt)

theorem lists_fieldSpots? (ns : List Node) :
    Lists (foundAmong Node.fieldSpots? NodeKind.isRegion 0 ns) fun p d =>
      d.kind = .declarator ∧ ∃ regions, Below ns p (regions ++ [.field, .variables]) d ∧
        ∀ k ∈ regions, k.isRegion = true := by
  have hnone : ∀ n : Node, n.kind.isRegion = true → Node.fieldSpots? n = none := by
    intro n hregion
    refine if_neg fun hfield => ?_
    rw [hfield] at hregion
    contradiction
  constructor
  · refine inOrder_foundAmong fun n _ => inOrder_foundIn (fun m found hfound => ?_) n
    unfold Node.fieldSpots? at hfound
    split at hfound
    · obtain rfl := Option.some.inj hfound
      exact inOrder_declaratorSpots m
    · contradiction
  · intro p d
    rw [mem_foundAmong_iff hnone]
    constructor
    · rintro ⟨q, r, regions, l, found, rfl, hl, hregions, hfound, hd⟩
      unfold Node.fieldSpots? at hfound
      split at hfound
      · rename_i hfield
        obtain rfl := Option.some.inj hfound
        obtain ⟨hdeclarator, hr⟩ := mem_declaratorSpots.mp hd
        exact ⟨hdeclarator, regions, below_append_iff.mpr ⟨q, r, l, rfl, hl, hfield, hr⟩,
          hregions⟩
      · contradiction
    · rintro ⟨hdeclarator, regions, hd, hregions⟩
      obtain ⟨q, r, l, rfl, hl, hfield, hr⟩ := below_append_iff.mp hd
      exact ⟨q, r, regions, l, _, rfl, hl, hregions, if_pos hfield,
        mem_declaratorSpots.mpr ⟨hdeclarator, hr⟩⟩

end Spots

section Read

variable {ns : List Node}

theorem declaration?_eq (n : Node) : n.declaration? =
    (Node.spot? NodeKind.isType n).map fun found => found.flatMap fun f => [f.2.declaration] := by
  unfold Node.declaration? Node.spot?
  split <;> rfl

theorem propertyNames?_eq (n : Node) : n.propertyNames? =
    (Node.spot? (· == .property) n).map fun found => found.flatMap fun f => f.2.name?.toList := by
  unfold Node.propertyNames? Node.spot?
  by_cases hkind : n.kind = .property
  · simp [hkind]
  · simp [hkind]

theorem zipIdx_filter_map_fst (p : Node → Bool) (ns : List Node) :
    (ns.zipIdx.filter fun v => p v.1).map Prod.fst = ns.filter p := by
  conv_rhs => rw [← List.zipIdx_map_fst 0 ns]
  exact List.filter_map.symm

theorem declaratorSpots_map_snd (n : Node) : n.declaratorSpots.map Prod.snd = n.declarators := by
  rw [Node.declaratorSpots, Node.declarators, Node.childrenOfKind, ← zipIdx_filter_map_fst,
    List.flatMap_map, List.map_flatMap]
  refine List.flatMap_congr fun v _ => ?_
  rw [List.map_map]
  exact zipIdx_filter_map_fst (fun d => d.kind == .declarator) v.1.children

theorem fieldNames?_eq (n : Node) : n.fieldNames? =
    n.fieldSpots?.map fun found => found.flatMap fun f => f.2.declaratorName?.toList := by
  unfold Node.fieldNames? Node.fieldSpots?
  split
  · rw [← declaratorSpots_map_snd, List.filterMap_map, List.filterMap_eq_flatMap_toList]
    rfl
  · rfl

end Read

section Wrapping

/-- Nodes around which other nodes are put: nodes that hold no types come beside them, and runs of
them are moved into nodes in which types are looked for, any number of times. -/
inductive Wrapped : List Node → List Node → Prop where
  | nil : Wrapped [] []
  | same {n n' : Node} {ns ns' : List Node} (h : Node.Alike (fun _ _ => False) n n')
      (hs : Wrapped ns ns') : Wrapped (n :: ns) (n' :: ns')
  | beside {n' : Node} {ns ns' : List Node} (htype : n'.kind.isType = false)
      (hscope : n'.kind.isScope = false) (hs : Wrapped ns ns') : Wrapped ns (n' :: ns')
  | inside {n' : Node} {ns ms ms' : List Node} (hscope : n'.kind.isScope = true)
      (h : Wrapped ns n'.children) (hs : Wrapped ms ms') : Wrapped (ns ++ ms) (n' :: ms')

namespace NodeKind

theorem not_isType_of_isScope {k : NodeKind} (h : k.isScope = true) : k.isType = false := by
  cases k <;> first | rfl | contradiction

end NodeKind

namespace Node

theorem gatherAll_append {α : Type} (read : Node → Option (List α)) (enters : NodeKind → Bool)
    (ns ms : List Node) :
    gatherAll read enters (ns ++ ms) = gatherAll read enters ns ++ gatherAll read enters ms := by
  induction ns with
  | nil => rfl
  | cons n ns ih => rw [List.cons_append, gatherAll, gatherAll, ih, List.append_assoc]

theorem gather_declaration?_quiet {n : Node} (htype : n.kind.isType = false)
    (hscope : n.kind.isScope = false) : gather declaration? NodeKind.isScope n = [] := by
  rcases n with ⟨kind, role, text, line, children⟩
  rw [gather, declaration?, htype]
  exact if_neg (Bool.not_eq_true _ ▸ hscope)

theorem gather_declaration?_scope {n : Node} (hscope : n.kind.isScope = true) :
    gather declaration? NodeKind.isScope n =
      gatherAll declaration? NodeKind.isScope n.children := by
  rcases n with ⟨kind, role, text, line, children⟩
  rw [gather, declaration?, NodeKind.not_isType_of_isScope hscope]
  exact if_pos hscope

end Node

/-- Everything about a type but its line. -/
def Declaration.content (d : Declaration) : Text × List Text × List Text × List Text :=
  (d.name, d.bases, d.fields, d.properties)

theorem Declaration.Alike.content_eq {d d' : Declaration}
    (h : Declaration.Alike (fun _ _ => False) d d') : d'.content = d.content := by
  have hbases : d'.bases = d.bases := h.bases.elim id fun ⟨_, _, hfalse, _⟩ => hfalse.elim
  rw [content, content, h.name, hbases, h.fields, h.properties]

theorem map_content_eq {ds ds' : List Declaration}
    (h : List.Forall₂ (Declaration.Alike (fun _ _ => False)) ds ds') :
    ds'.map Declaration.content = ds.map Declaration.content := by
  induction h with
  | nil => rfl
  | cons hd _ ih => rw [List.map_cons, List.map_cons, hd.content_eq, ih]

theorem Wrapped.content_eq {ns ns' : List Node} (h : Wrapped ns ns') :
    (Node.gatherAll Node.declaration? NodeKind.isScope ns').map Declaration.content =
      (Node.gatherAll Node.declaration? NodeKind.isScope ns).map Declaration.content := by
  induction h with
  | nil => rfl
  | same hn _ ih =>
    have hfirst := Node.gatherAll_declaration?_alike (.cons hn .nil)
    rw [Node.gatherAll, Node.gatherAll, Node.gatherAll, Node.gatherAll, List.append_nil,
      List.append_nil] at hfirst
    rw [Node.gatherAll, Node.gatherAll, List.map_append, List.map_append, ih, map_content_eq hfirst]
  | beside htype hscope _ ih =>
    rw [Node.gatherAll, Node.gather_declaration?_quiet htype hscope, List.nil_append, ih]
  | inside hscope _ _ ih ihs =>
    rw [Node.gatherAll, Node.gather_declaration?_scope hscope, Node.gatherAll_append,
      List.map_append, List.map_append, ih, ihs]

end Wrapping

section Exact

namespace Node

/-- A type all of whose enclosing nodes below the root are scopes. -/
def TopLevelType (root : Node) (p : Place) (n : Node) : Prop :=
  n.kind.isType = true ∧ ∃ kinds, Below root.children p kinds n ∧ ∀ k ∈ kinds, k.isScope = true

/-- A variable declared by a field that lies in a body, but for regions directly. -/
def OwnDeclarator (body : Node) (p : Place) (n : Node) : Prop :=
  n.kind = .declarator ∧ ∃ regions, Below body.children p (regions ++ [.field, .variables]) n ∧
    ∀ k ∈ regions, k.isRegion = true

/-- A property that lies in a body, but for regions directly. -/
def OwnProperty (body : Node) (p : Place) (n : Node) : Prop :=
  n.kind = .property ∧ ∃ regions, Below body.children p regions n ∧
    ∀ k ∈ regions, k.isRegion = true

end Node

theorem declarations_listed (root : Node) : ∃ types, Lists types root.TopLevelType ∧
    root.declarations = types.map fun f => f.2.declaration := by
  have hapart : ∀ k : NodeKind, k.isScope = true → k.isType = false :=
    fun _ => NodeKind.not_isType_of_isScope
  refine ⟨_, lists_spot? hapart root.children, ?_⟩
  rw [Node.declarations, gatherAll_eq (fun n => [n.declaration]) declaration?_eq]
  exact List.flatMap_pure_eq_map _ _

theorem members_of_body {n body : Node} (hbody : n.body? = some body)
    (read : Node → Option (List Text)) :
    n.members read = Node.gatherAll read NodeKind.isRegion body.children := by
  rw [Node.members, hbody]

theorem fields_listed {n body : Node} (hbody : n.body? = some body) :
    ∃ found, Lists found body.OwnDeclarator ∧
      n.declaration.fields = found.filterMap fun f => f.2.declaratorName? := by
  refine ⟨_, lists_fieldSpots? body.children, ?_⟩
  rw [List.filterMap_eq_flatMap_toList]
  refine (members_of_body hbody _).trans ?_
  exact gatherAll_eq (fun d => d.declaratorName?.toList) fieldNames?_eq _

theorem properties_listed {n body : Node} (hbody : n.body? = some body) :
    ∃ found, Lists found body.OwnProperty ∧
      n.declaration.properties = found.filterMap fun f => f.2.name? := by
  have hapart : ∀ k : NodeKind, k.isRegion = true → (k == .property) = false := by
    intro k
    cases k <;> decide
  have hlists := lists_spot? hapart body.children
  simp only [beq_iff_eq] at hlists
  refine ⟨_, hlists, ?_⟩
  rw [List.filterMap_eq_flatMap_toList]
  refine (members_of_body hbody _).trans ?_
  exact gatherAll_eq (fun m => m.name?.toList) propertyNames?_eq _

theorem no_members {n : Node} (hbody : n.body? = none) :
    n.declaration.fields = [] ∧ n.declaration.properties = [] := by
  simp only [Node.declaration, Node.members, hbody, and_self]

/-- Exactly the types that no type encloses are collected, once each and in order, with exactly
the variables and properties of their own bodies, and no wrapping changes what is collected. -/
theorem declarations_exact (root : Node) :
    (∃ types, Lists types root.TopLevelType ∧
      root.declarations = types.map fun f => f.2.declaration) ∧
    (∀ n : Node, n.body? = none → n.declaration.fields = [] ∧ n.declaration.properties = []) ∧
    (∀ n body : Node, n.body? = some body →
      (∃ found, Lists found body.OwnDeclarator ∧
        n.declaration.fields = found.filterMap fun f => f.2.declaratorName?) ∧
      ∃ found, Lists found body.OwnProperty ∧
        n.declaration.properties = found.filterMap fun f => f.2.name?) ∧
    ∀ root' : Node, Wrapped root.children root'.children →
      root'.declarations.map Declaration.content = root.declarations.map Declaration.content :=
  ⟨declarations_listed root, fun _ => no_members,
    fun _ _ hbody => ⟨fields_listed hbody, properties_listed hbody⟩,
    fun _ hwrapped => hwrapped.content_eq⟩

end Exact

end SceneAudit.Script
