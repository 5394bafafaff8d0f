import Mathlib.Data.List.Forall2
import Mathlib.Data.Option.Basic
import SceneAudit.Proofs.Script.Places
import SceneAudit.Script.Declaration

/-! # Syntax trees that are alike

Two trees are alike if they agree in everything but lines and, as far as a relation allows, the
entries of base lists. Then the same types are collected from both, with the same members, and with
bases that agree as far as the entries do.
-/

namespace SceneAudit.Script

/-- Nodes that agree but for lines; entries of base lists are related by `R`. -/
inductive Node.Alike (R : List Node → List Node → Prop) : Node → Node → Prop where
  | node {kind : NodeKind} {role : Option Role} {text : Text} {line line' : Nat}
      {children children' : List Node} (h : List.Forall₂ (Alike R) children children') :
      Alike R (.node kind role text line children) (.node kind role text line' children')
  | baseList {text : Text} {line line' : Nat} {entries entries' : List Node}
      (h : R entries entries') :
      Alike R (.node .baseList none text line entries) (.node .baseList none text line' entries')

def Node.baseNames (entries : List Node) : List Text :=
  (entries.filter fun entry => entry.kind.isNamed).filterMap baseName?

/-- Declarations that agree but for lines; their bases come from related entries. -/
structure Declaration.Alike (R : List Node → List Node → Prop) (d d' : Declaration) : Prop where
  name : d'.name = d.name
  bases : d'.bases = d.bases ∨ ∃ entries entries', R entries entries' ∧
    d.bases = Node.baseNames entries ∧ d'.bases = Node.baseNames entries'
  fields : d'.fields = d.fields
  properties : d'.properties = d.properties

namespace Node

variable {R : List Node → List Node → Prop} {n n' : Node} {ns ns' : List Node}

theorem Alike.kind_eq (h : Alike R n n') : n'.kind = n.kind := by
  cases h <;> rfl

theorem Alike.role_eq (h : Alike R n n') : n'.role = n.role := by
  cases h <;> rfl

theorem Alike.text_eq (h : Alike R n n') : n'.text = n.text := by
  cases h <;> rfl

theorem Alike.children (h : Alike R n n') (hkind : n.kind ≠ .baseList ∨ n.role ≠ none) :
    List.Forall₂ (Alike R) n.children n'.children := by
  cases h with
  | node h => exact h
  | baseList =>
    rcases hkind with hkind | hrole
    · exact absurd rfl hkind
    · exact absurd rfl hrole

section Children

theorem find?_alike {p : Node → Bool} (hp : ∀ n n', Alike R n n' → p n' = p n)
    (h : List.Forall₂ (Alike R) ns ns') : Option.Rel (Alike R) (ns.find? p) (ns'.find? p) := by
  induction h with
  | nil => exact .none
  | cons hn _ ih =>
    rw [List.find?_cons, List.find?_cons, hp _ _ hn]
    split
    · exact .some hn
    · exact ih

theorem childOfRole?_alike {role : Role} (h : List.Forall₂ (Alike R) n.children n'.children) :
    Option.Rel (Alike R) (n.childOfRole? role) (n'.childOfRole? role) :=
  find?_alike (fun _ _ hn => by rw [hn.role_eq]) h

theorem childOfKind?_alike {kind : NodeKind} (h : List.Forall₂ (Alike R) n.children n'.children) :
    Option.Rel (Alike R) (n.childOfKind? kind) (n'.childOfKind? kind) :=
  find?_alike (fun _ _ hn => by rw [hn.kind_eq]) h

theorem childrenOfKind_alike {kind : NodeKind}
    (h : List.Forall₂ (Alike R) n.children n'.children) :
    List.Forall₂ (Alike R) (n.childrenOfKind kind) (n'.childrenOfKind kind) :=
  List.rel_filter (fun _ _ hn => by simp only [hn.kind_eq]) h

theorem or_alike {o o' u u' : Option Node} (ho : Option.Rel (Alike R) o o')
    (hu : Option.Rel (Alike R) u u') : Option.Rel (Alike R) (o.or u) (o'.or u') := by
  cases ho with
  | none => exact hu
  | some h => exact .some h

theorem map_text_alike {o o' : Option Node} (h : Option.Rel (Alike R) o o') :
    o'.map text = o.map text := by
  cases h with
  | none => rfl
  | some h => exact congrArg some h.text_eq

end Children

section Gather

variable {α : Type} {S : α → α → Prop} {read : Node → Option (List α)} {enters : NodeKind → Bool}

theorem gatherAll_alike_of_forall (h : List.Forall₂ (Alike R) ns ns')
    (hall : ∀ n ∈ ns, ∀ n', Alike R n n' →
      List.Forall₂ S (gather read enters n) (gather read enters n')) :
    List.Forall₂ S (gatherAll read enters ns) (gatherAll read enters ns') := by
  induction h with
  | nil => exact .nil
  | cons hn _ ih =>
    obtain ⟨hfirst, hrest⟩ := List.forall_mem_cons.mp hall
    rw [gatherAll, gatherAll]
    exact List.rel_append (hfirst _ hn) (ih hrest)

theorem gather_alike (hread : ∀ n n', Alike R n n' →
      Option.Rel (List.Forall₂ S) (read n) (read n')) (henters : enters .baseList = false)
    (h : Alike R n n') : List.Forall₂ S (gather read enters n) (gather read enters n') := by
  induction n using Node.induct generalizing n' with
  | node kind role text line children ih =>
    have hrel := hread _ _ h
    cases h with
    | @node _ _ _ _ line' _ children' hchildren =>
      rw [gather, gather]
      generalize read (.node kind role text line children) = found,
        read (.node kind role text line' children') = found' at hrel ⊢
      cases hrel with
      | none =>
        cases enters kind with
        | true => exact gatherAll_alike_of_forall hchildren fun m hm m' => ih m hm
        | false => exact .nil
      | some hfound => exact hfound
    | @baseList _ _ line' _ entries' _ =>
      rw [gather, gather, henters]
      generalize read (.node .baseList none text line children) = found,
        read (.node .baseList none text line' entries') = found' at hrel ⊢
      cases hrel with
      | none => exact .nil
      | some hfound => exact hfound

theorem gatherAll_alike (hread : ∀ n n', Alike R n n' →
      Option.Rel (List.Forall₂ S) (read n) (read n')) (henters : enters .baseList = false)
    (h : List.Forall₂ (Alike R) ns ns') :
    List.Forall₂ S (gatherAll read enters ns) (gatherAll read enters ns') :=
  gatherAll_alike_of_forall h fun _ _ _ => gather_alike hread henters

end Gather

section Declarations

theorem declaratorName?_alike (h : Alike R n n') (hkind : n.kind = .declarator) :
    n'.declaratorName? = n.declaratorName? := by
  have hchildren := h.children (.inl (by rw [hkind]; decide))
  exact map_text_alike (or_alike (childOfRole?_alike hchildren) (childOfKind?_alike hchildren))

theorem name?_alike (h : Alike R n n') (hkind : n.kind ≠ .baseList) : n'.name? = n.name? :=
  map_text_alike (childOfRole?_alike (h.children (.inl hkind)))

theorem kind_of_mem_childrenOfKind {kind : NodeKind} {m : Node} (h : m ∈ n.childrenOfKind kind) :
    m.kind = kind := by
  simpa using (List.mem_filter.mp h).2

theorem declarators_alike (h : Alike R n n') (hkind : n.kind = .field) :
    List.Forall₂ (Alike R) n.declarators n'.declarators := by
  have hvariables : List.Forall₂ (Alike R) (n.childrenOfKind .variables)
      (n'.childrenOfKind .variables) :=
    childrenOfKind_alike (h.children (.inl (by rw [hkind]; decide)))
  have hall : ∀ v ∈ n.childrenOfKind .variables, v.kind ≠ .baseList := fun v hv => by
    rw [kind_of_mem_childrenOfKind hv]
    decide
  unfold declarators
  revert hvariables hall
  generalize n.childrenOfKind .variables = vs, n'.childrenOfKind .variables = vs'
  intro hvariables hall
  induction hvariables with
  | nil => exact .nil
  | cons hv _ ih =>
    obtain ⟨hfirst, hrest⟩ := List.forall_mem_cons.mp hall
    rw [List.flatMap_cons, List.flatMap_cons]
    exact List.rel_append (childrenOfKind_alike (hv.children (.inl hfirst))) (ih hrest)

theorem filterMap_declaratorName?_alike (h : List.Forall₂ (Alike R) ns ns')
    (hkind : ∀ n ∈ ns, n.kind = .declarator) :
    ns'.filterMap declaratorName? = ns.filterMap declaratorName? := by
  induction h with
  | nil => rfl
  | cons hn _ ih =>
    obtain ⟨hfirst, hrest⟩ := List.forall_mem_cons.mp hkind
    rw [List.filterMap_cons, List.filterMap_cons, declaratorName?_alike hn hfirst, ih hrest]

theorem kind_of_mem_declarators {m : Node} (h : m ∈ n.declarators) : m.kind = .declarator := by
  obtain ⟨v, -, hm⟩ := List.mem_flatMap.mp h
  exact kind_of_mem_childrenOfKind hm

theorem fieldNames?_alike (h : Alike R n n') : n'.fieldNames? = n.fieldNames? := by
  unfold fieldNames?
  rw [h.kind_eq]
  split
  · rename_i hkind
    rw [filterMap_declaratorName?_alike (declarators_alike h hkind) fun m =>
      kind_of_mem_declarators]
  · rfl

theorem propertyNames?_alike (h : Alike R n n') : n'.propertyNames? = n.propertyNames? := by
  unfold propertyNames?
  rw [h.kind_eq]
  split
  · rename_i hkind
    rw [name?_alike h (by rw [hkind]; decide)]
  · rfl

theorem kind_or_role_of_body? {body : Node} (h : n.body? = some body) :
    body.kind ≠ .baseList ∨ body.role ≠ none := by
  rcases Option.or_eq_some_iff.mp h with hrole | ⟨-, hkind⟩
  · have hbody : body.role = some .body := by simpa using List.find?_some hrole
    exact Or.inr (by rw [hbody]; decide)
  · have hlist : body.kind = .declarationList := by simpa using List.find?_some hkind
    exact Or.inl (by rw [hlist]; decide)

theorem members_alike {read : Node → Option (List Text)}
    (hread : ∀ n n', Alike R n n' → read n' = read n) (h : Alike R n n')
    (hkind : n.kind ≠ .baseList) : n'.members read = n.members read := by
  have hbody : Option.Rel (Alike R) n.body? n'.body? :=
    or_alike (childOfRole?_alike (h.children (.inl hkind)))
      (childOfKind?_alike (h.children (.inl hkind)))
  have hplain : ∀ body, n.body? = some body → body.kind ≠ .baseList ∨ body.role ≠ none :=
    fun _ => kind_or_role_of_body?
  unfold members
  revert hplain
  generalize n.body? = body, n'.body? = body' at hbody
  intro hplain
  cases hbody with
  | none => rfl
  | @some body body' hbody =>
    have hrel : ∀ n n', Alike R n n' → Option.Rel (List.Forall₂ Eq) (read n) (read n') := by
      intro n n' hn
      rw [hread n n' hn]
      cases read n with
      | none => exact .none
      | some names => exact .some (List.forall₂_refl names)
    have hall : List.Forall₂ Eq (gatherAll read NodeKind.isRegion body.children)
        (gatherAll read NodeKind.isRegion body'.children) :=
      gatherAll_alike hrel rfl (hbody.children (hplain _ rfl))
    rw [List.forall₂_eq_eq_eq] at hall
    exact hall.symm

theorem baseNames_alike (h : List.Forall₂ (Alike R) ns ns') : baseNames ns' = baseNames ns := by
  unfold baseNames
  induction h with
  | nil => rfl
  | cons hn _ ih =>
    rw [List.filter_cons, List.filter_cons, hn.kind_eq]
    split
    · rw [List.filterMap_cons, List.filterMap_cons, ih, baseName?, baseName?, hn.text_eq]
    · exact ih

theorem bases_alike (h : Alike R n n') (hkind : n.kind ≠ .baseList) :
    n'.bases = n.bases ∨ ∃ entries entries', R entries entries' ∧ n.bases = baseNames entries ∧
      n'.bases = baseNames entries' := by
  have hlist : Option.Rel (Alike R) (n.childOfKind? .baseList) (n'.childOfKind? .baseList) :=
    childOfKind?_alike (h.children (.inl hkind))
  unfold bases
  generalize n.childOfKind? .baseList = list, n'.childOfKind? .baseList = list' at hlist
  cases hlist with
  | none => exact Or.inl rfl
  | some hlist =>
    cases hlist with
    | node hentries => exact Or.inl (baseNames_alike hentries)
    | baseList hentries => exact Or.inr ⟨_, _, hentries, rfl, rfl⟩

theorem declaration_alike (h : Alike R n n') (hkind : n.kind ≠ .baseList) :
    n.declaration.Alike R n'.declaration where
  name := congrArg (·.getD "<anonymous>".toList) (name?_alike h hkind)
  bases := bases_alike h hkind
  fields := members_alike (fun _ _ => fieldNames?_alike) h hkind
  properties := members_alike (fun _ _ => propertyNames?_alike) h hkind

theorem declaration?_alike (h : Alike R n n') :
    Option.Rel (List.Forall₂ (Declaration.Alike R)) n.declaration? n'.declaration? := by
  unfold declaration?
  rw [h.kind_eq]
  cases hkind : n.kind.isType with
  | false => exact .none
  | true =>
    refine .some (.cons (declaration_alike h ?_) .nil)
    intro heq
    rw [heq] at hkind
    contradiction

theorem gatherAll_declaration?_alike (h : List.Forall₂ (Alike R) ns ns') :
    List.Forall₂ (Declaration.Alike R) (gatherAll declaration? NodeKind.isScope ns)
      (gatherAll declaration? NodeKind.isScope ns') :=
  gatherAll_alike (fun _ _ => declaration?_alike) rfl h

end Declarations

end Node

end SceneAudit.Script
