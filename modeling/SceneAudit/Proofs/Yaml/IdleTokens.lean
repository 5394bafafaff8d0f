import SceneAudit.Yaml.Anchors

/-! # Tokens that say nothing

Directives, document markers, anchors, tags and empty plain scalars say nothing by themselves. A
document whose root is an empty plain scalar is made of such tokens only, so a single other token
shows that something is written.
-/

namespace SceneAudit.Yaml

def Token.isIdle : Token → Bool
  | .directive _ => true
  | .documentStart => true
  | .documentEnd => true
  | .anchor _ => true
  | .tag _ _ => true
  | .scalar .plain [] => true
  | _ => false

def ReadsNothing (tokens rest : List Token) : Prop :=
  ∃ q, tokens = q ++ rest ∧ q.all Token.isIdle = true

namespace ReadsNothing

variable {tokens rest more : List Token}

theorem refl (tokens : List Token) : ReadsNothing tokens tokens :=
  ⟨[], rfl, rfl⟩

theorem cons {t : Token} (ht : t.isIdle = true) (h : ReadsNothing tokens rest) :
    ReadsNothing (t :: tokens) rest := by
  obtain ⟨q, rfl, hq⟩ := h
  exact ⟨t :: q, rfl, by rw [List.all_cons, ht, hq, Bool.and_self]⟩

theorem trans (h : ReadsNothing tokens rest) (h' : ReadsNothing rest more) :
    ReadsNothing tokens more := by
  obtain ⟨q, rfl, hq⟩ := h
  obtain ⟨q', rfl, hq'⟩ := h'
  exact ⟨q ++ q', (List.append_assoc ..).symm, by rw [List.all_append, hq, hq', Bool.and_self]⟩

theorem all_isIdle (h : ReadsNothing tokens rest) (hrest : rest.all Token.isIdle = true) :
    tokens.all Token.isIdle = true := by
  obtain ⟨q, rfl, hq⟩ := h
  rw [List.all_append, hq, hrest, Bool.and_self]

end ReadsNothing

namespace Node

variable {handles handles' : Handles} {tokens rest : List Token} {props props' : Properties}

theorem readsNothing_of_properties (h : properties handles tokens = some (props, rest)) :
    ReadsNothing tokens rest := by
  unfold properties at h
  split at h
  · obtain ⟨t, -, ht⟩ := Option.map_eq_some_iff.mp h
    obtain ⟨-, rfl⟩ := Prod.mk.inj ht
    exact .cons rfl (.cons rfl (.refl _))
  · obtain ⟨-, rfl⟩ := Prod.mk.inj (Option.some.inj h)
    exact .cons rfl (.refl _)
  · obtain ⟨t, -, ht⟩ := Option.map_eq_some_iff.mp h
    obtain ⟨-, rfl⟩ := Prod.mk.inj ht
    exact .cons rfl (.cons rfl (.refl _))
  · obtain ⟨t, -, ht⟩ := Option.map_eq_some_iff.mp h
    obtain ⟨-, rfl⟩ := Prod.mk.inj ht
    exact .cons rfl (.refl _)
  · obtain ⟨-, rfl⟩ := Prod.mk.inj (Option.some.inj h)
    exact .refl _

theorem eq_of_blankOr {node : Written}
    (h : parse.blankOr props tokens = some (node, rest)) : rest = tokens := by
  unfold parse.blankOr at h
  split at h
  · contradiction
  · exact (Prod.mk.inj (Option.some.inj h)).2.symm

theorem readsNothing_of_parse {fuel : Nat} {block indentless : Bool}
    (h : parse handles fuel block indentless tokens = some (.scalar props .plain [], rest)) :
    ReadsNothing tokens rest := by
  have collection {β : Type} {x : Option (β × List Token)} {node : β → Written}
      (hx : x.map (fun p => (node p.1, p.2)) = some (.scalar props .plain [], rest))
      (hnode : ∀ b, node b ≠ .scalar props .plain []) : False := by
    obtain ⟨p, -, hp⟩ := Option.map_eq_some_iff.mp hx
    exact hnode _ (Prod.mk.inj hp).1
  unfold parse at h
  split at h
  · contradiction
  · simp at h
  · split at h
    · contradiction
    · rename_i props' inner hprops
      refine (readsNothing_of_properties hprops).trans ?_
      split at h
      · split at h
        · exact (collection h fun _ => nofun).elim
        · rw [eq_of_blankOr h]
          exact .refl _
      · obtain ⟨hnode, rfl⟩ := Prod.mk.inj (Option.some.inj h)
        obtain ⟨-, rfl, rfl⟩ := Node.scalar.inj hnode
        exact .cons rfl (.refl _)
      · exact (collection h fun _ => nofun).elim
      · exact (collection h fun _ => nofun).elim
      · split at h
        · exact (collection h fun _ => nofun).elim
        · rw [eq_of_blankOr h]
          exact .refl _
      · split at h
        · exact (collection h fun _ => nofun).elim
        · rw [eq_of_blankOr h]
          exact .refl _
      · rw [eq_of_blankOr h]
        exact .refl _

theorem readsNothing_of_directives {versioned : Bool}
    (h : directives versioned handles tokens = some (handles', rest)) :
    ReadsNothing tokens rest := by
  fun_induction directives versioned handles tokens with
  | case1 => contradiction
  | case2 _ _ _ _ _ _ ih => exact .cons rfl (ih h)
  | case3 => contradiction
  | case4 _ _ _ _ _ _ ih => exact .cons rfl (ih h)
  | case5 =>
    obtain ⟨-, rfl⟩ := Prod.mk.inj (Option.some.inj h)
    exact .refl _

theorem readsNothing_of_document (h : document tokens = some (.scalar props .plain [], rest)) :
    ReadsNothing tokens rest := by
  unfold document at h
  split at h
  · contradiction
  · rename_i given inner hdirectives
    refine (readsNothing_of_directives hdirectives).trans ?_
    simp only at h
    split at h
    · refine .cons rfl ?_
      split at h
      · obtain ⟨-, rfl⟩ := Prod.mk.inj (Option.some.inj h)
        exact .refl _
      · exact readsNothing_of_parse h
    · split at h
      · exact readsNothing_of_parse h
      · contradiction

/-- A document whose root is blank has no token that says something. -/
theorem all_isIdle_of_blank (h : ofTokens? tokens = some (some (.scalar props .plain []))) :
    tokens.all Token.isIdle = true := by
  unfold ofTokens? at h
  split at h
  · rfl
  · split at h
    · contradiction
    · rename_i node rest hdocument
      split at h
      · rename_i hends
        obtain rfl := Option.some.inj (Option.some.inj h)
        refine (readsNothing_of_document hdocument).all_isIdle ?_
        rw [List.all_eq_true] at hends ⊢
        intro t ht
        rw [eq_of_beq (hends t ht)]
        rfl
      · contradiction

theorem eq_nil_of_no_document (h : ofTokens? tokens = some none) : tokens = [] := by
  unfold ofTokens? at h
  split at h
  · rfl
  · split at h
    · contradiction
    · split at h <;> simp at h

end Node

end SceneAudit.Yaml
