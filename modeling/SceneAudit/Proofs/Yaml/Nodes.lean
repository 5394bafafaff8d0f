import SceneAudit.Yaml.Node
import SceneAudit.Proofs.Yaml.Entries

/-! # Nodes of mappings

The tokens behind a colon form a node, whatever entries follow. A bound on the depth of the
recursion that counts two for each token is enough for every part of a document.
-/

namespace SceneAudit.Yaml

def Atom.node (a : Atom) : Written :=
  .scalar Node.noProperties a.style a.content

def keyNode (key : Text) : Written :=
  (Atom.plain key).node

/-- What stands behind the colon of a key, as `blockEntries` reads it. -/
def entryValue (handles : Node.Handles) (fuel : Nat) (tokens : List Token) :
    Option (Written × List Token) :=
  if Node.endsEntryPart tokens then some (Node.blank Node.noProperties, tokens)
  else Node.parse handles fuel true true tokens

def Forms (tokens : List Token) (node : Written) : Prop :=
  ∀ (handles : Node.Handles) (fuel : Nat) (rest : List Token), Node.endsEntryPart rest = true →
    2 * tokens.length < fuel → entryValue handles fuel (tokens ++ rest) = some (node, rest)

/-- Up to the end of a block mapping the tokens form its entries. -/
def FormsEntries (tokens : List Token) (entries : List (Written × Written)) : Prop :=
  ∀ (handles : Node.Handles) (fuel : Nat) (rest : List Token), 2 * tokens.length < fuel →
    Node.blockEntries handles fuel (tokens ++ .blockEnd :: rest) = some (entries, rest)

open Node

section Parts

variable {handles : Handles} {fuel : Nat} {rest : List Token}

@[simp] theorem parse_scalar {block indentless : Bool} {style : ScalarStyle} {t : Text} :
    parse handles (fuel + 1) block indentless (.scalar style t :: rest) =
      some (.scalar noProperties style t, rest) := by
  simp [parse, properties, withoutBareTag, noProperties]

theorem parse_blockMapping {indentless : Bool} :
    parse handles (fuel + 1) true indentless (.blockMappingStart :: rest) =
      (blockEntries handles fuel rest).map fun (entries, rest) =>
        (.mapping noProperties entries, rest) := by
  simp [parse, properties]

theorem parse_flowMapping {block indentless : Bool} :
    parse handles (fuel + 1) block indentless (.flowMappingStart :: rest) =
      (flowEntries handles fuel true rest).map fun (entries, rest) =>
        (.mapping noProperties entries, rest) := by
  simp [parse, properties]

theorem parse_flowSequence {block indentless : Bool} :
    parse handles (fuel + 1) block indentless (.flowSequenceStart :: rest) =
      (flowItems handles fuel true rest).map fun (items, rest) =>
        (.sequence noProperties items, rest) := by
  simp [parse, properties]

theorem blockEntries_cons {key : Text} {tokens : List Token} :
    blockEntries handles (fuel + 2) (.key :: .scalar .plain key :: .value :: tokens) =
      match entryValue handles (fuel + 1) tokens with
      | none => none
      | some (value, rest) =>
        (blockEntries handles (fuel + 1) rest).map fun (entries, rest) =>
          ((keyNode key, value) :: entries, rest) := by
  have hkey : endsEntryPart (.scalar .plain key :: .value :: tokens) = false := rfl
  simp only [blockEntries, hkey, Bool.false_eq_true, if_false, parse_scalar]
  rfl

theorem flowEntries_cons (e : Text × Atom) {tokens : List Token} :
    flowEntries handles (fuel + 3) true (entryTokens e ++ tokens) =
      (flowEntries handles (fuel + 2) false tokens).map fun (entries, rest) =>
        ((keyNode e.1, e.2.node) :: entries, rest) := by
  simp [flowEntries, entryTokens, endsFlowKey, flowValue, endsFlowValue, Atom.token, keyNode,
    Atom.node, Atom.style, Atom.content]

end Parts

section Values

theorem forms_nothing : Forms [] (blank noProperties) := by
  intro handles fuel rest hrest hfuel
  rw [List.nil_append, entryValue, if_pos hrest]

theorem forms_atom (a : Atom) : Forms [a.token] a.node := by
  intro handles fuel rest hrest hfuel
  obtain ⟨fuel, rfl⟩ : ∃ n, fuel = n + 1 := ⟨fuel - 1, by omega⟩
  rw [entryValue, Atom.token, List.singleton_append, if_neg (by simp [endsEntryPart]), parse_scalar]
  rfl

theorem forms_noItems :
    Forms [.flowSequenceStart, .flowSequenceEnd] (.sequence noProperties []) := by
  intro handles fuel rest hrest hfuel
  obtain ⟨fuel, rfl⟩ : ∃ n, fuel = n + 2 := ⟨fuel - 2, by simp at hfuel; omega⟩
  rw [entryValue, List.cons_append, if_neg (by simp [endsEntryPart]), parse_flowSequence]
  simp [flowItems]

def flowNodes (entries : List (Text × Atom)) : List (Written × Written) :=
  entries.map fun e => (keyNode e.1, e.2.node)

theorem flowEntries_rest {handles : Handles} (entries : List (Text × Atom)) (rest : List Token)
    {fuel : Nat} (hfuel : 2 * (flowRestTokens entries).length ≤ fuel) :
    flowEntries handles fuel false (flowRestTokens entries ++ rest) =
      some (flowNodes entries, rest) := by
  induction entries generalizing fuel with
  | nil =>
    obtain ⟨fuel, rfl⟩ : ∃ n, fuel = n + 1 := ⟨fuel - 1, by simp [flowRestTokens] at hfuel; omega⟩
    rw [flowRestTokens, List.singleton_append, flowEntries]
    rfl
  | cons e entries ih =>
    simp only [flowRestTokens, entryTokens, List.length_cons, List.length_append,
      List.length_nil] at hfuel
    obtain ⟨fuel, rfl⟩ : ∃ n, fuel = n + 4 := ⟨fuel - 4, by omega⟩
    have hstep : flowEntries handles (fuel + 4) false (flowRestTokens (e :: entries) ++ rest) =
        flowEntries handles (fuel + 3) true
          (entryTokens e ++ (flowRestTokens entries ++ rest)) := by
      simp [flowRestTokens, flowEntries, entryTokens]
    rw [hstep, flowEntries_cons, ih (by omega)]
    rfl

theorem forms_flow (entries : List (Text × Atom)) :
    Forms (flowTokens entries) (.mapping noProperties (flowNodes entries)) := by
  intro handles fuel rest hrest hfuel
  cases entries with
  | nil =>
    obtain ⟨fuel, rfl⟩ : ∃ n, fuel = n + 2 := ⟨fuel - 2, by simp [flowTokens] at hfuel; omega⟩
    rw [entryValue, flowTokens, List.cons_append, if_neg (by simp [endsEntryPart]),
      parse_flowMapping]
    simp [flowEntries, flowNodes]
  | cons e entries =>
    simp only [flowTokens, entryTokens, List.length_cons, List.length_append,
      List.length_nil] at hfuel
    obtain ⟨fuel, rfl⟩ : ∃ n, fuel = n + 4 := ⟨fuel - 4, by omega⟩
    rw [entryValue, flowTokens, List.cons_append, if_neg (by simp [endsEntryPart]),
      parse_flowMapping, List.append_assoc, flowEntries_cons,
      flowEntries_rest entries rest (by omega)]
    rfl

theorem forms_nested {tokens : List Token} {entries : List (Written × Written)}
    (h : FormsEntries tokens entries) :
    Forms (.blockMappingStart :: (tokens ++ [.blockEnd])) (.mapping noProperties entries) := by
  intro handles fuel rest hrest hfuel
  simp only [List.length_cons, List.length_append, List.length_nil] at hfuel
  obtain ⟨fuel, rfl⟩ : ∃ n, fuel = n + 1 := ⟨fuel - 1, by omega⟩
  rw [entryValue, List.cons_append, if_neg (by simp [endsEntryPart]), parse_blockMapping,
    List.append_assoc, List.singleton_append, h handles fuel rest (by omega)]
  rfl

end Values

theorem formsEntries_nil : FormsEntries [] [] := by
  intro handles fuel rest hfuel
  obtain ⟨fuel, rfl⟩ : ∃ n, fuel = n + 1 := ⟨fuel - 1, by omega⟩
  rw [List.nil_append, blockEntries]

theorem endsEntryPart_of_cutsEntries {k : Nat} {text : Text} {tokens : List Token}
    (h : CutsEntries k text tokens) (rest : List Token) :
    endsEntryPart (tokens ++ .blockEnd :: rest) = true := by
  cases h <;> rfl

theorem formsEntries_cons {key : Text} {tokens more : List Token} {node : Written}
    {entries : List (Written × Written)} (hvalue : Forms tokens node)
    (hmore : ∀ rest, endsEntryPart (more ++ .blockEnd :: rest) = true)
    (h : FormsEntries more entries) :
    FormsEntries (.key :: .scalar .plain key :: .value :: (tokens ++ more))
      ((keyNode key, node) :: entries) := by
  intro handles fuel rest hfuel
  simp only [List.length_cons, List.length_append] at hfuel
  obtain ⟨fuel, rfl⟩ : ∃ n, fuel = n + 2 := ⟨fuel - 2, by omega⟩
  have hread := hvalue handles (fuel + 1) (more ++ .blockEnd :: rest) (hmore rest) (by omega)
  simp only [List.cons_append, List.append_assoc]
  rw [blockEntries_cons, hread]
  simp only [h handles (fuel + 1) rest (by omega)]
  rfl

/-- The tokens of a block mapping form a document. -/
theorem ofTokens?_of_entries {tokens : List Token} {entries : List (Written × Written)}
    (h : FormsEntries tokens entries) :
    ofTokens? (.blockMappingStart :: (tokens ++ [.blockEnd])) =
      some (some (.mapping noProperties entries)) := by
  have hparse : ∀ handles, parse handles
      (depthBound (.blockMappingStart :: (tokens ++ [.blockEnd]))) true false
        (.blockMappingStart :: (tokens ++ [.blockEnd])) =
          some (.mapping noProperties entries, []) := by
    intro handles
    rw [depthBound, parse_blockMapping, h handles _ [] (by simp; omega)]
    rfl
  simp [ofTokens?, document, directives, hparse]

end SceneAudit.Yaml
