import SceneAudit.Yaml.Value
import SceneAudit.Proofs.Yaml.Nodes

/-! # What mappings denote

A node without anchors denotes the same in every document. Text that is written behind the colon of
a key at some column therefore stands for a value on its own, or is refused, and a block mapping
stands for the values of its entries unless one of them is refused. Its keys are read as scalars, by
which different names are the strings they are.
-/

namespace SceneAudit.Yaml

open Node Value

/-- A node denotes a value in every document, or is refused in every one, when collections may lie
within one another at least `d` levels deep. -/
def Denotes (d : Nat) (node : Written) (value : Option Value) : Prop :=
  ∃ linked : Linked, (∀ anchors, node.link anchors = some (linked, anchors)) ∧
    ∀ (doc : Document) (depth budget : Nat), d ≤ depth →
      Value.read doc depth linked budget = value.map (·, budget)

/-- The entries of a mapping with these keys and values, unless a value is refused. -/
def allEntries : List (Text × Option Value) → Option (List (Value × Value))
  | [] => some []
  | (_, none) :: _ => none
  | (key, some value) :: entries => (allEntries entries).map fun es => (.string key, value) :: es

def DenotesEntries (d : Nat) (nodes : List (Written × Written))
    (entries : List (Text × Option Value)) : Prop :=
  ∃ linked : List (Linked × Linked),
    (∀ anchors, linkEntries nodes anchors = some (linked, anchors)) ∧
    ∀ (doc : Document) (depth budget : Nat) (seen : List (Value × Value)), d ≤ depth →
      (∀ e ∈ entries, hasKey (.string e.1) seen = false) →
      readEntries (Value.read doc depth) seen linked budget =
        (allEntries entries).map fun es => (seen.reverse ++ es, budget)

/-- The entries of a mapping with these plain keys and these values, behind entries that have been
read. -/
def typedEntries? (seen : List (Value × Value)) :
    List (Text × Option Value) → Option (List (Value × Value))
  | [] => some seen.reverse
  | (key, value) :: entries =>
    match Scalar.ofPlain? key with
    | none => none
    | some s =>
      if hasKey (.scalar s) seen then none
      else match value with
        | none => none
        | some value => typedEntries? ((.scalar s, value) :: seen) entries

/-- Nodes of entries denote these keys, as they are typed, and values. -/
def DenotesTyped (d : Nat) (nodes : List (Written × Written))
    (entries : List (Text × Option Value)) : Prop :=
  ∃ linked : List (Linked × Linked),
    (∀ anchors, linkEntries nodes anchors = some (linked, anchors)) ∧
    ∀ (doc : Document) (depth budget : Nat) (seen : List (Value × Value)), d ≤ depth →
      readEntries (Value.read doc depth) seen linked budget =
        (typedEntries? seen entries).map fun es => (es, budget)

/-- A key that is a string as it is written. -/
def IsName (key : Text) : Prop :=
  Scalar.ofPlain? key = some (.string key)

instance : DecidablePred IsName := fun key =>
  inferInstanceAs (Decidable (Scalar.ofPlain? key = some (.string key)))

def Atom.value? (a : Atom) : Option Value :=
  (Scalar.read? none a.style a.content).map .scalar

/-- Entries of a mapping of scalars: they may be written as they are, under different names. -/
structure IsAtomic (entries : List (Text × Atom)) : Prop where
  flow : IsFlow entries
  names : ∀ e ∈ entries, IsName e.1
  nodup : (entries.map Prod.fst).Nodup

instance : DecidablePred IsAtomic := fun entries =>
  decidable_of_iff ((∀ e ∈ entries, IsKey e.1 ∧ e.2.IsVerbatim) ∧ (∀ e ∈ entries, IsName e.1) ∧
    (entries.map Prod.fst).Nodup) ⟨fun h => ⟨h.1, h.2.1, h.2.2⟩, fun h => ⟨h.1, h.2, h.3⟩⟩

def atomPairs (entries : List (Text × Atom)) : List (Text × Option Value) :=
  entries.map fun e => (e.1, e.2.value?)

theorem Atom.value?_plain (t : Text) : (plain t).value? = (Scalar.ofPlain? t).map .scalar :=
  rfl

section Denotes

variable {d d' : Nat} {node : Written} {value : Option Value}

theorem Denotes.mono (h : Denotes d node value) (hd : d ≤ d') : Denotes d' node value := by
  obtain ⟨linked, hlink, hread⟩ := h
  exact ⟨linked, hlink, fun doc depth budget hdepth => hread doc depth budget (by omega)⟩

theorem denotes_atom (a : Atom) : Denotes 0 a.node a.value? := by
  refine ⟨.scalar noProperties a.style a.content, fun anchors => ?_, fun doc depth budget _ => ?_⟩
  · simp [Atom.node, link, Anchors.enter, Anchors.leave, noProperties]
  · rw [Value.read.eq_def]
    simp only [Document.follow]
    simp [typeTag?, localTag?, underTag, noProperties, Atom.value?]
    rfl

theorem denotes_blank : Denotes 0 (blank noProperties) (some .null) :=
  denotes_atom (.plain [])

theorem denotes_noItems : Denotes 1 (.sequence noProperties []) (some (.sequence [])) := by
  refine ⟨.sequence noProperties [], fun anchors => ?_, fun doc depth budget hdepth => ?_⟩
  · simp [link, linkItems, Anchors.enter, Anchors.leave, noProperties]
  · obtain ⟨depth, rfl⟩ : ∃ n, depth = n + 1 := ⟨depth - 1, by omega⟩
    rw [Value.read.eq_def]
    simp [Document.follow, readItems, underTag, localTag?, noProperties]

theorem denotes_mapping_of_read {nodes : List (Written × Written)}
    {linked : List (Linked × Linked)} {result : Option (List (Value × Value))}
    (hlink : ∀ anchors, linkEntries nodes anchors = some (linked, anchors))
    (hread : ∀ (doc : Document) (depth budget : Nat), d ≤ depth →
      readEntries (Value.read doc depth) [] linked budget = result.map (·, budget)) :
    Denotes (d + 1) (.mapping noProperties nodes) (result.map .mapping) := by
  refine ⟨.mapping noProperties linked, fun anchors => ?_, fun doc depth budget hdepth => ?_⟩
  · simp [link, hlink, Anchors.enter, Anchors.leave, noProperties]
  · obtain ⟨depth, rfl⟩ : ∃ n, depth = n + 1 := ⟨depth - 1, by omega⟩
    rw [Value.read.eq_def]
    simp only [Document.follow]
    rw [hread doc depth budget (by omega)]
    cases result <;> simp [underTag, localTag?, noProperties]

section Mappings

variable {nodes : List (Written × Written)} {entries : List (Text × Option Value)}

theorem denotes_mapping (h : DenotesEntries d nodes entries) :
    Denotes (d + 1) (.mapping noProperties nodes) ((allEntries entries).map .mapping) := by
  obtain ⟨linked, hlink, hread⟩ := h
  refine denotes_mapping_of_read hlink fun doc depth budget hdepth => ?_
  rw [hread doc depth budget [] hdepth (fun _ _ => rfl)]
  rfl

theorem denotesTyped_nil : DenotesTyped d [] [] :=
  ⟨[], fun _ => by simp [linkEntries], fun _ _ _ _ _ => by simp [readEntries, typedEntries?]⟩

theorem denotesTyped_cons (key : Text) (hvalue : Denotes d node value)
    (h : DenotesTyped d nodes entries) :
    DenotesTyped d ((keyNode key, node) :: nodes) ((key, value) :: entries) := by
  obtain ⟨linkedKey, hlinkKey, hreadKey⟩ := denotes_atom (.plain key)
  obtain ⟨linked, hlink, hread⟩ := hvalue
  obtain ⟨more, hlinkMore, hreadMore⟩ := h
  refine ⟨(linkedKey, linked) :: more, fun anchors => ?_, fun doc depth budget seen hdepth => ?_⟩
  · simp [linkEntries, keyNode, hlinkKey, hlink, hlinkMore]
  · rw [readEntries, hreadKey doc depth budget (Nat.zero_le depth), Atom.value?_plain,
      typedEntries?]
    cases Scalar.ofPlain? key with
    | none => rfl
    | some s =>
      simp only [Option.map_some, hread doc depth budget hdepth]
      split
      · rfl
      · cases value with
        | none => rfl
        | some value => exact hreadMore doc depth budget _ hdepth

theorem same_string (s t : Text) : same (.string s) (.string t) = (s == t) := by
  by_cases h : s = t <;> simp [Value.string, same, h]

theorem typedEntries?_of_names {seen : List (Value × Value)} (hnames : ∀ e ∈ entries, IsName e.1)
    (hnodup : (entries.map Prod.fst).Nodup)
    (hseen : ∀ e ∈ entries, hasKey (.string e.1) seen = false) :
    typedEntries? seen entries = (allEntries entries).map fun es => seen.reverse ++ es := by
  induction entries generalizing seen with
  | nil => simp [typedEntries?, allEntries]
  | cons e entries ih =>
    obtain ⟨key, value⟩ := e
    obtain ⟨hname, hrest⟩ := List.forall_mem_cons.mp hnames
    obtain ⟨hnew, hdistinct⟩ := List.nodup_cons.mp hnodup
    obtain ⟨hfirst, hunseen⟩ := List.forall_mem_cons.mp hseen
    have htyped : Scalar.ofPlain? key = some (.string key) := hname
    rw [typedEntries?, htyped]
    simp only [show hasKey (.scalar (.string key)) seen = false from hfirst, Bool.false_eq_true,
      if_false]
    cases value with
    | none => rfl
    | some value =>
      have hunseen' : ∀ e ∈ entries,
          hasKey (.string e.1) ((.string key, value) :: seen) = false := by
        intro e he
        have hne : key ≠ e.1 := fun heq => hnew (List.mem_map.mpr ⟨e, he, heq.symm⟩)
        have hold := hunseen e he
        simp only [hasKey] at hold ⊢
        rw [List.any_cons, hold, same_string]
        simpa using hne
      refine (ih hrest hdistinct hunseen').trans ?_
      rw [allEntries, Option.map_map]
      simp [Function.comp_def]

theorem DenotesTyped.denotesEntries (h : DenotesTyped d nodes entries)
    (hnames : ∀ e ∈ entries, IsName e.1) (hnodup : (entries.map Prod.fst).Nodup) :
    DenotesEntries d nodes entries := by
  obtain ⟨linked, hlink, hread⟩ := h
  refine ⟨linked, hlink, fun doc depth budget seen hdepth hseen => ?_⟩
  rw [hread doc depth budget seen hdepth, typedEntries?_of_names hnames hnodup hseen,
    Option.map_map]
  rfl

end Mappings

end Denotes

/-- Behind the colon of a key at column `k` a text stands for a value, or is refused. Collections
lie within one another `d` levels deep in it. -/
def Stands (k d : Nat) (text : Text) (value : Option Value) : Prop :=
  ∃ tokens node, Cuts k text tokens ∧ Forms tokens node ∧ Denotes d node value

/-- An entry of a block mapping: its key, the text behind the colon and what that stands for. -/
structure Entry where
  key : Text
  text : Text
  value : Option Value

namespace Entry

/-- The entry as it is written at column `k`. -/
def written (k : Nat) (e : Entry) : Text :=
  List.replicate k ' ' ++ (e.key ++ ':' :: e.text)

/-- The entry is read as a string and a value wherever it stands at column `k`. -/
structure IsSound (k d : Nat) (e : Entry) : Prop where
  key : IsKey e.key
  name : IsName e.key
  stands : Stands k d e.text e.value

/-- The key of the entry and what stands behind it. -/
def pair (e : Entry) : Text × Option Value :=
  (e.key, e.value)

end Entry

section Stands

variable {k d : Nat}

theorem Stands.mono {d' : Nat} {text : Text} {value : Option Value} (h : Stands k d text value)
    (hd : d ≤ d') : Stands k d' text value := by
  obtain ⟨tokens, node, hcuts, hforms, hdenotes⟩ := h
  exact ⟨tokens, node, hcuts, hforms, hdenotes.mono hd⟩

theorem stands_nothing (n : Nat) : Stands k 0 (List.replicate n ' ' ++ ['\n']) (some .null) :=
  ⟨_, _, cuts_nothing n, forms_nothing, denotes_blank⟩

theorem stands_atom {a : Atom} (ha : a.IsVerbatim) :
    Stands k 0 (' ' :: (a.text ++ ['\n'])) a.value? :=
  ⟨_, _, cuts_atom ha, forms_atom a, denotes_atom a⟩

theorem stands_noItems : Stands k 1 " []\n".toList (some (.sequence [])) :=
  ⟨_, _, cuts_noItems, forms_noItems, denotes_noItems⟩

theorem denotes_flowNodes (entries : List (Text × Atom)) :
    DenotesTyped 0 (flowNodes entries) (atomPairs entries) := by
  induction entries with
  | nil => exact denotesTyped_nil
  | cons e entries ih => exact denotesTyped_cons e.1 (denotes_atom e.2) ih

theorem stands_flow {entries : List (Text × Atom)} (h : IsAtomic entries) :
    Stands k 1 (flowText entries ++ ['\n']) ((allEntries (atomPairs entries)).map .mapping) := by
  have hkeys : (atomPairs entries).map Prod.fst = entries.map Prod.fst := by simp [atomPairs]
  have hnames : ∀ e ∈ atomPairs entries, IsName e.1 := List.forall_mem_map.mpr h.names
  exact ⟨_, _, cuts_flow h.flow, forms_flow entries,
    denotes_mapping ((denotes_flowNodes entries).denotesEntries hnames (hkeys ▸ h.nodup))⟩

section Entries

variable {entries : List Entry}

theorem exists_typedNodes (hkeys : ∀ e ∈ entries, IsKey e.key)
    (hstands : ∀ e ∈ entries, Stands k d e.text e.value) : ∃ tokens nodes,
    CutsEntries k (entries.flatMap (Entry.written k)) tokens ∧ FormsEntries tokens nodes ∧
      DenotesTyped d nodes (entries.map Entry.pair) := by
  induction entries with
  | nil => exact ⟨[], [], .nil, formsEntries_nil, denotesTyped_nil⟩
  | cons e entries ih =>
    obtain ⟨hkey, hkeys⟩ := List.forall_mem_cons.mp hkeys
    obtain ⟨⟨first, node, hcut, hform, hdenote⟩, hstands⟩ := List.forall_mem_cons.mp hstands
    obtain ⟨tokens, nodes, hcuts, hforms, hdenotes⟩ := ih hkeys hstands
    have htext : (e :: entries).flatMap (Entry.written k) = List.replicate k ' ' ++
        (e.key ++ ':' :: (e.text ++ entries.flatMap (Entry.written k))) := by
      simp [Entry.written]
    rw [htext]
    exact ⟨_, _, .cons hkey hcut hcuts,
      formsEntries_cons hform (endsEntryPart_of_cutsEntries hcuts) hforms,
      denotesTyped_cons e.key hdenote hdenotes⟩

variable (h : ∀ e ∈ entries, e.IsSound k d) (hnodup : (entries.map Entry.key).Nodup)

include h hnodup

theorem exists_nodes : ∃ tokens nodes, CutsEntries k (entries.flatMap (Entry.written k)) tokens ∧
    FormsEntries tokens nodes ∧ DenotesEntries d nodes (entries.map Entry.pair) := by
  obtain ⟨tokens, nodes, hcuts, hforms, hdenotes⟩ :=
    exists_typedNodes (fun e he => (h e he).key) fun e he => (h e he).stands
  have hkeys : (entries.map Entry.pair).map Prod.fst = entries.map Entry.key := by
    simp [Entry.pair]
  have hnames : ∀ e ∈ entries.map Entry.pair, IsName e.1 :=
    List.forall_mem_map.mpr fun e he => (h e he).name
  exact ⟨tokens, nodes, hcuts, hforms, hdenotes.denotesEntries hnames (hkeys ▸ hnodup)⟩

omit h hnodup in
theorem written_ne_nil (hne : entries ≠ []) : entries.flatMap (Entry.written k) ≠ [] := by
  obtain ⟨e, entries, rfl⟩ := List.exists_cons_of_ne_nil hne
  simp [Entry.written]

theorem stands_nested {k' : Nat} (hk : k' < k) (hne : entries ≠ []) :
    Stands k' (d + 1) ('\n' :: entries.flatMap (Entry.written k))
      ((allEntries (entries.map Entry.pair)).map .mapping) := by
  obtain ⟨tokens, nodes, hcuts, hforms, hdenotes⟩ := exists_nodes h hnodup
  exact ⟨_, _, cuts_nested hk hcuts (written_ne_nil hne), forms_nested hforms,
    denotes_mapping hdenotes⟩

end Entries

/-- A document of entries at its left edge stands for what the entries stand for. -/
theorem ofText?_written {entries : List Entry} (h : ∀ e ∈ entries, e.IsSound 0 d)
    (hnodup : (entries.map Entry.key).Nodup) (hne : entries ≠ []) (hd : d < depthLimit) :
    Value.ofText? (entries.flatMap (Entry.written 0)) =
      (allEntries (entries.map Entry.pair)).map .mapping := by
  obtain ⟨tokens, nodes, hcuts, hforms, hdenotes⟩ := exists_nodes h hnodup
  obtain ⟨linked, hlink, hread⟩ := denotes_mapping hdenotes
  have htokens := tokens_of_entries hcuts (written_ne_nil hne)
  have hnode : Node.ofText? (entries.flatMap (Entry.written 0)) =
      some (some (.mapping noProperties nodes)) := by
    rw [Node.ofText?, htokens, Option.bind_some, ofTokens?_of_entries hforms]
  rw [Value.ofText?, Document.ofText?, hnode]
  simp only [Document.ofNode?, hlink, Option.map_some, ofDocument?]
  rw [hread _ _ _ hd]
  cases allEntries (entries.map Entry.pair) <;> rfl

end Stands

theorem allEntries_eq_none_iff {entries : List (Text × Option Value)} :
    allEntries entries = none ↔ ∃ e ∈ entries, e.2 = none := by
  induction entries with
  | nil => simp [allEntries]
  | cons e entries ih =>
    obtain ⟨key, _ | value⟩ := e
    · simp [allEntries]
    · simp [allEntries, ih]

end SceneAudit.Yaml
