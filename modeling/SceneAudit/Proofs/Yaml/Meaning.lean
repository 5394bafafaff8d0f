import Mathlib.Data.List.Forall2
import SceneAudit.Proofs.Yaml.Values

/-! # What a document that can be read holds

A document that has a value has one for each node, and entries of a mapping have different keys. So
an entry of a mapping, as it is written, tells what its key finds in the value.
-/

namespace SceneAudit.Yaml

open Node Value

/-- In reading a document, the node came to the value. -/
def Means (doc : Document) (depth : Nat) (node : Written) (value : Value) : Prop :=
  ∃ (linked : Linked) (before after : Anchors) (budget budget' : Nat),
    node.link before = some (linked, after) ∧
      Value.read doc depth linked budget = some (value, budget')

/-- In reading a document, the key and the value of an entry came to these. -/
def MeansEntry (doc : Document) (depth : Nat) (nodes : Written × Written) (entry : Value × Value) :
    Prop :=
  Means doc depth nodes.1 entry.1 ∧ Means doc depth nodes.2 entry.2

def Distinct (entries : List (Value × Value)) : Prop :=
  entries.Pairwise fun e e' => same e.1 e'.1 = false

theorem exists_of_forall₂ {α β : Type} {R : α → β → Prop} {as : List α} {bs : List β}
    (h : List.Forall₂ R as bs) {a : α} (ha : a ∈ as) : ∃ b ∈ bs, R a b := by
  induction h with
  | nil => contradiction
  | cons hfirst _ ih =>
    rcases List.mem_cons.mp ha with rfl | ha
    · exact ⟨_, List.mem_cons_self, hfirst⟩
    · obtain ⟨b, hb, hr⟩ := ih ha
      exact ⟨b, List.mem_cons_of_mem _ hb, hr⟩

section Entries

variable {doc : Document} {depth : Nat}

theorem means_of_linkEntries {nodes : List (Written × Written)}
    {linked : List (Linked × Linked)} {before after : Anchors} {seen es : List (Value × Value)}
    {budget budget' : Nat} (hlink : linkEntries nodes before = some (linked, after))
    (hread : readEntries (Value.read doc depth) seen linked budget = some (es, budget')) :
    ∃ new, es = seen.reverse ++ new ∧ List.Forall₂ (MeansEntry doc depth) nodes new := by
  induction nodes generalizing linked before after seen budget with
  | nil =>
    obtain ⟨rfl, -⟩ := Prod.mk.inj (Option.some.inj hlink)
    obtain ⟨rfl, -⟩ := Prod.mk.inj (Option.some.inj hread)
    exact ⟨[], (List.append_nil _).symm, .nil⟩
  | cons e nodes ih =>
    rcases e with ⟨key, value⟩
    rw [linkEntries] at hlink
    split at hlink
    · contradiction
    · rename_i key' afterKey hkey
      split at hlink
      · contradiction
      · rename_i value' afterValue hvalue
        obtain ⟨⟨more, last⟩, hmore, heq⟩ := Option.map_eq_some_iff.mp hlink
        obtain ⟨rfl, -⟩ := Prod.mk.inj heq
        rw [readEntries] at hread
        split at hread
        · contradiction
        · rename_i k afterK hk
          split at hread
          · contradiction
          · split at hread
            · contradiction
            · rename_i v afterV hv
              obtain ⟨new, rfl, hnew⟩ := ih hmore hread
              refine ⟨(k, v) :: new, by simp, .cons ⟨?_, ?_⟩ hnew⟩
              · exact ⟨key', _, _, _, _, hkey, hk⟩
              · exact ⟨value', _, _, _, _, hvalue, hv⟩

theorem distinct_of_readEntries {read : Linked → Nat → Option (Value × Nat)}
    {linked : List (Linked × Linked)} {seen es : List (Value × Value)} {budget budget' : Nat}
    (hseen : Distinct seen.reverse)
    (h : readEntries read seen linked budget = some (es, budget')) : Distinct es := by
  induction linked generalizing seen budget with
  | nil =>
    obtain ⟨rfl, -⟩ := Prod.mk.inj (Option.some.inj h)
    exact hseen
  | cons e linked ih =>
    rw [readEntries] at h
    split at h
    · contradiction
    · split at h
      · contradiction
      · rename_i hnew
        split at h
        · contradiction
        · refine ih ?_ h
          rw [List.reverse_cons]
          refine List.pairwise_append.mpr ⟨hseen, List.pairwise_singleton _ _, ?_⟩
          intro e he e' he'
          obtain rfl := List.mem_singleton.mp he'
          by_contra hsame
          refine hnew (List.any_eq_true.mpr ⟨e, List.mem_reverse.mp he, ?_⟩)
          simpa using hsame

end Entries

namespace Means

variable {doc : Document} {depth : Nat} {value : Value}

theorem scalar {props : Properties} {style : ScalarStyle} {text : Text}
    (h : Means doc depth (.scalar props style text) value) :
    ∃ s, Scalar.read? (typeTag? props) style text = some s ∧
      value = underTag props (.scalar s) := by
  obtain ⟨linked, before, after, budget, budget', hlink, hread⟩ := h
  rw [link] at hlink
  obtain ⟨rfl, -⟩ := Prod.mk.inj (Option.some.inj hlink)
  rw [Value.read.eq_def] at hread
  simp only [Document.follow] at hread
  obtain ⟨s, hs, heq⟩ := Option.map_eq_some_iff.mp hread
  exact ⟨s, hs, (Prod.mk.inj heq).1.symm⟩

theorem string {props : Properties} {style : ScalarStyle} {text : Text}
    (h : Means doc depth (.scalar props style text) value) (htag : props.tag = none)
    (htext : Scalar.ofPlain? text = some (.string text)) : value = .string text := by
  obtain ⟨s, hs, rfl⟩ := h.scalar
  have hs' : s = .string text := by
    simp only [typeTag?, localTag?, htag, Scalar.read?] at hs
    split at hs
    · exact Option.some.inj (hs.symm.trans htext)
    · exact (Option.some.inj hs).symm
  simp [underTag, localTag?, htag, hs', Value.string]

theorem mapping {props : Properties} {nodes : List (Written × Written)}
    (h : Means doc depth (.mapping props nodes) value) :
    ∃ inner es, value = underTag props (.mapping es) ∧
      List.Forall₂ (MeansEntry doc inner) nodes es ∧ Distinct es := by
  obtain ⟨linked, before, after, budget, budget', hlink, hread⟩ := h
  rw [link] at hlink
  obtain ⟨⟨more, last⟩, hmore, heq⟩ := Option.map_eq_some_iff.mp hlink
  obtain ⟨rfl, -⟩ := Prod.mk.inj heq
  rw [Value.read.eq_def] at hread
  simp only [Document.follow] at hread
  cases depth with
  | zero => contradiction
  | succ inner =>
    obtain ⟨⟨es, rest⟩, hes, heq⟩ := Option.map_eq_some_iff.mp hread
    obtain ⟨new, hnew, hentries⟩ := means_of_linkEntries hmore hes
    obtain rfl : es = new := hnew
    have hnil : Distinct ([] : List (Value × Value)).reverse := List.Pairwise.nil
    have hdistinct := distinct_of_readEntries hnil hes
    exact ⟨inner, es, (Prod.mk.inj heq).1.symm, hentries, hdistinct⟩

end Means

def IsRead (doc : Document) (value : Value) : Prop :=
  ∃ depth linked budget budget', Value.read doc depth linked budget = some (value, budget')

theorem isRead_of_readEntries {doc : Document} {depth : Nat} {linked : List (Linked × Linked)}
    {seen es : List (Value × Value)} {budget budget' : Nat}
    (hseen : ∀ e ∈ seen, IsRead doc e.1 ∧ IsRead doc e.2)
    (h : readEntries (Value.read doc depth) seen linked budget = some (es, budget')) :
    ∀ e ∈ es, IsRead doc e.1 ∧ IsRead doc e.2 := by
  induction linked generalizing seen budget with
  | nil =>
    obtain ⟨rfl, -⟩ := Prod.mk.inj (Option.some.inj h)
    exact fun e he => hseen e (List.mem_reverse.mp he)
  | cons e linked ih =>
    rw [readEntries] at h
    split at h
    · contradiction
    · rename_i key afterKey hkey
      split at h
      · contradiction
      · split at h
        · contradiction
        · rename_i value afterValue hvalue
          refine ih (List.forall_mem_cons.mpr ⟨⟨?_, ?_⟩, hseen⟩) h
          · exact ⟨_, _, _, _, hkey⟩
          · exact ⟨_, _, _, _, hvalue⟩

theorem IsRead.mapping {doc : Document} {es : List (Value × Value)}
    (h : IsRead doc (.mapping es)) : Distinct es ∧ ∀ e ∈ es, IsRead doc e.1 ∧ IsRead doc e.2 := by
  obtain ⟨depth, linked, budget, budget', hread⟩ := h
  rw [Value.read.eq_def] at hread
  simp only at hread
  split at hread
  · contradiction
  · split at hread
    · obtain ⟨s, -, heq⟩ := Option.map_eq_some_iff.mp hread
      have hvalue := (Prod.mk.inj heq).1
      unfold underTag at hvalue
      split at hvalue <;> contradiction
    · obtain ⟨items, -, heq⟩ := Option.map_eq_some_iff.mp hread
      have hvalue := (Prod.mk.inj heq).1
      unfold underTag at hvalue
      split at hvalue <;> contradiction
    · obtain ⟨⟨entries, rest⟩, hentries, heq⟩ := Option.map_eq_some_iff.mp hread
      have hvalue := (Prod.mk.inj heq).1
      unfold underTag at hvalue
      split at hvalue
      · contradiction
      · obtain rfl := Value.mapping.inj hvalue
        have hnil : Distinct ([] : List (Value × Value)).reverse := List.Pairwise.nil
        exact ⟨distinct_of_readEntries hnil hentries,
          isRead_of_readEntries (List.forall_mem_nil _) hentries⟩
    · contradiction

theorem isRead_of_ofText? {text : Text} {value : Value} (h : Value.ofText? text = some value) :
    value = .null ∨ ∃ doc, IsRead doc value := by
  unfold Value.ofText? at h
  split at h
  · contradiction
  · exact Or.inl (Option.some.inj h).symm
  · rename_i doc hdoc
    obtain ⟨⟨v, budget⟩, hread, rfl⟩ := Option.map_eq_some_iff.mp h
    exact Or.inr ⟨doc, _, _, _, _, hread⟩

theorem distinct_of_ofText? {text : Text} {es entries : List (Value × Value)} {key : Value}
    (h : Value.ofText? text = some (.mapping es)) (hmem : (key, .mapping entries) ∈ es) :
    Distinct entries := by
  rcases isRead_of_ofText? h with hnull | ⟨doc, hread⟩
  · contradiction
  · exact ((hread.mapping.2 _ hmem).2).mapping.1

/-- A text that has a value has it from its node tree. -/
theorem means_of_ofText? {text : Text} {node : Written} {value : Value}
    (hnode : Node.ofText? text = some (some node)) (h : Value.ofText? text = some value) :
    ∃ doc, Means doc depthLimit node value := by
  rw [Value.ofText?, Document.ofText?, hnode] at h
  simp only [Document.ofNode?] at h
  cases hlink : node.link .empty with
  | none => simp [hlink] at h
  | some linked =>
    rcases linked with ⟨linked, anchors⟩
    simp only [hlink, Option.map_some, ofDocument?] at h
    obtain ⟨⟨v, budget⟩, hread, rfl⟩ := Option.map_eq_some_iff.mp h
    exact ⟨_, linked, _, _, _, _, hlink, hread⟩

theorem lookup_of_mem {entries : List (Value × Value)} (h : Distinct entries) {key : Text}
    {value : Value} (hmem : (.string key, value) ∈ entries) :
    Value.lookup key entries = some value := by
  induction entries with
  | nil => contradiction
  | cons e entries ih =>
    obtain ⟨hnew, hentries⟩ := List.pairwise_cons.mp h
    rcases List.mem_cons.mp hmem with rfl | hmem
    · simp [Value.lookup, Value.string, string?]
    · have hother : (e.1.string? == some key) = false := by
        have hdiffers := hnew _ hmem
        rcases e with ⟨k, v⟩
        by_contra hsame
        have hstring : k.string? = some key := by simpa using hsame
        have hk : k = .string key := by
          unfold string? at hstring
          split at hstring
          · obtain rfl := Option.some.inj hstring
            rfl
          · contradiction
        rw [hk, same_string] at hdiffers
        simp at hdiffers
      rw [Value.lookup, List.find?_cons, hother]
      exact ih hentries hmem

theorem exists_lookup {doc : Document} {depth : Nat} {nodes : List (Written × Written)}
    {entries : List (Value × Value)} (hentries : List.Forall₂ (MeansEntry doc depth) nodes entries)
    (hdistinct : Distinct entries) {props : Properties} {style : ScalarStyle} {key : Text}
    {node : Written} (hmem : (.scalar props style key, node) ∈ nodes) (htag : props.tag = none)
    (hkey : Scalar.ofPlain? key = some (.string key)) :
    ∃ value, Means doc depth node value ∧ Value.lookup key entries = some value := by
  obtain ⟨⟨k, v⟩, hentry, hk, hv⟩ := exists_of_forall₂ hentries hmem
  obtain rfl : k = .string key := hk.string htag hkey
  exact ⟨v, hv, lookup_of_mem hdistinct hentry⟩

end SceneAudit.Yaml
