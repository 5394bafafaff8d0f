import Mathlib.Data.List.Basic
import SceneAudit.Script.SyntaxTree

/-! # Places in a syntax tree

A node lies below other nodes at a place: the number of the child to go to at each step. Places in
lexicographic order are places in the order of the source. What a walk gathers comes from the nodes
that it reads, in this order, and it reads those that lie in none but entered nodes.
-/

namespace SceneAudit.Script

/-- The way from nodes to a node below them: which of them, which of its children, and so on. -/
abbrev Place := List Nat

/-- A node lies at a place below nodes, in nodes of these kinds from the outside in. -/
inductive Below : List Node → Place → List NodeKind → Node → Prop where
  | here {ns : List Node} {i : Nat} {n : Node} (h : ns[i]? = some n) : Below ns [i] [] n
  | inside {ns : List Node} {i : Nat} {n m : Node} {p : Place} {kinds : List NodeKind}
      (h : ns[i]? = some n) (hm : Below n.children p kinds m) :
      Below ns (i :: p) (n.kind :: kinds) m

def InOrder (found : List (Place × Node)) : Prop :=
  found.Pairwise fun a b => a.1 < b.1

namespace Node

@[elab_as_elim]
theorem induct {P : Node → Prop}
    (node : ∀ kind role text line children, (∀ n ∈ children, P n) →
      P (.node kind role text line children)) : ∀ n, P n
  | .node kind role text line children => node kind role text line children (all children)
where
  all : ∀ ns : List Node, ∀ n ∈ ns, P n
    | [] => List.forall_mem_nil P
    | n :: ns => List.forall_mem_cons.mpr ⟨induct node n, all ns⟩

end Node

section Below

variable {ns : List Node} {p q : Place} {kinds inner : List NodeKind} {n m : Node}

theorem Below.append (h : Below ns p kinds n) (hm : Below n.children q inner m) :
    Below ns (p ++ q) (kinds ++ n.kind :: inner) m := by
  induction h with
  | here hn => exact .inside hn hm
  | inside hn _ ih => exact .inside hn (ih hm)

theorem below_append_iff {kind : NodeKind} : Below ns p (kinds ++ kind :: inner) m ↔
    ∃ q r n, p = q ++ r ∧ Below ns q kinds n ∧ n.kind = kind ∧ Below n.children r inner m := by
  constructor
  · intro h
    induction kinds generalizing ns p with
    | nil =>
      cases h with
      | inside hn hm => exact ⟨[_], _, _, rfl, .here hn, rfl, hm⟩
    | cons k kinds ih =>
      cases h with
      | inside hn hm =>
        obtain ⟨q, r, n, rfl, hq, hkind, hr⟩ := ih hm
        exact ⟨_ :: q, r, n, rfl, .inside hn hq, hkind, hr⟩
  · rintro ⟨q, r, n, rfl, hq, rfl, hr⟩
    exact hq.append hr

theorem below_nil_iff : Below ns p [] m ↔ ∃ i, p = [i] ∧ ns[i]? = some m := by
  constructor
  · rintro ⟨⟩
    exact ⟨_, rfl, ‹_›⟩
  · rintro ⟨i, rfl, h⟩
    exact .here h

end Below

section Found

variable (spots : Node → Option (List (Place × Node))) (enters : NodeKind → Bool)

mutual

/-- The nodes found in a node, which may be the node itself, with the way from it to them. -/
def foundIn : Node → List (Place × Node)
  | .node kind role text line children =>
    match spots (.node kind role text line children) with
    | some found => found
    | none => if enters kind then foundAmong 0 children else []

/-- The nodes found in nodes of which the first has the given number. -/
def foundAmong (i : Nat) : List Node → List (Place × Node)
  | [] => []
  | n :: ns => (foundIn n).map (fun f => (i :: f.1, f.2)) ++ foundAmong (i + 1) ns

end

variable {spots enters}

theorem mem_foundAmong {i : Nat} {ns : List Node} {p : Place} {m : Node} :
    (p, m) ∈ foundAmong spots enters i ns ↔ ∃ j n q, ns[j]? = some n ∧ p = (i + j) :: q ∧
      (q, m) ∈ foundIn spots enters n := by
  induction ns generalizing i with
  | nil => simp [foundAmong]
  | cons n ns ih =>
    rw [foundAmong, List.mem_append, ih, List.mem_map]
    constructor
    · rintro (⟨⟨q, _⟩, hq, heq⟩ | ⟨j, l, q, hl, rfl, hq⟩)
      · obtain ⟨rfl, rfl⟩ := Prod.mk.inj heq
        exact ⟨0, n, q, rfl, rfl, hq⟩
      · exact ⟨j + 1, l, q, hl, by rw [Nat.add_assoc, Nat.add_comm 1 j], hq⟩
    · rintro ⟨_ | j, l, q, hl, rfl, hq⟩
      · obtain rfl := Option.some.inj hl
        exact Or.inl ⟨(q, m), hq, rfl⟩
      · exact Or.inr ⟨j, l, q, hl, by rw [Nat.add_assoc, Nat.add_comm 1 j], hq⟩

theorem inOrder_foundAmong {i : Nat} {ns : List Node}
    (h : ∀ n ∈ ns, InOrder (foundIn spots enters n)) : InOrder (foundAmong spots enters i ns) := by
  induction ns generalizing i with
  | nil => exact List.Pairwise.nil
  | cons n ns ih =>
    obtain ⟨hn, hns⟩ := List.forall_mem_cons.mp h
    refine List.pairwise_append.mpr ⟨?_, ih hns, ?_⟩
    · refine List.pairwise_map.mpr (hn.imp fun hlt => ?_)
      exact List.cons_lt_cons_iff.mpr (Or.inr ⟨rfl, hlt⟩)
    · rintro a ha ⟨p, m⟩ hb
      obtain ⟨f, -, rfl⟩ := List.mem_map.mp ha
      obtain ⟨j, l, q, -, rfl, -⟩ := mem_foundAmong.mp hb
      exact List.cons_lt_cons_iff.mpr (Or.inl (by omega))

theorem inOrder_foundIn (h : ∀ n found, spots n = some found → InOrder found) (n : Node) :
    InOrder (foundIn spots enters n) := by
  induction n using Node.induct with
  | node kind role text line children ih =>
    rw [foundIn]
    split
    · exact h _ _ ‹_›
    · split
      · exact inOrder_foundAmong ih
      · exact List.Pairwise.nil

section Gather

variable {α : Type} {read : Node → Option (List α)} {value : Node → List α}

theorem gatherAll_eq_of_forall {i : Nat} {ns : List Node} (h : ∀ n ∈ ns,
    Node.gather read enters n = (foundIn spots enters n).flatMap fun f => value f.2) :
    Node.gatherAll read enters ns = (foundAmong spots enters i ns).flatMap fun f => value f.2 := by
  induction ns generalizing i with
  | nil => rfl
  | cons n ns ih =>
    obtain ⟨hn, hns⟩ := List.forall_mem_cons.mp h
    rw [Node.gatherAll, foundAmong, List.flatMap_append, List.flatMap_map, hn, ih hns]

variable (value) in
theorem gatherAll_eq
    (h : ∀ n, read n = (spots n).map fun found => found.flatMap fun f => value f.2)
    (ns : List Node) : Node.gatherAll read enters ns =
      (foundAmong spots enters 0 ns).flatMap fun f => value f.2 := by
  refine gatherAll_eq_of_forall fun n _ => ?_
  clear * - h
  induction n using Node.induct with
  | node kind role text line children ih =>
    rw [Node.gather, foundIn, h]
    cases spots (.node kind role text line children) with
    | some found => rfl
    | none =>
      cases enters kind with
      | true => exact gatherAll_eq_of_forall ih
      | false => rfl

end Gather

theorem mem_foundIn {n : Node} {p : Place} {m : Node} (hmem : (p, m) ∈ foundIn spots enters n) :
    (∃ found, spots n = some found ∧ (p, m) ∈ found) ∨
      ∃ q r kinds l found, p = q ++ r ∧ Below n.children q kinds l ∧ enters n.kind = true ∧
        (∀ k ∈ kinds, enters k = true) ∧ spots l = some found ∧ (r, m) ∈ found := by
  induction n using Node.induct generalizing p with
  | node kind role text line children ih =>
    rw [foundIn] at hmem
    split at hmem
    · exact Or.inl ⟨_, ‹_›, hmem⟩
    · split at hmem
      · rename_i henters
        obtain ⟨j, l, q, hl, rfl, hq⟩ := mem_foundAmong.mp hmem
        rw [Nat.zero_add]
        right
        rcases ih l (List.mem_of_getElem? hl) hq with ⟨found, hfound, hm⟩ |
          ⟨q', r, kinds, l', found, rfl, hl', hkind, hkinds, hfound, hm⟩
        · exact ⟨[j], q, [], l, found, rfl, .here hl, henters, List.forall_mem_nil _, hfound, hm⟩
        · exact ⟨j :: q', r, l.kind :: kinds, l', found, rfl, .inside hl hl', henters,
            List.forall_mem_cons.mpr ⟨hkind, hkinds⟩, hfound, hm⟩
      · contradiction

theorem foundIn_of_spots {n : Node} {found : List (Place × Node)} (h : spots n = some found) :
    foundIn spots enters n = found := by
  rcases n with ⟨kind, role, text, line, children⟩
  rw [foundIn, h]

theorem foundIn_of_enters {n : Node} (h : spots n = none) (henters : enters n.kind = true) :
    foundIn spots enters n = foundAmong spots enters 0 n.children := by
  rcases n with ⟨kind, role, text, line, children⟩
  rw [foundIn, h]
  exact if_pos henters

/-- The nodes found are those that nodes to be read give, wherever these lie in entered nodes. -/
theorem mem_foundAmong_iff (hapart : ∀ n, enters n.kind = true → spots n = none) {ns : List Node}
    {p : Place} {m : Node} : (p, m) ∈ foundAmong spots enters 0 ns ↔
      ∃ q r kinds l found, p = q ++ r ∧ Below ns q kinds l ∧ (∀ k ∈ kinds, enters k = true) ∧
        spots l = some found ∧ (r, m) ∈ found := by
  constructor
  · intro hmem
    obtain ⟨j, n, q, hn, rfl, hq⟩ := mem_foundAmong.mp hmem
    rw [Nat.zero_add]
    rcases mem_foundIn hq with ⟨found, hfound, hm⟩ |
      ⟨q', r, kinds, l, found, rfl, hl, hkind, hkinds, hfound, hm⟩
    · exact ⟨[j], q, [], n, found, rfl, .here hn, List.forall_mem_nil _, hfound, hm⟩
    · exact ⟨j :: q', r, n.kind :: kinds, l, found, rfl, .inside hn hl,
        List.forall_mem_cons.mpr ⟨hkind, hkinds⟩, hfound, hm⟩
  · rintro ⟨q, r, kinds, l, found, rfl, hl, hkinds, hfound, hm⟩
    induction hl with
    | @here ns i n hn =>
      refine mem_foundAmong.mpr ⟨i, n, r, hn, by rw [Nat.zero_add]; rfl, ?_⟩
      rwa [foundIn_of_spots hfound]
    | @inside ns i n l q kinds hn _ ih =>
      obtain ⟨hkind, hkinds⟩ := List.forall_mem_cons.mp hkinds
      refine mem_foundAmong.mpr ⟨i, n, q ++ r, hn, by rw [Nat.zero_add]; rfl, ?_⟩
      rw [foundIn_of_enters (hapart n hkind) hkind]
      exact ih hkinds hfound

end Found

end SceneAudit.Script
