import SceneAudit.Yaml.Node

/-! # Anchors and aliases

An alias stands for the node whose anchor bears its name. Anchors are numbered in the order in which
their nodes begin: an anchor gets the number of different names before it. An alias means the number
that its name had last before it; of several nodes with one number the one that begins last counts.
-/

namespace SceneAudit.Yaml

/-- A node whose aliases are numbers of anchors. -/
abbrev Linked := Node Nat

/-- The anchors met so far: numbers by name, the latest first, the number of different names, and
nodes by number. -/
structure Anchors where
  numbers : List (Text × Nat)
  names : Nat
  targets : List (Nat × Linked)
  deriving Repr

namespace Anchors

def empty : Anchors :=
  ⟨[], 0, []⟩

def define (anchors : Anchors) (name : Text) : Nat × Anchors :=
  let known := (anchors.numbers.lookup name).isSome
  (anchors.names,
    ⟨(name, anchors.names) :: anchors.numbers, if known then anchors.names else anchors.names + 1,
      anchors.targets.filter fun t => t.1 ≠ anchors.names⟩)

def enter (anchors : Anchors) (props : Properties) : Option Nat × Anchors :=
  match props.anchor with
  | none => (none, anchors)
  | some name =>
    let (number, anchors) := anchors.define name
    (some number, anchors)

/-- A node ends; nodes inside it that got the same number stay in its place. -/
def leave (anchors : Anchors) (number : Option Nat) (node : Linked) : Anchors :=
  match number with
  | none => anchors
  | some n =>
    if (anchors.targets.lookup n).isSome then anchors
    else { anchors with targets := (n, node) :: anchors.targets }

end Anchors

namespace Node

mutual

/-- Replace the names of aliases by numbers; an unknown name is refused. -/
def link : Written → Anchors → Option (Linked × Anchors)
  | .alias name, anchors => (anchors.numbers.lookup name).map fun n => (.alias n, anchors)
  | .scalar props style text, anchors =>
    let (number, anchors) := anchors.enter props
    some (.scalar props style text, anchors.leave number (.scalar props style text))
  | .sequence props items, anchors =>
    let (number, anchors) := anchors.enter props
    (linkItems items anchors).map fun (items, anchors) =>
      (.sequence props items, anchors.leave number (.sequence props items))
  | .mapping props entries, anchors =>
    let (number, anchors) := anchors.enter props
    (linkEntries entries anchors).map fun (entries, anchors) =>
      (.mapping props entries, anchors.leave number (.mapping props entries))

def linkItems : List Written → Anchors → Option (List Linked × Anchors)
  | [], anchors => some ([], anchors)
  | node :: nodes, anchors =>
    match link node anchors with
    | none => none
    | some (node, anchors) =>
      (linkItems nodes anchors).map fun (nodes, anchors) => (node :: nodes, anchors)

/-- Link keys and values in the order in which they are written. -/
def linkEntries : List (Written × Written) → Anchors → Option (List (Linked × Linked) × Anchors)
  | [], anchors => some ([], anchors)
  | (key, value) :: entries, anchors =>
    match link key anchors with
    | none => none
    | some (key, anchors) =>
      match link value anchors with
      | none => none
      | some (value, anchors) =>
        (linkEntries entries anchors).map fun (entries, anchors) =>
          ((key, value) :: entries, anchors)

end

mutual

/-- The number of places of a node: one for a scalar or an alias, a beginning and an end for a
collection. -/
def places {α : Type} : Node α → Nat
  | .alias _ => 1
  | .scalar _ _ _ => 1
  | .sequence _ items => 2 + itemPlaces items
  | .mapping _ entries => 2 + entryPlaces entries

def itemPlaces {α : Type} : List (Node α) → Nat
  | [] => 0
  | node :: nodes => places node + itemPlaces nodes

def entryPlaces {α : Type} : List (Node α × Node α) → Nat
  | [] => 0
  | (key, value) :: entries => places key + places value + entryPlaces entries

end

end Node

/-- A document whose aliases are resolved. Aliases may be followed `budget` times in all. -/
structure Document where
  root : Linked
  targets : List (Nat × Linked)
  budget : Nat
  deriving Repr

namespace Document

def ofNode? (node : Written) : Option Document :=
  (node.link .empty).map fun (root, anchors) => ⟨root, anchors.targets, 100 * node.places⟩

def ofText? (t : Text) : Option (Option Document) :=
  match Node.ofText? t with
  | none => none
  | some none => some none
  | some (some node) => (ofNode? node).map some

def target? (doc : Document) : Linked → Option Linked
  | .alias number => doc.targets.lookup number
  | node => some node

/-- The node that a node stands for, an alias followed, and the budget that is left. -/
def follow (doc : Document) (node : Linked) (budget : Nat) : Option (Linked × Nat) :=
  match node, budget with
  | .alias number, budget + 1 => (doc.target? (.alias number)).map fun node => (node, budget)
  | .alias _, 0 => none
  | node, budget => some (node, budget)

end Document

end SceneAudit.Yaml
