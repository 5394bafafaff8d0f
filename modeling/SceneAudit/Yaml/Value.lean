import SceneAudit.Yaml.Anchors
import SceneAudit.Yaml.Scalar

/-! # Values

What a document denotes, with aliases replaced by what they stand for. Mappings keep their entries
in the order in which they are written; two entries with equal keys are refused. A node with a local
tag denotes a tagged value.
-/

namespace SceneAudit.Yaml

/-- What a node denotes. -/
inductive Value where
  | scalar (s : Scalar)
  | sequence (items : List Value)
  | mapping (entries : List (Value × Value))
  | tagged (tag : Text) (value : Value)
  deriving Repr

namespace Value

def null : Value :=
  .scalar .null

def string (t : Text) : Value :=
  .scalar (.string t)

mutual

/-- Two values are equal; mappings may differ in the order of their entries. -/
def same : Value → Value → Bool
  | .scalar a, .scalar b => a == b
  | .sequence as, .sequence bs => sameItems as bs
  | .mapping as, .mapping bs => as.length == bs.length && entriesIn as bs
  | .tagged s a, .tagged t b => s == t && same a b
  | _, _ => false

def sameItems : List Value → List Value → Bool
  | [], [] => true
  | a :: as, b :: bs => same a b && sameItems as bs
  | _, _ => false

def entriesIn : List (Value × Value) → List (Value × Value) → Bool
  | [], _ => true
  | (k, v) :: as, bs => bs.any (fun e => same k e.1 && same v e.2) && entriesIn as bs

end

def string? : Value → Option Text
  | .scalar (.string t) => some t
  | _ => none

def untag : Value → Value
  | .tagged _ v => untag v
  | v => v

def asString? (v : Value) : Option Text :=
  (untag v).string?

def lookup (key : Text) (entries : List (Value × Value)) : Option Value :=
  (entries.find? fun e => e.1.string? == some key).map Prod.snd

def get? (key : Text) (v : Value) : Option Value :=
  match untag v with
  | .mapping entries => lookup key entries
  | _ => none

def hasKey (key : Value) (entries : List (Value × Value)) : Bool :=
  entries.any fun e => same e.1 key

/-- The name of a local tag: what follows one `!`, or the `!` that stands alone. -/
def withoutBang : Text → Text
  | '!' :: c :: t => c :: t
  | t => t

def localTag? (props : Properties) : Option Text :=
  match props.tag with
  | some ('!' :: t) => some (withoutBang (withoutBang ('!' :: t)))
  | _ => none

def underTag (props : Properties) (v : Value) : Value :=
  match localTag? props with
  | some tag => .tagged tag v
  | none => v

/-- The tag that has a say in what a scalar denotes. -/
def typeTag? (props : Properties) : Option Text :=
  match localTag? props with
  | some _ => none
  | none => props.tag

def readItems (read : Linked → Nat → Option (Value × Nat)) :
    List Linked → Nat → Option (List Value × Nat)
  | [], budget => some ([], budget)
  | node :: nodes, budget =>
    match read node budget with
    | none => none
    | some (value, budget) =>
      (readItems read nodes budget).map fun (values, budget) => (value :: values, budget)

/-- Read entries one after another; `seen` holds those before. -/
def readEntries (read : Linked → Nat → Option (Value × Nat)) (seen : List (Value × Value)) :
    List (Linked × Linked) → Nat → Option (List (Value × Value) × Nat)
  | [], budget => some (seen.reverse, budget)
  | (key, value) :: entries, budget =>
    match read key budget with
    | none => none
    | some (key, budget) =>
      if hasKey key seen then none
      else match read value budget with
        | none => none
        | some (value, budget) => readEntries read ((key, value) :: seen) entries budget

/-- What a node denotes. Collections lie within one another at most `depth` levels deep, aliases
followed. -/
def read (doc : Document) : (depth : Nat) → Linked → Nat → Option (Value × Nat)
  | depth, node, budget =>
    match doc.follow node budget with
    | none => none
    | some (node, budget) =>
      match node, depth with
      | .scalar props style text, _ =>
        (Scalar.read? (typeTag? props) style text).map fun s =>
          (underTag props (.scalar s), budget)
      | .sequence props items, depth + 1 =>
        (readItems (read doc depth) items budget).map fun (items, budget) =>
          (underTag props (.sequence items), budget)
      | .mapping props entries, depth + 1 =>
        (readEntries (read doc depth) [] entries budget).map fun (entries, budget) =>
          (underTag props (.mapping entries), budget)
      | _, _ => none

def depthLimit : Nat := 128

def ofDocument? (doc : Document) : Option Value :=
  (read doc depthLimit doc.root doc.budget).map Prod.fst

/-- What a text denotes; a text without a document denotes null. -/
def ofText? (t : Text) : Option Value :=
  match Document.ofText? t with
  | none => none
  | some none => some null
  | some (some doc) => ofDocument? doc

end Value

end SceneAudit.Yaml
