import SceneAudit.Number.Binary64
import SceneAudit.Yaml.Node

/-! # Scalars

What a scalar denotes. A plain scalar is null, a boolean, an integer or a number if it has the form
of one, and a string otherwise; quoted and block scalars are strings. Tags of the standard force a
type. An integer beyond 64 bits that 128 bits hold is refused.
-/

namespace SceneAudit.Yaml

/-- What a scalar denotes. -/
inductive Scalar where
  | null
  | bool (b : Bool)
  | integer (n : Int)
  | float (x : Binary64)
  | string (t : Text)
  deriving DecidableEq, Repr

namespace Scalar

def isNull (t : Text) : Bool :=
  ["null", "Null", "NULL", "~"].any fun w => t == w.toList

def bool? (t : Text) : Option Bool :=
  if ["true", "True", "TRUE"].any fun w => t == w.toList then some true
  else if ["false", "False", "FALSE"].any fun w => t == w.toList then some false
  else none

def withoutSign : Text → Text
  | '+' :: t => t
  | '-' :: t => t
  | t => t

/-- A zero and more digits behind an optional sign: no number. -/
def isZeroPadded (t : Text) : Bool :=
  match withoutSign t with
  | '0' :: d :: rest => (d :: rest).all Text.isDigit
  | _ => false

/-- The base and the digits of an unsigned integer; a base other than ten is marked. -/
def digits : Text → Nat × Text
  | '0' :: 'x' :: t => (16, t)
  | '0' :: 'o' :: t => (8, t)
  | '0' :: 'b' :: t => (2, t)
  | t => (10, t)

/-- The integer without any bound that a text of the form of an integer denotes. -/
def unboundedInteger? (t : Text) : Option Int :=
  if isZeroPadded t then none
  else
    let (base, ds) := digits (withoutSign t)
    match Text.readNat? base ds with
    | none => none
    | some n => some (if t.head? = some '-' then -(n : Int) else n)

def fits64 (n : Int) : Bool :=
  -Int.pow 2 63 ≤ n && n < Int.pow 2 64

def fits128 (n : Int) : Bool :=
  -Int.pow 2 127 ≤ n && n < Int.pow 2 128

def specialFloat? (t : Text) : Option Binary64 :=
  if [".inf", ".Inf", ".INF", "+.inf", "+.Inf", "+.INF"].any fun w => t == w.toList then
    some (.infinite false)
  else if ["-.inf", "-.Inf", "-.INF"].any fun w => t == w.toList then some (.infinite true)
  else if [".nan", ".NaN", ".NAN"].any fun w => t == w.toList then some .undefined
  else none

/-- The number that a text denotes; numerals that are not finite denote none. -/
def float? (t : Text) : Option Binary64 :=
  match specialFloat? t with
  | some x => some x
  | none =>
    match Numeral.read? t with
    | none => none
    | some n => if (Binary64.ofNumeral n).isFinite then some (.ofNumeral n) else none

/-- The integer that a text denotes: none for other texts, and a refusal in between 64 and 128
bits. -/
def integer? (t : Text) : Option (Option Int) :=
  match unboundedInteger? t with
  | none => some none
  | some n => if fits64 n then some (some n) else if fits128 n then none else some none

/-- What an untagged plain scalar denotes. -/
def ofPlain? (t : Text) : Option Scalar :=
  if t = [] ∨ isNull t then some .null
  else match bool? t with
    | some b => some (.bool b)
    | none =>
      match integer? t with
      | none => none
      | some (some n) => some (.integer n)
      | some none =>
        if isZeroPadded t then some (.string t)
        else match float? t with
          | some x => some (.float x)
          | none => some (.string t)

def standardTag (name : String) : Text :=
  "tag:yaml.org,2002:".toList ++ name.toList

/-- What a scalar with a tag of the standard denotes, if the tag forces a type. -/
def ofTagged? (tag : Text) (t : Text) : Option (Option Scalar) :=
  if tag = standardTag "bool" then some ((bool? t).map .bool)
  else if tag = standardTag "int" then
    some (match integer? t with
      | some (some n) => some (.integer n)
      | _ => none)
  else if tag = standardTag "float" then some ((float? t).map .float)
  else if tag = standardTag "null" then some (if isNull t then some .null else none)
  else none

def read? (tag : Option Text) (style : ScalarStyle) (t : Text) : Option Scalar :=
  match tag with
  | none => if style = .plain then ofPlain? t else some (.string t)
  | some tag =>
    match ofTagged? tag t with
    | some forced => forced
    | none => some (.string t)

end Scalar

end SceneAudit.Yaml
