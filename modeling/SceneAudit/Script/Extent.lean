import SceneAudit.Script.Token

/-! # Extents

Where groups in brackets, types, expressions and members end. What lies inside them does not matter.
-/

namespace SceneAudit.Script

/-- What follows the group in brackets that begins here; `depth` groups are open already. -/
def afterGroup (depth : Nat) : List Token → List Token
  | [] => []
  | t :: ts =>
    if t.opens then afterGroup (depth + 1) ts
    else if t.closes then if depth ≤ 1 then ts else afterGroup (depth - 1) ts
    else afterGroup depth ts

/-- What follows the brackets of an array type, which hold nothing but commas. -/
def afterRank? : List Token → Option (List Token)
  | t :: ts => if t.isSign "," then afterRank? ts else if t.isSign "]" then some ts else none
  | [] => none

/-- What follows the marks behind a type: `?`, `*` and brackets of arrays. -/
def afterTypeMarks : (fuel : Nat) → List Token → List Token
  | fuel + 1, t :: ts =>
    if t.isSign "?" || t.isSign "*" then afterTypeMarks fuel ts
    else if t.isSign "[" then
      match afterRank? ts with
      | some rest => afterTypeMarks fuel rest
      | none => t :: ts
    else t :: ts
  | _, ts => ts

mutual

/-- What follows the type in front: a tuple, a function pointer, or a name with qualifiers and type
arguments, and the marks behind it. -/
def afterType? : (fuel : Nat) → List Token → Option (List Token)
  | fuel + 1, t :: ts =>
    if t.isSign "(" then some (afterTypeMarks fuel (afterGroup 0 (t :: ts)))
    else if t.isWord "delegate" && nextIsSign "*" ts then
      match ts.dropWhile fun t => !t.isSign "<" with
      | _ :: rest => (afterTypeArguments? fuel rest).map (afterTypeMarks fuel)
      | [] => none
    else if t.isName then (afterTypeName? fuel ts).map (afterTypeMarks fuel)
    else none
  | _, _ => none

/-- What follows a type name whose first word has been read. -/
def afterTypeName? : (fuel : Nat) → List Token → Option (List Token)
  | fuel + 1, t :: ts =>
    if t.isSign "." || t.isSign "::" then
      match ts with
      | name :: rest => if name.isName then afterTypeName? fuel rest else none
      | [] => none
    else if t.isSign "<" then
      match afterTypeArguments? fuel ts with
      | some rest => afterTypeName? fuel rest
      | none => none
    else some (t :: ts)
  | _, ts => some ts

/-- What follows type arguments whose `<` has been read. An argument may be missing. -/
def afterTypeArguments? : (fuel : Nat) → List Token → Option (List Token)
  | fuel + 1, t :: ts =>
    if t.isSign ">" then some ts
    else if t.isSign "," then afterTypeArguments? fuel ts
    else match afterType? fuel (t :: ts) with
      | some (next :: rest) =>
        if next.isSign "," then afterTypeArguments? fuel rest
        else if next.isSign ">" then some rest
        else none
      | _ => none
  | _, _ => none

end

/-- What is left at the comma or semicolon behind an expression. A `<` behind a name opens type
arguments if they can be read as such, so that their commas do not end the expression. -/
def afterExpression : (fuel depth : Nat) → (named : Bool) → List Token → List Token
  | fuel + 1, depth, named, t :: ts =>
    if depth = 0 ∧ (t.isSign "," ∨ t.isSign ";") then t :: ts
    else if t.opens then afterExpression fuel (depth + 1) false ts
    else if t.closes then
      if depth = 0 then t :: ts else afterExpression fuel (depth - 1) false ts
    else if depth = 0 && named && t.isSign "<" then
      match afterTypeArguments? fuel ts with
      | some rest => afterExpression fuel depth false rest
      | none => afterExpression fuel depth false ts
    else afterExpression fuel depth t.isName ts
  | _, _, _, ts => ts

/-- What follows a member or statement: it ends at a semicolon, or at the brace that closes its body
unless an arrow came before. `depth` groups are open. -/
def afterMember (arrow : Bool) (depth : Nat) : List Token → List Token
  | [] => []
  | t :: ts =>
    if t.opens then afterMember arrow (depth + 1) ts
    else if t.closes then
      if t.isSign "\x7d" && depth = 0 then t :: ts
      else if t.isSign "\x7d" && depth = 1 && !arrow then ts
      else afterMember arrow (depth - 1) ts
    else if depth = 0 && t.isSign ";" then ts
    else afterMember (arrow || (depth = 0 && t.isSign "=>")) depth ts

/-- What follows the accessors or the expression of a property, and the value it begins with. -/
def afterProperty (ts : List Token) : List Token :=
  if nextIsSign "\x7b" ts then
    let rest := afterGroup 0 ts
    if nextIsSign "=" rest then (afterExpression rest.length 0 false rest).drop 1 else rest
  else afterMember true 0 ts

end SceneAudit.Script
