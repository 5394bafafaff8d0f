import SceneAudit.Script.Lexeme
import SceneAudit.Text.Decimal

/-! # Tokens

Words, literals, signs and branch directives are tokens. Everything between two tokens is kept with
the second one, together with the comments that lie there.
-/

namespace SceneAudit.Script

/-- Directives that part a script into branches. -/
inductive Branch where
  /-- The first branch begins. -/
  | opens
  /-- Another branch begins, with a condition of its own. -/
  | alternative
  /-- The branch without a condition begins. -/
  | otherwise
  /-- The last branch ends. -/
  | closes
  deriving DecidableEq, Repr

namespace Branch

def goesOn : Branch → Bool
  | alternative | otherwise => true
  | _ => false

def ofDirective? (text : Text) : Option Branch :=
  let name := ((text.drop 1).dropWhile isSpace).takeWhile isWordChar
  if name = "if".toList then some .opens
  else if name = "elif".toList then some .alternative
  else if name = "else".toList then some .otherwise
  else if name = "endif".toList then some .closes
  else none

end Branch

/-- A token with what lies before it. -/
structure Token where
  kind : LexemeKind
  text : Text
  branch : Option Branch
  /-- The text since the token before. -/
  gap : Text
  /-- The comments and other directives in the gap. -/
  comments : List Text
  /-- The line on which the token begins, counted from 1. -/
  line : Nat
  deriving DecidableEq, Repr

namespace Token

/-- The tokens among lexemes; `gap` and `comments` are what lies before the first of them. -/
def ofLexemesFrom (line : Nat) (gap : Text) (comments : List Text) : List Lexeme → List Token
  | [] => []
  | l :: ls =>
    let next := line + l.text.count '\n'
    let branch := if l.kind = .directive then Branch.ofDirective? l.text else none
    if l.kind = .blank then ofLexemesFrom next (gap ++ l.text) comments ls
    else if l.kind = .comment ∨ (l.kind = .directive ∧ branch = none) then
      ofLexemesFrom next (gap ++ l.text) (comments ++ [l.text]) ls
    else ⟨l.kind, l.text, branch, gap, comments, line⟩ :: ofLexemesFrom next [] [] ls

/-- The tokens of a script. -/
def ofText (t : Text) : List Token :=
  ofLexemesFrom 1 [] [] (Lexeme.ofText t)

def isSign (t : Token) (sign : String) : Bool :=
  t.kind == .sign && t.text == sign.toList

def isWord (t : Token) (word : String) : Bool :=
  t.kind == .word && t.text == word.toList

def isName (t : Token) : Bool :=
  t.kind == .word && !t.text.head?.any Text.isDigit

def opensBranch (t : Token) : Bool :=
  t.branch.any Branch.goesOn

def closesBranch (t : Token) : Bool :=
  t.branch == some .closes

def opens (t : Token) : Bool :=
  t.isSign "(" || t.isSign "[" || t.isSign "\x7b"

def closes (t : Token) : Bool :=
  t.isSign ")" || t.isSign "]" || t.isSign "\x7d"

end Token

def nextIsSign (sign : String) : List Token → Bool
  | t :: _ => t.isSign sign
  | [] => false

def nextIsWord (word : String) : List Token → Bool
  | t :: _ => t.isWord word
  | [] => false

end SceneAudit.Script
