import Mathlib.Data.List.Basic
import SceneAudit.Script.Outline

/-! # Base lists

A base list is read in parts: the listed types, each behind a comma or first in the list, and in
some lists arguments of their own behind a type. The comments that lie in front of a part or of its
comma are entries like the types; those inside a part belong to its text.
-/

namespace SceneAudit

def TypeName.simple? (text : Text) : Option Text :=
  if (TypeName.simple text).isEmpty then none else some (TypeName.simple text)

namespace Script

namespace Token

def endsBases (t : Token) : Bool :=
  t.isSign "\x7b" || t.isSign ";" || t.isWord "where"

def endsEntry (whole : Bool) (t : Token) : Bool :=
  t.endsBases || t.isSign "," || (t.isSign "(" && !whole)

def depthAfter (depth : Nat) (t : Token) : Nat :=
  if t.opens then depth + 1 else if t.closes then depth - 1 else depth

/-- How many angles are open behind this token; those in brackets do not count. -/
def anglesAfter (depth angles : Nat) (t : Token) : Nat :=
  if depth = 0 ∧ t.isSign "<" then angles + 1
  else if depth = 0 ∧ t.isSign ">" then angles - 1
  else angles

variable {t : Token}

theorem endsBases_iff : t.endsBases = true ↔
    t.isSign "\x7b" = true ∨ t.isSign ";" = true ∨ t.isWord "where" = true := by
  rw [endsBases, Bool.or_eq_true, Bool.or_eq_true, or_assoc]

theorem isSign_eq_false {sign : String} (other : String) (h : t.isSign sign = true)
    (hne : sign.toList ≠ other.toList) : t.isSign other = false := by
  rw [isSign, Bool.and_eq_true, beq_iff_eq, beq_iff_eq] at h
  rw [isSign, Bool.and_eq_false_iff, h.2]
  exact Or.inr (beq_false_of_ne hne)

theorem isWord_eq_false {sign : String} (word : String) (h : t.isSign sign = true) :
    t.isWord word = false := by
  rw [isSign, Bool.and_eq_true, beq_iff_eq] at h
  rw [isWord, h.1]
  rfl

end Token

section Steps

variable {whole : Bool} {entry : Option Text} {e : Text} {depth angles : Nat} {t : Token}
  {ts : List Token}

theorem baseEntries_of_endsBases (h : t.endsBases = true) :
    baseEntries whole entry 0 0 (t :: ts) = (entryNodes entry, t :: ts) := by
  rw [baseEntries]
  exact if_pos ⟨⟨rfl, rfl⟩, Token.endsBases_iff.mp h⟩

theorem baseEntries_of_comma (h : t.isSign "," = true) :
    baseEntries whole entry 0 0 (t :: ts) =
      (entryNodes entry ++ commentNodes t ++ (baseEntries whole none 0 0 ts).1,
        (baseEntries whole none 0 0 ts).2) := by
  have hbrace := Token.isSign_eq_false "\x7b" h (by decide)
  have hsemicolon := Token.isSign_eq_false ";" h (by decide)
  have hword := Token.isWord_eq_false "where" h
  rw [baseEntries]
  simp only [hbrace, hsemicolon, hword, h]
  rfl

theorem baseEntries_of_arguments (h : t.isSign "(" = true) :
    baseEntries false (some e) 0 0 (t :: ts) =
      (.leaf .other none e :: commentNodes t ++ (baseEntries false (some t.text) 1 0 ts).1,
        (baseEntries false (some t.text) 1 0 ts).2) := by
  have hbrace := Token.isSign_eq_false "\x7b" h (by decide)
  have hsemicolon := Token.isSign_eq_false ";" h (by decide)
  have hcomma := Token.isSign_eq_false "," h (by decide)
  have hword := Token.isWord_eq_false "where" h
  rw [baseEntries]
  simp only [hbrace, hsemicolon, hcomma, hword, h]
  rfl

theorem baseEntries_of_inside (h : depth = 0 → angles = 0 → t.endsEntry whole = false) :
    baseEntries whole (some e) depth angles (t :: ts) =
      baseEntries whole (some (e ++ t.gap ++ t.text)) (t.depthAfter depth)
        (t.anglesAfter depth angles) ts := by
  have hstays : ∀ {P : Prop}, (P → t.endsEntry whole = true) → ¬ ((depth = 0 ∧ angles = 0) ∧ P) :=
    fun hP ⟨⟨hdepth, hangles⟩, hp⟩ => Bool.false_ne_true ((h hdepth hangles).symm.trans (hP hp))
  rw [baseEntries]
  dsimp only
  rw [if_neg (hstays ?_), if_neg (hstays ?_), if_neg (hstays ?_)]
  · rfl
  · rintro ⟨hopens, rfl, -⟩
    rw [Token.endsEntry, hopens, Bool.not_false, Bool.and_self, Bool.or_true]
  · intro hcomma
    rw [Token.endsEntry, hcomma, Bool.or_true, Bool.true_or]
  · intro hends
    rw [Token.endsEntry, Token.endsBases_iff.mpr hends, Bool.true_or, Bool.true_or]

theorem baseEntries_of_first (hends : t.endsBases = false) (hcomma : t.isSign "," = false) :
    baseEntries whole none 0 0 (t :: ts) =
      (commentNodes t ++
        (baseEntries whole (some t.text) (t.depthAfter 0) (t.anglesAfter 0 0) ts).1,
        (baseEntries whole (some t.text) (t.depthAfter 0) (t.anglesAfter 0 0) ts).2) := by
  rw [baseEntries]
  dsimp only
  rw [if_neg, if_neg, if_neg]
  · rfl
  · rintro ⟨-, -, -, hentry⟩
    contradiction
  · rintro ⟨-, hcomma'⟩
    exact Bool.false_ne_true (hcomma.symm.trans hcomma')
  · rintro ⟨-, hends'⟩
    exact Bool.false_ne_true (hends.symm.trans (Token.endsBases_iff.mpr hends'))

end Steps

/-- The tokens behind the first of an entry, up to its end, while brackets and angles are open. -/
inductive GoesOn (whole : Bool) : (depth angles : Nat) → List Token → Prop where
  | nil : GoesOn whole 0 0 []
  | cons {depth angles : Nat} {t : Token} {ts : List Token}
      (h : depth = 0 → angles = 0 → t.endsEntry whole = false)
      (hs : GoesOn whole (t.depthAfter depth) (t.anglesAfter depth angles) ts) :
      GoesOn whole depth angles (t :: ts)

theorem baseEntries_of_goesOn {whole : Bool} {e : Text} {depth angles : Nat} {ts rest : List Token}
    (h : GoesOn whole depth angles ts) : baseEntries whole (some e) depth angles (ts ++ rest) =
      baseEntries whole (some (e ++ ts.flatMap fun t => t.gap ++ t.text)) 0 0 rest := by
  induction h generalizing e with
  | nil => rw [List.flatMap_nil, List.append_nil, List.nil_append]
  | @cons depth angles t ts hinside _ ih =>
    rw [List.cons_append, baseEntries_of_inside hinside, ih, List.flatMap_cons]
    simp only [List.append_assoc]

/-- A part of a base list: a type or the arguments behind one. -/
structure BasePart where
  comma : Option Token
  first : Token
  more : List Token

namespace BasePart

def tokens (p : BasePart) : List Token :=
  p.comma.toList ++ p.first :: p.more

def comments (p : BasePart) : List Text :=
  p.comma.toList.flatMap Token.comments ++ p.first.comments

/-- The part as it is written. -/
def text (p : BasePart) : Text :=
  p.first.text ++ p.more.flatMap fun t => t.gap ++ t.text

/-- A listed type, which reaches as far as its brackets and angles do. -/
structure Listed (whole : Bool) (p : BasePart) : Prop where
  begins : p.first.endsBases = false ∧ p.first.isSign "," = false
  goesOn : GoesOn whole (p.first.depthAfter 0) (p.first.anglesAfter 0 0) p.more

/-- The part stands behind another one: it has a comma, or it is arguments. -/
def Follows (whole : Bool) (p : BasePart) : Prop :=
  match p.comma with
  | some comma => comma.isSign "," = true
  | none => whole = false ∧ p.first.isSign "(" = true

def nodes (p : BasePart) : List Node :=
  p.comments.map (Node.leaf .comment none) ++ [.leaf .other none p.text]

/-- The names that the part adds to the bases. -/
def names (p : BasePart) : List Text :=
  p.comments.filterMap TypeName.simple? ++ (TypeName.simple? p.text).toList

end BasePart

section Parts

variable {whole : Bool} {e : Text} {p : BasePart} {ps : List BasePart} {rest : List Token}

theorem baseEntries_of_listed (h : p.Listed whole) :
    baseEntries whole none 0 0 (p.first :: p.more ++ rest) =
      (commentNodes p.first ++ (baseEntries whole (some p.text) 0 0 rest).1,
        (baseEntries whole (some p.text) 0 0 rest).2) := by
  rw [List.cons_append, baseEntries_of_first h.begins.1 h.begins.2, baseEntries_of_goesOn h.goesOn]
  rfl

theorem baseEntries_of_follows (h : p.Listed whole) (hfollows : p.Follows whole) :
    baseEntries whole (some e) 0 0 (p.tokens ++ rest) =
      (.leaf .other none e :: p.comments.map (Node.leaf .comment none) ++
        (baseEntries whole (some p.text) 0 0 rest).1,
        (baseEntries whole (some p.text) 0 0 rest).2) := by
  rcases p with ⟨_ | comma, first, more⟩
  · obtain ⟨rfl, hopens⟩ := hfollows
    have hdepth : first.depthAfter 0 = 1 := by
      rw [Token.depthAfter, Token.opens, hopens]
      rfl
    have hangles : first.anglesAfter 0 0 = 0 := by
      rw [Token.anglesAfter, Token.isSign_eq_false "<" hopens (by decide),
        Token.isSign_eq_false ">" hopens (by decide)]
      rfl
    have hgoesOn := h.goesOn
    rw [hdepth, hangles] at hgoesOn
    rw [BasePart.tokens, Option.toList_none, List.nil_append, List.cons_append,
      baseEntries_of_arguments hopens, baseEntries_of_goesOn hgoesOn]
    rfl
  · rw [BasePart.tokens, Option.toList_some, List.singleton_append, List.cons_append,
      baseEntries_of_comma hfollows, baseEntries_of_listed h, BasePart.comments, List.map_append]
    simp [commentNodes, entryNodes]

theorem baseEntries_of_follows_all {stop : Token} (hstop : stop.endsBases = true)
    (h : ∀ p ∈ ps, p.Listed whole ∧ p.Follows whole) :
    baseEntries whole (some e) 0 0 (ps.flatMap BasePart.tokens ++ stop :: rest) =
      (.leaf .other none e :: ps.flatMap BasePart.nodes, stop :: rest) := by
  induction ps generalizing e with
  | nil => exact baseEntries_of_endsBases hstop
  | cons p ps ih =>
    obtain ⟨⟨hlisted, hfollows⟩, hps⟩ := List.forall_mem_cons.mp h
    rw [List.flatMap_cons, List.append_assoc, baseEntries_of_follows hlisted hfollows, ih hps,
      List.flatMap_cons, BasePart.nodes]
    simp only [List.append_assoc, List.cons_append, List.nil_append]

end Parts

/-- A base list in parts, up to what ends it. -/
structure BaseList (whole : Bool) (ps : List BasePart) : Prop where
  parts : ∀ p ∈ ps, p.Listed whole
  first : ∀ p ∈ ps.head?, p.comma = none
  follows : ∀ p ∈ ps.tail, p.Follows whole
  ne_nil : ps ≠ []

/-- A base list is read part by part: for each the comments in front and then the part itself. -/
theorem baseEntries_eq {whole : Bool} {ps : List BasePart} {stop : Token} {rest : List Token}
    (h : BaseList whole ps) (hstop : stop.endsBases = true) :
    baseEntries whole none 0 0 (ps.flatMap BasePart.tokens ++ stop :: rest) =
      (ps.flatMap BasePart.nodes, stop :: rest) := by
  rcases ps with _ | ⟨p, ps⟩
  · exact absurd rfl h.ne_nil
  · obtain ⟨hp, hps⟩ := List.forall_mem_cons.mp h.parts
    have hcomma : p.comma = none := h.first p rfl
    have htokens : p.tokens = p.first :: p.more := by
      rw [BasePart.tokens, hcomma, Option.toList_none, List.nil_append]
    have hnodes : p.nodes = commentNodes p.first ++ [.leaf .other none p.text] := by
      rw [BasePart.nodes, BasePart.comments, hcomma]
      rfl
    rw [List.flatMap_cons, List.append_assoc, htokens, baseEntries_of_listed hp,
      baseEntries_of_follows_all hstop fun q hq => ⟨hps q hq, h.follows q hq⟩, List.flatMap_cons,
      hnodes, List.append_assoc, List.singleton_append]

end Script

end SceneAudit
