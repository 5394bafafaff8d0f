import SceneAudit.Proofs.Text.Blank
import SceneAudit.Script.TypeName

/-! # Qualified names and their type arguments

A type name is identifiers with dots between them, perhaps behind an alias, and each identifier may
have type arguments, which are type names again. The cut at the first `<` comes before the cut at
the last qualifier, so the simple name is the last identifier only when no identifier before it has
type arguments. Otherwise it is the first identifier that has some.
-/

namespace SceneAudit.TypeName

/-- What no identifier holds besides white space: the signs that put a type name together. -/
def signs : Text :=
  ".:<>,".toList

def IsIdentifier (t : Text) : Prop :=
  t ≠ [] ∧ Text.IsWord t ∧ ∀ c ∈ t, c ∉ signs

instance : DecidablePred IsIdentifier := fun t =>
  inferInstanceAs (Decidable (t ≠ [] ∧ Text.IsWord t ∧ ∀ c ∈ t, c ∉ signs))

/-- White space that may stand between the signs and the identifiers. -/
structure Gap where
  text : Text
  isBlank : ∀ c ∈ text, Text.isBlank c = true

/-- An identifier with the white space around it. -/
structure Word where
  before : Gap
  identifier : Text
  after : Gap
  isIdentifier : IsIdentifier identifier

mutual

/-- A type name: perhaps an alias, and the parts that dots join, of which there is at least one. -/
inductive Name where
  | mk (aliased : Option Word) (first : Part) (rest : List Part)

/-- An identifier without or with type arguments, which white space may follow. -/
inductive Part where
  | plain (word : Word)
  | generic (word : Word) (arguments : List Name) (after : Gap)

end

def Gap.empty : Gap where
  text := []
  isBlank := by simp

namespace Word

def bare (identifier : Text) (h : IsIdentifier identifier) : Word where
  before := .empty
  identifier := identifier
  after := .empty
  isIdentifier := h

def text (w : Word) : Text :=
  w.before.text ++ (w.identifier ++ w.after.text)

theorem not_mem_text (w : Word) {c : Char} (hc : c ∈ signs) (hblank : Text.isBlank c = false) :
    c ∉ w.text := by
  rintro hmem
  have hgap : ∀ g : Gap, c ∉ g.text := by
    intro g hg
    have hwhite := g.isBlank c hg
    rw [hblank] at hwhite
    contradiction
  rcases List.mem_append.mp hmem with h | h
  · exact hgap w.before h
  · rcases List.mem_append.mp h with h | h
    · exact w.isIdentifier.2.2 c h hc
    · exact hgap w.after h

theorem trim_text (w : Word) : Text.trim w.text = w.identifier := by
  obtain ⟨-, hword, -⟩ := w.isIdentifier
  apply Text.trim_around w.before.isBlank w.after.isBlank
  · exact fun c hc => hword c (List.mem_of_mem_head? hc)
  · exact fun c hc => hword c (List.mem_of_getLast? hc)

end Word

namespace Part

def word : Part → Word
  | plain w => w
  | generic w _ _ => w

def identifier (p : Part) : Text :=
  p.word.identifier

def HasArguments : Part → Prop
  | plain _ => False
  | generic _ _ _ => True

instance : DecidablePred HasArguments
  | plain _ => isFalse id
  | generic _ _ _ => isTrue trivial

end Part

mutual

def Name.text : Name → Text
  | .mk none first rest => first.text ++ restText rest
  | .mk (some w) first rest => w.text ++ "::".toList ++ (first.text ++ restText rest)

def Part.text : Part → Text
  | .plain w => w.text
  | .generic w arguments after => w.text ++ '<' :: (argumentsText arguments ++ '>' :: after.text)

def restText : List Part → Text
  | [] => []
  | p :: rest => '.' :: (p.text ++ restText rest)

def argumentsText : List Name → Text
  | [] => []
  | [n] => n.text
  | n :: m :: ns => n.text ++ ',' :: argumentsText (m :: ns)

end

namespace Name

def parts : Name → List Part
  | mk _ first rest => first :: rest

theorem parts_ne_nil (n : Name) : n.parts ≠ [] := by
  cases n with
  | mk aliased first rest => exact List.cons_ne_nil first rest

def last (n : Name) : Part :=
  n.parts.getLast n.parts_ne_nil

end Name

/-- What may stand in front of a part without a word of it being read: there are no type arguments
in it, and it ends with a qualifier. -/
structure Qualifies (q : Text) : Prop where
  no_arguments : '<' ∉ q
  last : ∀ c, q.getLast? = some c → isQualifierEnd c = true

theorem qualifies_nil : Qualifies [] where
  no_arguments := List.not_mem_nil
  last := by simp

theorem Qualifies.append_word {q : Text} (hq : Qualifies q) (w : Word) {signs : Text} {c : Char}
    (hsigns : '<' ∉ signs) (hlast : signs.getLast? = some c) (hc : isQualifierEnd c = true) :
    Qualifies (q ++ (w.text ++ signs)) where
  no_arguments := by
    have hword : '<' ∉ w.text := w.not_mem_text (by decide) (by decide)
    simp [hq.no_arguments, hword, hsigns]
  last := by
    intro d hd
    rw [← List.append_assoc, List.getLast?_append, hlast] at hd
    obtain rfl : c = d := by simpa using hd
    exact hc

theorem simple_append {q tail : Text} (hq : Qualifies q) (w : Word)
    (htail : ∀ c, tail.head? = some c → c = '<') :
    simple (q ++ (w.text ++ tail)) = w.identifier := by
  have hcut : (q ++ (w.text ++ tail)).takeWhile (· ≠ '<') = q ++ w.text := by
    rw [← List.append_assoc]
    apply Text.takeWhile_run
    · have hword : '<' ∉ w.text := w.not_mem_text (by decide) (by decide)
      intro c hc
      have hne : c ≠ '<' := by
        rintro rfl
        rcases List.mem_append.mp hc with h | h
        · exact hq.no_arguments h
        · exact hword h
      simpa using hne
    · intro c hc
      simp [htail c hc]
  have hlast : (q ++ w.text).reverse.takeWhile (fun c => !isQualifierEnd c) = w.text.reverse := by
    rw [List.reverse_append]
    apply Text.takeWhile_run
    · have hdot : '.' ∉ w.text := w.not_mem_text (by decide) (by decide)
      have hcolon : ':' ∉ w.text := w.not_mem_text (by decide) (by decide)
      intro c hc
      have hmem := List.mem_reverse.mp hc
      have hne : c ≠ '.' ∧ c ≠ ':' := by
        constructor
        · rintro rfl
          exact hdot hmem
        · rintro rfl
          exact hcolon hmem
      simp [isQualifierEnd, hne]
    · intro c hc
      rw [List.head?_reverse] at hc
      simp [hq.last c hc]
  simp only [simple, hcut, hlast, List.reverse_reverse, Word.trim_text]

theorem simple_part {q rest : Text} (hq : Qualifies q) {p : Part}
    (hp : p.HasArguments ∨ rest = []) : simple (q ++ (p.text ++ rest)) = p.identifier := by
  cases p with
  | plain w =>
    obtain rfl : rest = [] := by simpa [Part.HasArguments] using hp
    exact simple_append hq w (by simp)
  | generic w arguments after =>
    rw [Part.text, List.append_assoc, List.cons_append]
    exact simple_append hq w (by simp [eq_comm])

/-- Parts without type arguments are read over up to the part that decides. -/
theorem simple_parts {before : List Part} {p : Part} {after : List Part}
    (hbefore : ∀ r ∈ before, ¬ r.HasArguments) (hp : p.HasArguments ∨ after = []) {q : Text}
    (hq : Qualifies q) {first : Part} {rest : List Part}
    (hparts : first :: rest = before ++ p :: after) :
    simple (q ++ (first.text ++ restText rest)) = p.identifier := by
  induction before generalizing q first rest with
  | nil =>
    obtain ⟨rfl, rfl⟩ := List.cons.inj hparts
    apply simple_part hq
    apply hp.imp_right
    rintro rfl
    rfl
  | cons r before ih =>
    obtain ⟨hr, hmore⟩ := List.forall_mem_cons.mp hbefore
    obtain ⟨rfl, hrest⟩ := List.cons.inj hparts
    rcases rest with _ | ⟨second, rest⟩
    · simp at hrest
    cases first with
    | generic w arguments after => exact absurd trivial hr
    | plain w =>
      have hqualifier : Qualifies (q ++ (w.text ++ ['.'])) :=
        hq.append_word w (by decide) rfl rfl
      have h := ih hmore hqualifier hrest
      simpa [restText, Part.text] using h

theorem simple_of_parts {n : Name} {before : List Part} {p : Part} {after : List Part}
    (hparts : n.parts = before ++ p :: after) (hbefore : ∀ r ∈ before, ¬ r.HasArguments)
    (hp : p.HasArguments ∨ after = []) : simple n.text = p.identifier := by
  rcases n with ⟨_ | w, first, rest⟩
  · exact simple_parts hbefore hp qualifies_nil hparts
  · have hqualifier : Qualifies ([] ++ (w.text ++ "::".toList)) :=
      qualifies_nil.append_word w (by decide) rfl rfl
    exact simple_parts hbefore hp hqualifier hparts

/-- The simple name of a type name is the last identifier without its type arguments, as long as no
identifier before it has type arguments. The first identifier that has some is the simple name
otherwise, whatever its arguments are and whatever follows. -/
theorem simple_text (n : Name) :
    ((∀ p ∈ n.parts.dropLast, ¬ p.HasArguments) → simple n.text = n.last.identifier) ∧
      ∀ before p after, n.parts = before ++ p :: after → (∀ q ∈ before, ¬ q.HasArguments) →
        p.HasArguments → simple n.text = p.identifier := by
  constructor
  · intro hplain
    have hparts : n.parts = n.parts.dropLast ++ [n.last] :=
      (List.dropLast_concat_getLast n.parts_ne_nil).symm
    exact simple_of_parts hparts hplain (.inr rfl)
  · intro before p after hparts hbefore hp
    exact simple_of_parts hparts hbefore (.inl hp)

/-- The type arguments of the last identifier do not count, however deep names stand in them. -/
theorem simple_text_of_nested_arguments :
    simple "global::Game.Table<Map<int, Game.Score>>".toList = "Table".toList := by
  let key : Name := .mk none (.plain (.bare "int".toList (by decide))) []
  let game : Part := .plain (.bare "Game".toList (by decide))
  let score : Word := ⟨⟨[' '], by decide⟩, "Game".toList, .empty, by decide⟩
  let value : Name := .mk none (.plain score) [.plain (.bare "Score".toList (by decide))]
  let map : Name := .mk none (.generic (.bare "Map".toList (by decide)) [key, value] .empty) []
  let table : Part := .generic (.bare "Table".toList (by decide)) [map] .empty
  let name : Name := .mk (some (.bare "global".toList (by decide))) game [table]
  have hplain : ∀ p ∈ name.parts.dropLast, ¬ p.HasArguments := by
    intro p hp
    obtain rfl : p = game := by simpa [name, Name.parts] using hp
    exact id
  exact (simple_text name).1 hplain

/-- The type `Inner` of the generic type `Outer<int>` goes by the name of the generic type. -/
theorem simple_text_of_generic_qualifier : ¬ ∀ n : Name, simple n.text = n.last.identifier := by
  intro h
  let int : Name := .mk none (.plain (.bare "int".toList (by decide))) []
  let outer : Part := .generic (.bare "Outer".toList (by decide)) [int] .empty
  let inner : Part := .plain (.bare "Inner".toList (by decide))
  have hsimple : simple "Outer<int>.Inner".toList = "Inner".toList :=
    h (.mk none outer [inner])
  exact absurd hsimple (by decide)

end SceneAudit.TypeName
