import SceneAudit.Proofs.Text.Pieces
import SceneAudit.Registry.Identifier

/-! # Identifier lines

A line carries an identifier if it is a gap, the keyword, another gap, and a token that goes on as
far as it can. A sidecar has the identifier of its first such line, whatever stands below that line,
and none if there is no such line.
-/

namespace SceneAudit.Identifier

def IsGapText (t : Text) : Prop :=
  ∀ c ∈ t, c = ' ' ∨ c = '\t'

/-- Text without white space and comment signs. -/
def IsToken (t : Text) : Prop :=
  ∀ c ∈ t, Text.isBlank c = false ∧ c ≠ '#'

/-- The line has the form of an identifier line with this token. -/
inductive Carries : Text → Text → Prop where
  | intro {indent gap token rest : Text} (indented : IsGapText indent) (parted : IsGapText gap)
      (isToken : IsToken token) (nonempty : token ≠ [])
      (longest : ∀ c, rest.head? = some c → Text.isBlank c = true ∨ c = '#') :
      Carries (indent ++ ("guid:".toList ++ (gap ++ (token ++ rest)))) token

/-- The first line of a text that carries an identifier, in its place. -/
structure DecidedBy (text : Text) (front : List Text) (line back token : Text) : Prop where
  lineAt : Text.LineAt text front line back
  carries : Carries line token
  first : ∀ l ∈ front, ∀ u, ¬Carries l u

theorem isGap_iff {c : Char} : isGap c = true ↔ c = ' ' ∨ c = '\t' := by
  simp [isGap]

theorem isTokenChar_iff {c : Char} :
    isTokenChar c = true ↔ Text.isBlank c = false ∧ c ≠ '#' := by
  simp [isTokenChar]

theorem isTokenChar_eq_false_iff {c : Char} :
    isTokenChar c = false ↔ Text.isBlank c = true ∨ c = '#' := by
  rw [← Bool.not_eq_true, isTokenChar_iff, not_and_or, Bool.not_eq_false, not_not]

theorem isGap_eq_false_of_token {token : Text} (h : IsToken token) (rest : Text) {c : Char}
    (hc : (token ++ rest).head? = some c) (hne : token ≠ []) : isGap c = false := by
  rw [List.head?_append_of_ne_nil _ hne] at hc
  have hblank := (h c (List.mem_of_mem_head? hc)).1
  rw [Bool.eq_false_iff]
  intro hgap
  rcases isGap_iff.mp hgap with rfl | rfl <;> contradiction

theorem carries_of_ofLine? {line token : Text} (h : ofLine? line = some token) :
    Carries line token := by
  obtain ⟨behind, hline, hdrop, hindent, -⟩ := Text.exists_run isGap line
  rw [ofLine?, hdrop] at h
  cases hkeyword : Text.dropStart? keyword behind with
  | none => simp [hkeyword] at h
  | some t =>
    obtain rfl := Text.dropStart?_eq_some_iff.mp hkeyword
    obtain ⟨word, ht, hgapdrop, hgap, -⟩ := Text.exists_run isGap t
    obtain ⟨rest, hword, -, htoken, hrest⟩ := Text.exists_run isTokenChar word
    simp only [hkeyword, hgapdrop] at h
    split at h
    · contradiction
    · rename_i hne
      obtain rfl := Option.some.inj h
      have hcarries := Carries.intro (fun c hc => isGap_iff.mp (hindent c hc))
        (fun c hc => isGap_iff.mp (hgap c hc)) (fun c hc => isTokenChar_iff.mp (htoken c hc)) hne
        fun c hc => isTokenChar_eq_false_iff.mp (hrest c hc)
      rwa [← hword, ← ht, show "guid:".toList = keyword from rfl, ← hline] at hcarries

theorem Carries.ofLine?_eq {line token : Text} (h : Carries line token) :
    ofLine? line = some token := by
  obtain ⟨hindent, hgap, htoken, hne, hrest⟩ := h
  rename_i indent gap rest
  have hkeyword : (indent ++ ("guid:".toList ++ (gap ++ (token ++ rest)))).dropWhile isGap =
      keyword ++ (gap ++ (token ++ rest)) :=
    Text.dropWhile_run (fun c hc => isGap_iff.mpr (hindent c hc)) (by rintro c ⟨⟩; rfl)
  have hword : (gap ++ (token ++ rest)).dropWhile isGap = token ++ rest :=
    Text.dropWhile_run (fun c hc => isGap_iff.mpr (hgap c hc))
      fun c hc => isGap_eq_false_of_token htoken rest hc hne
  have htake : (token ++ rest).takeWhile isTokenChar = token :=
    Text.takeWhile_run (fun c hc => isTokenChar_iff.mpr (htoken c hc))
      fun c hc => isTokenChar_eq_false_iff.mpr (hrest c hc)
  rw [ofLine?, hkeyword, Text.dropStart?_append]
  simp only [hword, htake]

theorem ofLine?_eq_some_iff {line token : Text} :
    ofLine? line = some token ↔ Carries line token :=
  ⟨carries_of_ofLine?, Carries.ofLine?_eq⟩

theorem ofLine?_eq_none_iff {line : Text} : ofLine? line = none ↔ ∀ token, ¬Carries line token := by
  rw [Option.eq_none_iff_forall_ne_some]
  exact forall_congr' fun token => not_congr ofLine?_eq_some_iff

theorem Carries.within {line token : Text} (h : Carries line token) : token <:+: line := by
  obtain ⟨-, -, -, -, -⟩ := h
  rename_i indent gap rest
  exact ⟨indent ++ ("guid:".toList ++ gap), rest, by simp⟩

section Scan

variable {text line back token : Text} {front : List Text}

theorem scan?_eq_some_iff :
    scan? text = some token ↔ ∃ front line back, DecidedBy text front line back token := by
  rw [scan?, List.findSome?_eq_some_iff]
  constructor
  · rintro ⟨front, line, after, htext, hline, hfront⟩
    obtain ⟨back, hback⟩ := Text.exists_lineAt_iff.mpr ⟨after, htext⟩
    exact ⟨front, line, back, hback, carries_of_ofLine? hline,
      fun l hl => ofLine?_eq_none_iff.mp (hfront l hl)⟩
  · rintro ⟨front, line, back, hlineAt, hcarries, hfirst⟩
    obtain ⟨after, hafter⟩ := Text.exists_lineAt_iff.mp ⟨back, hlineAt⟩
    exact ⟨front, line, after, hafter, hcarries.ofLine?_eq,
      fun l hl => ofLine?_eq_none_iff.mpr (hfirst l hl)⟩

theorem scan?_eq_none_iff : scan? text = none ↔
    ∀ front line back, Text.LineAt text front line back → ∀ token, ¬Carries line token := by
  rw [scan?, List.findSome?_eq_none_iff]
  constructor
  · intro h front line back hlineAt
    obtain ⟨after, hafter⟩ := Text.exists_lineAt_iff.mp ⟨back, hlineAt⟩
    exact ofLine?_eq_none_iff.mp (h line (by simp [hafter]))
  · intro h line hline
    obtain ⟨front, after, htext⟩ := List.append_of_mem hline
    obtain ⟨back, hlineAt⟩ := Text.exists_lineAt_iff.mpr ⟨after, htext⟩
    exact ofLine?_eq_none_iff.mpr (h front line back hlineAt)

theorem DecidedBy.replaced (h : DecidedBy text front line back token) {back' : Text}
    (hback' : Text.EndsLine back') :
    DecidedBy (Text.unlines front ++ (line ++ back')) front line back' token :=
  ⟨⟨rfl, h.lineAt.front_whole, h.lineAt.line_whole, hback'⟩, h.carries, h.first⟩

theorem Carries.isToken (h : Carries line token) : IsToken token := by
  cases h
  assumption

theorem Carries.ne_nil (h : Carries line token) : token ≠ [] := by
  cases h
  assumption

end Scan

/-- A sidecar has the identifier of its first identifier line, and none exactly if it has no such
line. The identifier is a nonempty part of that line without white space and comment signs, and
whatever stands below the line has no say in it. -/
theorem first_line_decides (text : Text) :
    (∀ token, scan? text = some token ↔ ∃ front line back, DecidedBy text front line back token) ∧
    (scan? text = none ↔
      ∀ front line back, Text.LineAt text front line back → ∀ token, ¬Carries line token) ∧
    (∀ front line back token, DecidedBy text front line back token →
      token ≠ [] ∧ IsToken token ∧ token <:+: line ∧ '\n' ∉ token ∧
      ∀ back', Text.EndsLine back' →
        scan? (Text.unlines front ++ (line ++ back')) = some token) := by
  refine ⟨fun token => scan?_eq_some_iff, scan?_eq_none_iff, ?_⟩
  intro front line back token h
  have hwithin : token <:+: line := h.carries.within
  refine ⟨h.carries.ne_nil, h.carries.isToken, hwithin, ?_, ?_⟩
  · exact fun hfeed => h.lineAt.line_whole (hwithin.mem hfeed)
  · exact fun back' hback' => scan?_eq_some_iff.mpr ⟨front, line, back', h.replaced hback'⟩

/-- Neither a keyword inside a line nor one behind a lone carriage return counts, and a keyword
without a token does not borrow from the next line. -/
example : scan? "# guid: a\n\rguid: b\nguid:\n \tguid:\tc#d\nguid: e".toList = some ['c'] := by
  decide

end SceneAudit.Identifier
