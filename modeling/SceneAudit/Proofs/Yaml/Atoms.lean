import SceneAudit.Proofs.Yaml.Tokens

/-! # Scalars as they are written

A scalar stands on one line, plain or between quotes. As the value of a key it makes one token, in a
flow mapping in front of the next sign and in a block mapping in front of the next line.
-/

namespace SceneAudit.Yaml

/-- A scalar as it is written on one line. -/
inductive Atom where
  | plain (t : Text)
  | single (t : Text)
  | double (t : Text)
  deriving DecidableEq, Repr

namespace Atom

/-- The text of the scalar with its quotes. -/
def text : Atom → Text
  | plain t => t
  | single t => '\'' :: (t ++ ['\''])
  | double t => '"' :: (t ++ ['"'])

/-- What stands between the quotes. -/
def content : Atom → Text
  | plain t => t
  | single t => t
  | double t => t

def style : Atom → ScalarStyle
  | plain _ => .plain
  | single _ => .singleQuoted
  | double _ => .doubleQuoted

/-- The characters of the scalar stand for themselves. -/
def IsVerbatim : Atom → Prop
  | plain t => IsPlain t
  | single t => ∀ c ∈ t, isQuotable c = true
  | double t => ∀ c ∈ t, isQuotable c = true

instance : DecidablePred IsVerbatim := fun a =>
  match a with
  | plain t => inferInstanceAs (Decidable (IsPlain t))
  | single t => inferInstanceAs (Decidable (∀ c ∈ t, isQuotable c = true))
  | double t => inferInstanceAs (Decidable (∀ c ∈ t, isQuotable c = true))

/-- The token of the scalar. -/
def token (a : Atom) : Token :=
  .scalar a.style a.content

variable {a : Atom}

theorem eq_plain (h : a.style = .plain) : ∃ t, a = plain t := by
  cases a with
  | plain t => exact ⟨t, rfl⟩
  | single t => contradiction
  | double t => contradiction

theorem IsVerbatim.head (h : a.IsVerbatim) : ∃ c t, a.text = c :: t ∧ Scanner.isSolid c = true := by
  cases a with
  | plain t =>
    obtain ⟨c, u, rfl⟩ := List.exists_cons_of_ne_nil (IsPlain.ne_nil h)
    exact ⟨c, u, rfl, Scanner.isSolid_of_isQuiet (isQuiet_of_startsWord h.start)⟩
  | single t => exact ⟨_, _, rfl, by decide⟩
  | double t => exact ⟨_, _, rfl, by decide⟩

theorem IsVerbatim.countP_pos (h : a.IsVerbatim) : 0 < a.text.countP (· ≠ ' ') := by
  obtain ⟨c, t, htext, hsolid⟩ := h.head
  refine List.countP_pos_iff.mpr ⟨c, by simp [htext], ?_⟩
  refine decide_eq_true ?_
  rintro rfl
  exact absurd hsolid (by decide)

end Atom

namespace Scanner

variable {index line column : Nat} {indent : Int} {outer : List Int} {tokens : List Token}

theorem scanKeyed_of {s : Scanner} {t : Token} {cursor : Cursor}
    {read : Cursor → Option (Token × Cursor)} (hs : s.keyAllowed = false)
    (hread : read s.cursor = some (t, cursor)) :
    s.scanKeyed read = some (((s.moveTo cursor).emit t).allowKey false) := by
  rw [scanKeyed, saveKey, hs]
  simp [hread]

theorem scanPlain_of {s : Scanner} {t : Text} {cursor : Cursor} {broken : Bool}
    (hs : s.keyAllowed = false)
    (hread : plainScalar s.inFlow (s.indent + 1).toNat s.cursor = some (t, cursor, broken)) :
    s.scanPlain = some (((s.moveTo cursor).emit (.scalar .plain t)).allowKey broken) := by
  rw [scanPlain, saveKey, hs]
  simp [hread]

theorem scanToken_single {s : Scanner} {t : Text} (hrest : s.cursor.rest = '\'' :: t) :
    s.scanToken = s.scanKeyed fun cur => (quotedScalar true cur).map fun (t, cur) =>
      (.scalar .singleQuoted t, cur) := by
  rw [scanToken, hrest]
  simp [atMarker_of_ne (show '\'' ≠ '-' by decide), atMarker_of_ne (show '\'' ≠ '.' by decide)]

theorem scanToken_double {s : Scanner} {t : Text} (hrest : s.cursor.rest = '"' :: t) :
    s.scanToken = s.scanKeyed fun cur => (quotedScalar false cur).map fun (t, cur) =>
      (.scalar .doubleQuoted t, cur) := by
  rw [scanToken, hrest]
  simp [atMarker_of_ne (show '"' ≠ '-' by decide), atMarker_of_ne (show '"' ≠ '.' by decide)]

theorem scanToken_quoted {s : Scanner} {a : Atom} (ha : a.IsVerbatim) (hquoted : a.style ≠ .plain)
    (hs : s.keyAllowed = false) {rest : Text} (hrest : s.cursor.rest = a.text ++ rest)
    (hhead : rest.head? ≠ some '\'') :
    s.scanToken = some (((s.moveTo ⟨rest, s.cursor.index + a.text.length, s.cursor.line,
      s.cursor.column + a.text.length⟩).emit a.token).allowKey false) := by
  cases a with
  | plain t => exact absurd rfl hquoted
  | single t =>
    have hrest' : s.cursor.rest = '\'' :: (t ++ '\'' :: rest) := by
      rw [hrest, Atom.text, List.cons_append, List.append_assoc, List.singleton_append]
    rw [scanToken_single hrest']
    refine scanKeyed_of hs ?_
    rw [quotedScalar, if_pos rfl, Cursor.skip, hrest', List.drop_succ_cons, List.drop_zero,
      singleFrom_append ha (Nat.succ_pos _) hhead]
    simp only [Option.map_some, Atom.text, List.length_cons, List.length_append, List.length_nil,
      Atom.token, Atom.style, Atom.content, List.reverse_nil, List.nil_append]
    congr 3 <;> omega
  | double t =>
    have hrest' : s.cursor.rest = '"' :: (t ++ '"' :: rest) := by
      rw [hrest, Atom.text, List.cons_append, List.append_assoc, List.singleton_append]
    rw [scanToken_double hrest']
    refine scanKeyed_of hs ?_
    rw [quotedScalar, if_neg Bool.false_ne_true, Cursor.skip, hrest', List.drop_succ_cons,
      List.drop_zero, doubleFrom_append ha (Nat.succ_pos _)]
    simp only [Option.map_some, Atom.text, List.length_cons, List.length_append, List.length_nil,
      Atom.token, Atom.style, Atom.content, List.reverse_nil, List.nil_append]
    congr 3 <;> omega

theorem next_atom {a : Atom} (ha : a.IsVerbatim) {x : Char} (hx : isFlowSign x = true) (rest : Text)
    (hindent : indent ≤ column) :
    (inFlowOf ⟨' ' :: (a.text ++ x :: rest), index, line, column⟩ indent outer false tokens).next =
      some (inFlowOf ⟨x :: rest, index + 1 + a.text.length, line, column + 1 + a.text.length⟩ indent
        outer false (a.token :: tokens)) := by
  obtain ⟨c, t, htext, hsolid⟩ := ha.head
  have hsettle : (inFlowOf ⟨' ' :: (a.text ++ x :: rest), index, line, column⟩ indent outer false
      tokens).settle = inFlowOf ⟨a.text ++ x :: rest, index + 1, line, column + 1⟩ indent outer
        false tokens := by
    rw [htext]
    exact settle_inFlowOf 1 hsolid
  rw [next, hsettle]
  by_cases hquoted : a.style = .plain
  · obtain ⟨t, rfl⟩ := Atom.eq_plain hquoted
    have hread : plainScalar true (indent + 1).toNat
        ⟨t ++ x :: rest, index + 1, line, column + 1⟩ =
          some (t, ⟨x :: rest, index + 1 + t.length, line, column + 1 + t.length⟩, false) := by
      rw [plainScalar, plainFrom_append ha.chars ha.last ha.ne_nil rfl (Nat.succ_pos _)
        (by omega), plainFrom_flowSign hx]
      simp [Gap.joined, Gap.empty]
    rw [scanToken_plain rfl (startsWord_append ha.start _) (fun hzero => by
      simp only [inFlowOf] at hzero
      omega)]
    exact scanPlain_of rfl hread
  · have hhead : (x :: rest).head? ≠ some '\'' := by
      rintro ⟨⟩
      exact absurd hx (by decide)
    rw [scanToken_quoted ha hquoted rfl rfl hhead]
    rfl

theorem scans_atom {a : Atom} (ha : a.IsVerbatim) {k : Nat} {more : Text}
    (hmore : Outdented k more) (hindent : k < column) :
    ∃ index' line', Scans
      (inBlock ⟨' ' :: (a.text ++ '\n' :: more), index, line, column⟩ k outer false tokens)
      (inBlock ⟨more, index', line', 0⟩ k outer true (a.token :: tokens)) := by
  obtain ⟨c, t, htext, hsolid⟩ := ha.head
  have hsettle : (inBlock ⟨' ' :: (a.text ++ '\n' :: more), index, line, column⟩ k outer false
      tokens).settle = inBlock ⟨a.text ++ '\n' :: more, index + 1, line, column + 1⟩ k outer
        false tokens := by
    rw [htext]
    exact settle_inBlock 1 hsolid (by omega)
  by_cases hquoted : a.style = .plain
  · obtain ⟨t, rfl⟩ := Atom.eq_plain hquoted
    have hword : plainScalar false ((k : Int) + 1).toNat
        ⟨t ++ '\n' :: more, index + 1, line, column + 1⟩ =
          plainFrom false (k + 1) t.reverse none (index + 1 + t.length) line (column + 1 + t.length)
            ('\n' :: more) := by
      rw [plainScalar, plainFrom_append ha.chars ha.last ha.ne_nil rfl (Nat.succ_pos _)
        (by omega)]
      simp [Gap.joined, Gap.empty]
    obtain ⟨j, u, rfl, hread⟩ : ∃ j u, more = List.replicate j ' ' ++ u ∧
        plainFrom false (k + 1) t.reverse none (index + 1 + t.length) line (column + 1 + t.length)
            ('\n' :: more) =
          some (t.reverse.reverse, ⟨u, index + 1 + t.length + 1 + j, line + 1, j⟩, true) :=
      plainFrom_lineEnd hmore (Nat.lt_succ_self k)
    rw [← hword, List.reverse_reverse] at hread
    have hnext : (inBlock ⟨' ' :: ((Atom.plain t).text ++ '\n' :: (List.replicate j ' ' ++ u)),
        index, line, column⟩ k outer false tokens).next =
          some (inBlock ⟨u, index + 1 + t.length + 1 + j, line + 1, j⟩ k outer true
            ((Atom.plain t).token :: tokens)) := by
      rw [next, hsettle, scanToken_plain rfl (startsWord_append ha.start _) (fun hzero => by
        simp only [inBlock] at hzero
        omega)]
      exact scanPlain_of rfl hread
    refine ⟨_, _, (Scans.of_next hnext ?_).trans (scans_unindent j u)⟩
    simp [todo, inBlock, List.countP_append, List.countP_replicate]
    omega
  · have hnext : (inBlock ⟨' ' :: (a.text ++ '\n' :: more), index, line, column⟩ k outer false
        tokens).next = some (inBlock ⟨'\n' :: more, index + 1 + a.text.length, line,
          column + 1 + a.text.length⟩ k outer false (a.token :: tokens)) := by
      rw [next, hsettle, scanToken_quoted ha hquoted rfl rfl (by simp)]
      rfl
    refine ⟨_, _, (Scans.of_next hnext ?_).trans (scans_lineEnd 0 more)⟩
    have hpos := ha.countP_pos
    simp only [todo, inBlock, List.countP_append, List.countP_cons]
    omega

end Scanner

end SceneAudit.Yaml
