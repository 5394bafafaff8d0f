import SceneAudit.Proofs.Yaml.Words

/-! # Scanning step by step

A scanner that has passed over white space and closed the block collections to its right is settled.
How a run goes on depends on the settled scanner only, and a step cuts one token off it. The states
in which a scanner stands between two tokens of a block mapping or of a flow mapping inside it are
given by the place, the open blocks and the tokens so far.
-/

namespace SceneAudit.Yaml.Scanner

/-- The scanner in front of the next token, with the block collections closed that end there. -/
def settle (s : Scanner) : Scanner :=
  s.skipSpace.closeBlocks s.skipSpace.cursor.column

def next (s : Scanner) : Option Scanner :=
  s.settle.scanToken

theorem scanToken_nil {s : Scanner} (h : s.cursor.rest = []) : s.scanToken = none := by
  rw [scanToken.eq_def, h]

theorem run_of_next {s s' : Scanner} (h : s.next = some s') (fuel : Nat) :
    run (fuel + 1) s = run fuel s' := by
  have hrest : s.settle.cursor.rest ≠ [] := by
    intro hnil
    rw [next, scanToken_nil hnil] at h
    contradiction
  obtain ⟨c, t, hc⟩ := List.exists_cons_of_ne_nil hrest
  rw [run.eq_def]
  simp only
  rw [show (s.skipSpace.closeBlocks s.skipSpace.cursor.column).cursor.rest = c :: t from hc]
  simp only
  rw [show (s.skipSpace.closeBlocks s.skipSpace.cursor.column).scanToken = some s' from h]

theorem run_of_settle {s s' : Scanner} (h : s.settle = s'.settle) (fuel : Nat) :
    run fuel s = run fuel s' := by
  cases fuel with
  | zero => rfl
  | succ fuel =>
    rw [run, run]
    simp only [settle] at h
    rw [h]

/-- The number of characters still to be read that are no spaces. -/
def todo (s : Scanner) : Nat :=
  s.cursor.rest.countP (· ≠ ' ')

/-- Scanning leads from one state to another, with a step for no more than each character that it
passes over and that is no space. -/
def Scans (s s' : Scanner) : Prop :=
  ∃ n, n + s'.todo ≤ s.todo ∧ ∀ fuel, run (n + fuel) s = run fuel s'

namespace Scans

variable {s s' s'' : Scanner}

theorem trans (h : Scans s s') (h' : Scans s' s'') : Scans s s'' := by
  obtain ⟨n, hn, hrun⟩ := h
  obtain ⟨m, hm, hrun'⟩ := h'
  refine ⟨n + m, by omega, fun fuel => ?_⟩
  rw [Nat.add_assoc, hrun, hrun']

theorem of_settle (h : s.settle = s'.settle) (htodo : s'.todo ≤ s.todo) : Scans s s' := by
  refine ⟨0, by omega, fun fuel => ?_⟩
  rw [Nat.zero_add]
  exact run_of_settle h fuel

theorem of_next (h : s.next = some s') (htodo : s'.todo < s.todo) : Scans s s' := by
  refine ⟨1, by omega, fun fuel => ?_⟩
  rw [Nat.add_comm]
  exact run_of_next h fuel

end Scans

def inBlock (cursor : Cursor) (indent : Int) (outer : List Int) (allowed : Bool)
    (tokens : List Token) : Scanner :=
  ⟨cursor, indent, outer, none, [], allowed, tokens, tokens.length⟩

/-- A scanner between two tokens of a flow collection that stands in a block mapping. -/
def inFlowOf (cursor : Cursor) (indent : Int) (outer : List Int) (allowed : Bool)
    (tokens : List Token) : Scanner :=
  ⟨cursor, indent, outer, none, [none], allowed, tokens, tokens.length⟩

def isSolid (c : Char) : Bool :=
  !Text.isBlank c && c != '#' && c.toNat != 0xFEFF

theorem isSolid_iff {c : Char} :
    isSolid c = true ↔ Text.isBlank c = false ∧ c ≠ '#' ∧ c.toNat ≠ 0xFEFF := by
  simp [isSolid, and_assoc]

theorem isSolid_of_isQuiet {c : Char} (h : isQuiet c = true) : isSolid c = true :=
  isSolid_iff.mpr ⟨isBlank_of_isQuiet h, ne_hash_of_isQuiet h, ne_mark_of_isQuiet h⟩

section Space

variable {flow allowed : Bool} {index line column : Nat}

theorem spaceFrom_cons {c : Char} {t : Text} (hbreak : isBreak c = false) (hhash : c ≠ '#') :
    spaceFrom flow allowed false index line column (c :: t) =
      if c == ' ' || (c == '\t' && (flow || !allowed)) || (column == 0 && c.toNat == 0xFEFF) then
        spaceFrom flow allowed false (index + 1) line (column + 1) t
      else (⟨c :: t, index, line, column⟩, allowed) := by
  have hne : c ≠ '\r' := by
    rintro rfl
    exact absurd hbreak (by decide)
  rw [spaceFrom.eq_def]
  split
  · contradiction
  · rename_i heq
    exact absurd (List.cons.inj heq).1 hne
  · rename_i heq
    obtain ⟨rfl, rfl⟩ := List.cons.inj heq
    rw [if_neg (by simp [hbreak]), if_neg (by simp [hhash])]

theorem spaceFrom_spaces (n : Nat) (t : Text) :
    spaceFrom flow allowed false index line column (List.replicate n ' ' ++ t) =
      spaceFrom flow allowed false (index + n) line (column + n) t := by
  induction n generalizing index column with
  | zero => rfl
  | succ n ih =>
    rw [List.replicate_succ, List.cons_append, spaceFrom_cons (by decide) (by decide), ih,
      Nat.add_assoc, Nat.add_comm 1, Nat.add_assoc, Nat.add_comm 1]
    rfl

theorem spaceFrom_feed (t : Text) :
    spaceFrom flow allowed false index line column ('\n' :: t) =
      spaceFrom flow (allowed || !flow) false (index + 1) (line + 1) 0 t := by
  rw [spaceFrom.eq_def]
  simp [isBreak]

theorem spaceFrom_stop {c : Char} {t : Text} (hc : isSolid c = true) :
    spaceFrom flow allowed false index line column (c :: t) =
      (⟨c :: t, index, line, column⟩, allowed) := by
  obtain ⟨hblank, hhash, hmark⟩ := isSolid_iff.mp hc
  have hbreak : isBreak c = false := by
    by_contra hbreak
    rw [isBlank_of_isBreak (Bool.of_not_eq_false hbreak)] at hblank
    contradiction
  have hspace : c ≠ ' ' := by
    rintro rfl
    exact absurd hblank (by decide)
  have htab : c ≠ '\t' := by
    rintro rfl
    exact absurd hblank (by decide)
  rw [spaceFrom_cons hbreak hhash, if_neg (by simp [hspace, htab, hmark])]

theorem spaceFrom_spaces_stop (n : Nat) {c : Char} {t : Text} (hc : isSolid c = true) :
    spaceFrom flow allowed false index line column (List.replicate n ' ' ++ c :: t) =
      (⟨c :: t, index + n, line, column + n⟩, allowed) := by
  rw [spaceFrom_spaces, spaceFrom_stop hc]

end Space

section Settle

variable {index line column : Nat} {indent : Int} {outer : List Int} {allowed : Bool}
  {tokens : List Token}

theorem closeFrom_of_le {s : Scanner} {column : Int} (h : s.indent ≤ column) (outers : List Int) :
    closeFrom column s outers = s := by
  cases outers with
  | nil => rfl
  | cons m outers => rw [closeFrom, if_neg (by omega)]

theorem closeBlocks_inBlock {cursor : Cursor} (h : indent ≤ column) :
    (inBlock cursor indent outer allowed tokens).closeBlocks column =
      inBlock cursor indent outer allowed tokens :=
  closeFrom_of_le h outer

theorem settle_inBlock (n : Nat) {c : Char} {t : Text} (hc : isSolid c = true)
    (hindent : indent ≤ (column + n : Nat)) :
    (inBlock ⟨List.replicate n ' ' ++ c :: t, index, line, column⟩ indent outer allowed
        tokens).settle =
      inBlock ⟨c :: t, index + n, line, column + n⟩ indent outer allowed tokens := by
  have hskip : (inBlock ⟨List.replicate n ' ' ++ c :: t, index, line, column⟩ indent outer allowed
      tokens).skipSpace = inBlock ⟨c :: t, index + n, line, column + n⟩ indent outer allowed
        tokens := by
    simp only [skipSpace, inBlock, spaceFrom_spaces_stop n hc]
  rw [settle, hskip]
  exact closeBlocks_inBlock hindent

theorem settle_of_solid {s : Scanner} {c : Char} {t : Text} (hrest : s.cursor.rest = c :: t)
    (hc : isSolid c = true) (h : s.inFlow = true ∨ s.indent ≤ s.cursor.column) : s.settle = s := by
  have hskip : s.skipSpace = s := by
    rw [skipSpace, hrest]
    simp only [spaceFrom_stop hc]
    rw [← hrest]
  rw [settle, hskip, closeBlocks]
  split
  · rfl
  · rename_i hflow
    exact closeFrom_of_le (h.resolve_left hflow) _

theorem settle_inFlowOf (n : Nat) {c : Char} {t : Text} (hc : isSolid c = true) :
    (inFlowOf ⟨List.replicate n ' ' ++ c :: t, index, line, column⟩ indent outer allowed
        tokens).settle =
      inFlowOf ⟨c :: t, index + n, line, column + n⟩ indent outer allowed tokens := by
  have hskip : (inFlowOf ⟨List.replicate n ' ' ++ c :: t, index, line, column⟩ indent outer allowed
      tokens).skipSpace = inFlowOf ⟨c :: t, index + n, line, column + n⟩ indent outer allowed
        tokens := by
    simp only [skipSpace, inFlowOf, spaceFrom_spaces_stop n hc]
  rw [settle, hskip]
  rfl

theorem scans_lineEnd (n : Nat) (more : Text) :
    Scans (inBlock ⟨List.replicate n ' ' ++ '\n' :: more, index, line, column⟩ indent outer allowed
        tokens)
      (inBlock ⟨more, index + n + 1, line + 1, 0⟩ indent outer true tokens) := by
  refine Scans.of_settle ?_ ?_
  · simp only [settle, skipSpace, inBlock, inFlow, List.isEmpty_nil, Bool.not_true,
      spaceFrom_spaces, spaceFrom_feed, Bool.not_false, Bool.or_true]
  · simp only [todo, inBlock, List.countP_append, List.countP_cons]
    omega

theorem scans_unindent (j : Nat) (t : Text) :
    Scans (inBlock ⟨t, index + j, line, j⟩ indent outer true tokens)
      (inBlock ⟨List.replicate j ' ' ++ t, index, line, 0⟩ indent outer true tokens) := by
  refine Scans.of_settle ?_ ?_
  · simp only [settle, skipSpace, inBlock, inFlow, spaceFrom_spaces, Nat.zero_add]
  · simp [todo, inBlock, List.countP_replicate]

theorem scans_dedent {k k' : Nat} {more : Text} (hmore : Outdented k more) (hk : k < k') :
    Scans (inBlock ⟨more, index, line, 0⟩ k' (indent :: outer) true tokens)
      (inBlock ⟨more, index, line, 0⟩ indent outer true (.blockEnd :: tokens)) := by
  have hclose : ∀ (cursor : Cursor) (column : Nat), column < k' →
      (inBlock cursor k' (indent :: outer) true tokens).closeBlocks column =
        (inBlock cursor indent outer true (.blockEnd :: tokens)).closeBlocks column := by
    intro cursor column hlt
    simp only [closeBlocks, inFlow, inBlock, List.isEmpty_nil, Bool.not_true, Bool.false_eq_true,
      if_false, closeFrom]
    rw [if_pos (by omega)]
    rfl
  refine Scans.of_settle ?_ (Nat.le_refl _)
  cases hmore with
  | nothing => exact hclose _ 0 (by omega)
  | line j c t hj hc =>
    simp only [settle, skipSpace, inBlock, spaceFrom_spaces_stop j (isSolid_of_isQuiet hc)]
    exact hclose _ (0 + j) (by omega)

end Settle

end SceneAudit.Yaml.Scanner
