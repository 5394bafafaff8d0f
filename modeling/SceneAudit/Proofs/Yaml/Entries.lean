import SceneAudit.Proofs.Yaml.Atoms

/-! # Entries of mappings

The text behind the colon of a key is cut into the same tokens wherever the entry stands: what
matters is only the column of the key. Block mappings are built from such entries at one column, and
may themselves stand behind a colon.
-/

namespace SceneAudit.Yaml

open Scanner

/-- Behind the colon of a key at column `k`, a text up to the next line makes these tokens. -/
structure Cuts (k : Nat) (text : Text) (tokens : List Token) : Prop where
  allowed : ∀ c ∈ text, isAllowed c = true
  gap : ∀ more, atWordEnd (text ++ more) = true
  scans : ∀ {more : Text}, Outdented k more → ∀ {index line column : Nat}, k < column →
    ∀ {outer : List Int} {before : List Token}, ∃ index' line',
      Scans (inBlock ⟨text ++ more, index, line, column⟩ k outer false before)
        (inBlock ⟨more, index', line', 0⟩ k outer true (tokens.reverse ++ before))

def IsInline (t : Text) : Prop :=
  ∀ c ∈ t, isAllowed c = true ∧ isBreak c = false

namespace IsInline

variable {s t : Text}

theorem append (hs : IsInline s) (ht : IsInline t) : IsInline (s ++ t) := by
  intro c hc
  rcases List.mem_append.mp hc with hc | hc
  · exact hs c hc
  · exact ht c hc

theorem cons {c : Char} (hc : isAllowed c = true ∧ isBreak c = false) (ht : IsInline t) :
    IsInline (c :: t) :=
  List.forall_mem_cons.mpr ⟨hc, ht⟩

theorem spaces (n : Nat) : IsInline (List.replicate n ' ') := by
  intro c hc
  rw [List.eq_of_mem_replicate hc]
  decide

theorem of_quiet (h : ∀ c ∈ t, isQuiet c = true ∨ c = ' ') : IsInline t := by
  intro c hc
  rcases h c hc with hquiet | rfl
  · exact ⟨isAllowed_of_isQuiet hquiet, isBreak_of_isQuiet hquiet⟩
  · decide

theorem allowed (h : IsInline t) : ∀ c ∈ t ++ ['\n'], isAllowed c = true := by
  intro c hc
  rcases List.mem_append.mp hc with hc | hc
  · exact (h c hc).1
  · rw [List.mem_singleton.mp hc]
    rfl

end IsInline

theorem IsKey.isInline {key : Text} (h : IsKey key) : IsInline key :=
  .of_quiet h.isPlain.chars

theorem Atom.IsVerbatim.isInline {a : Atom} (h : a.IsVerbatim) : IsInline a.text := by
  have hquoted : ∀ t : Text, (∀ c ∈ t, isQuotable c = true) → IsInline t := fun t ht =>
    .of_quiet fun c hc => Or.inl (isQuotable_iff.mp (ht c hc)).1
  cases a with
  | plain t => exact .of_quiet (IsPlain.chars h)
  | single t => exact .cons (by decide) ((hquoted t h).append (.cons (by decide) (.spaces 0)))
  | double t => exact .cons (by decide) ((hquoted t h).append (.cons (by decide) (.spaces 0)))

section Values

variable {k : Nat}

theorem cuts_nothing (n : Nat) : Cuts k (List.replicate n ' ' ++ ['\n']) [] where
  allowed := (IsInline.spaces n).allowed
  gap := by
    intro more
    cases n with
    | zero => rfl
    | succ n => rfl
  scans := by
    intro more hmore index line column hk outer before
    rw [List.append_assoc]
    exact ⟨_, _, scans_lineEnd n more⟩

theorem cuts_atom {a : Atom} (ha : a.IsVerbatim) :
    Cuts k (' ' :: (a.text ++ ['\n'])) [a.token] where
  allowed := List.forall_mem_cons.mpr ⟨rfl, ha.isInline.allowed⟩
  gap := fun _ => rfl
  scans := by
    intro more hmore index line column hk outer before
    rw [List.cons_append, List.append_assoc]
    exact scans_atom ha hmore hk

theorem cuts_noItems : Cuts k " []\n".toList [.flowSequenceStart, .flowSequenceEnd] where
  allowed := by decide
  gap := fun _ => rfl
  scans := by
    intro more hmore index line column hk outer before
    have hopen : Scans (inBlock ⟨' ' :: '[' :: ']' :: '\n' :: more, index, line, column⟩ k outer
        false before) _ :=
      Scans.of_next (next_openFlow (Or.inl ⟨rfl, rfl⟩) (by omega))
        (by simp [todo, inBlock, inFlowOf])
    have hclose : Scans (inFlowOf ⟨']' :: '\n' :: more, index + 1 + 1, line, column + 1 + 1⟩ k outer
        true (.flowSequenceStart :: before)) _ :=
      Scans.of_next (next_closeFlow (Or.inl ⟨rfl, rfl⟩)) (by simp [todo, inBlock, inFlowOf])
    exact ⟨_, _, (hopen.trans hclose).trans (scans_lineEnd 0 more)⟩

end Values

/-- The keys and scalars of a flow mapping may be written as they are. -/
def IsFlow (entries : List (Text × Atom)) : Prop :=
  ∀ e ∈ entries, IsKey e.1 ∧ e.2.IsVerbatim

def flowEntry (e : Text × Atom) (rest : Text) : Text :=
  e.1 ++ ':' :: ' ' :: (e.2.text ++ rest)

/-- The entries of a flow mapping behind the first one, up to its end. -/
def flowRest : List (Text × Atom) → Text
  | [] => ['\x7d']
  | e :: entries => ',' :: ' ' :: flowEntry e (flowRest entries)

def flowText : List (Text × Atom) → Text
  | [] => ' ' :: '\x7b' :: flowRest []
  | e :: entries => ' ' :: '\x7b' :: flowEntry e (flowRest entries)

def entryTokens (e : Text × Atom) : List Token :=
  [.key, .scalar .plain e.1, .value, e.2.token]

def flowRestTokens : List (Text × Atom) → List Token
  | [] => [.flowMappingEnd]
  | e :: entries => .flowEntry :: (entryTokens e ++ flowRestTokens entries)

def flowTokens : List (Text × Atom) → List Token
  | [] => [.flowMappingStart, .flowMappingEnd]
  | e :: entries => .flowMappingStart :: (entryTokens e ++ flowRestTokens entries)

theorem IsKey.countP_pos {key : Text} (h : IsKey key) : 0 < key.countP (· ≠ ' ') :=
  Atom.IsVerbatim.countP_pos (show (Atom.plain key).IsVerbatim from h.isPlain)

section Flow

variable {index line column k : Nat} {outer : List Int} {before : List Token}

theorem scans_flowEntry {e : Text × Atom} (he : IsKey e.1 ∧ e.2.IsVerbatim) (n : Nat) {x : Char}
    (hx : isFlowSign x = true) (rest : Text) (hcol : k < column) :
    ∃ index' column', k < column' ∧ Scans
      (inFlowOf ⟨List.replicate n ' ' ++ flowEntry e (x :: rest), index, line, column⟩ k outer true
        before)
      (inFlowOf ⟨x :: rest, index', line, column'⟩ k outer false
        ((entryTokens e).reverse ++ before)) := by
  obtain ⟨key, a⟩ := e
  obtain ⟨hkey, ha⟩ := he
  have hkeyPos : 0 < key.countP (· ≠ ' ') := hkey.countP_pos
  have haPos : 0 < a.text.countP (· ≠ ' ') := ha.countP_pos
  have hgap : atWordEnd (' ' :: (a.text ++ x :: rest)) = true := rfl
  refine ⟨_, _, ?_, ((Scans.of_next (next_flowKey hkey hgap n (by omega)) ?_).trans
    (Scans.of_next (next_flowColon hkey hgap) ?_)).trans
      (Scans.of_next (next_atom ha hx rest (by omega)) ?_)⟩
  · omega
  · simp only [todo, inFlowOf, List.countP_append, List.countP_cons]
    omega
  · simp [todo, inFlowOf]
  · simp only [todo, inFlowOf, List.countP_append, List.countP_cons]
    omega

theorem flowEntry_append (e : Text × Atom) (rest more : Text) :
    flowEntry e rest ++ more = flowEntry e (rest ++ more) := by
  simp [flowEntry]

theorem flowRest_head (entries : List (Text × Atom)) :
    ∃ x rest, flowRest entries = x :: rest ∧ isFlowSign x = true := by
  cases entries with
  | nil => exact ⟨_, _, rfl, rfl⟩
  | cons e entries => exact ⟨_, _, rfl, rfl⟩

theorem scans_flowRest {allowed : Bool} {entries : List (Text × Atom)} (h : IsFlow entries)
    (more : Text) (hcol : k < column) : ∃ index' line', Scans
      (inFlowOf ⟨flowRest entries ++ '\n' :: more, index, line, column⟩ k outer allowed before)
      (inBlock ⟨more, index', line', 0⟩ k outer true
        ((flowRestTokens entries).reverse ++ before)) := by
  induction entries generalizing index column before allowed with
  | nil =>
    have hclose : Scans (inFlowOf ⟨'\x7d' :: '\n' :: more, index, line, column⟩ k outer allowed
        before) _ :=
      Scans.of_next (next_closeFlow (Or.inr ⟨rfl, rfl⟩)) (by simp [todo, inBlock, inFlowOf])
    exact ⟨_, _, hclose.trans (scans_lineEnd 0 more)⟩
  | cons e entries ih =>
    obtain ⟨he, hrest⟩ := List.forall_mem_cons.mp h
    obtain ⟨x, rest, heq, hx⟩ := flowRest_head entries
    have htext : flowRest (e :: entries) ++ '\n' :: more =
        ',' :: (List.replicate 1 ' ' ++ flowEntry e (x :: (rest ++ '\n' :: more))) := by
      rw [flowRest, List.cons_append, List.cons_append, flowEntry_append, heq]
      rfl
    have hcomma : ∀ u : Text, Scans
        (inFlowOf ⟨',' :: u, index, line, column⟩ k outer allowed before)
        (inFlowOf ⟨u, index + 1, line, column + 1⟩ k outer true (.flowEntry :: before)) := fun u =>
      Scans.of_next next_comma (by simp [todo, inFlowOf])
    obtain ⟨index', column', hcol', hentry⟩ := scans_flowEntry he 1 hx (rest ++ '\n' :: more)
      (show k < column + 1 by omega)
    obtain ⟨index'', line'', hend⟩ := ih hrest hcol'
    rw [heq] at hend
    have hall := ((hcomma _).trans hentry).trans hend
    rw [← List.append_assoc, ← List.reverse_append] at hall
    rw [htext]
    exact ⟨index'', line'', by simpa [flowRestTokens] using hall⟩

end Flow

theorem isInline_flowEntry {e : Text × Atom} (he : IsKey e.1 ∧ e.2.IsVerbatim) {rest : Text}
    (hrest : IsInline rest) : IsInline (flowEntry e rest) :=
  he.1.isInline.append (.cons (by decide) (.cons (by decide) (he.2.isInline.append hrest)))

theorem isInline_flowRest {entries : List (Text × Atom)} (h : IsFlow entries) :
    IsInline (flowRest entries) := by
  induction entries with
  | nil => exact .cons (by decide) (.spaces 0)
  | cons e entries ih =>
    obtain ⟨he, hrest⟩ := List.forall_mem_cons.mp h
    exact .cons (by decide) (.cons (by decide) (isInline_flowEntry he (ih hrest)))

theorem isInline_flowText {entries : List (Text × Atom)} (h : IsFlow entries) :
    IsInline (flowText entries) := by
  cases entries with
  | nil => exact .cons (by decide) (.cons (by decide) (isInline_flowRest h))
  | cons e entries =>
    obtain ⟨he, hrest⟩ := List.forall_mem_cons.mp h
    exact .cons (by decide) (.cons (by decide) (isInline_flowEntry he (isInline_flowRest hrest)))

theorem cuts_flow {k : Nat} {entries : List (Text × Atom)} (h : IsFlow entries) :
    Cuts k (flowText entries ++ ['\n']) (flowTokens entries) where
  allowed := (isInline_flowText h).allowed
  gap := by
    intro more
    cases entries <;> rfl
  scans := by
    intro more hmore index line column hk outer before
    have hopen : ∀ rest : Text, Scans (inBlock ⟨' ' :: '\x7b' :: rest, index, line, column⟩ k outer
        false before) (inFlowOf ⟨rest, index + 1 + 1, line, column + 1 + 1⟩ k outer true
          (.flowMappingStart :: before)) := fun rest =>
      Scans.of_next (next_openFlow (Or.inr ⟨rfl, rfl⟩) (by omega))
        (by simp [todo, inBlock, inFlowOf])
    cases entries with
    | nil =>
      obtain ⟨index', line', hend⟩ := scans_flowRest h more (show k < column + 1 + 1 by omega)
      exact ⟨index', line', (hopen _).trans hend⟩
    | cons e entries =>
      obtain ⟨he, hrest⟩ := List.forall_mem_cons.mp h
      obtain ⟨x, rest, heq, hx⟩ := flowRest_head entries
      obtain ⟨index', column', hcol', hentry⟩ := scans_flowEntry he 0 hx
        (rest ++ '\n' :: more) (show k < column + 1 + 1 by omega)
      obtain ⟨index'', line'', hend⟩ := scans_flowRest hrest more hcol'
      rw [heq] at hend
      have hall := ((hopen _).trans hentry).trans hend
      rw [← List.append_assoc, ← List.reverse_append] at hall
      have htext : flowText (e :: entries) ++ ['\n'] ++ more =
          ' ' :: '\x7b' :: (List.replicate 0 ' ' ++ flowEntry e (x :: (rest ++ '\n' :: more))) := by
        rw [List.append_assoc, flowText, List.cons_append, List.cons_append, flowEntry_append, heq]
        rfl
      rw [htext]
      exact ⟨index'', line'', by simpa [flowTokens] using hall⟩

/-- Entries of a block mapping at column `k` and their tokens. -/
inductive CutsEntries (k : Nat) : Text → List Token → Prop where
  | nil : CutsEntries k [] []
  | cons {key text rest : Text} {tokens more : List Token} (hkey : IsKey key)
      (htext : Cuts k text tokens) (hrest : CutsEntries k rest more) :
      CutsEntries k (List.replicate k ' ' ++ (key ++ ':' :: (text ++ rest)))
        (.key :: .scalar .plain key :: .value :: (tokens ++ more))

namespace CutsEntries

variable {k : Nat} {text : Text} {tokens : List Token}

theorem allowed (h : CutsEntries k text tokens) : ∀ c ∈ text, isAllowed c = true := by
  induction h with
  | nil => simp
  | cons hkey htext hrest ih =>
    intro c hc
    simp only [List.mem_append, List.mem_cons] at hc
    rcases hc with hc | hc | rfl | hc | hc
    · rw [List.eq_of_mem_replicate hc]
      rfl
    · exact isAllowed_of_isQuiet (hkey.chars c hc)
    · rfl
    · exact htext.allowed c hc
    · exact ih c hc

theorem outdented {more : Text} (h : CutsEntries k text tokens) (hmore : Outdented k more) :
    Outdented k (text ++ more) := by
  cases h with
  | nil => exact hmore
  | @cons key text rest _ _ hkey htext hrest =>
    obtain ⟨c, t, rfl, hc⟩ := hkey.head
    simpa using Outdented.line k c (t ++ ':' :: (text ++ (rest ++ more))) (Nat.le_refl k) hc

theorem scans_key {key v : Text} (hkey : IsKey key) (hv : atWordEnd v = true) {indent : Int}
    (hindent : indent ≤ k) (index line : Nat) (outer : List Int) (before : List Token) :
    Scans (inBlock ⟨List.replicate k ' ' ++ (key ++ ':' :: v), index, line, 0⟩ indent outer true
        before)
      (if indent < k then
        inBlock ⟨v, index + k + key.length + 1, line, k + key.length + 1⟩ k (indent :: outer) false
          (.value :: .scalar .plain key :: .key :: .blockMappingStart :: before)
      else
        inBlock ⟨v, index + k + key.length + 1, line, k + key.length + 1⟩ indent outer false
          (.value :: .scalar .plain key :: .key :: before)) := by
  have hpos : 0 < key.countP (· ≠ ' ') := hkey.countP_pos
  refine (Scans.of_next (next_key hkey hv hindent) ?_).trans
    (Scans.of_next (next_colon hkey hv hindent (index + k)) ?_)
  · simp only [todo, inBlock, List.countP_append, List.countP_cons]
    omega
  · split <;> simp [todo, inBlock]

theorem scans (h : CutsEntries k text tokens) {more : Text} (hmore : Outdented k more)
    (index line : Nat) (outer : List Int) (before : List Token) :
    ∃ index' line', Scans
      (inBlock ⟨text ++ more, index, line, 0⟩ k outer true before)
      (inBlock ⟨more, index', line', 0⟩ k outer true (tokens.reverse ++ before)) := by
  induction h generalizing index line before with
  | nil => exact ⟨index, line, Scans.of_settle rfl (Nat.le_refl _)⟩
  | @cons key text rest tokens restTokens hkey htext hrest ih =>
    have hfirst := scans_key hkey (htext.gap (rest ++ more)) (Int.le_refl k) index line outer before
    rw [if_neg (by omega)] at hfirst
    obtain ⟨index', line', hvalue⟩ := htext.scans (hrest.outdented hmore)
      (show k < k + key.length + 1 by omega)
    obtain ⟨index'', line'', hlast⟩ := ih index' line' _
    refine ⟨index'', line'', ?_⟩
    have hall := (hfirst.trans hvalue).trans hlast
    simpa using hall

theorem scans_opening (h : CutsEntries k text tokens) (hne : text ≠ []) {more : Text}
    (hmore : Outdented k more) {indent : Int} (hindent : indent < k) (index line : Nat)
    (outer : List Int) (before : List Token) :
    ∃ index' line', Scans
      (inBlock ⟨text ++ more, index, line, 0⟩ indent outer true before)
      (inBlock ⟨more, index', line', 0⟩ k (indent :: outer) true
        (tokens.reverse ++ .blockMappingStart :: before)) := by
  cases h with
  | nil => exact absurd rfl hne
  | @cons key text rest tokens restTokens hkey htext hrest =>
    have hfirst := scans_key hkey (htext.gap (rest ++ more)) (show indent ≤ k by omega) index line
      outer before
    rw [if_pos hindent] at hfirst
    obtain ⟨index', line', hvalue⟩ := htext.scans (hrest.outdented hmore)
      (show k < k + key.length + 1 by omega)
    obtain ⟨index'', line'', hlast⟩ := hrest.scans hmore index' line' _ _
    refine ⟨index'', line'', ?_⟩
    have hall := (hfirst.trans hvalue).trans hlast
    simpa using hall

end CutsEntries

theorem cuts_nested {k k' : Nat} (hk : k < k') {text : Text} {tokens : List Token}
    (h : CutsEntries k' text tokens) (hne : text ≠ []) :
    Cuts k ('\n' :: text) (.blockMappingStart :: (tokens ++ [.blockEnd])) where
  allowed := List.forall_mem_cons.mpr ⟨rfl, h.allowed⟩
  gap := fun _ => rfl
  scans := by
    intro more hmore index line column hcol outer before
    obtain ⟨index', line', hentries⟩ := h.scans_opening hne (hmore.mono (Nat.le_of_lt hk))
      (show (k : Int) < k' by omega) (index + 1) (line + 1) outer before
    have hend := (hentries.trans (scans_dedent hmore hk))
    rw [show List.cons .blockEnd (tokens.reverse ++ .blockMappingStart :: before) =
      (.blockMappingStart :: (tokens ++ [.blockEnd])).reverse ++ before by simp] at hend
    exact ⟨index', line', (scans_lineEnd 0 (text ++ more)).trans hend⟩

/-- A document that is a block mapping. -/
theorem tokens_of_entries {text : Text} {tokens : List Token} (h : CutsEntries 0 text tokens)
    (hne : text ≠ []) :
    Token.ofText? text = some (.blockMappingStart :: (tokens ++ [.blockEnd])) := by
  obtain ⟨index, line, n, hn, hrun⟩ := h.scans_opening hne .nothing (show (-1 : Int) < 0 by decide)
    0 0 [] []
  have hall : text.all isAllowed = true := List.all_eq_true.mpr h.allowed
  have hcount : n ≤ text.length := by
    have hle : text.countP (· ≠ ' ') ≤ text.length := List.countP_le_length
    simp only [todo, inBlock, List.append_nil, List.countP_nil] at hn
    omega
  have hend : run (text.length + 1 - n) (inBlock ⟨[], index, line, 0⟩ 0 [-1] true
      (tokens.reverse ++ [.blockMappingStart])) =
        some (.blockMappingStart :: (tokens ++ [.blockEnd])) := by
    rw [show text.length + 1 - n = text.length - n + 1 by omega, run]
    simp [skipSpace, inBlock, inFlow, spaceFrom, closeBlocks, closeFrom, endBlocks, dropKey, emit,
      allowKey]
  have hstart : inBlock ⟨text ++ [], 0, 0, 0⟩ (-1) [] true [] = start text := by
    rw [List.append_nil]
    rfl
  have hfuel : n + (text.length + 1 - n) = text.length + 1 := by omega
  rw [hstart] at hrun
  rw [Token.ofText?, if_pos hall, ← hfuel]
  exact (hrun _).trans hend

end SceneAudit.Yaml
