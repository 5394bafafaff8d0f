import SceneAudit.Usage.Resolver

/-! # Sessions with one resolver

Any number of calls may ask one resolver at once, while files are written and removed. A call looks
for a stored table, reads the script if there is none, and then stores the table unless another call
was faster. Whatever the order of these steps, all calls for a path go by the table that was stored
for it first.
-/

namespace SceneAudit.Resolver

/-- What a call asks about a script. -/
inductive Question where
  | symbols
  /-- Whether a component with these serialized fields uses the script. -/
  | usage (fields : List Text)
  deriving DecidableEq, Repr

/-- What a call is told. -/
inductive Answer where
  | symbols (table : SymbolTable)
  | usage (used : Bool)
  deriving DecidableEq, Repr

/-- The answer that a table gives. -/
def Question.answer (policy : UsagePolicy) (table : SymbolTable) : Question → Answer
  | symbols => .symbols table
  | usage fields => .usage (table.decide policy fields)

/-- What a call has to do next. -/
inductive Stage where
  /-- See whether the script is a file. -/
  | check
  /-- Look for a stored table. -/
  | look
  /-- Read the script. -/
  | load
  /-- Store the table that was read. -/
  | store (table : SymbolTable)
  | done (answer : Answer)
  deriving DecidableEq, Repr

/-- A call that is under way or done. -/
structure Call where
  path : Text
  question : Question
  /-- What the call has seen when it checked whether the script is a file. -/
  present : Option Bool
  stage : Stage
  deriving DecidableEq, Repr

namespace Call

/-- A call before its first step. Only a question of usage has the file checked. -/
def new (path : Text) : Question → Call
  | .symbols => ⟨path, .symbols, none, .look⟩
  | .usage fields => ⟨path, .usage fields, none, .check⟩

/-- The next step of a call: the resolver and the call after it. -/
def advance (tree : FileTree) (resolver : Resolver) (c : Call) : Resolver × Call :=
  match c.stage with
  | .check =>
    if tree.isFile c.path then (resolver, { c with present := some true, stage := .look })
    else (resolver, { c with present := some false, stage := .done (.usage false) })
  | .look =>
    match resolver.cached? c.path with
    | some table => (resolver, { c with stage := .done (c.question.answer resolver.policy table) })
    | none => (resolver, { c with stage := .load })
  | .load => (resolver, { c with stage := .store (resolver.readTable tree c.path) })
  | .store table =>
    let (resolver, stored) := resolver.store c.path table
    (resolver, { c with stage := .done (c.question.answer resolver.policy stored) })
  | .done _ => (resolver, c)

/-- The table that a call stores by its next step, unless there is one. -/
def offer? (c : Call) : Option (Text × SymbolTable) :=
  match c.stage with
  | .store table => some (c.path, table)
  | _ => none

end Call

/-- One resolver, the files, and all calls so far. -/
structure Session where
  tree : FileTree
  resolver : Resolver
  calls : List Call
  /-- What calls have come to store, in this order, kept or not. -/
  offers : List (Text × SymbolTable)

/-- Something that happens in a session. -/
inductive Act where
  /-- Files are written, removed or changed in any other way. -/
  | change (tree : FileTree)
  | call (path : Text) (question : Question)
  /-- The call with this number takes its next step. -/
  | advance (number : Nat)

def firstOf (offers : List (Text × SymbolTable)) (path : Text) : Option SymbolTable :=
  (offers.find? fun e => Path.same e.1 path).map Prod.snd

namespace Session

def start (tree : FileTree) (policy : UsagePolicy) (baseTypes : List Text) : Session :=
  ⟨tree, .new policy baseTypes, [], []⟩

/-- What becomes of a session. -/
def act (s : Session) : Act → Session
  | .change tree => { s with tree := tree }
  | .call path question => { s with calls := s.calls ++ [Call.new path question] }
  | .advance i =>
    match s.calls[i]? with
    | none => s
    | some c =>
      let (resolver, c') := c.advance s.tree s.resolver
      ⟨s.tree, resolver, s.calls.set i c', s.offers ++ c.offer?.toList⟩

/-- What becomes of a session through one act after another. -/
def run (s : Session) (acts : List Act) : Session :=
  acts.foldl act s

def first? (s : Session) (path : Text) : Option SymbolTable :=
  firstOf s.offers path

end Session

section Tables

variable {resolver : Resolver} {offers offers' : List (Text × SymbolTable)} {p q : Text}
  {table : SymbolTable}

theorem cached?_eq (resolver : Resolver) (path : Text) :
    resolver.cached? path = firstOf resolver.tables path :=
  rfl

theorem firstOf_append (path : Text) :
    firstOf (offers ++ offers') path = (firstOf offers path).or (firstOf offers' path) := by
  rw [firstOf, List.find?_append, Option.map_or]
  rfl

theorem firstOf_congr (h : Path.same p q = true) : firstOf offers p = firstOf offers q := by
  unfold firstOf Path.same
  rw [eq_of_beq h]

theorem firstOf_singleton_of_same (h : Path.same p q = true) :
    firstOf [(p, table)] q = some table := by
  rw [firstOf, List.find?_singleton, if_pos h, Option.map_some]

theorem firstOf_singleton_of_not_same (h : Path.same p q = false) :
    firstOf [(p, table)] q = none := by
  rw [firstOf, List.find?_singleton, h, if_neg Bool.false_ne_true, Option.map_none]

theorem cached?_store (path : Text) :
    (resolver.store p table).1.cached? path =
      (resolver.cached? path).or (firstOf [(p, table)] path) := by
  unfold store
  split
  · rename_i stored hcached
    cases hsame : Path.same p path with
    | true =>
      rw [cached?_eq, firstOf_congr hsame] at hcached
      rw [cached?_eq, hcached, Option.some_or]
    | false => rw [firstOf_singleton_of_not_same hsame, Option.or_none]
  · rename_i hcached
    rw [cached?_eq, cached?_eq, ← List.singleton_append, firstOf_append]
    cases hsame : Path.same p path with
    | true =>
      rw [cached?_eq, firstOf_congr hsame] at hcached
      rw [hcached, Option.none_or, Option.or_none]
    | false => rw [firstOf_singleton_of_not_same hsame, Option.none_or, Option.or_none]

theorem cached?_store_self :
    (resolver.store p table).1.cached? p = some (resolver.store p table).2 := by
  unfold store
  split
  · assumption
  · rw [cached?_eq, ← List.singleton_append, firstOf_append,
      firstOf_singleton_of_same (beq_self_eq_true _), Option.some_or]

theorem policy_store : (resolver.store p table).1.policy = resolver.policy := by
  unfold store
  split <;> rfl

end Tables

namespace Call

variable {tree : FileTree} {resolver : Resolver} {c : Call} {policy : UsagePolicy}
  {first first' : Text → Option SymbolTable}

/-- A call agrees with the tables that were stored first. -/
def Sound (policy : UsagePolicy) (first : Text → Option SymbolTable) (c : Call) : Prop :=
  match c.stage with
  | .check => c.question ≠ .symbols
  | .done answer =>
    (c.question ≠ .symbols ∧ c.present = some false ∧ answer = .usage false) ∨
      ((c.question ≠ .symbols → c.present = some true) ∧
        ∃ table, first c.path = some table ∧ answer = c.question.answer policy table)
  | _ => c.question ≠ .symbols → c.present = some true

theorem sound_new (path : Text) (question : Question) : (new path question).Sound policy first := by
  cases question with
  | symbols => exact fun h => absurd rfl h
  | usage fields => exact nofun

/-- What a call may be told: the table that was stored first for its path, or whether the script was
a file when the call saw to it and that table has the component use it. -/
def IsTold (policy : UsagePolicy) (first : Text → Option SymbolTable) (c : Call) : Answer → Prop
  | .symbols table => c.question = .symbols ∧ first c.path = some table
  | .usage used => ∃ fields present, c.question = .usage fields ∧ c.present = some present ∧
      (used = true ↔ present = true ∧
        ∃ table, first c.path = some table ∧ table.decide policy fields = true)

theorem Sound.isTold {answer : Answer} (h : c.Sound policy first) (hdone : c.stage = .done answer) :
    c.IsTold policy first answer := by
  rw [Sound, hdone] at h
  rcases h with ⟨hquestion, habsent, rfl⟩ | ⟨hpresent, table, htable, rfl⟩
  · cases hc : c.question with
    | symbols => exact absurd hc hquestion
    | usage fields => exact ⟨fields, false, hc, habsent, by simp⟩
  · cases hc : c.question with
    | symbols => exact ⟨hc, htable⟩
    | usage fields =>
      exact ⟨fields, true, hc, hpresent (by simp [hc]), by simp [htable]⟩

theorem Sound.mono (h : c.Sound policy first)
    (hfirst : ∀ path table, first path = some table → first' path = some table) :
    c.Sound policy first' := by
  rcases c with ⟨path, question, present, _ | _ | _ | table | answer⟩
  · exact h
  · exact h
  · exact h
  · exact h
  · rcases h with h | ⟨hpresent, table, htable, hanswer⟩
    · exact Or.inl h
    · exact Or.inr ⟨hpresent, table, hfirst _ _ htable, hanswer⟩

theorem present_advance (h : c.stage ≠ .check) :
    (c.advance tree resolver).2.present = c.present := by
  unfold advance
  split
  · contradiction
  · split <;> rfl
  all_goals rfl

theorem fst_of_offer? {e : Text × SymbolTable} (h : c.offer? = some e) : e.1 = c.path := by
  unfold offer? at h
  split at h
  · rw [← Option.some.inj h]
  · contradiction

theorem policy_advance : (c.advance tree resolver).1.policy = resolver.policy := by
  unfold advance
  split
  · split <;> rfl
  · split <;> rfl
  · rfl
  · exact policy_store
  · rfl

theorem cached?_advance (path : Text) :
    (c.advance tree resolver).1.cached? path =
      (resolver.cached? path).or (firstOf c.offer?.toList path) := by
  rcases c with ⟨p, question, present, _ | _ | _ | table | answer⟩
  · unfold advance
    dsimp only
    split <;> exact (Option.or_none).symm
  · unfold advance
    dsimp only
    split <;> exact (Option.or_none).symm
  · exact (Option.or_none).symm
  · exact cached?_store path
  · exact (Option.or_none).symm

theorem cached?_advance_of_not_same {path : Text} (h : Path.same c.path path = false) :
    (c.advance tree resolver).1.cached? path = resolver.cached? path := by
  rw [cached?_advance]
  cases hoffer : c.offer? with
  | none => exact Option.or_none
  | some e =>
    rcases e with ⟨p, table⟩
    obtain rfl : p = c.path := fst_of_offer? hoffer
    rw [Option.toList_some, firstOf_singleton_of_not_same h, Option.or_none]

theorem Sound.advance (h : c.Sound policy first) (hpolicy : resolver.policy = policy)
    (hfirst : resolver.cached? = first) :
    (c.advance tree resolver).2.Sound policy (c.advance tree resolver).1.cached? := by
  subst hpolicy hfirst
  rcases c with ⟨path, question, present, _ | _ | _ | table | answer⟩
  · unfold Call.advance
    dsimp only
    split
    · exact fun _ => rfl
    · exact Or.inl ⟨h, rfl, rfl⟩
  · unfold Call.advance
    dsimp only
    split
    · rename_i table hcached
      exact Or.inr ⟨h, table, hcached, rfl⟩
    · exact h
  · exact h
  · refine Or.inr ⟨h, _, cached?_store_self, ?_⟩
    exact congrArg (Question.answer · _ question) policy_store
  · exact h

end Call

namespace Session

variable {s : Session} {policy : UsagePolicy} {path : Text} {table : SymbolTable}

theorem act_advance {i : Nat} {c : Call} (h : s.calls[i]? = some c) :
    s.act (.advance i) = ⟨s.tree, (c.advance s.tree s.resolver).1,
      s.calls.set i (c.advance s.tree s.resolver).2, s.offers ++ c.offer?.toList⟩ := by
  rw [act, h]

theorem act_advance_of_none {i : Nat} (h : s.calls[i]? = none) : s.act (.advance i) = s := by
  rw [act, h]

theorem first?_act (h : s.first? path = some table) (a : Act) :
    (s.act a).first? path = some table := by
  cases a with
  | change tree => exact h
  | call path question => exact h
  | advance i =>
    cases hi : s.calls[i]? with
    | none => rwa [act_advance_of_none hi]
    | some c =>
      unfold first? at h ⊢
      rw [act_advance hi, firstOf_append, h, Option.some_or]

/-- A table that is stored for a path stays, whatever happens. -/
theorem first?_run (h : s.first? path = some table) (acts : List Act) :
    (s.run acts).first? path = some table := by
  induction acts generalizing s with
  | nil => exact h
  | cons a acts ih => exact ih (first?_act h a)

/-- What holds at every moment of a session. -/
structure Sound (policy : UsagePolicy) (s : Session) : Prop where
  policy_eq : s.resolver.policy = policy
  tables : s.resolver.cached? = s.first?
  calls : ∀ c ∈ s.calls, c.Sound policy s.first?

theorem Sound.start (tree : FileTree) (policy : UsagePolicy) (baseTypes : List Text) :
    (start tree policy baseTypes).Sound policy :=
  ⟨rfl, rfl, nofun⟩

theorem Sound.act (h : s.Sound policy) (a : Act) : (s.act a).Sound policy := by
  cases a with
  | change tree => exact ⟨h.policy_eq, h.tables, h.calls⟩
  | call path question =>
    refine ⟨h.policy_eq, h.tables, fun c hc => ?_⟩
    rcases List.mem_append.mp hc with hc | hc
    · exact h.calls c hc
    · rw [List.mem_singleton.mp hc]
      exact Call.sound_new path question
  | advance i =>
    cases hi : s.calls[i]? with
    | none => rwa [act_advance_of_none hi]
    | some c =>
      have htables : (s.act (.advance i)).resolver.cached? = (s.act (.advance i)).first? := by
        funext path
        unfold first?
        rw [act_advance hi, Call.cached?_advance, h.tables, firstOf_append]
        rfl
      refine ⟨?_, htables, fun other hother => ?_⟩
      · rw [act_advance hi]
        exact Call.policy_advance.trans h.policy_eq
      · rw [act_advance hi] at hother
        rcases List.mem_or_eq_of_mem_set hother with hother | rfl
        · exact (h.calls other hother).mono fun _ _ hfirst => first?_act hfirst _
        · rw [← htables, act_advance hi]
          exact (h.calls c (List.mem_of_getElem? hi)).advance h.policy_eq h.tables

theorem Sound.run (h : s.Sound policy) (acts : List Act) : (s.run acts).Sound policy := by
  induction acts generalizing s with
  | nil => exact h
  | cons a acts ih => exact ih (h.act a)

section Whole

variable {tree : FileTree} {resolver : Resolver} {calls : List Call} {c : Call}
  {offers : List (Text × SymbolTable)}

theorem act_advance_last :
    (Session.mk tree resolver (calls ++ [c]) offers).act (.advance calls.length) =
      ⟨tree, (c.advance tree resolver).1, calls ++ [(c.advance tree resolver).2],
        offers ++ c.offer?.toList⟩ := by
  rw [act_advance (s := ⟨tree, resolver, calls ++ [c], offers⟩) List.getElem?_concat_length]
  simp

/-- A call that is carried out at once does what asking the resolver for a table does. -/
theorem exists_run_symbolsFor (s : Session) (path : Text) :
    ∃ acts, (s.run acts).tree = s.tree ∧
      (s.run acts).resolver = (s.resolver.symbolsFor s.tree path).1 ∧
      (s.run acts).calls = s.calls ++
        [⟨path, .symbols, none, .done (.symbols (s.resolver.symbolsFor s.tree path).2)⟩] := by
  let turn := Act.advance s.calls.length
  have hcall : s.act (.call path .symbols) =
      ⟨s.tree, s.resolver, s.calls ++ [⟨path, .symbols, none, .look⟩], s.offers⟩ := rfl
  refine ⟨[.call path .symbols, turn, turn, turn], ?_⟩
  cases hcached : s.resolver.cached? path <;>
    simp [run, hcall, turn, act_advance_last, Call.advance, Question.answer, symbolsFor, hcached]

theorem exists_run_isUsed (s : Session) (path : Text) (fields : List Text) :
    ∃ acts, (s.run acts).tree = s.tree ∧
      (s.run acts).resolver = (s.resolver.isUsed s.tree path fields).1 ∧
      (s.run acts).calls = s.calls ++ [⟨path, .usage fields, some (s.tree.isFile path),
        .done (.usage (s.resolver.isUsed s.tree path fields).2)⟩] := by
  let turn := Act.advance s.calls.length
  have hcall : s.act (.call path (.usage fields)) =
      ⟨s.tree, s.resolver, s.calls ++ [⟨path, .usage fields, none, .check⟩], s.offers⟩ := rfl
  refine ⟨[.call path (.usage fields), turn, turn, turn, turn], ?_⟩
  cases hfile : s.tree.isFile path with
  | false => simp [run, hcall, turn, act_advance_last, Call.advance, isUsed, hfile]
  | true =>
    cases hcached : s.resolver.cached? path <;>
      simp [run, hcall, turn, act_advance_last, Call.advance, Question.answer, isUsed, symbolsFor,
        hfile, hcached]

end Whole

/-- Whatever is written or removed, and however the steps of calls follow one another, every call
that is done has been told by the table that was stored first for its path, and that table stays. A
step of a call sees whether the script is a file as it stands then, stores nothing if it is not, and
leaves the tables of other paths alone. Calls that are carried out at once are among these calls. -/
theorem answers_first_stored (tree : FileTree) (policy : UsagePolicy) (baseTypes : List Text)
    (acts : List Act) :
    let s := (start tree policy baseTypes).run acts
    (∀ c ∈ s.calls, ∀ answer, c.stage = .done answer → c.IsTold policy s.first? answer) ∧
      (∀ acts' path table, s.first? path = some table →
        (s.run acts').first? path = some table) ∧
      (∀ i c, s.calls[i]? = some c →
        let s' := s.act (.advance i)
        ∃ c', s'.calls[i]? = some c' ∧
          (c.stage ≠ .check → c'.present = c.present) ∧
          (c.stage = .check → c'.present = some (s.tree.isFile c.path)) ∧
          (c.stage = .check → s.tree.isFile c.path = false →
            s'.resolver = s.resolver ∧ c'.stage = .done (.usage false)) ∧
          ∀ path, Path.same c.path path = false →
            s'.resolver.cached? path = s.resolver.cached? path) ∧
      (∀ path, ∃ acts', (s.run acts').tree = s.tree ∧
        (s.run acts').resolver = (s.resolver.symbolsFor s.tree path).1 ∧
        (s.run acts').first? path = some (s.resolver.symbolsFor s.tree path).2) ∧
      ∀ path fields, ∃ acts', (s.run acts').tree = s.tree ∧
        (s.run acts').resolver = (s.resolver.isUsed s.tree path fields).1 ∧
        (s.tree.isFile path = false → (s.run acts').resolver = s.resolver) ∧
        ((s.resolver.isUsed s.tree path fields).2 = true ↔ s.tree.isFile path = true ∧
          ∃ table, (s.run acts').first? path = some table ∧
            table.decide policy fields = true) := by
  intro s
  have hs : s.Sound policy := (Sound.start tree policy baseTypes).run acts
  refine ⟨fun c hc answer hdone => (hs.calls c hc).isTold hdone,
    fun acts' path table h => first?_run h acts', ?_, ?_, ?_⟩
  · intro i c hi s'
    have hact := act_advance hi
    refine ⟨(c.advance s.tree s.resolver).2, ?_, Call.present_advance, ?_, ?_, ?_⟩
    · rw [show s' = _ from hact, List.getElem?_set_self (List.getElem?_eq_some_iff.mp hi).1]
    · intro hcheck
      unfold Call.advance
      rw [hcheck]
      dsimp only
      split <;> simp_all
    · intro hcheck habsent
      rw [show s' = _ from hact, Call.advance, hcheck]
      simp [habsent]
    · intro path hother
      rw [show s' = _ from hact]
      exact Call.cached?_advance_of_not_same hother
  · intro path
    obtain ⟨acts', htree, hresolver, hcalls⟩ := exists_run_symbolsFor s path
    refine ⟨acts', htree, hresolver, ?_⟩
    have hlast := (hs.run acts').calls _ (hcalls ▸ List.mem_concat_self)
    exact (hlast.isTold rfl).2
  · intro path fields
    obtain ⟨acts', htree, hresolver, hcalls⟩ := exists_run_isUsed s path fields
    have hlast := (hs.run acts').calls _ (hcalls ▸ List.mem_concat_self)
    obtain ⟨_, _, hquestion, hpresent, hverdict⟩ := hlast.isTold rfl
    refine ⟨acts', htree, hresolver, fun habsent => hresolver.trans ?_, ?_⟩
    · rw [isUsed, habsent, if_neg Bool.false_ne_true]
    · obtain rfl := Question.usage.inj hquestion
      obtain rfl := Option.some.inj hpresent
      exact hverdict

/-- Two calls find no table and read different contents. The second to start stores first, and the
file is gone by the time that the other one comes to store. -/
theorem answers_first_stored_of_two_loaders :
    let file := fun text : String => Entry.file (Utf8.encode text.toList)
    let before : FileTree := ⟨[([['a']], file "class A \x7b int x; \x7d")], []⟩
    let after : FileTree := ⟨[([['a']], file "class A \x7b int y; \x7d")], []⟩
    let path := "/a".toList
    let s := (start before .strict []).run
      [.call path .symbols, .call path (.usage [['x']]), .advance 0, .advance 0, .advance 1,
        .advance 1, .change after, .advance 1, .advance 1, .change ⟨[], []⟩, .advance 0]
    s.offers = [(path, ⟨true, [['y']]⟩), (path, ⟨true, [['x']]⟩)] ∧
      s.calls.map Call.stage = [.done (.symbols ⟨true, [['y']]⟩), .done (.usage false)] ∧
      ∀ c ∈ s.calls, ∀ answer, c.stage = .done answer → c.IsTold .strict s.first? answer := by
  intro file before after path s
  refine ⟨by decide +kernel, by decide +kernel, ?_⟩
  exact (answers_first_stored before .strict [] _).1

end Session

end SceneAudit.Resolver
