import SceneAudit.Proofs.Audit.Schedule

/-! # What every schedule keeps to

Whatever the schedule, each stored table is the one of its script as it was found, only scripts that
some behavior uses are marked, and a behavior that has been judged has left no mark undone. So marks
commute, and neither the check for an earlier mark nor the store of tables changes what is found.
-/

namespace SceneAudit

open Scene

/-- What is shared agrees with the project as it was found. -/
structure Agrees (p : Project) (state : RunState) : Prop where
  frame : FileTree.Frame p.Written p.tree state.tree
  policy : state.resolver.policy = p.config.usage.policy
  baseTypes : state.resolver.baseTypes = p.config.usage.baseTypes
  tables : ∀ e ∈ state.resolver.tables,
    (∃ script ∈ p.scripts, script.path = e.1) ∧ e.2 = p.symbols e.1
  used : ∀ identifier, state.used.contains identifier = true →
    ∃ path, (⟨identifier, path⟩ : Artifact) ∈ p.artifacts ∧ p.IsUsed ⟨identifier, path⟩

def Settled (p : Project) (used : UsedSet) (b : Behavior) : Prop :=
  ∀ path, (⟨b.script, path⟩ : Artifact) ∈ p.artifacts → p.Uses b path →
    used.contains b.script = true

/-- The progress with a behavior agrees with the project as it was found. -/
def Progress.Sound (p : Project) (used : UsedSet) (b : Behavior) : Progress → Prop
  | .untouched => True
  | .unmarked => True
  | .registered path => (⟨b.script, path⟩ : Artifact) ∈ p.artifacts
  | .present path => (⟨b.script, path⟩ : Artifact) ∈ p.artifacts
  | .unread path => (⟨b.script, path⟩ : Artifact) ∈ p.artifacts
  | .read path table => (⟨b.script, path⟩ : Artifact) ∈ p.artifacts ∧ table = p.symbols path
  | .used => ∃ path, (⟨b.script, path⟩ : Artifact) ∈ p.artifacts ∧ p.Uses b path
  | .finished => Settled p used b

/-- The work on a scene agrees with the project as it was found. -/
def Job.Sound (p : Project) (used : UsedSet) (job : Job) : Prop :=
  match job.phase with
  | .waiting => True
  | .resolving parsed tasks => ∃ text, p.tree.readText job.scene.path = .ok text ∧
      Scene.parse p.config.usage.reservedFields text = parsed ∧
      tasks.map Task.behavior = parsed.behaviors ∧ ∀ t ∈ tasks, t.progress.Sound p used t.behavior
  | .done _ => ∀ text, p.tree.readText job.scene.path = .ok text →
      ∀ b ∈ (Scene.parse p.config.usage.reservedFields text).behaviors, Settled p used b

/-- What holds in every state of an audit. -/
structure Invariant (p : Project) (s : Schedule) : Prop where
  registered : (s.registry.artifacts ++ s.pending.filterMap p.artifact?).Perm p.artifacts
  fresh : s.pending ≠ [] → s.state.tree = p.tree
  agrees : Agrees p s.state
  jobs : s.jobs.map (fun job => (job.scene, job.dump)) = p.scenes.zip p.dumps
  sound : ∀ job ∈ s.jobs, job.Sound p s.state.used

section Mono

variable {p : Project} {used used' : UsedSet} (h : used.Grows used')

include h

theorem Settled.mono {b : Behavior} (hb : Settled p used b) : Settled p used' b :=
  fun path hpath huses => h _ (hb path hpath huses)

theorem Progress.Sound.mono {b : Behavior} {progress : Progress} (hb : progress.Sound p used b) :
    progress.Sound p used' b := by
  cases progress with
  | finished => exact Settled.mono h hb
  | _ => exact hb

theorem Job.Sound.mono {job : Job} (hjob : job.Sound p used) : job.Sound p used' := by
  rcases job with ⟨scene, dump, _ | ⟨parsed, tasks⟩ | outcome⟩
  · trivial
  · obtain ⟨text, hread, hparsed, htasks, hsound⟩ := hjob
    exact ⟨text, hread, hparsed, htasks, fun t ht => (hsound t ht).mono h⟩
  · exact fun text hread b hb => (hjob text hread b hb).mono h

end Mono

section Advance

variable {p : Project} {state : RunState} {b : Behavior} {path : Text}

theorem Agrees.start (p : Project) : Agrees p p.state where
  frame := FileTree.Frame.refl _ _
  policy := rfl
  baseTypes := rfl
  tables := nofun
  used := by simp [Project.state, UsedSet.empty, UsedSet.contains]

theorem Agrees.readTable (h : Agrees p state) (hp : p.Regular) {script : SourceFile}
    (hscript : script ∈ p.scripts) :
    state.resolver.readTable state.tree script.path = p.symbols script.path := by
  have hread := hp.readText_eq h.frame (List.mem_append_left p.scenes hscript)
  rw [Project.symbols, Resolver.readTable, Resolver.readTable, hread, h.baseTypes]
  rfl

theorem Agrees.cached? (h : Agrees p state) (hp : p.Regular) {script : SourceFile}
    (hscript : script ∈ p.scripts) {table : SymbolTable}
    (hcached : state.resolver.cached? script.path = some table) :
    table = p.symbols script.path := by
  obtain ⟨e, he, rfl⟩ := Option.map_eq_some_iff.mp hcached
  obtain ⟨⟨script', hscript', hpath⟩, htable⟩ := h.tables e (List.mem_of_find?_eq_some he)
  have hsame := List.find?_some he
  rw [htable, ← hpath]
  exact hp.symbols_eq_of_same hscript' hscript (hpath ▸ hsame)

theorem Agrees.store (h : Agrees p state) (hp : p.Regular) {script : SourceFile}
    (hscript : script ∈ p.scripts) {resolver : Resolver} {stored : SymbolTable}
    (hstore : state.resolver.store script.path (p.symbols script.path) = (resolver, stored)) :
    Agrees p { state with resolver := resolver } ∧ stored = p.symbols script.path := by
  unfold Resolver.store at hstore
  split at hstore
  · rename_i table hcached
    obtain ⟨rfl, rfl⟩ := Prod.mk.inj hstore
    exact ⟨h, h.cached? hp hscript hcached⟩
  · obtain ⟨rfl, rfl⟩ := Prod.mk.inj hstore
    refine ⟨⟨h.frame, h.policy, h.baseTypes, ?_, h.used⟩, rfl⟩
    rintro e he
    rcases List.mem_cons.mp he with rfl | he
    · exact ⟨⟨script, hscript, rfl⟩, rfl⟩
    · exact h.tables e he

theorem Agrees.mark (h : Agrees p state) (hb : p.Holds b)
    (hpath : (⟨b.script, path⟩ : Artifact) ∈ p.artifacts) (huses : p.Uses b path) :
    Agrees p { state with used := (state.used.mark b.script).1 } := by
  refine ⟨h.frame, h.policy, h.baseTypes, h.tables, fun identifier hmarked => ?_⟩
  rcases UsedSet.contains_mark.mp hmarked with rfl | hmarked
  · exact ⟨path, hpath, b, hb, rfl, huses⟩
  · exact h.used identifier hmarked

theorem sound_ofVerdict (hp : p.Regular) {used : UsedSet} {verdict : Bool}
    (hpath : (⟨b.script, path⟩ : Artifact) ∈ p.artifacts)
    (hverdict : verdict = (p.symbols path).decide p.config.usage.policy b.fields) :
    (Progress.ofVerdict verdict).Sound p used b := by
  cases verdict with
  | true => exact ⟨path, hpath, hverdict.symm⟩
  | false =>
    intro path' hpath' huses
    obtain rfl := hp.path_unique hpath hpath'
    exact absurd (hverdict.trans huses) Bool.false_ne_true

theorem lookup_iff_of_perm (hp : p.Regular) {registry : Registry}
    (hperm : registry.artifacts.Perm p.artifacts) {identifier : Text} :
    registry.lookup identifier = some path ↔ (⟨identifier, path⟩ : Artifact) ∈ p.artifacts := by
  have hnodup : (registry.artifacts.map Artifact.identifier).Nodup :=
    (hperm.map _).nodup_iff.mpr hp.nodup_artifacts
  rw [Registry.lookup_eq_some_iff hnodup, hperm.mem_iff]

theorem Agrees.advance (h : Agrees p state) (hp : p.Regular) {registry : Registry}
    (hregistry : registry.artifacts.Perm p.artifacts) (hb : p.Holds b)
    {progress progress' : Progress} {state' : RunState} (hsound : progress.Sound p state.used b)
    (hadvance : progress.advance registry state b = (state', progress')) :
    Agrees p state' ∧ progress'.Sound p state'.used b ∧ state.used.Grows state'.used := by
  cases progress with
  | untouched =>
    obtain ⟨rfl, rfl⟩ := Prod.mk.inj hadvance
    refine ⟨h, ?_, .refl _⟩
    split
    · rename_i hskip
      rcases Bool.or_eq_true_iff.mp hskip with hnone | hmarked
      · intro path hpath _
        have hnil : b.script = [] := by simpa [Behavior.hasScript] using hnone
        exact absurd hnil (Project.identifier_ne_nil hpath)
      · exact fun _ _ _ => hmarked
    · trivial
  | unmarked =>
    rw [Progress.advance] at hadvance
    split at hadvance
    · rename_i hlookup
      obtain ⟨rfl, rfl⟩ := Prod.mk.inj hadvance
      refine ⟨h, fun path hpath _ => ?_, .refl _⟩
      exact nomatch hlookup.symm.trans ((lookup_iff_of_perm hp hregistry).mpr hpath)
    · rename_i path hlookup
      obtain ⟨rfl, rfl⟩ := Prod.mk.inj hadvance
      exact ⟨h, (lookup_iff_of_perm hp hregistry).mp hlookup, .refl _⟩
  | registered path =>
    obtain ⟨script, hscript, -, rfl⟩ := Project.mem_artifacts.mp hsound
    have hfile := hp.isFile_of_frame h.frame (List.mem_append_left p.scenes hscript)
    rw [Progress.advance, hfile, if_pos rfl] at hadvance
    obtain ⟨rfl, rfl⟩ := Prod.mk.inj hadvance
    exact ⟨h, hsound, .refl _⟩
  | present path =>
    obtain ⟨script, hscript, -, rfl⟩ := Project.mem_artifacts.mp hsound
    rw [Progress.advance] at hadvance
    split at hadvance
    · rename_i table hcached
      obtain ⟨rfl, rfl⟩ := Prod.mk.inj hadvance
      refine ⟨h, sound_ofVerdict hp hsound ?_, .refl _⟩
      rw [h.cached? hp hscript hcached, h.policy]
    · obtain ⟨rfl, rfl⟩ := Prod.mk.inj hadvance
      exact ⟨h, hsound, .refl _⟩
  | unread path =>
    obtain ⟨script, hscript, -, rfl⟩ := Project.mem_artifacts.mp hsound
    obtain ⟨rfl, rfl⟩ := Prod.mk.inj hadvance
    exact ⟨h, ⟨hsound, h.readTable hp hscript⟩, .refl _⟩
  | read path table =>
    obtain ⟨hpath, rfl⟩ := hsound
    obtain ⟨script, hscript, -, rfl⟩ := Project.mem_artifacts.mp hpath
    obtain ⟨rfl, rfl⟩ := Prod.mk.inj hadvance
    obtain ⟨hagrees, hstored⟩ := h.store hp hscript rfl
    refine ⟨hagrees, sound_ofVerdict hp hpath ?_, .refl _⟩
    rw [hstored, hagrees.policy]
  | used =>
    obtain ⟨path, hpath, huses⟩ := hsound
    obtain ⟨rfl, rfl⟩ := Prod.mk.inj hadvance
    refine ⟨h.mark hb hpath huses, ?_, state.used.grows_mark b.script⟩
    exact fun _ _ _ => UsedSet.contains_mark.mpr (Or.inl rfl)
  | finished =>
    obtain ⟨rfl, rfl⟩ := Prod.mk.inj hadvance
    exact ⟨h, hsound, .refl _⟩

end Advance

section Steps

variable {p : Project} {registry : Registry}

theorem registered_of_register (hp : p.Regular) {before after : List SourceFile}
    {script : SourceFile}
    (h : (registry.artifacts ++ (before ++ script :: after).filterMap p.artifact?).Perm
      p.artifacts) :
    ((Audit.registerScript p.tree p.config registry script).artifacts ++
      (before ++ after).filterMap p.artifact?).Perm p.artifacts := by
  have hfront : (before ++ script :: after).Perm (script :: (before ++ after)) :=
    List.perm_middle
  have h' := ((hfront.filterMap p.artifact?).append_left registry.artifacts).symm.trans h
  unfold Audit.registerScript Registry.register
  split
  · rename_i hnone
    have hartifact : p.artifact? script = none := by
      rw [Project.artifact?, Project.identifier?, hnone, Option.map_none]
    rwa [List.filterMap_cons_none hartifact] at h'
  · rename_i identifier hsome
    have hartifact : p.artifact? script = some ⟨identifier, script.path⟩ := by
      rw [Project.artifact?, Project.identifier?, hsome, Option.map_some]
    rw [List.filterMap_cons_some hartifact] at h'
    have hnodup := (h'.map Artifact.identifier).nodup_iff.mpr hp.nodup_artifacts
    have hnew : identifier ∉ registry.artifacts.map Artifact.identifier := by
      rw [List.map_append, List.map_cons, List.nodup_middle, List.nodup_cons] at hnodup
      exact fun hmem => hnodup.1 (List.mem_append_left _ hmem)
    rw [Registry.insert_artifacts hnew]
    exact List.perm_middle.symm.trans h'

variable {state : RunState}

theorem Agrees.writeDump (h : Agrees p state) {dump : Option Text} {hierarchy : Hierarchy}
    {tree : FileTree} (hdump : ∀ path, dump = some path → some path ∈ p.dumps)
    (hwrite : Audit.writeDump state.tree dump hierarchy = .ok tree) :
    Agrees p { state with tree := tree } := by
  refine ⟨?_, h.policy, h.baseTypes, h.tables, h.used⟩
  rcases Audit.writeDump_eq_ok hwrite with ⟨-, rfl⟩ | ⟨path, rfl, hwritten⟩
  · exact h.frame
  · exact h.frame.write hwritten fun loc hloc => ⟨path, hdump path rfl, hloc⟩

theorem settled_of_finished {used : UsedSet} {scene : SourceFile} {dump : Option Text}
    {parsed : Scene} {tasks : List Task}
    (hsound : (Job.resolving scene dump parsed tasks).Sound p used)
    (hfinished : ∀ t ∈ tasks, t.progress = .finished)
    (outcome : Except SceneFailure SceneSummary) :
    (Job.mk scene dump (.done outcome)).Sound p used := by
  obtain ⟨text, hread, hparsed, htasks, hsound⟩ := hsound
  intro text' hread' b hb
  obtain rfl : text = text' := Except.ok.inj (hread.symm.trans hread')
  rw [hparsed, ← htasks] at hb
  obtain ⟨t, ht, rfl⟩ := List.mem_map.mp hb
  have ht' := hsound t ht
  rwa [hfinished t ht] at ht'

theorem Job.Sound.step (hp : p.Regular)
    (hregistry : registry.artifacts.Perm p.artifacts) {state' : RunState} {job job' : Job}
    (hscene : job.scene ∈ p.scenes) (hdump : ∀ path, job.dump = some path → some path ∈ p.dumps)
    (h : Agrees p state) (hjob : job.Sound p state.used)
    (hstep : Job.Step p.config registry (state, job) (state', job')) :
    Agrees p state' ∧ job'.Sound p state'.used ∧ state.used.Grows state'.used := by
  have hread_eq := hp.readText_eq h.frame (List.mem_append_right p.scripts hscene)
  cases hstep with
  | unreadable hread =>
    refine ⟨h, ?_, .refl _⟩
    intro text htext
    exact nomatch hread.symm.trans (hread_eq.trans htext)
  | @read _ _ _ text _ hread hparsed =>
    refine ⟨h, ⟨text, hread_eq.symm.trans hread, hparsed, ?_, ?_⟩, .refl _⟩
    · rw [List.map_map]
      exact List.map_id _
    · intro t ht
      obtain ⟨b, -, rfl⟩ := List.mem_map.mp ht
      trivial
  | @advance _ _ scene dump parsed before after b progress progress' hunfinished hadvance =>
    obtain ⟨text, hread, hparsed, htasks, hsound⟩ := hjob
    have hb : b ∈ parsed.behaviors := by
      rw [← htasks]
      simp
    have hholds : p.Holds b := ⟨scene, hscene, text, hread, hparsed ▸ hb⟩
    obtain ⟨hagrees, hprogress, hmarks⟩ :=
      h.advance hp hregistry hholds (hsound ⟨b, progress⟩ (by simp)) hadvance
    refine ⟨hagrees, ⟨text, hread, hparsed, ?_, ?_⟩, hmarks⟩
    · rw [← htasks, List.map_append, List.map_append, List.map_cons, List.map_cons]
    · rw [List.forall_mem_append, List.forall_mem_cons] at hsound ⊢
      obtain ⟨hbefore, -, hafter⟩ := hsound
      exact ⟨fun t ht => (hbefore t ht).mono hmarks, hprogress,
        fun t ht => (hafter t ht).mono hmarks⟩
  | dumped hfinished hwrite =>
    exact ⟨h.writeDump hdump hwrite, settled_of_finished hjob hfinished _, .refl _⟩
  | notDumped hfinished hwrite =>
    exact ⟨h, settled_of_finished hjob hfinished _, .refl _⟩

end Steps

namespace Invariant

variable {p : Project} {s s' : Schedule}

theorem start (p : Project) : Invariant p (Schedule.start p) where
  registered := List.Perm.refl _
  fresh := fun _ => rfl
  agrees := Agrees.start p
  jobs := Schedule.jobs_start p
  sound := by
    intro job hjob
    obtain ⟨e, -, rfl⟩ := List.mem_map.mp hjob
    trivial

/-- Every step of an audit keeps the invariant. -/
theorem step (hp : p.Regular) (h : Invariant p s) (hstep : Schedule.Step p.config s s') :
    Invariant p s' := by
  have hkept := hstep.jobs_eq.trans h.jobs
  cases hstep with
  | @register before after script registry state jobs =>
    have htree : state.tree = p.tree := h.fresh (by simp)
    refine ⟨?_, fun _ => htree, h.agrees, h.jobs, h.sound⟩
    rw [htree]
    exact registered_of_register hp h.registered
  | @work registry state state' before after job job' hjob =>
    have hperm : registry.artifacts.Perm p.artifacts := by
      have hregistered := h.registered
      rwa [List.filterMap_nil, List.append_nil] at hregistered
    have hmem : (job.scene, job.dump) ∈ p.scenes.zip p.dumps := by
      rw [← h.jobs]
      simp
    obtain ⟨hscene, hdump⟩ := List.of_mem_zip hmem
    have hjobs := h.sound
    rw [List.forall_mem_append, List.forall_mem_cons] at hjobs
    obtain ⟨hbefore, hold, hafter⟩ := hjobs
    obtain ⟨hagrees, hsound, hmarks⟩ :=
      Job.Sound.step hp hperm hscene (fun path hpath => hpath ▸ hdump) h.agrees hold hjob
    refine ⟨h.registered, fun hne => absurd rfl hne, hagrees, hkept, ?_⟩
    rw [List.forall_mem_append, List.forall_mem_cons]
    exact ⟨fun other hother => (hbefore other hother).mono hmarks, hsound,
      fun other hother => (hafter other hother).mono hmarks⟩

/-- The invariant holds in every state that an audit may come to. -/
theorem of_reaches (hp : p.Regular) (h : Schedule.Reaches p.config (Schedule.start p) s) :
    Invariant p s := by
  induction h with
  | refl => exact start p
  | tail _ hstep ih => exact ih.step hp hstep

end Invariant

end SceneAudit
