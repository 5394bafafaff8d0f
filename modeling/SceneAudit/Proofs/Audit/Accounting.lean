import SceneAudit.Proofs.Audit.Unused

/-! # Accounting of an audit

Whatever the schedule, only registered identifiers are ever marked, each of them once. So the counts
of a report add up: used and unused scripts make up the registered ones, and processed and skipped
scenes the found ones. Nothing is assumed of the project; identifiers may be shared by scripts, and
dumps may be written over anything.
-/

namespace SceneAudit

open Scene

/-- A behavior that has got past the lookup of its script names a registered one. -/
def Progress.Known (registry : Registry) (b : Behavior) : Progress → Prop
  | .untouched | .unmarked | .finished => True
  | _ => b.script ∈ registry.identifiers

/-- All behaviors of a scene that have got past the lookup name registered scripts. -/
def Job.Known (registry : Registry) (job : Job) : Prop :=
  match job.phase with
  | .resolving _ tasks => ∀ t ∈ tasks, t.progress.Known registry t.behavior
  | _ => True

section Known

variable {registry registry' : Registry} {state state' : RunState} {b : Behavior}
  {progress progress' : Progress}

theorem Progress.known_ofVerdict (h : b.script ∈ registry.identifiers) (verdict : Bool) :
    (ofVerdict verdict).Known registry b := by
  cases verdict with
  | true => exact h
  | false => trivial

theorem Progress.Known.advance (h : progress.Known registry b)
    (hadvance : progress.advance registry state b = (state', progress')) :
    progress'.Known registry b ∧ (state'.used = state.used ∨
      b.script ∈ registry.identifiers ∧ state'.used = (state.used.mark b.script).1) := by
  cases progress with
  | untouched =>
    obtain ⟨rfl, rfl⟩ := Prod.mk.inj hadvance
    refine ⟨?_, Or.inl rfl⟩
    split <;> trivial
  | unmarked =>
    rw [Progress.advance] at hadvance
    split at hadvance
    · obtain ⟨rfl, rfl⟩ := Prod.mk.inj hadvance
      exact ⟨trivial, Or.inl rfl⟩
    · rename_i path hlookup
      obtain ⟨rfl, rfl⟩ := Prod.mk.inj hadvance
      exact ⟨Registry.mem_identifiers_of_lookup hlookup, Or.inl rfl⟩
  | registered path =>
    obtain ⟨rfl, rfl⟩ := Prod.mk.inj hadvance
    refine ⟨?_, Or.inl rfl⟩
    split
    · exact h
    · trivial
  | present path =>
    rw [Progress.advance] at hadvance
    split at hadvance
    · obtain ⟨rfl, rfl⟩ := Prod.mk.inj hadvance
      exact ⟨known_ofVerdict h _, Or.inl rfl⟩
    · obtain ⟨rfl, rfl⟩ := Prod.mk.inj hadvance
      exact ⟨h, Or.inl rfl⟩
  | unread path =>
    obtain ⟨rfl, rfl⟩ := Prod.mk.inj hadvance
    exact ⟨h, Or.inl rfl⟩
  | read path table =>
    obtain ⟨rfl, rfl⟩ := Prod.mk.inj hadvance
    exact ⟨known_ofVerdict h _, Or.inl rfl⟩
  | used =>
    obtain ⟨rfl, rfl⟩ := Prod.mk.inj hadvance
    exact ⟨trivial, Or.inr ⟨h, rfl⟩⟩
  | finished =>
    obtain ⟨rfl, rfl⟩ := Prod.mk.inj hadvance
    exact ⟨trivial, Or.inl rfl⟩

theorem Job.Known.mono {job : Job} (h : job.Known registry)
    (hsub : registry.identifiers ⊆ registry'.identifiers) : job.Known registry' := by
  rcases job with ⟨scene, dump, _ | ⟨parsed, tasks⟩ | outcome⟩
  · trivial
  · intro t ht
    have hknown := h t ht
    revert hknown
    cases t.progress with
    | untouched | unmarked | finished => exact fun _ => trivial
    | registered path | present path | unread path | read path table | used =>
      exact fun hid => hsub hid
  · trivial

theorem Job.Known.step {config : Config} {job job' : Job} (h : job.Known registry)
    (hstep : Job.Step config registry (state, job) (state', job')) :
    job'.Known registry ∧ (state'.used = state.used ∨
      ∃ identifier ∈ registry.identifiers, state'.used = (state.used.mark identifier).1) := by
  cases hstep with
  | unreadable hread => exact ⟨trivial, Or.inl rfl⟩
  | read hread hparsed =>
    refine ⟨?_, Or.inl rfl⟩
    intro t ht
    obtain ⟨b, -, rfl⟩ := List.mem_map.mp ht
    trivial
  | @advance _ _ scene dump parsed before after b progress progress' hunfinished hadvance =>
    obtain ⟨hbefore, htask⟩ := List.forall_mem_append.mp h
    obtain ⟨hold, hafter⟩ := List.forall_mem_cons.mp htask
    obtain ⟨hknown, hused⟩ := Progress.Known.advance hold hadvance
    refine ⟨?_, hused.imp_right fun ⟨hid, hmark⟩ => ⟨_, hid, hmark⟩⟩
    exact List.forall_mem_append.mpr ⟨hbefore, List.forall_mem_cons.mpr ⟨hknown, hafter⟩⟩
  | dumped hfinished hwrite => exact ⟨trivial, Or.inl rfl⟩
  | notDumped hfinished hwrite => exact ⟨trivial, Or.inl rfl⟩

end Known

/-- What holds at every moment of an audit. -/
structure Accounted (p : Project) (s : Schedule) : Prop where
  /-- Nothing is written before all scripts are registered. -/
  fresh : s.pending ≠ [] → s.state.tree = p.tree
  pending : s.pending ⊆ p.scripts
  artifacts : s.registry.artifacts ⊆ p.artifacts
  distinct : s.registry.identifiers.Nodup
  size : s.registry.size + s.pending.length ≤ p.scripts.length
  once : s.state.used.identifiers.Nodup
  marked : s.state.used.identifiers ⊆ s.registry.identifiers
  jobs : s.jobs.map (fun job => (job.scene, job.dump)) = p.scenes.zip p.dumps
  known : ∀ job ∈ s.jobs, job.Known s.registry

namespace Accounted

variable {p : Project} {s s' : Schedule}

theorem start (p : Project) : Accounted p (.start p) where
  fresh := fun _ => rfl
  pending := List.Subset.refl _
  artifacts := nofun
  distinct := List.nodup_nil
  size := (Nat.zero_add _).le
  once := List.nodup_nil
  marked := nofun
  jobs := Schedule.jobs_start p
  known := by
    intro job hjob
    obtain ⟨e, -, rfl⟩ := List.mem_map.mp hjob
    trivial

section Steps

variable {registry : Registry} {state state' : RunState}

theorem register {before after : List SourceFile} {script : SourceFile} {jobs : List Job}
    (h : Accounted p ⟨before ++ script :: after, registry, state, jobs⟩) :
    Accounted p ⟨before ++ after, Audit.registerScript state.tree p.config registry script, state,
      jobs⟩ := by
  have htree : state.tree = p.tree := h.fresh (by simp)
  have hpending : before ++ after ⊆ before ++ script :: after :=
    ((List.sublist_cons_self script after).append_left before).subset
  have hscript : script ∈ p.scripts := h.pending (by simp)
  have hsize := h.size
  rw [List.length_append, List.length_cons] at hsize
  dsimp only at hsize
  rw [Audit.registerScript, Registry.register, htree]
  split
  · refine ⟨fun _ => htree, List.Subset.trans hpending h.pending, h.artifacts, h.distinct, ?_,
      h.once, h.marked, h.jobs, h.known⟩
    rw [List.length_append]
    dsimp only
    omega
  · rename_i identifier hidentifier
    have hgrows : registry.identifiers ⊆ (registry.insert identifier script.path).identifiers :=
      fun other hother => Registry.mem_identifiers_insert.mpr (Or.inr hother)
    refine ⟨fun _ => htree, List.Subset.trans hpending h.pending, fun a ha => ?_,
      Registry.nodup_identifiers_insert h.distinct, ?_, h.once, List.Subset.trans h.marked hgrows,
      h.jobs, fun job hjob => (h.known job hjob).mono hgrows⟩
    · rcases Registry.mem_artifacts_insert.mp ha with rfl | ⟨ha, -⟩
      · exact Project.mem_artifacts.mpr ⟨script, hscript, hidentifier, rfl⟩
      · exact h.artifacts ha
    · have hinsert := registry.size_insert_le identifier script.path
      rw [List.length_append]
      dsimp only
      omega

theorem work {before after : List Job} {job job' : Job}
    (h : Accounted p ⟨[], registry, state, before ++ job :: after⟩)
    (hjob : Job.Step p.config registry (state, job) (state', job')) :
    Accounted p ⟨[], registry, state', before ++ job' :: after⟩ := by
  obtain ⟨hbefore, hjobs⟩ := List.forall_mem_append.mp h.known
  obtain ⟨hold, hafter⟩ := List.forall_mem_cons.mp hjobs
  obtain ⟨hknown, hused⟩ := hold.step hjob
  refine ⟨fun hne => absurd rfl hne, h.pending, h.artifacts, h.distinct, h.size, ?_, ?_,
    (Schedule.Step.work hjob).jobs_eq.trans h.jobs, ?_⟩
  · rcases hused with hused | ⟨identifier, -, hused⟩
    · exact hused ▸ h.once
    · exact hused ▸ UsedSet.nodup_mark h.once
  · rcases hused with hused | ⟨identifier, hid, hused⟩
    · exact hused ▸ h.marked
    · intro other hother
      rw [hused, UsedSet.mem_mark] at hother
      rcases hother with rfl | hother
      · exact hid
      · exact h.marked hother
  · exact List.forall_mem_append.mpr ⟨hbefore, List.forall_mem_cons.mpr ⟨hknown, hafter⟩⟩

end Steps

theorem step (h : Accounted p s) (hstep : Schedule.Step p.config s s') : Accounted p s' := by
  cases hstep with
  | register => exact h.register
  | work hjob => exact h.work hjob

theorem of_reaches (h : Schedule.Reaches p.config (.start p) s) : Accounted p s := by
  induction h with
  | refl => exact start p
  | tail _ hstep ih => exact ih.step hstep

end Accounted

section Counts

variable {registry : Registry} {used : UsedSet} {root : Text}

/-- The marked artifacts and the unused scripts make up the registry. -/
theorem size_add_length_unusedScripts (hdistinct : registry.identifiers.Nodup)
    (honce : used.identifiers.Nodup) (hmarked : used.identifiers ⊆ registry.identifiers) :
    used.size + (Audit.unusedScripts root registry used).length = registry.size := by
  let marked := registry.artifacts.filter fun a => used.contains a.identifier
  have hperm : (marked.map Artifact.identifier).Perm used.identifiers := by
    rw [List.perm_ext_iff_of_nodup ((List.filter_sublist.map _).nodup hdistinct) honce]
    intro identifier
    constructor
    · intro h
      obtain ⟨a, ha, rfl⟩ := List.mem_map.mp h
      exact List.contains_iff_mem.mp (List.mem_filter.mp ha).2
    · intro h
      obtain ⟨a, ha, rfl⟩ := List.mem_map.mp (hmarked h)
      exact List.mem_map_of_mem (List.mem_filter.mpr ⟨ha, List.contains_iff_mem.mpr h⟩)
  have hlength := hperm.length_eq
  rw [List.length_map] at hlength
  rw [UsedSet.size, ← hlength, Audit.unusedScripts, (Sorting.sort_perm _).length_eq,
    List.length_map]
  exact (List.length_eq_length_filter_add fun a : Artifact => used.contains a.identifier).symm

theorem xor_of_mem_identifiers {identifier : Text} (h : identifier ∈ registry.identifiers) :
    Xor (used.contains identifier = true)
      (identifier ∈ (Audit.unusedScripts root registry used).map UnusedScript.identifier) := by
  have hrow : identifier ∈ (Audit.unusedScripts root registry used).map UnusedScript.identifier ↔
      used.contains identifier = false := by
    constructor
    · intro hnamed
      obtain ⟨row, hrow, rfl⟩ := List.mem_map.mp hnamed
      obtain ⟨a, -, hunmarked, rfl⟩ := mem_unusedScripts.mp hrow
      exact hunmarked
    · intro hunmarked
      obtain ⟨a, ha, rfl⟩ := List.mem_map.mp h
      exact List.mem_map.mpr ⟨a.row root, mem_unusedScripts.mpr ⟨a, ha, hunmarked, rfl⟩, rfl⟩
  rw [hrow, ← Bool.not_eq_true]
  by_cases hmarked : used.contains identifier = true
  · exact Or.inl ⟨hmarked, not_not_intro hmarked⟩
  · exact Or.inr ⟨hmarked, hmarked⟩

end Counts

/-- The counts of a report on a project add up to what was registered, marked and found. -/
structure Schedule.Balanced (p : Project) (s : Schedule) (report : AuditReport) : Prop where
  unused_le : report.unused.length ≤ report.scriptsRegistered
  usedCount_eq : report.usedCount = s.state.used.size
  exactly_one : ∀ identifier ∈ s.registry.identifiers,
    Xor (s.state.used.contains identifier = true)
      (identifier ∈ report.unused.map UnusedScript.identifier)
  registered_le : report.scriptsRegistered ≤ report.scriptsFound
  /-- Every row names a script by the identifier in the script's own sidecar. -/
  rows : ∀ row ∈ report.unused, ∃ script ∈ p.scripts, p.identifier? script = some row.identifier ∧
    s.registry.lookup row.identifier = some script.path ∧
      Path.relativeTo p.root script.path = row.relativePath
  /-- No row stands for a script whose sidecar gives no identifier. -/
  silent : ∀ script ∈ p.scripts, p.identifier? script = none →
    ∀ row ∈ report.unused, s.registry.lookup row.identifier ≠ some script.path
  scenes : report.scenesProcessed + report.failures.length = p.scenes.length

namespace Accounted

variable {p : Project} {s : Schedule}

theorem exists_of_mem_unused (h : Accounted p s) {row : UnusedScript}
    (hrow : row ∈ s.unused p.root) :
    ∃ a ∈ p.artifacts, s.registry.lookup row.identifier = some a.location ∧ a.row p.root = row := by
  obtain ⟨a, ha, -, rfl⟩ := mem_unusedScripts.mp hrow
  exact ⟨a, h.artifacts ha, (Registry.lookup_eq_some_iff h.distinct).mpr ha, rfl⟩

theorem length_outcomes (h : Accounted p s) (hfinished : s.Finished) :
    s.outcomes.length = p.scenes.length := by
  have hjobs := congrArg List.length h.jobs
  rw [List.length_map, List.length_zip, p.length_dumps, Nat.min_self] at hjobs
  rw [← hjobs, Schedule.outcomes, List.length_filterMap_eq_countP, List.countP_eq_length]
  intro job hjob
  obtain ⟨outcome, hdone⟩ := hfinished.done job hjob
  rw [Job.outcome?, hdone]
  rfl

theorem balanced (h : Accounted p s) (hfinished : s.Finished) : s.Balanced p (s.report p) := by
  have hcount : s.state.used.size + (s.report p).unused.length = s.registry.size :=
    size_add_length_unusedScripts h.distinct h.once h.marked
  refine ⟨?_, ?_, ?_, ?_, ?_, ?_, ?_⟩
  · exact (Nat.le_add_left _ _).trans hcount.le
  · exact Nat.sub_eq_of_eq_add hcount.symm
  · intro identifier hid
    exact xor_of_mem_identifiers hid
  · exact (Nat.le_add_right _ _).trans h.size
  · intro row hrow
    obtain ⟨a, ha, hlookup, rfl⟩ := h.exists_of_mem_unused hrow
    obtain ⟨script, hscript, hid, hpath⟩ := Project.mem_artifacts.mp ha
    exact ⟨script, hscript, hid, hpath ▸ hlookup, congrArg (Path.relativeTo p.root) hpath⟩
  · intro script hscript hnone row hrow hlookup
    obtain ⟨a, ha, hlookup', -⟩ := h.exists_of_mem_unused hrow
    have hlocation : a.location = script.path := Option.some.inj (hlookup'.symm.trans hlookup)
    exact Project.location_ne_of_no_identifier ha hscript hnone hlocation
  · rw [← h.length_outcomes hfinished]
    exact Audit.length_summaries_add_failures s.outcomes

end Accounted

/-- At every moment of an audit only registered identifiers are marked. The counts add up in every
state that an audit may end in, and a run reports what one of these has come to. -/
theorem counts_add_up {tree made after : FileTree} {config : Config} {root output : Text}
    {report : AuditReport} (hrun : Audit.run tree config root output = .ok (after, report))
    (hmade : tree.makeDirectories output = .ok made) :
    let p := Project.mk made config root output
    (∀ s, Schedule.Reaches config (.start p) s →
      ∀ identifier, s.state.used.contains identifier = true →
        identifier ∈ s.registry.identifiers) ∧
      (∀ final, Schedule.EndOf p final → final.Balanced p (final.report p)) ∧
      ∃ final, Schedule.EndOf p final ∧ final.state.tree = after ∧ final.report p = report := by
  intro p
  refine ⟨?_, ?_, ?_⟩
  · intro s hreaches identifier hmarked
    exact (Accounted.of_reaches (p := p) hreaches).marked (List.contains_iff_mem.mp hmarked)
  · intro final hend
    exact (Accounted.of_reaches hend.reaches).balanced hend.finished
  · exact Audit.exists_endOf_of_run hrun hmade

/-- Of four scripts two carry one identifier and one carries none; of two scenes one is no text. -/
theorem counts_add_up_of_shared_identifier :
    let file := fun text : String => Entry.file (Utf8.encode text.toList)
    let tree : FileTree := ⟨[([['p']], .directory), ([['p'], ['S']], .directory),
      ([['p'], "A.cs".toList], file "class A \x7b int hp; \x7d"),
      ([['p'], "A.cs.meta".toList], file "guid: a"),
      ([['p'], "B.cs".toList], file "class B \x7b\x7d"),
      ([['p'], "B.cs.meta".toList], file "guid: b"),
      ([['p'], "C.cs".toList], file "class C \x7b\x7d"),
      ([['p'], "C.cs.meta".toList], file "guid: b"),
      ([['p'], "D.cs".toList], file "class D \x7b\x7d"),
      ([['p'], ['S'], "r.unity".toList], .file [255]),
      ([['p'], ['S'], "s.unity".toList], file ("--- &1\nMonoBehaviour:\n" ++
        "  m_Script: {guid: a}\n  hp: 1\n"))], []⟩
    let config := { Config.default with sceneDirs := [['S']] }
    let made := tree.put [['o']] .directory
    let p := Project.mk made config "/p".toList "/o".toList
    tree.makeDirectories p.output = .ok made ∧
      ∃ after report, Audit.run tree config p.root p.output = .ok (after, report) ∧
        (report.scriptsFound, report.scriptsRegistered, report.usedCount, report.unused.length) =
          (4, 2, 1, 1) ∧
        (report.scenesProcessed, report.failures.length) = (1, 1) ∧
        (∀ s, Schedule.Reaches config (.start p) s →
          ∀ identifier, s.state.used.contains identifier = true →
            identifier ∈ s.registry.identifiers) ∧
        (∀ final, Schedule.EndOf p final → final.Balanced p (final.report p)) ∧
        ∃ final, Schedule.EndOf p final ∧ final.state.tree = after ∧ final.report p = report := by
  simp -zeta only [Utf8.encode_toList]
  repeat rw [String.toList_ofList]
  intro file tree config made p
  have hmade : tree.makeDirectories p.output = .ok made := rfl
  have hcounts : (Audit.run tree config p.root p.output).toOption.map (fun r =>
      ((r.2.scriptsFound, r.2.scriptsRegistered, r.2.usedCount, r.2.unused.length),
        (r.2.scenesProcessed, r.2.failures.length))) = some ((4, 2, 1, 1), (1, 1)) := by
    decide +kernel
  obtain ⟨after, report, hrun, heq⟩ := Audit.exists_run_of_map hcounts
  obtain ⟨hscripts, hscenes⟩ := Prod.mk.inj heq
  exact ⟨hmade, after, report, hrun, hscripts, hscenes, counts_add_up hrun hmade⟩

end SceneAudit
