import Mathlib.Logic.Relation
import SceneAudit.Proofs.Audit.Project

/-! # Schedules of an audit

An audit may register its scripts in any order, then work on all its scenes at once, and on all
behaviors of a scene at once. Judging a behavior takes several steps, between which anything else
may happen: other behaviors may mark the same script and store its table, and dumps may be written.
The audit that does one thing after another is one of the schedules.
-/

namespace SceneAudit

open Scene Relation

/-- How far the judging of a behavior has come. -/
inductive Progress where
  | untouched
  /-- No behavior was seen to use the script before. -/
  | unmarked
  /-- The script is registered with a path. -/
  | registered (path : Text)
  /-- The registered script is a file. -/
  | present (path : Text)
  /-- No table was stored for the script. -/
  | unread (path : Text)
  /-- The script has been read, but its table is not stored. -/
  | read (path : Text) (table : SymbolTable)
  /-- The behavior uses its script, which is not marked. -/
  | used
  | finished
  deriving DecidableEq, Repr

namespace Progress

def ofVerdict : Bool → Progress
  | true => used
  | false => finished

/-- The next step of judging a behavior: the state of the run and the progress after it. -/
def advance (registry : Registry) (state : RunState) (b : Behavior) : Progress → RunState × Progress
  | untouched =>
    (state, if !b.hasScript || state.used.contains b.script then finished else unmarked)
  | unmarked =>
    match registry.lookup b.script with
    | none => (state, finished)
    | some path => (state, registered path)
  | registered path => (state, if state.tree.isFile path then present path else finished)
  | present path =>
    match state.resolver.cached? path with
    | some table => (state, ofVerdict (table.decide state.resolver.policy b.fields))
    | none => (state, unread path)
  | unread path => (state, read path (state.resolver.readTable state.tree path))
  | read path table =>
    let (resolver, stored) := state.resolver.store path table
    ({ state with resolver := resolver }, ofVerdict (stored.decide resolver.policy b.fields))
  | used => ({ state with used := (state.used.mark b.script).1 }, finished)
  | finished => (state, finished)

end Progress

/-- A behavior that is being judged. -/
structure Task where
  behavior : Behavior
  progress : Progress
  deriving DecidableEq, Repr

/-- How far the work on a scene has come. -/
inductive Phase where
  | waiting
  | resolving (parsed : Scene) (tasks : List Task)
  | done (outcome : Except SceneFailure SceneSummary)

/-- The work on a scene. -/
structure Job where
  scene : SourceFile
  dump : Option Text
  phase : Phase

namespace Job

def resolving (scene : SourceFile) (dump : Option Text) (parsed : Scene) (tasks : List Task) :
    Job :=
  ⟨scene, dump, .resolving parsed tasks⟩

/-- One step of the work on a scene. -/
inductive Step (config : Config) (registry : Registry) :
    RunState × Job → RunState × Job → Prop where
  | unreadable {state : RunState} {scene : SourceFile} {dump : Option Text} {fault : Fault}
      (hread : state.tree.readText scene.path = .error fault) :
      Step config registry (state, ⟨scene, dump, .waiting⟩)
        (state, ⟨scene, dump, .done (.error (Audit.failure scene (.unreadable scene.path fault)))⟩)
  | read {state : RunState} {scene : SourceFile} {dump : Option Text} {text : Text} {parsed : Scene}
      (hread : state.tree.readText scene.path = .ok text)
      (hparsed : Scene.parse config.usage.reservedFields text = parsed) :
      Step config registry (state, ⟨scene, dump, .waiting⟩)
        (state, resolving scene dump parsed (parsed.behaviors.map (⟨·, .untouched⟩)))
  | advance {state state' : RunState} {scene : SourceFile} {dump : Option Text} {parsed : Scene}
      {before after : List Task} {b : Behavior} {progress progress' : Progress}
      (hunfinished : progress ≠ .finished)
      (hadvance : progress.advance registry state b = (state', progress')) :
      Step config registry (state, resolving scene dump parsed (before ++ ⟨b, progress⟩ :: after))
        (state', resolving scene dump parsed (before ++ ⟨b, progress'⟩ :: after))
  | dumped {state : RunState} {scene : SourceFile} {dump : Option Text} {parsed : Scene}
      {tasks : List Task} {tree : FileTree} (hfinished : ∀ t ∈ tasks, t.progress = .finished)
      (hwrite : Audit.writeDump state.tree dump (Hierarchy.ofScene parsed) = .ok tree) :
      Step config registry (state, resolving scene dump parsed tasks)
        ({ state with tree := tree },
          ⟨scene, dump, .done (.ok (Audit.summary scene dump parsed (Hierarchy.ofScene parsed)))⟩)
  | notDumped {state : RunState} {scene : SourceFile} {dump : Option Text} {parsed : Scene}
      {tasks : List Task} {fault : SceneFault} (hfinished : ∀ t ∈ tasks, t.progress = .finished)
      (hwrite : Audit.writeDump state.tree dump (Hierarchy.ofScene parsed) = .error fault) :
      Step config registry (state, resolving scene dump parsed tasks)
        (state, ⟨scene, dump, .done (.error (Audit.failure scene fault))⟩)

end Job

theorem Job.Step.same {config : Config} {registry : Registry} {state state' : RunState}
    {job job' : Job} (h : Step config registry (state, job) (state', job')) :
    job'.scene = job.scene ∧ job'.dump = job.dump := by
  cases h <;> exact ⟨rfl, rfl⟩

/-- A state of an audit: the scripts to register, what is shared, and the work on the scenes. -/
structure Schedule where
  pending : List SourceFile
  registry : Registry
  state : RunState
  jobs : List Job

namespace Schedule

/-- One step of an audit. No scene is worked on before all scripts have been registered. -/
inductive Step (config : Config) : Schedule → Schedule → Prop where
  | register {before after : List SourceFile} {script : SourceFile} {registry : Registry}
      {state : RunState} {jobs : List Job} :
      Step config ⟨before ++ script :: after, registry, state, jobs⟩
        ⟨before ++ after, Audit.registerScript state.tree config registry script, state, jobs⟩
  | work {registry : Registry} {state state' : RunState} {before after : List Job} {job job' : Job}
      (hjob : Job.Step config registry (state, job) (state', job')) :
      Step config ⟨[], registry, state, before ++ job :: after⟩
        ⟨[], registry, state', before ++ job' :: after⟩

def start (p : Project) : Schedule where
  pending := p.scripts
  registry := .empty
  state := p.state
  jobs := (p.scenes.zip p.dumps).map fun e => ⟨e.1, e.2, .waiting⟩

theorem jobs_start (p : Project) :
    (start p).jobs.map (fun job => (job.scene, job.dump)) = p.scenes.zip p.dumps := by
  rw [start, List.map_map]
  exact List.map_id _

theorem Step.jobs_eq {config : Config} {s s' : Schedule} (h : Step config s s') :
    s'.jobs.map (fun job => (job.scene, job.dump)) =
      s.jobs.map fun job => (job.scene, job.dump) := by
  cases h with
  | register => rfl
  | work hjob =>
    rw [List.map_append, List.map_append, List.map_cons, List.map_cons, hjob.same.1, hjob.same.2]

def Reaches (config : Config) : Schedule → Schedule → Prop :=
  ReflTransGen (Step config)

/-- All scripts are registered and all scenes are done. -/
structure Finished (s : Schedule) : Prop where
  registered : s.pending = []
  done : ∀ job ∈ s.jobs, ∃ outcome, job.phase = .done outcome

/-- The registered scripts that are not used as the audit stands. -/
def unused (s : Schedule) (root : Text) : List UnusedScript :=
  Audit.unusedScripts root s.registry s.state.used

end Schedule

end SceneAudit
