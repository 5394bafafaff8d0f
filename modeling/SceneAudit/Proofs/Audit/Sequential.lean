import SceneAudit.Proofs.Audit.Schedule

/-! # The sequential schedule

An audit that registers its scripts one after another, and then resolves the behaviors of one scene
after another, is one of the schedules, so there is a schedule that comes to an end.
-/

namespace SceneAudit

open Scene Relation

namespace Progress

/-- The judging of a behavior may go on from one progress to another while nothing else happens. -/
def Alone (registry : Registry) (b : Behavior) : RunState × Progress → RunState × Progress → Prop :=
  ReflTransGen fun x y => x.2 ≠ finished ∧ x.2.advance registry x.1 b = y

variable {registry : Registry} {state : RunState} {b : Behavior}

theorem Alone.head {x y z : RunState × Progress} (hunfinished : x.2 ≠ finished)
    (hadvance : x.2.advance registry x.1 b = y) (h : Alone registry b y z) :
    Alone registry b x z :=
  ReflTransGen.head ⟨hunfinished, hadvance⟩ h

theorem alone_ofVerdict (verdict : Bool) :
    Alone registry b (state, ofVerdict verdict)
      ({ state with used := if verdict then (state.used.mark b.script).1 else state.used },
        finished) := by
  cases verdict with
  | true => exact Alone.head nofun rfl .refl
  | false => exact .refl

theorem alone_judge (path : Text) :
    Alone registry b (state, registered path) (Audit.judge state path b, finished) := by
  cases hfile : state.tree.isFile path with
  | false =>
    have hjudge : Audit.judge state path b = state := by simp [Audit.judge, Resolver.isUsed, hfile]
    rw [hjudge]
    refine Alone.head nofun ?_ .refl
    rw [advance, hfile, if_neg Bool.false_ne_true]
  | true =>
    have hpresent : advance registry state b (registered path) = (state, present path) := by
      rw [advance, hfile, if_pos rfl]
    refine Alone.head nofun hpresent ?_
    cases hcached : state.resolver.cached? path with
    | some table =>
      have hjudge : Audit.judge state path b = { state with
          used := if table.decide state.resolver.policy b.fields then
            (state.used.mark b.script).1 else state.used } := by
        simp [Audit.judge, Resolver.isUsed, Resolver.symbolsFor, hfile, hcached]
      rw [hjudge]
      refine Alone.head nofun ?_ (alone_ofVerdict _)
      simp [advance, hcached]
    | none =>
      refine Alone.head (y := (state, unread path)) nofun ?_ ?_
      · simp [advance, hcached]
      refine Alone.head nofun rfl ?_
      refine Alone.head nofun rfl ?_
      let table := state.resolver.readTable state.tree path
      have hjudge : Audit.judge state path b = { state with
          resolver := (state.resolver.store path table).1
          used := if (state.resolver.store path table).2.decide
              (state.resolver.store path table).1.policy b.fields then
            (state.used.mark b.script).1 else state.used } := by
        simp [Audit.judge, Resolver.isUsed, Resolver.symbolsFor, hfile, hcached, table]
      rw [hjudge]
      exact alone_ofVerdict _

theorem alone_resolveBehavior :
    Alone registry b (state, untouched) (Audit.resolveBehavior registry state b, finished) := by
  unfold Audit.resolveBehavior
  split
  · rename_i hskip
    refine Alone.head nofun ?_ .refl
    rw [advance, if_pos hskip]
  · rename_i hskip
    have hunmarked : advance registry state b untouched = (state, unmarked) := by
      rw [advance, if_neg hskip]
    refine Alone.head nofun hunmarked ?_
    split
    · rename_i hlookup
      refine Alone.head nofun ?_ .refl
      simp [advance, hlookup]
    · rename_i path hlookup
      have hregistered : advance registry state b unmarked = (state, registered path) := by
        simp [advance, hlookup]
      exact Alone.head nofun hregistered (alone_judge path)

end Progress

namespace Job

variable {config : Config} {registry : Registry} {state : RunState} {scene : SourceFile}
  {dump : Option Text} {parsed : Scene}

/-- The work on a scene may come from one state to another while nothing else happens. -/
def Alone (config : Config) (registry : Registry) : RunState × Job → RunState × Job → Prop :=
  ReflTransGen (Step config registry)

theorem alone_task {before after : List Task} {b : Behavior} {x y : RunState × Progress}
    (h : Progress.Alone registry b x y) :
    Alone config registry (x.1, resolving scene dump parsed (before ++ ⟨b, x.2⟩ :: after))
      (y.1, resolving scene dump parsed (before ++ ⟨b, y.2⟩ :: after)) := by
  refine ReflTransGen.lift
    (fun x : RunState × Progress =>
      (x.1, resolving scene dump parsed (before ++ ⟨b, x.2⟩ :: after))) ?_ _ _ h
  rintro x y ⟨hunfinished, rfl⟩
  exact Step.advance hunfinished rfl

theorem alone_tasks (behaviors : List Behavior) (before : List Task) (state : RunState) :
    Alone config registry
      (state, resolving scene dump parsed (before ++ behaviors.map (⟨·, .untouched⟩)))
      (behaviors.foldl (Audit.resolveBehavior registry) state,
        resolving scene dump parsed (before ++ behaviors.map (⟨·, .finished⟩))) := by
  induction behaviors generalizing before state with
  | nil => exact .refl
  | cons b behaviors ih =>
    have hrest := ih (before ++ [⟨b, .finished⟩]) (Audit.resolveBehavior registry state b)
    rw [List.append_assoc, List.append_assoc] at hrest
    exact (alone_task Progress.alone_resolveBehavior).trans hrest

theorem alone_processScene :
    Alone config registry (state, ⟨scene, dump, .waiting⟩)
      ((Audit.processScene config registry state scene dump).1,
        ⟨scene, dump, .done (Audit.processScene config registry state scene dump).2⟩) := by
  unfold Audit.processScene
  split
  · rename_i fault hread
    exact .single (.unreadable hread)
  · rename_i text hread
    dsimp only
    generalize hparsed : Scene.parse config.usage.reservedFields text = parsed
    have htasks : Alone config registry (state, resolving scene dump parsed _) _ :=
      alone_tasks parsed.behaviors [] state
    refine ReflTransGen.head (.read hread hparsed) (htasks.trans (.single ?_))
    have hfinished : ∀ t ∈ [] ++ parsed.behaviors.map (Task.mk · .finished),
        t.progress = .finished := by
      simp
    split
    · rename_i fault hwrite
      exact .notDumped hfinished hwrite
    · rename_i tree hwrite
      exact .dumped hfinished hwrite

end Job

namespace Schedule

variable {config : Config} {registry : Registry}

theorem reaches_job {before after : List Job} {x y : RunState × Job}
    (h : Job.Alone config registry x y) :
    Reaches config ⟨[], registry, x.1, before ++ x.2 :: after⟩
      ⟨[], registry, y.1, before ++ y.2 :: after⟩ := by
  refine ReflTransGen.lift
    (fun x : RunState × Job => (⟨[], registry, x.1, before ++ x.2 :: after⟩ : Schedule)) ?_ _ _ h
  intro x y hstep
  exact Step.work hstep

theorem reaches_processAll (scenes : List (SourceFile × Option Text)) (before : List Job)
    (state : RunState) :
    Reaches config ⟨[], registry, state, before ++ scenes.map fun e => ⟨e.1, e.2, .waiting⟩⟩
      ⟨[], registry, (Audit.processAll config registry state scenes).1,
        before ++ (scenes.zip (Audit.processAll config registry state scenes).2).map
          fun e => ⟨e.1.1, e.1.2, .done e.2⟩⟩ := by
  induction scenes generalizing before state with
  | nil => exact .refl
  | cons e scenes ih =>
    rcases e with ⟨scene, dump⟩
    have hrest := ih
      (before ++ [⟨scene, dump, .done (Audit.processScene config registry state scene dump).2⟩])
      (Audit.processScene config registry state scene dump).1
    rw [List.append_assoc, List.append_assoc] at hrest
    exact (reaches_job Job.alone_processScene).trans hrest

theorem reaches_registerAll (scripts : List SourceFile) (registry : Registry) (state : RunState)
    (jobs : List Job) :
    Reaches config ⟨scripts, registry, state, jobs⟩
      ⟨[], scripts.foldl (Audit.registerScript state.tree config) registry, state, jobs⟩ := by
  induction scripts generalizing registry with
  | nil => exact .refl
  | cons script scripts ih =>
    have hstep : Step config ⟨[] ++ script :: scripts, registry, state, jobs⟩ _ := Step.register
    exact ReflTransGen.head hstep (ih _)

def sequential (p : Project) : Schedule :=
  let registry := Audit.registerAll p.tree p.config p.scripts
  let (state, outcomes) := Audit.processAll p.config registry p.state (p.scenes.zip p.dumps)
  ⟨[], registry, state,
    ((p.scenes.zip p.dumps).zip outcomes).map fun e => ⟨e.1.1, e.1.2, .done e.2⟩⟩

theorem reaches_sequential (p : Project) : Reaches p.config (start p) (sequential p) :=
  (reaches_registerAll _ _ _ _).trans (reaches_processAll (p.scenes.zip p.dumps) [] p.state)

theorem finished_sequential (p : Project) : (sequential p).Finished := by
  constructor
  · rfl
  · intro job hjob
    obtain ⟨e, -, rfl⟩ := List.mem_map.mp hjob
    exact ⟨e.2, rfl⟩

/-- Some schedule comes to an end with what the sequential audit reports. -/
theorem exists_reaches_finished (p : Project) :
    ∃ final, Reaches p.config (start p) final ∧ final.Finished ∧
      final.unused p.root = p.report.unused :=
  ⟨sequential p, reaches_sequential p, finished_sequential p, rfl⟩

end Schedule

end SceneAudit
