import SceneAudit.Proofs.Audit.Dumps
import SceneAudit.Proofs.Discovery.Relocation

/-! # Audits of one project at two places

What an audit keeps while it runs names files by their paths. If one project lies at two places, and
the output directory with it, two audits of it keep the same, but for the beginnings of the paths.
-/

namespace SceneAudit

open Scene FileTree

section Lists

variable {α β γ : Type} {R : α → β → Prop} {l : List α} {m : List β}

theorem Lookup.find?_related {p : α → Bool} {q : β → Bool} (hpq : ∀ a b, R a b → p a = q b)
    (h : List.Forall₂ R l m) : Option.Rel R (l.find? p) (m.find? q) := by
  induction h with
  | nil => exact .none
  | @cons a b l m hab _ ih =>
    rw [List.find?_cons, List.find?_cons, hpq a b hab]
    cases q b with
    | true => exact .some hab
    | false => exact ih

theorem Lookup.map_eq_of_related {f : α → γ} {g : β → γ} (hfg : ∀ a b, R a b → f a = g b)
    (h : List.Forall₂ R l m) : l.map f = m.map g := by
  induction h with
  | nil => rfl
  | cons hab _ ih => rw [List.map_cons, List.map_cons, hfg _ _ hab, ih]

end Lists

section Paths

variable {r : Text}

theorem DumpPlan.IsName.inner {suffix : Text} (hr : IsName suffix r) (hsuffix : ¬ Climbs suffix) :
    Path.Inner r :=
  ⟨hr.relative, hr.up_not_mem hsuffix⟩

theorem DumpPlan.IsName.bodyComponents_ne_nil {suffix : Text} (hr : IsName suffix r) :
    Path.bodyComponents r ≠ [] := by
  obtain ⟨name, first, hnil, hup, -, -, hpieces⟩ := hr.exists_pieces
  obtain ⟨c, t, rfl⟩ := List.exists_cons_of_ne_nil hnil
  have hcomponent : Path.component? (c :: t ++ '.' :: first) =
      some (.name (c :: t ++ '.' :: first)) := by
    rw [Path.component?, if_neg (by simp), if_neg hup]
  rw [Path.bodyComponents, hpieces, List.filterMap_cons_some hcomponent]
  exact List.cons_ne_nil _ _

theorem Path.join_append {base : Text} (hr : isAbsolute r = false) (hne : r ≠ []) (s : Text) :
    join base r ++ s = join base (r ++ s) := by
  have hrelative : isAbsolute (r ++ s) = false := by
    obtain ⟨c, t, rfl⟩ := List.exists_cons_of_ne_nil hne
    exact hr
  rw [join_eq hr, join_eq hrelative]
  split <;> simp

theorem Placement.moved_sidecar (m : Placement) {suffix : Text}
    (hsuffix : ¬ DumpPlan.Climbs suffix) (hr : Finder.Listed [] r) :
    m.Moved (SourceFile.sidecarPath (Path.join m.path r) suffix)
      (SourceFile.sidecarPath (Path.join m.path' r) suffix) := by
  obtain rfl | ⟨dir, name, hdir, hname, rfl⟩ := hr.shape
  · exact absurd rfl hr.ne_nil
  have hpiece : DumpPlan.IsName suffix (name ++ '.' :: suffix) := by
    refine ⟨?_, name, hname.ne_nil, hname.ne_here, hname.slash, rfl⟩
    obtain ⟨c, t, rfl⟩ := List.exists_cons_of_ne_nil hname.ne_nil
    exact hname.relative
  have hjoin : ∀ base, Path.join base (Path.join dir name) ++ '.' :: suffix =
      Path.join base (Path.join dir (name ++ '.' :: suffix)) := by
    intro base
    rw [← Path.join_join hdir.relative hname.relative,
      Path.join_append hname.relative hname.ne_nil, Path.join_join hdir.relative hpiece.relative]
  refine ⟨_, hdir.join (hpiece.inner hsuffix), ?_, hjoin m.path, hjoin m.path'⟩
  rw [Path.bodyComponents_join dir hpiece.relative]
  simp [hpiece.bodyComponents_ne_nil]

section Same

variable {m : Placement} {a b c d : Text} (hpath : m.path ≠ []) (hpath' : m.path' ≠ [])
  (hab : m.Moved a b) (hcd : m.Moved c d)

include hpath hpath' hab

theorem Placement.Moved.same (hcd : m.Moved c d) : Path.same a c = Path.same b d := by
  obtain ⟨r, hr, -, rfl, rfl⟩ := hab
  obtain ⟨s, hs, -, rfl, rfl⟩ := hcd
  rw [Path.same_join hpath hr.relative hs.relative, Path.same_join hpath' hr.relative hs.relative]

theorem Placement.Moved.relativeTo : Path.relativeTo m.path a = Path.relativeTo m.path' b := by
  obtain ⟨r, hr, -, rfl, rfl⟩ := hab
  rw [Path.relativeTo_join hpath hr.relative, Path.relativeTo_join hpath' hr.relative]

theorem Placement.Moved.fileName? : Path.fileName? a = Path.fileName? b := by
  obtain ⟨r, hr, hbody, rfl, rfl⟩ := hab
  rw [Path.fileName?, Path.fileName?, Path.components_join hpath hr.relative,
    Path.components_join hpath' hr.relative, List.getLast?_append_of_ne_nil _ hbody,
    List.getLast?_append_of_ne_nil _ hbody]

end Same

end Paths

/-- One file at two places. -/
structure SourceFile.Moved (m : Placement) (a b : SourceFile) : Prop where
  path : m.Moved a.path b.path
  type : a.type = b.type

section Registry

variable {m : Placement} {registry registry' : Registry} {a b identifier : Text}

/-- One artifact at two places. -/
structure Artifact.Moved (m : Placement) (a b : Artifact) : Prop where
  identifier : a.identifier = b.identifier
  location : m.Moved a.location b.location

def Registry.Moved (m : Placement) (registry registry' : Registry) : Prop :=
  List.Forall₂ (Artifact.Moved m) registry.artifacts registry'.artifacts

namespace Registry.Moved

theorem empty (m : Placement) : Registry.Moved m .empty .empty :=
  .nil

variable (h : registry.Moved m registry')

include h

theorem filter {p : Text → Bool} :
    List.Forall₂ (Artifact.Moved m) (registry.artifacts.filter fun a => p a.identifier)
      (registry'.artifacts.filter fun a => p a.identifier) :=
  List.rel_filter (fun a b hab => show p a.identifier = true ↔ p b.identifier = true by
    rw [hab.identifier]) h

theorem insert (hab : m.Moved a b) (identifier : Text) :
    (registry.insert identifier a).Moved m (registry'.insert identifier b) :=
  .cons ⟨rfl, hab⟩ (h.filter (p := fun i => decide (i ≠ identifier)))

theorem register (hab : m.Moved a b) (sidecar : Option Bytes) :
    (registry.register a sidecar).1.Moved m (registry'.register b sidecar).1 := by
  unfold Registry.register
  cases sidecarIdentifier? sidecar with
  | none => exact h
  | some identifier => exact h.insert hab identifier

theorem lookup (identifier : Text) :
    Option.Rel m.Moved (registry.lookup identifier) (registry'.lookup identifier) := by
  unfold Registry.lookup
  have hfind := Lookup.find?_related (p := fun a => decide (a.identifier = identifier))
    (q := fun a => decide (a.identifier = identifier)) (fun _ _ hab => by rw [hab.identifier]) h
  generalize registry.artifacts.find? _ = found, registry'.artifacts.find? _ = found' at hfind
  cases hfind with
  | none => exact .none
  | some hab => exact .some hab.location

theorem size : registry.size = registry'.size :=
  List.Forall₂.length_eq h

theorem unusedScripts (hpath : m.path ≠ []) (hpath' : m.path' ≠ []) (used : UsedSet) :
    Audit.unusedScripts m.path registry used = Audit.unusedScripts m.path' registry' used := by
  unfold Audit.unusedScripts
  refine congrArg _ (Lookup.map_eq_of_related (fun a b hab => ?_)
    (h.filter (p := fun i => !used.contains i)))
  rw [hab.identifier, hab.location.relativeTo hpath hpath']

end Registry.Moved

end Registry

section Resolver

variable {m : Placement} {resolver resolver' : Resolver} {tree tree' : FileTree}
  {places : List Placement} {a b : Text}

/-- The same tables, stored for paths at two places. -/
structure Resolver.Moved (m : Placement) (resolver resolver' : Resolver) : Prop where
  policy : resolver.policy = resolver'.policy
  baseTypes : resolver.baseTypes = resolver'.baseTypes
  tables : List.Forall₂ (fun e e' => m.Moved e.1 e'.1 ∧ e.2 = e'.2) resolver.tables resolver'.tables

namespace Resolver.Moved

theorem new (m : Placement) (policy : UsagePolicy) (baseTypes : List Text) :
    (Resolver.new policy baseTypes).Moved m (.new policy baseTypes) :=
  ⟨rfl, rfl, .nil⟩

variable (h : resolver.Moved m resolver') (hpath : m.path ≠ []) (hpath' : m.path' ≠ [])
  (hab : m.Moved a b)

include h hab

theorem readTable (htree : Mirrored places tree tree') (hm : m ∈ places) :
    resolver.readTable tree a = resolver'.readTable tree' b := by
  rw [Resolver.readTable, Resolver.readTable, htree.readText hm hab, h.baseTypes]

include hpath hpath'

theorem cached? : resolver.cached? a = resolver'.cached? b := by
  unfold Resolver.cached?
  have hfind := Lookup.find?_related (p := fun e => Path.same e.1 a) (q := fun e => Path.same e.1 b)
    (fun _ _ he => he.1.same hpath hpath' hab) h.tables
  generalize resolver.tables.find? _ = found, resolver'.tables.find? _ = found' at hfind
  cases hfind with
  | none => rfl
  | some he => exact congrArg some he.2

theorem store (table : SymbolTable) :
    (resolver.store a table).1.Moved m (resolver'.store b table).1 ∧
      (resolver.store a table).2 = (resolver'.store b table).2 := by
  unfold Resolver.store
  rw [h.cached? hpath hpath' hab]
  cases resolver'.cached? b with
  | none => exact ⟨⟨h.policy, h.baseTypes, .cons ⟨hab, rfl⟩ h.tables⟩, rfl⟩
  | some stored => exact ⟨h, rfl⟩

theorem isUsed (htree : Mirrored places tree tree') (hm : m ∈ places) (fields : List Text) :
    (resolver.isUsed tree a fields).1.Moved m (resolver'.isUsed tree' b fields).1 ∧
      (resolver.isUsed tree a fields).2 = (resolver'.isUsed tree' b fields).2 := by
  unfold Resolver.isUsed Resolver.symbolsFor
  rw [htree.isFile hm hab, h.cached? hpath hpath' hab, h.readTable hab htree hm]
  split
  · cases resolver'.cached? b with
    | none =>
      obtain ⟨hstore, htable⟩ := h.store hpath hpath' hab (resolver'.readTable tree' b)
      exact ⟨hstore, by dsimp only; rw [htable, hstore.policy]⟩
    | some stored => exact ⟨h, by dsimp only; rw [h.policy]⟩
  · exact ⟨h, rfl⟩

end Resolver.Moved

end Resolver

section State

variable {root output : Placement}

/-- States of audits of one project at two places. -/
structure RunState.Moved (root output : Placement) (state state' : RunState) : Prop where
  tree : Mirrored [root, output] state.tree state'.tree
  used : state.used = state'.used
  resolver : state.resolver.Moved root state'.resolver

/-- The fault of a scene, with its path at two places. -/
inductive SceneFault.Moved (root output : Placement) : SceneFault → SceneFault → Prop
  | unreadable {scene scene' : Text} (h : root.Moved scene scene') (fault : Fault) :
      Moved root output (.unreadable scene fault) (.unreadable scene' fault)
  | dumpNotWritten {dump dump' : Text} (h : output.Moved dump dump') (fault : Fault) :
      Moved root output (.dumpNotWritten dump fault) (.dumpNotWritten dump' fault)

/-- The summary of one scene at two places. -/
structure SceneSummary.Moved (root output : Placement) (s s' : SceneSummary) : Prop where
  scene : root.Moved s.scene s'.scene
  dump : Option.Rel output.Moved s.dump s'.dump
  objects : s.objects = s'.objects
  behaviors : s.behaviors = s'.behaviors
  malformed : s.malformed = s'.malformed
  issues : s.issues = s'.issues

/-- The failure of one scene at two places: the reasons are the wordings of one fault. -/
structure SceneFailure.Moved (root output : Placement) (f f' : SceneFailure) : Prop where
  scene : root.Moved f.scene f'.scene
  reason : ∃ fault fault', SceneFault.Moved root output fault fault' ∧
    f.reason = fault.message ∧ f'.reason = fault'.message

/-- The outcome of one scene at two places. -/
inductive Audit.MovedOutcome (root output : Placement) :
    Except SceneFailure SceneSummary → Except SceneFailure SceneSummary → Prop
  | ok {s s' : SceneSummary} (h : s.Moved root output s') :
      MovedOutcome root output (.ok s) (.ok s')
  | error {f f' : SceneFailure} (h : f.Moved root output f') :
      MovedOutcome root output (.error f) (.error f')

namespace RunState.Moved

variable {state state' : RunState} {registry registry' : Registry}
  (h : state.Moved root output state') (hregistry : registry.Moved root registry')
  (hroot : root.path ≠ []) (hroot' : root.path' ≠ [])

include h hroot hroot'

theorem judge {a b : Text} (hab : root.Moved a b) (behavior : Behavior) :
    (Audit.judge state a behavior).Moved root output (Audit.judge state' b behavior) := by
  obtain ⟨hresolver, hused⟩ :=
    h.resolver.isUsed hroot hroot' hab h.tree List.mem_cons_self behavior.fields
  unfold Audit.judge
  refine ⟨h.tree, ?_, hresolver⟩
  dsimp only
  rw [hused, h.used]

include hregistry

theorem resolveBehavior (behavior : Behavior) :
    (Audit.resolveBehavior registry state behavior).Moved root output
      (Audit.resolveBehavior registry' state' behavior) := by
  unfold Audit.resolveBehavior
  rw [h.used]
  split
  · exact h
  · have hlookup := hregistry.lookup behavior.script
    generalize registry.lookup _ = found, registry'.lookup _ = found' at hlookup
    cases hlookup with
    | none => exact h
    | some hab => exact h.judge hroot hroot' hab behavior

theorem resolveBehaviors (behaviors : List Behavior) :
    (behaviors.foldl (Audit.resolveBehavior registry) state).Moved root output
      (behaviors.foldl (Audit.resolveBehavior registry') state') := by
  induction behaviors generalizing state state' with
  | nil => exact h
  | cons b behaviors ih => exact ih (h.resolveBehavior hregistry hroot hroot' b)

end RunState.Moved

namespace Audit

variable {tree tree' : FileTree} {dump dump' : Option Text} {scene scene' : SourceFile}

theorem writeDump_moved (h : Mirrored [root, output] tree tree')
    (hdump : Option.Rel output.Moved dump dump') (hierarchy : Hierarchy) :
    (∃ after after', writeDump tree dump hierarchy = .ok after ∧
      writeDump tree' dump' hierarchy = .ok after' ∧ Mirrored [root, output] after after') ∨
    ∃ fault fault', writeDump tree dump hierarchy = .error fault ∧
      writeDump tree' dump' hierarchy = .error fault' ∧ fault.Moved root output fault' := by
  cases hdump with
  | none => exact .inl ⟨tree, tree', rfl, rfl, h⟩
  | @some path path' hpath =>
    have hwrite := h.write (List.mem_cons_of_mem root (List.mem_singleton_self output)) hpath
      (Utf8.encode hierarchy.render)
    unfold writeDump
    dsimp only
    generalize tree.write path _ = result, tree'.write path' _ = result' at hwrite
    cases hwrite with
    | ok hafter => exact .inl ⟨_, _, rfl, rfl, hafter⟩
    | error fault => exact .inr ⟨_, _, rfl, rfl, .dumpNotWritten hpath fault⟩

theorem summary_moved (hscene : scene.Moved root scene')
    (hdump : Option.Rel output.Moved dump dump') (parsed : Scene) (hierarchy : Hierarchy) : (summary scene dump parsed hierarchy).Moved root
      output (summary scene' dump' parsed hierarchy) :=
  ⟨hscene.path, hdump, rfl, rfl, rfl, rfl⟩

theorem failure_moved (hscene : scene.Moved root scene') {fault fault' : SceneFault}
    (hfault : fault.Moved root output fault') :
    (failure scene fault).Moved root output (failure scene' fault') :=
  ⟨hscene.path, fault, fault', hfault, rfl, rfl⟩

section Processing

variable (config : Config) {state state' : RunState} {registry registry' : Registry}
  (h : state.Moved root output state') (hregistry : registry.Moved root registry')
  (hroot : root.path ≠ []) (hroot' : root.path' ≠ [])

include h hregistry hroot hroot'

/-- Processing a scene comes to the same at both places. -/
theorem processScene_moved (hscene : scene.Moved root scene')
    (hdump : Option.Rel output.Moved dump dump') :
    (processScene config registry state scene dump).1.Moved root output
        (processScene config registry' state' scene' dump').1 ∧
      MovedOutcome root output (processScene config registry state scene dump).2
        (processScene config registry' state' scene' dump').2 := by
  unfold processScene
  rw [h.tree.readText List.mem_cons_self hscene.path]
  cases state'.tree.readText scene'.path with
  | error fault => exact ⟨h, .error (failure_moved hscene (.unreadable hscene.path fault))⟩
  | ok text =>
    dsimp only
    generalize Scene.parse config.usage.reservedFields text = parsed
    have hstate := h.resolveBehaviors hregistry hroot hroot' parsed.behaviors
    rcases writeDump_moved hstate.tree hdump (Hierarchy.ofScene parsed) with
      ⟨after, after', hwrite, hwrite', hafter⟩ | ⟨fault, fault', hwrite, hwrite', hfault⟩
    · rw [hwrite, hwrite']
      exact ⟨⟨hafter, hstate.used, hstate.resolver⟩, .ok (summary_moved hscene hdump parsed _)⟩
    · rw [hwrite, hwrite']
      exact ⟨hstate, .error (failure_moved hscene hfault)⟩

theorem processAll_moved {scenes scenes' : List (SourceFile × Option Text)}
    (hscenes : List.Forall₂ (fun e e' => e.1.Moved root e'.1 ∧ Option.Rel output.Moved e.2 e'.2)
      scenes scenes') :
    (processAll config registry state scenes).1.Moved root output
        (processAll config registry' state' scenes').1 ∧
      List.Forall₂ (MovedOutcome root output) (processAll config registry state scenes).2
        (processAll config registry' state' scenes').2 := by
  induction hscenes generalizing state state' with
  | nil => exact ⟨h, .nil⟩
  | cons he _ ih =>
    obtain ⟨hstate, houtcome⟩ := processScene_moved config h hregistry hroot hroot' he.1 he.2
    obtain ⟨hfinal, houtcomes⟩ := ih hstate
    exact ⟨hfinal, .cons houtcome houtcomes⟩

end Processing

end Audit

end State

end SceneAudit
