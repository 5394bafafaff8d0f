import Mathlib.Algebra.Order.BigOperators.Group.List
import Mathlib.Algebra.Order.Group.Nat
import SceneAudit.Proofs.Audit.Project
import SceneAudit.Proofs.Hierarchy.Emission
import SceneAudit.Proofs.Text.Pieces

/-! # Dumps line by line

A dump holds the name of each listed object as it is. A line feed in a name splits the line of its
object, and nothing else does.
-/

namespace SceneAudit

open Scene

namespace Text

variable {sep : Char}

theorem length_splitOn (t : Text) : (splitOn sep t).length = t.count sep + 1 := by
  induction t using splitOn_induct sep with
  | nil => rfl
  | separator t ih => rw [splitOn_cons_sep, List.length_cons, ih, List.count_cons_self]
  | other c t piece pieces hc ht ih =>
    rw [splitOn_cons hc ht, List.length_cons, ← List.length_cons, ← ht, ih,
      List.count_cons_of_ne hc]

theorem splitOn_unlines (ls : List Text) :
    splitOn '\n' (unlines ls) = ls.flatMap (splitOn '\n') ++ [[]] := by
  induction ls with
  | nil => rfl
  | cons l ls ih =>
    rw [unlines_cons, splitOn_append_sep, ih, List.flatMap_cons, List.append_assoc]

theorem count_unlines (ls : List Text) :
    (unlines ls).count '\n' = ls.length + (ls.map fun l => l.count '\n').sum := by
  induction ls with
  | nil => rfl
  | cons l ls ih =>
    rw [unlines_cons, List.count_append, List.count_cons_self, ih, List.map_cons, List.sum_cons,
      List.length_cons]
    omega

theorem splitOn_unlines_eq_iff (ls : List Text) :
    splitOn '\n' (unlines ls) = ls ++ [[]] ↔ ∀ l ∈ ls, '\n' ∉ l := by
  constructor
  · intro h l hl hfeed
    have hlength := congrArg List.length h
    rw [length_splitOn, count_unlines, List.length_append, List.length_singleton] at hlength
    have hle : l.count '\n' ≤ (ls.map fun l => l.count '\n').sum :=
      List.single_le_sum (fun _ _ => Nat.zero_le _) _ (List.mem_map_of_mem hl)
    have hpos := List.count_pos_iff.mpr hfeed
    omega
  · intro h
    simpa [splitOn] using splitOn_unlines_append h []

end Text

/-- The name that a visit lists. -/
def Visit.name? (v : Visit) : Option Text :=
  match v.outcome with
  | .listed name => some name
  | _ => none

namespace Arena

variable {arena : Arena}

/-- The names that the walk lists, in order. -/
def names (arena : Arena) : List Text :=
  arena.walk.filterMap Visit.name?

theorem forall₂_lines_names (log : List Visit) :
    List.Forall₂ (fun line name => ∃ depth, line = List.replicate depth '-' ++ name)
      (log.filterMap line?) (log.filterMap Visit.name?) := by
  induction log with
  | nil => exact .nil
  | cons v log ih =>
    rcases v with ⟨number, depth, name | _ | _⟩
    · exact .cons ⟨depth, rfl⟩ ih
    · exact ih
    · exact ih

theorem exists_object_of_mem_names {name : Text} (h : name ∈ arena.names) :
    ∃ o ∈ arena.objects, o.name = name := by
  obtain ⟨v, hv, hname⟩ := List.mem_filterMap.mp h
  obtain ⟨t, -, howner⟩ := faithful_of_mem_walk hv
  rcases v with ⟨number, depth, listed | _ | _⟩
  · obtain rfl : listed = name := Option.some.inj hname
    obtain ⟨o, ho, rfl⟩ := Option.map_eq_some_iff.mp howner
    exact ⟨o, List.mem_reverse.mp (List.mem_of_find?_eq_some ho), rfl⟩
  · contradiction
  · contradiction

end Arena

section Lines

variable {lines names : List Text}
  (h : List.Forall₂ (fun line name => ∃ depth, line = List.replicate depth '-' ++ name) lines names)

include h

theorem map_count_of_forall₂ :
    lines.map (fun l => l.count '\n') = names.map fun name => name.count '\n' := by
  induction h with
  | nil => rfl
  | cons hline _ ih =>
    obtain ⟨depth, rfl⟩ := hline
    have hdashes : (List.replicate depth '-').count '\n' = 0 := by
      rw [List.count_replicate]
      rfl
    rw [List.map_cons, List.map_cons, ih, List.count_append, hdashes, Nat.zero_add]

theorem forall_not_mem_iff : (∀ l ∈ lines, '\n' ∉ l) ↔ ∀ name ∈ names, '\n' ∉ name := by
  have hcounts := map_count_of_forall₂ h
  simp only [← List.count_eq_zero]
  rw [← List.forall_mem_map (f := fun l : Text => l.count '\n') (P := fun n => n = 0), hcounts,
    List.forall_mem_map]

end Lines

namespace Hierarchy

theorem splitOn_render_eq_iff (scene : Scene) :
    Text.splitOn '\n' (ofScene scene).render = (ofScene scene).lines ++ [[]] ↔
      ∀ name ∈ (Arena.ofScene scene).names, '\n' ∉ name := by
  rw [render, Text.splitOn_unlines_eq_iff]
  exact forall_not_mem_iff (Arena.forall₂_lines_names (Arena.ofScene scene).walk)

theorem count_render (scene : Scene) : (ofScene scene).render.count '\n' =
    (ofScene scene).lines.length +
      ((Arena.ofScene scene).names.map fun name => name.count '\n').sum := by
  have hnames := Arena.forall₂_lines_names (Arena.ofScene scene).walk
  rw [render, Text.count_unlines]
  congr 2
  exact map_count_of_forall₂ hnames

end Hierarchy

namespace Audit

variable {config : Config} {registry : Registry} {state state' : RunState} {source : SourceFile}
  {path : Text} {result : SceneSummary}

theorem of_processScene_eq_ok
    (h : processScene config registry state source (some path) = (state', .ok result)) :
    ∃ text, state.tree.readText source.path = .ok text ∧
      let hierarchy := Hierarchy.ofScene (Scene.parse config.usage.reservedFields text)
      state'.tree.readText path = .ok hierarchy.render ∧
        result.objects = hierarchy.lines.length := by
  unfold processScene at h
  split at h
  · cases h
  · rename_i text htext
    refine ⟨text, htext, ?_⟩
    simp only at h
    split at h
    · cases h
    · rename_i tree hdump
      obtain ⟨rfl, hresult⟩ := Prod.mk.inj h
      obtain rfl := Except.ok.inj hresult
      obtain ⟨hnone, -⟩ | ⟨dump, hsome, hwrite⟩ := writeDump_eq_ok hdump
      · cases hnone
      · obtain rfl := Option.some.inj hsome
        exact ⟨FileTree.readText_of_write hwrite, rfl⟩

end Audit

/-- The lines of a dump are the lines of its hierarchy, one for each object in the summary, exactly
if no listed name holds a line feed. Each line feed in a name is one line more. The names are those
of the scene's objects as they are. -/
theorem dump_lines (config : Config) (text : Text) :
    let scene := Scene.parse config.usage.reservedFields text
    let hierarchy := Hierarchy.ofScene scene
    let names := hierarchy.arena.names
    List.Forall₂ (fun line name => ∃ depth, line = List.replicate depth '-' ++ name)
        hierarchy.lines names ∧
      (∀ name ∈ names, ∃ o ∈ scene.objects, o.name = name) ∧
      Text.splitOn '\n' hierarchy.render =
        hierarchy.lines.flatMap (Text.splitOn '\n') ++ [[]] ∧
      (Text.splitOn '\n' hierarchy.render = hierarchy.lines ++ [[]] ↔
        ∀ name ∈ names, '\n' ∉ name) ∧
      ∀ (registry : Registry) (state state' : RunState) (source : SourceFile) (path : Text)
          (result : SceneSummary),
        state.tree.readText source.path = .ok text →
        Audit.processScene config registry state source (some path) = (state', .ok result) →
        ∃ dump, state'.tree.readText path = .ok dump ∧
          dump.count '\n' = result.objects + (names.map fun name => name.count '\n').sum ∧
          (dump.count '\n' = result.objects ↔ ∀ name ∈ names, '\n' ∉ name) := by
  intro scene hierarchy names
  refine ⟨Arena.forall₂_lines_names _, fun name => Arena.exists_object_of_mem_names,
    Text.splitOn_unlines _, Hierarchy.splitOn_render_eq_iff scene, ?_⟩
  intro registry state state' source path result htext h
  obtain ⟨text', hread, hdump, hobjects⟩ := Audit.of_processScene_eq_ok h
  obtain rfl : text' = text := Except.ok.inj (hread.symm.trans htext)
  have hcount := Hierarchy.count_render scene
  rw [← hobjects] at hcount
  refine ⟨_, hdump, hcount, ?_⟩
  rw [hcount, Nat.add_eq_left, List.sum_eq_zero_iff, List.forall_mem_map]
  simp only [List.count_eq_zero]
  rfl

/-- A block scalar is a name of two lines. -/
theorem dump_lines_of_block_scalar :
    let text :=
      ("--- !u!1 &1\nGameObject:\n  m_Name: |-\n    a\n    b\n--- !u!4 &2\nTransform:\n" ++
        "  m_GameObject: \x7bfileID: 1\x7d\n").toList
    let tree : FileTree := ⟨[(["s.unity".toList], .file (Utf8.encode text))], []⟩
    let start : RunState := ⟨tree, .empty, .new .preserve []⟩
    let source : SourceFile := ⟨"/s.unity".toList, .scene⟩
    let names :=
      (Hierarchy.ofScene (Scene.parse Config.default.usage.reservedFields text)).arena.names
    tree.readText source.path = .ok text ∧
      ∃ state' result dump,
        Audit.processScene .default .empty start source (some "/d".toList) = (state', .ok result) ∧
        result.objects = 1 ∧
        state'.tree.readText "/d".toList = .ok dump ∧ dump = "a\nb\n".toList ∧
        dump.count '\n' = result.objects + (names.map fun name => name.count '\n').sum := by
  rw [String.toList_append]
  repeat rw [String.toList_ofList]
  intro text tree start source names
  have htext : tree.readText source.path = .ok text := by decide +kernel
  have hvalues : (fun run : RunState × Except SceneFailure SceneSummary =>
      (run.2.toOption.map SceneSummary.objects, run.1.tree.readText ['/', 'd']))
        (Audit.processScene .default .empty start source (some ['/', 'd'])) =
      (some 1, .ok ['a', '\n', 'b', '\n']) := by decide +kernel
  generalize hrun : Audit.processScene .default .empty start source (some ['/', 'd']) = run
    at hvalues
  obtain ⟨hobjects, hdump⟩ := Prod.mk.inj hvalues
  rcases run with ⟨state', fault | result⟩
  · cases hobjects
  · obtain ⟨-, -, -, -, hdumped⟩ := dump_lines .default text
    obtain ⟨dump, hread, hcount, -⟩ := hdumped .empty start state' source _ result htext hrun
    exact ⟨htext, state', result, dump, rfl, Option.some.inj hobjects, hread,
      Except.ok.inj (hread.symm.trans hdump), hcount⟩

/-- A name with an escaped line feed takes two lines of the dump. -/
theorem not_dump_lines_of_escaped_feed :
    let text := ("--- !u!1 &1\nGameObject:\n  m_Name: \"a\\nb\"\n--- !u!4 &2\nTransform:\n" ++
      "  m_GameObject: \x7bfileID: 1\x7d\n").toList
    let hierarchy := Hierarchy.ofScene (Scene.parse [] text)
    hierarchy.lines = ["a\nb".toList] ∧
      Text.splitOn '\n' hierarchy.render = [['a'], ['b'], []] ∧
      Text.splitOn '\n' hierarchy.render ≠ hierarchy.lines ++ [[]] ∧
      hierarchy.render.count '\n' ≠ hierarchy.lines.length := by
  rw [String.toList_append]
  repeat rw [String.toList_ofList]
  decide +kernel

end SceneAudit
