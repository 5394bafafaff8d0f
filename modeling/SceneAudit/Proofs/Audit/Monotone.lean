import SceneAudit.Proofs.Audit.Unused
import SceneAudit.Proofs.Discovery.Growth

/-! # Evidence of use accumulates

A milder policy, one more scene file or more blocks in a scene can only add to what is used. So none
of them adds a row to the unused scripts, whatever the schedules.
-/

namespace SceneAudit

open Scene FileTree

def Config.withPolicy (config : Config) (policy : UsagePolicy) : Config :=
  { config with usage := { config.usage with policy := policy } }

namespace Project

variable {p p' : Project}

section Policy

def preserving (p : Project) : Project :=
  { p with config := p.config.withPolicy .preserve }

theorem Regular.preserving (hp : p.Regular) : p.preserving.Regular :=
  ⟨hp.wellFormed, hp.identifiers, hp.dumps⟩

theorem IsUsed.preserving {a : Artifact} (h : p.IsUsed a) : p.preserving.IsUsed a := by
  obtain ⟨b, hb, hscript, -⟩ := h
  exact ⟨b, hb, hscript, rfl⟩

end Policy

section Growth

def withTree (p : Project) (tree : FileTree) : Project :=
  { p with tree := tree }

variable {loc : Location} {tree : FileTree} (hp : p.Regular) (h : Grown p.config loc p.tree tree)
  (htree : tree.WellFormed)

include hp h htree

theorem Holds.withTree {b : Behavior} (hb : p.Holds b) : (p.withTree tree).Holds b := by
  obtain ⟨scene, hscene, text, hread, hb⟩ := hb
  obtain ⟨scene', hscene', hsame⟩ := h.scenes hp.wellFormed htree hscene
  have hfile := Finder.isFile_of_mem_scenes htree hscene'
  obtain ⟨blocks, hread', hblocks⟩ := h.readText_scene hsame hfile hread
  refine ⟨scene', hscene', _, hread', ?_⟩
  rcases hblocks with rfl | ⟨hend, hmark⟩
  · rwa [List.append_nil]
  · have hsplit := RawBlock.split_append (Text.ended_of_getLast? hend) hmark
    unfold behaviors at hb ⊢
    rw [show (p.withTree tree).config = p.config from rfl, parse_of_split hsplit]
    rw [List.filterMap_append]
    exact List.mem_append_left _ hb

variable (hroot : p.tree.isDirectory p.root = true)

include hroot

theorem IsUsed.withTree {a : Artifact} (ha : a ∈ p.artifacts) (hused : p.IsUsed a) :
    (p.withTree tree).IsUsed a := by
  obtain ⟨b, hb, hscript, huses⟩ := hused
  refine ⟨b, hb.withTree hp h htree, hscript, ?_⟩
  obtain ⟨script, hmem, -, hpath⟩ := mem_artifacts.mp ha
  have hread := h.readText_script hp.wellFormed hroot hmem
  have hsymbols : (p.withTree tree).symbols a.location = p.symbols a.location := by
    rw [← hpath, symbols, symbols, Resolver.readTable, Resolver.readTable]
    rw [show (p.withTree tree).tree = tree from rfl, hread]
    rfl
  rw [Uses, hsymbols]
  exact huses

end Growth

end Project

end SceneAudit
