import Mathlib.Data.List.Forall2
import SceneAudit.Proofs.Scene.Blocks

/-! # Sections of a scene text

The lines of a text fall into those in front of the first header and one section for each header:
the header and the lines below it up to the next. The blocks of the text are those of its sections
in order, so that every line below a header is in the body of one block and in no other.
-/

namespace SceneAudit.Scene

open Text (Spells fitsSigned)

/-- The canonical form of an anchor: the decimal of an integer that fits 64 bits, and anything else
as it is written. -/
inductive Canonical : Text → Text → Prop where
  | integer {name : Text} {n : Int} (spelled : Spells name n) (fits : fitsSigned 64 n = true) :
      Canonical name (Text.ofInt n)
  | verbatim {name : Text} (other : ∀ n, Spells name n → fitsSigned 64 n = false) :
      Canonical name name

theorem canonical_iff {name anchor : Text} :
    Canonical name anchor ↔ canonicalAnchor name = anchor := by
  constructor
  · rintro (⟨hspells, hfits⟩ | hother)
    · exact canonicalAnchor_of_spells hspells hfits
    · have hnone : Text.readInt64? name = none := by
        refine Option.eq_none_iff_forall_ne_some.mpr fun n hn => ?_
        obtain ⟨hspells, hfits⟩ := Text.readInt64?_eq_some_iff.mp hn
        rw [hother n hspells] at hfits
        contradiction
      rw [canonicalAnchor, hnone]
  · rintro rfl
    rw [canonicalAnchor]
    cases hread : Text.readInt64? name with
    | some n =>
      obtain ⟨hspells, hfits⟩ := Text.readInt64?_eq_some_iff.mp hread
      exact .integer hspells hfits
    | none =>
      refine .verbatim fun n hspells => Bool.eq_false_iff.mpr fun hfits => ?_
      rw [hspells.readInt64?_eq hfits] at hread
      contradiction

namespace RawBlock

/-- What the last word of a kind gives, if there is a word of this kind. -/
inductive LastGives (gives : Text → Text → Prop) (words : List Text) : Option Text → Prop where
  | none (absent : ∀ w ∈ words, ∀ v, ¬gives w v) : LastGives gives words none
  | some {before after : List Text} {word value : Text} (split : words = before ++ word :: after)
      (given : gives word value) (last : ∀ w ∈ after, ∀ v, ¬gives w v) :
      LastGives gives words (some value)

theorem lastGives_filterMap {gives : Text → Text → Prop} {f : Text → Option Text}
    (hf : ∀ w v, f w = some v ↔ gives w v) (words : List Text) :
    LastGives gives words (words.filterMap f).getLast? := by
  have hnone : ∀ {ws : List Text}, ws.filterMap f = [] → ∀ w ∈ ws, ∀ v, ¬gives w v := by
    intro ws hws w hw v hgives
    rw [← hf w v, List.filterMap_eq_nil_iff.mp hws w hw] at hgives
    contradiction
  rcases List.eq_nil_or_concat' (words.filterMap f) with hnil | ⟨vs, v, hvs⟩
  · rw [hnil]
    exact .none (hnone hnil)
  · obtain ⟨front, back, rfl, -, hback⟩ := List.filterMap_eq_append_iff.mp hvs
    obtain ⟨between, word, after, rfl, -, hword, hafter⟩ := List.filterMap_eq_cons_iff.mp hback
    have hwords : front ++ (between ++ word :: after) = (front ++ between) ++ word :: after :=
      (List.append_assoc front between _).symm
    rw [hvs, List.getLast?_concat]
    exact .some hwords ((hf word v).mp hword) (hnone hafter)

theorem anchorOf?_eq_some_iff {word anchor : Text} : anchorOf? word = some anchor ↔
    ∃ name, word = '&' :: name ∧ name ≠ [] ∧ Canonical name anchor := by
  simp only [canonical_iff]
  constructor
  · intro h
    unfold anchorOf? at h
    split at h
    · exact ⟨_, rfl, List.cons_ne_nil _ _, Option.some.inj h⟩
    · contradiction
  · rintro ⟨name, rfl, hne, rfl⟩
    obtain ⟨c, t, rfl⟩ := List.exists_cons_of_ne_nil hne
    rfl

/-- A header without its mark, and the lines below it up to the next header. -/
structure Section where
  header : Text
  body : List Text

namespace Section

/-- The lines that the section takes up. -/
def lines (s : Section) : List Text :=
  (headerMark ++ s.header) :: s.body

/-- The block is the one that the section describes. -/
structure Describes (s : Section) (b : RawBlock) : Prop where
  anchor : LastGives (fun w a => ∃ name, w = '&' :: name ∧ name ≠ [] ∧ Canonical name a)
    (Text.words s.header) b.anchor
  classId : LastGives (fun w id => w = "!u!".toList ++ id) (Text.words s.header) b.classId
  stripped : b.stripped = true ↔ "stripped".toList ∈ Text.words s.header
  body : b.body = kept s.body

theorem describes_ofHeader (s : Section) : s.Describes (ofHeader s.header (kept s.body)) where
  anchor := lastGives_filterMap (fun _ _ => anchorOf?_eq_some_iff) _
  classId := lastGives_filterMap (fun _ _ => Text.dropStart?_eq_some_iff) _
  stripped := List.contains_iff_mem
  body := rfl

end Section

/-- The lines are those in front of the first header and then those of the sections. -/
structure IsCut (ls front : List Text) (sections : List Section) : Prop where
  lines_eq : ls = front ++ sections.flatMap Section.lines
  front : ∀ l ∈ front, Text.startsWith headerMark l = false
  bodies : ∀ s ∈ sections, ∀ l ∈ s.body, Text.startsWith headerMark l = false

theorem exists_isCut (ls : List Text) : ∃ front sections, IsCut ls front sections := by
  induction ls with
  | nil => exact ⟨[], [], rfl, by simp, by simp⟩
  | cons line ls ih =>
    obtain ⟨front, sections, rfl, hfront, hbodies⟩ := ih
    cases hline : Text.startsWith headerMark line with
    | true =>
      obtain ⟨header, rfl⟩ := Text.startsWith_iff.mp hline
      exact ⟨[], ⟨header, front⟩ :: sections, rfl, by simp,
        List.forall_mem_cons.mpr ⟨hfront, hbodies⟩⟩
    | false =>
      exact ⟨line :: front, sections, rfl, List.forall_mem_cons.mpr ⟨hline, hfront⟩, hbodies⟩

theorem cut_section {s : Section} (hbody : ∀ l ∈ s.body, Text.startsWith headerMark l = false)
    {ls : List Text} (hls : (cut ls).1 = []) :
    cut (s.lines ++ ls) = ([], ofHeader s.header (kept s.body) :: (cut ls).2) := by
  rw [Section.lines, List.cons_append, cut_cons_header, cut_append hls, cut_of_headerless hbody]
  rfl

theorem cut_sections {sections : List Section}
    (hbodies : ∀ s ∈ sections, ∀ l ∈ s.body, Text.startsWith headerMark l = false) :
    cut (sections.flatMap Section.lines) =
      ([], sections.map fun s => ofHeader s.header (kept s.body)) := by
  induction sections with
  | nil => rfl
  | cons s sections ih =>
    obtain ⟨hs, hsections⟩ := List.forall_mem_cons.mp hbodies
    have hmore := ih hsections
    rw [List.flatMap_cons, cut_section hs (congrArg Prod.fst hmore), hmore]
    rfl

theorem IsCut.cut_eq {ls front : List Text} {sections : List Section}
    (h : IsCut ls front sections) :
    cut ls = (kept front, sections.map fun s => ofHeader s.header (kept s.body)) := by
  have hsections := cut_sections h.bodies
  rw [h.lines_eq, cut_append (congrArg Prod.fst hsections), cut_of_headerless h.front, hsections]
  rfl

theorem length_cut (ls : List Text) :
    (cut ls).2.length = ls.countP (Text.startsWith headerMark) := by
  induction ls with
  | nil => rfl
  | cons line ls ih =>
    rw [List.countP_cons, ← ih]
    cases hline : Text.startsWith headerMark line with
    | true =>
      obtain ⟨header, rfl⟩ := Text.startsWith_iff.mp hline
      rw [cut_cons_header]
      rfl
    | false =>
      rw [cut_cons_line hline]
      rfl

theorem append_bodies_cut (ls : List Text) : (cut ls).1 ++ (cut ls).2.flatMap body =
    kept (ls.filter fun l => !Text.startsWith headerMark l) := by
  induction ls with
  | nil => rfl
  | cons line ls ih =>
    cases hline : Text.startsWith headerMark line with
    | true =>
      rw [List.filter_cons_of_neg (by simp [hline]), ← ih]
      obtain ⟨header, rfl⟩ := Text.startsWith_iff.mp hline
      rw [cut_cons_header]
      rfl
    | false =>
      rw [List.filter_cons_of_pos (by simp [hline]), cut_cons_line hline, List.append_assoc, ih,
        ← kept_append]
      rfl

/-- A text has one block for each header, described by the header and the lines below it up to the
next. The bodies, behind what stands in front of the first header, are all lines that are neither
headers nor ends of documents, in order. -/
theorem split_exact (text : Text) :
    (∃ front sections, IsCut (Text.lines text) front sections) ∧
    ∀ front sections, IsCut (Text.lines text) front sections →
      List.Forall₂ Section.Describes sections (split text) ∧
      (split text).length = (Text.lines text).countP (Text.startsWith headerMark) ∧
      kept front ++ (split text).flatMap body =
        kept ((Text.lines text).filter fun l => !Text.startsWith headerMark l) := by
  refine ⟨exists_isCut _, fun front sections h => ⟨?_, length_cut _, ?_⟩⟩
  · rw [split, h.cut_eq, List.forall₂_map_right_iff, List.forall₂_same]
    exact fun s _ => s.describes_ofHeader
  · have hbodies := append_bodies_cut (Text.lines text)
    rwa [show (cut (Text.lines text)).1 = kept front from congrArg Prod.fst h.cut_eq] at hbodies

end RawBlock

end SceneAudit.Scene
