import Mathlib.Data.List.Basic
import SceneAudit.Report.Csv

/-! # Reading records

A grammar of records: fields between commas, lines that end with a line feed or with a carriage
return in front of it, and quotes around any field. A reader goes through a text character by
character. It reads exactly the texts of the grammar, and from each of them the one table that the
grammar gives it.
-/

namespace SceneAudit.Csv

/-- What stands for a text between quotes, for a field, for a record, at the end of a line and for a
table of records. -/
inductive Enclosed : Text → Text → Prop
  | nil : Enclosed [] []
  | char {c : Char} {t w : Text} : c ≠ '"' → Enclosed t w → Enclosed (c :: t) (c :: w)
  | quote {t w : Text} : Enclosed t w → Enclosed ('"' :: t) ('"' :: '"' :: w)

def IsBare (c : Char) : Prop :=
  c ≠ ',' ∧ c ≠ '"' ∧ c ≠ '\n' ∧ c ≠ '\r'

inductive Field : Text → Text → Prop
  | bare {t : Text} : (∀ c ∈ t, IsBare c) → Field t t
  | quoted {t w : Text} : Enclosed t w → Field t ('"' :: w ++ ['"'])

inductive Record : List Text → Text → Prop
  | last {t w : Text} : Field t w → Record [t] w
  | cons {t w ws : Text} {ts : List Text} :
      Field t w → Record ts ws → Record (t :: ts) (w ++ ',' :: ws)

inductive LineEnd : Text → Prop
  | feed : LineEnd ['\n']
  | returnFeed : LineEnd ['\r', '\n']

/-- The last line need not be ended, unless it is empty. -/
inductive Table : List (List Text) → Text → Prop
  | nil : Table [] []
  | last {ts : List Text} {w : Text} : Record ts w → w ≠ [] → Table [ts] w
  | line {ts : List Text} {w e t : Text} {records : List (List Text)} :
      Record ts w → LineEnd e → Table records t → Table (ts :: records) (w ++ e ++ t)

/-- Where a reader stands. -/
inductive Place where
  | lineStart
  | fieldStart
  | bare
  | quoted
  /-- Behind a quote that ends a field or is the first of two. -/
  | closing
  /-- Behind a carriage return. -/
  | returned
  deriving DecidableEq, Repr

/-- What a reader has read: the current field, the fields before it and the records before these,
each of them with the latest in front. -/
structure Reading where
  place : Place
  field : Text
  fields : List Text
  records : List (List Text)
  deriving DecidableEq, Repr

namespace Reading

def start : Reading :=
  ⟨.lineStart, [], [], []⟩

def endField (r : Reading) : Reading :=
  ⟨.fieldStart, [], r.field.reverse :: r.fields, r.records⟩

def endRecord (r : Reading) : Reading :=
  ⟨.lineStart, [], [], (r.field.reverse :: r.fields).reverse :: r.records⟩

/-- One more character, of which none may follow that the grammar does not have there. -/
def step (r : Reading) (c : Char) : Option Reading :=
  match r.place with
  | .quoted =>
    some (if c = '"' then { r with place := .closing } else { r with field := c :: r.field })
  | .returned => if c = '\n' then some r.endRecord else none
  | place =>
    if c = ',' then some r.endField
    else if c = '\n' then some r.endRecord
    else if c = '\r' then some { r with place := .returned }
    else if c = '"' then
      match place with
      | .bare => none
      | .closing => some { r with place := .quoted, field := '"' :: r.field }
      | _ => some { r with place := .quoted }
    else if place = .closing then none
    else some { r with place := .bare, field := c :: r.field }

def finish (r : Reading) : Option (List (List Text)) :=
  match r.place with
  | .quoted | .returned => none
  | .lineStart => some r.records.reverse
  | _ => some r.endRecord.records.reverse

end Reading

/-- The records of a text. -/
def read (t : Text) : Option (List (List Text)) :=
  (t.foldlM Reading.step .start).bind Reading.finish

theorem enclosed_doubled (t : Text) : Enclosed t (doubled t) := by
  induction t with
  | nil => exact .nil
  | cons c t ih =>
    rw [doubled]
    split
    · rename_i hc
      exact hc ▸ .quote ih
    · rename_i hc
      exact .char hc ih

theorem enclosed_iff {t w : Text} : Enclosed t w ↔ w = doubled t := by
  refine ⟨fun h => ?_, fun h => h ▸ enclosed_doubled t⟩
  induction h with
  | nil => rfl
  | char hc _ ih => rw [doubled, if_neg hc, ih]
  | quote _ ih => rw [doubled, if_pos rfl, ih]

theorem doubled_append (s t : Text) : doubled (s ++ t) = doubled s ++ doubled t := by
  induction s with
  | nil => rfl
  | cons c s ih =>
    rw [List.cons_append, doubled, doubled, ih]
    split <;> rfl

namespace Reading

variable {r r' : Reading} {c : Char} {t w s : Text}

section Complete

def AtStart (r : Reading) : Prop :=
  (r.place = .lineStart ∨ r.place = .fieldStart) ∧ r.field = []

def AtEnd (r : Reading) : Prop :=
  r.place ≠ .quoted ∧ r.place ≠ .returned

theorem foldlM_bare (ht : ∀ c ∈ t, IsBare c) (hr : r.place = .bare) :
    t.foldlM step r = some { r with field := t.reverse ++ r.field } := by
  induction t generalizing r with
  | nil => rfl
  | cons c t ih =>
    obtain ⟨⟨hcomma, hquote, hfeed, hreturn⟩, ht⟩ := List.forall_mem_cons.mp ht
    have hstep : step r c = some { r with place := .bare, field := c :: r.field } := by
      simp [step, hr, hcomma, hquote, hfeed, hreturn]
    rw [List.foldlM_cons, hstep, Option.bind_eq_bind, Option.bind_some, ih ht rfl, ← hr]
    simp

theorem foldlM_doubled (hr : r.place = .quoted) :
    (doubled t).foldlM step r = some { r with field := t.reverse ++ r.field } := by
  induction t generalizing r with
  | nil => rfl
  | cons c t ih =>
    rw [doubled]
    split
    · rename_i hc
      simp [step, hr, hc, ih]
    · rename_i hc
      simp [step, hr, hc, ih]

theorem foldlM_field (h : Field t w) (hr : r.AtStart) :
    ∃ place, w.foldlM step r = some { r with place := place, field := t.reverse } ∧
      place ≠ .quoted ∧ place ≠ .returned ∧
      (place = .lineStart → w = [] ∧ r.place = .lineStart) := by
  obtain ⟨hplace, hfield⟩ := hr
  cases h with
  | bare ht =>
    cases t with
    | nil =>
      obtain ⟨place, field, fields, records⟩ := r
      obtain rfl : field = [] := hfield
      refine ⟨place, rfl, ?_, ?_, fun h => ⟨rfl, h⟩⟩ <;> rintro rfl <;> simp at hplace
    | cons c t =>
      obtain ⟨⟨hcomma, hquote, hfeed, hreturn⟩, ht⟩ := List.forall_mem_cons.mp ht
      have hstep : step r c = some { r with place := .bare, field := [c] } := by
        rcases hplace with hplace | hplace <;>
          simp [step, hplace, hcomma, hquote, hfeed, hreturn, hfield]
      refine ⟨.bare, ?_, by simp, by simp, by simp⟩
      rw [List.foldlM_cons, hstep, Option.bind_eq_bind, Option.bind_some, foldlM_bare ht rfl,
        List.reverse_cons]
  | quoted h =>
    obtain rfl := enclosed_iff.mp h
    have hopen : step r '"' = some { r with place := .quoted } := by
      rcases hplace with hplace | hplace <;> simp [step, hplace]
    refine ⟨.closing, ?_, by simp, by simp, by simp⟩
    rw [List.cons_append, List.foldlM_cons, hopen, Option.bind_eq_bind, Option.bind_some,
      List.foldlM_append, foldlM_doubled rfl]
    simp [step, hfield]

theorem step_comma (h : r.AtEnd) : step r ',' = some r.endField := by
  obtain ⟨hquoted, hreturned⟩ := h
  rcases r with ⟨_ | _ | _ | _ | _ | _, field, fields, records⟩ <;> simp_all [step]

theorem step_feed (h : r.place ≠ .quoted) : step r '\n' = some r.endRecord := by
  rcases r with ⟨_ | _ | _ | _ | _ | _, field, fields, records⟩ <;> simp_all [step]

theorem step_return (h : r.AtEnd) : step r '\r' = some { r with place := .returned } := by
  obtain ⟨hquoted, hreturned⟩ := h
  rcases r with ⟨_ | _ | _ | _ | _ | _, field, fields, records⟩ <;> simp_all [step]

theorem foldlM_lineEnd (h : r.AtEnd) (hw : LineEnd w) : w.foldlM step r = some r.endRecord := by
  cases hw with
  | feed => simp [step_feed h.1]
  | returnFeed => simp [step_return h, step_feed, endRecord]

theorem foldlM_record {ts : List Text} (h : Record ts w) (hr : r.AtStart) :
    ∃ r', w.foldlM step r = some r' ∧ r'.AtEnd ∧
      (r'.place = .lineStart → w = [] ∧ r.place = .lineStart) ∧
      r'.endRecord = ⟨.lineStart, [], [], (r.fields.reverse ++ ts) :: r.records⟩ := by
  induction h generalizing r with
  | last h =>
    obtain ⟨place, hrun, hquoted, hreturned, hplace⟩ := foldlM_field h hr
    exact ⟨_, hrun, ⟨hquoted, hreturned⟩, hplace, by simp [endRecord]⟩
  | @cons t w ws ts h _ ih =>
    obtain ⟨place, hrun, hquoted, hreturned, -⟩ := foldlM_field h hr
    let behind : Reading := { r with place := place, field := t.reverse }
    obtain ⟨r', hrest, hend, hplace, hrecord⟩ := ih (r := behind.endField) ⟨Or.inr rfl, rfl⟩
    refine ⟨r', ?_, hend, fun h => ?_, ?_⟩
    · rw [List.foldlM_append, hrun, Option.bind_eq_bind, Option.bind_some, List.foldlM_cons,
        step_comma ⟨hquoted, hreturned⟩, Option.bind_eq_bind, Option.bind_some, hrest]
    · exact absurd (hplace h).2 (by simp [endField])
    · rw [hrecord]
      simp [endField, behind]

theorem finish_of_atEnd (h : r.AtEnd) (hplace : r.place ≠ .lineStart) :
    r.finish = some r.endRecord.records.reverse := by
  obtain ⟨hquoted, hreturned⟩ := h
  rcases r with ⟨_ | _ | _ | _ | _ | _, field, fields, records⟩ <;> simp_all [finish]

theorem foldlM_table {records : List (List Text)} (h : Table records t) (done : List (List Text)) :
    ∃ r, t.foldlM step ⟨.lineStart, [], [], done⟩ = some r ∧
      r.finish = some (done.reverse ++ records) := by
  induction h generalizing done with
  | nil => exact ⟨_, rfl, by simp [finish]⟩
  | @last ts w h hw =>
    obtain ⟨r, hrun, hend, hplace, hrecord⟩ :=
      foldlM_record (r := ⟨.lineStart, [], [], done⟩) h ⟨Or.inl rfl, rfl⟩
    refine ⟨r, hrun, ?_⟩
    rw [finish_of_atEnd hend fun h => hw (hplace h).1, hrecord]
    simp
  | @line ts w e t records h he _ ih =>
    obtain ⟨r, hrun, hend, -, hrecord⟩ :=
      foldlM_record (r := ⟨.lineStart, [], [], done⟩) h ⟨Or.inl rfl, rfl⟩
    obtain ⟨r', hrest, hfinish⟩ := ih (ts :: done)
    refine ⟨r', ?_, by rw [hfinish]; simp⟩
    rw [List.foldlM_append, List.foldlM_append, hrun]
    simp only [Option.bind_eq_bind, Option.bind_some]
    rw [foldlM_lineEnd hend he, Option.bind_some, hrecord]
    exact hrest

end Complete

section Sound

/-- What has been read of the current field. -/
def Partial : Place → Text → Text → Prop
  | .lineStart, t, w | .fieldStart, t, w => t = [] ∧ w = []
  | .bare, t, w => (∀ c ∈ t, IsBare c) ∧ t ≠ [] ∧ w = t
  | .quoted, t, w => w = '"' :: doubled t
  | .closing, t, w => w = '"' :: doubled t ++ ['"']
  | .returned, t, w => ∃ v, Field t v ∧ w = v ++ ['\r']

/-- What has been read is whole lines, whole fields of a record and a part of a field. -/
structure Behind (r : Reading) (lines heads part : Text) : Prop where
  /-- Whole lines come in front of any table. -/
  table : ∀ {records t}, Table records t → Table (r.records.reverse ++ records) (lines ++ t)
  /-- Whole fields come in front of any record. -/
  record : ∀ {ts w}, Record ts w → Record (r.fields.reverse ++ ts) (heads ++ w)
  part : Partial r.place r.field.reverse part
  lineStart : r.place = .lineStart → heads = []
  fieldStart : r.place = .fieldStart → heads ≠ []

theorem behind_start : Behind start [] [] [] where
  table h := h
  record h := h
  part := ⟨rfl, rfl⟩
  lineStart _ := rfl
  fieldStart h := by simp [start] at h

variable {lines heads part : Text}

theorem Partial.field {place : Place} (h : Partial place t w) (hquoted : place ≠ .quoted)
    (hreturned : place ≠ .returned) : Field t w := by
  cases place with
  | lineStart | fieldStart =>
    obtain ⟨rfl, rfl⟩ := h
    exact .bare (by simp)
  | bare =>
    obtain ⟨ht, -, rfl⟩ := h
    exact .bare ht
  | quoted => exact absurd rfl hquoted
  | closing =>
    obtain rfl := h
    exact .quoted (enclosed_doubled t)
  | returned => exact absurd rfl hreturned

theorem Partial.step (h : Partial r.place r.field.reverse part)
    (hc : r.place = .quoted ∨ r.AtEnd ∧ c ≠ ',' ∧ c ≠ '\n' ∧ c ≠ '\r')
    (hstep : r.step c = some r') :
    ∃ place field, r' = { r with place := place, field := field } ∧ place ≠ .lineStart ∧
      place ≠ .fieldStart ∧ Partial place field.reverse (part ++ [c]) := by
  obtain ⟨place, field, fields, records⟩ := r
  cases place with
  | lineStart | fieldStart =>
    obtain ⟨-, hcomma, hfeed, hreturn⟩ := hc.resolve_left (by simp)
    obtain ⟨hfield, rfl⟩ := h
    obtain rfl : field = [] := by simpa using hfield
    by_cases hquote : c = '"'
    · exact ⟨.quoted, [], by simpa [step, hquote] using hstep.symm, by simp, by simp,
        by simp [Partial, doubled, hquote]⟩
    · refine ⟨.bare, [c], by simpa [step, *] using hstep.symm, by simp, by simp, ?_⟩
      simp [Partial, IsBare, *]
  | bare =>
    obtain ⟨-, hcomma, hfeed, hreturn⟩ := hc.resolve_left (by simp)
    have hquote : c ≠ '"' := fun hquote => by simp [step, hquote] at hstep
    obtain ⟨hbare, -, rfl⟩ := h
    refine ⟨.bare, c :: field, by simpa [step, *] using hstep.symm, by simp, by simp, ?_⟩
    refine ⟨fun d hd => ?_, by simp, by simp⟩
    rcases List.mem_cons.mp (List.mem_reverse.mp hd) with rfl | hd
    · exact ⟨hcomma, hquote, hfeed, hreturn⟩
    · exact hbare d (List.mem_reverse.mpr hd)
  | quoted =>
    obtain rfl := h
    by_cases hquote : c = '"'
    · exact ⟨.closing, field, by simpa [step, hquote] using hstep.symm, by simp, by simp,
        by simp [Partial, hquote]⟩
    · exact ⟨.quoted, c :: field, by simpa [step, hquote] using hstep.symm, by simp, by simp,
        by simp [Partial, doubled_append, doubled, hquote]⟩
  | closing =>
    obtain ⟨-, hcomma, hfeed, hreturn⟩ := hc.resolve_left (by simp)
    obtain rfl := h
    have hquote : c = '"' := by
      by_contra hquote
      simp [step, *] at hstep
    exact ⟨.quoted, '"' :: field, by simpa [step, hquote] using hstep.symm, by simp, by simp,
      by simp [Partial, doubled_append, doubled, hquote]⟩
  | returned =>
    obtain ⟨⟨-, hreturned⟩, -⟩ := hc.resolve_left (by simp)
    exact absurd rfl hreturned

namespace Behind

theorem endRecord_record (h : Behind r lines heads part) (hfield : Field r.field.reverse w) :
    Record (r.field.reverse :: r.fields).reverse (heads ++ w) := by
  simpa using h.record (.last hfield)

theorem endField (h : Behind r lines heads part) (hend : r.AtEnd) :
    Behind r.endField lines (heads ++ part ++ [',']) [] where
  table := h.table
  record hrest := by
    simpa [Reading.endField] using h.record (.cons (h.part.field hend.1 hend.2) hrest)
  part := ⟨rfl, rfl⟩
  lineStart hplace := by simp [Reading.endField] at hplace
  fieldStart _ := by simp

theorem endRecord (h : Behind r lines heads part) (hfield : Field r.field.reverse w)
    (he : LineEnd s) : Behind r.endRecord (lines ++ (heads ++ w ++ s)) [] [] where
  table hrest := by
    simpa [Reading.endRecord] using h.table (.line (h.endRecord_record hfield) he hrest)
  record h := h
  part := ⟨rfl, rfl⟩
  lineStart _ := rfl
  fieldStart hplace := by simp [Reading.endRecord] at hplace

theorem inField (h : Behind r lines heads part) {place : Place} {field part' : Text}
    (hlineStart : place ≠ .lineStart) (hfieldStart : place ≠ .fieldStart)
    (hpart : Partial place field.reverse part') :
    Behind { r with place := place, field := field } lines heads part' where
  table := h.table
  record := h.record
  part := hpart
  lineStart h := absurd h hlineStart
  fieldStart h := absurd h hfieldStart

theorem step (h : Behind r lines heads part) (hstep : r.step c = some r') :
    ∃ lines' heads' part', Behind r' lines' heads' part' ∧
      lines' ++ heads' ++ part' = lines ++ heads ++ part ++ [c] := by
  by_cases hin : r.place = .quoted ∨ r.AtEnd ∧ c ≠ ',' ∧ c ≠ '\n' ∧ c ≠ '\r'
  · obtain ⟨place, field, rfl, hlineStart, hfieldStart, hpart⟩ := h.part.step hin hstep
    exact ⟨_, _, _, h.inField hlineStart hfieldStart hpart, by simp⟩
  obtain ⟨hquoted, hends⟩ := not_or.mp hin
  by_cases hreturned : r.place = .returned
  · have hc : c = '\n' := by
      by_contra hc
      simp [Reading.step, hreturned, hc] at hstep
    obtain rfl := hc
    obtain rfl : r.endRecord = r' := by simpa [step_feed hquoted] using hstep
    have hpart := h.part
    rw [hreturned] at hpart
    obtain ⟨v, hfield, rfl⟩ := hpart
    exact ⟨_, _, _, h.endRecord hfield .returnFeed, by simp⟩
  have hend : r.AtEnd := ⟨hquoted, hreturned⟩
  have hfield := h.part.field hquoted hreturned
  have hc : c = ',' ∨ c = '\n' ∨ c = '\r' := by
    by_contra hc
    exact hends ⟨hend, by simpa using hc⟩
  rcases hc with rfl | rfl | rfl
  · obtain rfl : r.endField = r' := by simpa [step_comma hend] using hstep
    exact ⟨_, _, _, h.endField hend, by simp⟩
  · obtain rfl : r.endRecord = r' := by simpa [step_feed hquoted] using hstep
    exact ⟨_, _, _, h.endRecord hfield .feed, by simp⟩
  · obtain rfl : { r with place := .returned } = r' := by simpa [step_return hend] using hstep
    exact ⟨_, _, _, h.inField (by simp) (by simp) ⟨part, hfield, rfl⟩, by simp⟩

theorem run (h : Behind r lines heads part) (hrun : t.foldlM Reading.step r = some r') :
    ∃ lines' heads' part', Behind r' lines' heads' part' ∧
      lines' ++ heads' ++ part' = lines ++ heads ++ part ++ t := by
  induction t generalizing r lines heads part with
  | nil =>
    obtain rfl : r = r' := by simpa using hrun
    exact ⟨_, _, _, h, by simp⟩
  | cons c t ih =>
    rw [List.foldlM_cons] at hrun
    obtain ⟨middle, hstep, hrest⟩ := Option.bind_eq_some_iff.mp hrun
    obtain ⟨lines₁, heads₁, part₁, h₁, heq₁⟩ := h.step hstep
    obtain ⟨lines₂, heads₂, part₂, h₂, heq₂⟩ := ih h₁ hrest
    exact ⟨_, _, _, h₂, by rw [heq₂, heq₁]; simp⟩

theorem finish (h : Behind r lines heads part) {records : List (List Text)}
    (hfinish : r.finish = some records) : Table records (lines ++ heads ++ part) := by
  by_cases hlineStart : r.place = .lineStart
  · have hpart := h.part
    rw [hlineStart] at hpart
    obtain rfl : r.records.reverse = records := by simpa [Reading.finish, hlineStart] using hfinish
    simpa [h.lineStart hlineStart, hpart.2] using h.table .nil
  have hend : r.AtEnd := by
    constructor <;> intro hplace <;> simp [Reading.finish, hplace] at hfinish
  obtain rfl : r.endRecord.records.reverse = records := by
    simpa [finish_of_atEnd hend hlineStart] using hfinish
  have hrecord := h.endRecord_record (h.part.field hend.1 hend.2)
  have hne : heads ++ part ≠ [] := by
    intro hempty
    obtain ⟨hheads, hpart⟩ := List.append_eq_nil_iff.mp hempty
    have hplaces := h.part
    cases hplace : r.place <;> rw [hplace, hpart] at hplaces
    case lineStart => exact hlineStart hplace
    case fieldStart => exact h.fieldStart hplace hheads
    case bare => exact hplaces.2.1 hplaces.2.2.symm
    case quoted => exact hend.1 hplace
    case closing => simp [Partial] at hplaces
    case returned => exact hend.2 hplace
  simpa [Reading.endRecord] using h.table (.last hrecord hne)

end Behind

end Sound

end Reading

/-- The reader reads a text exactly where the grammar gives it a table, and then that one. -/
theorem read_eq_some_iff {t : Text} {records : List (List Text)} :
    read t = some records ↔ Table records t := by
  constructor
  · intro h
    obtain ⟨r, hrun, hfinish⟩ := Option.bind_eq_some_iff.mp h
    obtain ⟨lines, heads, part, hbehind, heq⟩ := Reading.behind_start.run hrun
    have htable := hbehind.finish hfinish
    rw [heq] at htable
    simpa using htable
  · intro h
    obtain ⟨r, hrun, hfinish⟩ := Reading.foldlM_table h []
    exact Option.bind_eq_some_iff.mpr ⟨r, hrun, hfinish⟩

end SceneAudit.Csv
