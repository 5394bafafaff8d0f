import Mathlib.Logic.Function.Basic
import SceneAudit.Proofs.Csv.Reader

/-! # Summaries of unused scripts read back

What is written for a field is a field of the grammar, quoted or not, so a summary is a table whose
lines end with line feeds. The reader thus gives back its header and its rows, and no two lists of
rows have the same summary.
-/

namespace SceneAudit.Csv

def records (scripts : List UnusedScript) : List (List Text) :=
  [header.1, header.2] :: scripts.map fun s => [s.relativePath, s.identifier]

theorem isBare_of_needsQuotes_eq_false {c : Char} (h : needsQuotes c = false) : IsBare c := by
  simpa [needsQuotes, IsBare, and_assoc] using h

theorem field_written (t : Text) : Field t (field t) := by
  rw [field]
  split
  · exact .quoted (enclosed_doubled t)
  · rename_i hquotes
    refine .bare fun c hc => isBare_of_needsQuotes_eq_false ?_
    simpa using fun h => hquotes (List.any_eq_true.mpr ⟨c, hc, h⟩)

theorem table_record (a b : Text) {rest : List (List Text)} {t : Text} (h : Table rest t) :
    Table ([a, b] :: rest) (record a b ++ t) := by
  have hrecord : Record [a, b] (field a ++ ',' :: field b) :=
    .cons (field_written a) (.last (field_written b))
  simpa [record] using Table.line hrecord .feed h

theorem table_render (scripts : List UnusedScript) : Table (records scripts) (render scripts) := by
  refine table_record _ _ ?_
  induction scripts with
  | nil => exact .nil
  | cons s scripts ih =>
    rw [List.map_cons, List.flatMap_cons]
    exact table_record _ _ ih

theorem read_render (scripts : List UnusedScript) :
    read (render scripts) = some (records scripts) :=
  read_eq_some_iff.mpr (table_render scripts)

theorem records_injective : Function.Injective records := by
  intro scripts scripts' h
  have hrows := (List.cons_inj_right _).mp h
  refine List.map_injective_iff.mpr (fun s s' hs => ?_) hrows
  obtain ⟨path, identifier⟩ := s
  obtain ⟨path', identifier'⟩ := s'
  simpa using hs

/-- Reading a summary with the reader of the grammar gives the header and the rows it was written
for, whatever characters they hold, and different rows are written differently. -/
theorem rows_restored :
    (∀ (t : Text) (found : List (List Text)), read t = some found ↔ Table found t) ∧
      (∀ scripts : List UnusedScript,
        read (render scripts) =
          some (["Relative Path".toList, "GUID".toList] ::
            scripts.map fun s => [s.relativePath, s.identifier])) ∧
      Function.Injective render := by
  refine ⟨fun t found => read_eq_some_iff, read_render, fun scripts scripts' h => ?_⟩
  have hread : some (records scripts) = some (records scripts') := by
    rw [← read_render, h, read_render]
  exact records_injective (Option.some.inj hread)

/-- A field with a carriage return, a quote and a comma, and an empty one. -/
example :
    render [⟨"a\r\",".toList, []⟩] = "Relative Path,GUID\n\"a\r\"\",\",\n".toList ∧
      read (render [⟨"a\r\",".toList, []⟩]) =
        some [["Relative Path".toList, "GUID".toList], ["a\r\",".toList, []]] := by
  decide

end SceneAudit.Csv
