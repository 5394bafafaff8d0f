import Mathlib.Data.List.TakeWhile
import SceneAudit.Json.Value
import SceneAudit.Proofs.Json.Reader
import SceneAudit.Proofs.Text.Decimal

/-! # Values read back

Every value that is written is a text of the grammar, whatever characters its strings and keys hold
and at whatever level it is written, so the reader gives it back.
-/

namespace SceneAudit.Json

theorem inside_escapeChar (c : Char) : Inside [c] (escapeChar c) := by
  have named {e d : Char} (h : named? e = some d) (hc : c = d) : Inside [c] ['\\', e] :=
    hc ▸ .named h .nil
  have ofNat {n : Nat} (h : c.toNat = n) : c = Char.ofNat n := by
    rw [← h, Char.ofNat_toNat]
  rw [escapeChar]
  split
  · exact named rfl ‹_›
  split
  · exact named rfl ‹_›
  split
  · exact named rfl ‹_›
  split
  · exact named rfl ‹_›
  split
  · exact named rfl ‹_›
  split
  · exact named rfl (ofNat ‹_›)
  split
  · exact named rfl (ofNat ‹_›)
  split
  · rename_i hcontrol
    have hread : ∀ n < 32,
        Text.readNat? 16 ['0', '0', hexDigit (n / 16), hexDigit n] = some n := by decide
    have hhigh : ¬IsHigh c.toNat := fun h => absurd h.1 (by omega)
    have hlow : ¬IsLow c.toNat := fun h => absurd h.1 (by omega)
    have hunit := Inside.unit (hread _ hcontrol) hhigh hlow .nil
    rwa [Char.ofNat_toNat] at hunit
  · rename_i hquote hslash _ _ _ _ _ hcontrol
    exact .plain hquote hslash (by omega) .nil

theorem inside_escape (t : Text) : Inside t (t.flatMap escapeChar) := by
  induction t with
  | nil => exact .nil
  | cons c t ih =>
    rw [List.flatMap_cons]
    exact (inside_escapeChar c).append ih

theorem isWord_of_isDigit {c : Char} (h : Text.isDigit c = true) : isWord c = true := by
  by_contra hword
  have hcases : c ∈ [' ', '\t', '\n', '\r', ',', ':', '[', ']', '\x7b', '\x7d', '"'] := by
    simpa [isWord, isSpace, isMark, or_assoc, Decidable.or_iff_not_imp_left] using hword
  have hnot : ∀ d ∈ [' ', '\t', '\n', '\r', ',', ':', '[', ']', '\x7b', '\x7d', '"'],
      Text.isDigit d = false := by decide
  rw [hnot c hcases] at h
  cases h

theorem head?_ofNat {n : Nat} (h : (Text.ofNat n).head? = some '0') : n = 0 := by
  induction n using Nat.strongRecOn with
  | ind n ih =>
    rw [Text.ofNat, Nat.toDigits_eq_if (by decide)] at h
    split at h
    · rename_i hlt
      have hdigit : ∀ m < 10, Nat.digitChar m = '0' → m = 0 := by decide
      exact hdigit n hlt (by simpa using h)
    · rename_i hle
      have hrest : (Text.ofNat (n / 10)).head? = some '0' := by
        cases hdigits : Text.ofNat (n / 10) with
        | nil => simp [Text.ofNat] at hdigits
        | cons c t =>
          rw [← Text.ofNat, hdigits] at h
          simpa using h
      have hzero := ih (n / 10) (by omega) hrest
      omega

theorem digits?_ofNat (n : Nat) : digits? (Text.ofNat n) = some (n, 0) := by
  have hdigits : ∀ c ∈ Text.ofNat n, Text.isDigit c = true := fun c => Text.isDigit_of_mem_ofNat
  have hread : Text.readNat? 10 (Text.ofNat n) = some n := Text.readNat?_padded 0 n
  have hzero : (Text.ofNat n).head? = some '0' → (Text.ofNat n).length = 1 := by
    intro hhead
    rw [head?_ofNat hhead]
    rfl
  rw [digits?, List.takeWhile_eq_self_iff.mpr hdigits, List.dropWhile_eq_nil_iff.mpr hdigits]
  simp only [hread, Option.map_some]
  rw [if_neg (by simpa using hzero)]

theorem word?_ofNat (n : Nat) : word? (Text.ofNat n) = some (.number n 0) := by
  have hdigits : ∀ c ∈ Text.ofNat n, Text.isDigit c = true := fun c => Text.isDigit_of_mem_ofNat
  have hplain : ∀ c ∈ Text.ofNat n, (c != 'e' && c != 'E') = true := by
    intro c hc
    have hdigit := hdigits c hc
    simp only [Bool.and_eq_true, bne_iff_ne]
    constructor <;> rintro rfl <;> cases hdigit
  have hunsigned : unsigned? (Text.ofNat n) = some (n, 0) := by
    rw [unsigned?]
    simp only [List.takeWhile_eq_self_iff.mpr hplain, List.dropWhile_eq_nil_iff.mpr hplain,
      digits?_ofNat, exponent?]
    rfl
  obtain ⟨c, t, ht⟩ : ∃ c t, Text.ofNat n = c :: t :=
    List.exists_cons_of_ne_nil (by simp [Text.ofNat])
  have hc : Text.isDigit c = true := hdigits c (by simp [ht])
  have hne {d : Char} (hd : Text.isDigit d = false) (v : Text) : c :: t ≠ d :: v := by
    rintro h
    rw [(List.cons.inj h).1, hd] at hc
    cases hc
  rw [ht] at hunsigned ⊢
  have hnull : c :: t ≠ "null".toList := hne (d := 'n') rfl _
  have htrue : c :: t ≠ "true".toList := hne (d := 't') rfl _
  have hfalse : c :: t ≠ "false".toList := hne (d := 'f') rfl _
  rw [word?, if_neg hnull, if_neg htrue, if_neg hfalse, number?.eq_def]
  split
  · rename_i heq
    exact absurd heq (hne rfl _)
  · rw [hunsigned]
    rfl

theorem written_ofNat (n : Nat) : Written (.value (.number n 0)) (Text.ofNat n) :=
  .word (fun _ hc => isWord_of_isDigit (Text.isDigit_of_mem_ofNat hc)) (word?_ofNat n)

theorem spaces_newLine (level : Nat) : Spaces (newLine level) := by
  intro c hc
  rcases List.mem_cons.mp hc with rfl | hc
  · rfl
  · rw [List.eq_of_mem_replicate hc]
    rfl

theorem spaces_single : Spaces [' '] := by
  simp [Spaces, isSpace]

namespace Value

mutual

/-- What a value stands for. -/
def data : Value → Data
  | .number n => .number n 0
  | .string t => .string t
  | .array vs => .array (dataItems vs)
  | .object es => .object (dataEntries es)

def dataItems : List Value → List Data
  | [] => []
  | v :: vs => v.data :: dataItems vs

def dataEntries : List (Text × Value) → List (Text × Data)
  | [] => []
  | (k, v) :: es => (k, v.data) :: dataEntries es

end

mutual

theorem written_render (level : Nat) : ∀ v : Value, Written (.value v.data) (v.render level)
  | .number n => written_ofNat n
  | .string t => .string (inside_escape t)
  | .array [] => .noItems spaces_nil
  | .array (v :: vs) => by
    have hitems := written_renderItems (level + 1) (spaces_newLine (level + 1))
      (written_render (level + 1) v) (spaces_newLine level) vs
    simpa [render, data, dataItems] using Written.array hitems
  | .object [] => .noEntries spaces_nil
  | .object ((k, v) :: es) => by
    have hentries := written_renderEntries (level + 1) (spaces_newLine (level + 1))
      (written_render (level + 1) v) (inside_escape k) (spaces_newLine level) es
    simpa [render, data, dataEntries, quote] using Written.object hentries

theorem written_renderItems (level : Nat) {d : Data} {s w e : Text} (hs : Spaces s)
    (hd : Written (.value d) w) (he : Spaces e) : ∀ vs : List Value,
    Written (.items (d :: dataItems vs)) (s ++ w ++ renderItems level vs ++ e)
  | [] => by
    simpa [dataItems, renderItems] using Written.item (.element hs hd he)
  | v :: vs => by
    have hrest := written_renderItems level (spaces_newLine level) (written_render level v) he vs
    simpa [dataItems, renderItems] using Written.items (.element hs hd spaces_nil) hrest

theorem written_renderEntries (level : Nat) {k : Text} {d : Data} {s q w e : Text} (hs : Spaces s)
    (hd : Written (.value d) w) (hk : Inside k q) (he : Spaces e) : ∀ es : List (Text × Value),
    Written (.entries ((k, d) :: dataEntries es))
      (s ++ '"' :: q ++ '"' :: ':' :: ' ' :: w ++ renderEntries level es ++ e)
  | [] => by
    simpa [dataEntries, renderEntries] using
      Written.lastEntry (.entry hs hk spaces_nil (.element spaces_single hd he))
  | (k', v) :: es => by
    have hrest := written_renderEntries level (spaces_newLine level) (written_render level v)
      (inside_escape k') he es
    have hentry := Written.entry hs hk spaces_nil (.element spaces_single hd spaces_nil)
    simpa [dataEntries, renderEntries, quote] using Written.entries hentry hrest

end

theorem dataEntries_eq_map (es : List (Text × Value)) :
    dataEntries es = es.map fun (k, v) => (k, v.data) := by
  induction es with
  | nil => rfl
  | cons e es ih => rw [dataEntries, ih, List.map_cons]

theorem dataItems_eq_map (vs : List Value) : dataItems vs = vs.map data := by
  induction vs with
  | nil => rfl
  | cons v vs ih => rw [dataItems, ih, List.map_cons]

/-- A value is read back from its text. -/
theorem read_render (v : Value) : read (v.render 0) = some v.data := by
  refine read_eq_some_iff.mpr ?_
  simpa using Written.element spaces_nil (v.written_render 0) spaces_nil

end Value

end SceneAudit.Json
