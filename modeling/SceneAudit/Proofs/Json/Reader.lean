import SceneAudit.Proofs.Json.Grammar
import Mathlib.Data.List.Basic

/-! # Reading JSON

A reader goes through a text character by character and keeps a stack of the arrays and objects that
are still open. From each text of the grammar it reads what the grammar gives it, so that no text
stands for two things.
-/

namespace SceneAudit.Json

/-- An array or object that is still open, with its latest item or entry in front. -/
inductive Frame where
  | items (before : List Data)
  | entries (before : List (Text × Data))
  /-- Behind a key. -/
  | entry (before : List (Text × Data)) (key : Text)

/-- Where a reader stands within a string. -/
inductive Mode where
  | plain
  /-- Behind a backslash, and perhaps behind the first of two code units. -/
  | escape (high : Option Nat)
  | digits (high : Option Nat) (w : Text)
  /-- Behind the first of two code units. -/
  | between (high : Nat)
  deriving DecidableEq

/-- Where a reader stands. -/
inductive Place where
  | element
  | key
  | colon (key : Text)
  /-- Within a string, with its latest character in front. -/
  | inside (mode : Mode) (t : Text)
  /-- Within a literal or a number, with its latest character in front. -/
  | word (w : Text)
  | after (d : Data)

/-- What a reader has read. -/
structure Reading where
  place : Place
  frames : List Frame

def Mode.unit (high : Option Nat) (t w : Text) : Option (Mode × Text) :=
  match high, Text.readNat? 16 w with
  | _, none => none
  | none, some n =>
    if IsHigh n then some (.between n, t)
    else if IsLow n then none
    else some (.plain, Char.ofNat n :: t)
  | some high, some low => if IsLow low then some (.plain, paired high low :: t) else none

def Mode.step (t : Text) (c : Char) : Mode → Option (Mode × Text)
  | .plain =>
    if c = '\\' then some (.escape none, t)
    else if 0x20 ≤ c.toNat then some (.plain, c :: t)
    else none
  | .escape none =>
    if c = 'u' then some (.digits none [], t) else (named? c).map fun c => (.plain, c :: t)
  | .escape (some high) => if c = 'u' then some (.digits (some high) [], t) else none
  | .digits high w =>
    if w.length = 3 then Mode.unit high t (w ++ [c]) else some (.digits high (w ++ [c]), t)
  | .between high => if c = '\\' then some (.escape (some high), t) else none

namespace Reading

def start : Reading :=
  ⟨.element, []⟩

def open? (frames : List Frame) (c : Char) : Option Reading :=
  if c = '"' then some ⟨.inside .plain [], frames⟩
  else if c = '[' then some ⟨.element, .items [] :: frames⟩
  else if c = '\x7b' then some ⟨.key, .entries [] :: frames⟩
  else if isWord c then some ⟨.word [c], frames⟩
  else none

def closeString (t : Text) (frames : List Frame) : Reading :=
  match frames with
  | .entries _ :: _ => ⟨.colon t, frames⟩
  | _ => ⟨.after (.string t), frames⟩

def close? (d : Data) (frames : List Frame) (c : Char) : Option Reading :=
  if isSpace c then some ⟨.after d, frames⟩
  else match frames with
    | [] => none
    | .items before :: frames =>
      if c = ',' then some ⟨.element, .items (d :: before) :: frames⟩
      else if c = ']' then some ⟨.after (.array (d :: before).reverse), frames⟩
      else none
    | .entry before key :: frames =>
      if c = ',' then some ⟨.key, .entries ((key, d) :: before) :: frames⟩
      else if c = '\x7d' then some ⟨.after (.object ((key, d) :: before).reverse), frames⟩
      else none
    | .entries _ :: _ => none

def element? (frames : List Frame) (c : Char) : Option Reading :=
  if isSpace c then some ⟨.element, frames⟩
  else if c = ']' then
    match frames with
    | .items [] :: frames => some ⟨.after (.array []), frames⟩
    | _ => none
  else open? frames c

def key? (frames : List Frame) (c : Char) : Option Reading :=
  if isSpace c then some ⟨.key, frames⟩
  else if c = '"' then some ⟨.inside .plain [], frames⟩
  else if c = '\x7d' then
    match frames with
    | .entries [] :: frames => some ⟨.after (.object []), frames⟩
    | _ => none
  else none

def colon? (key : Text) (frames : List Frame) (c : Char) : Option Reading :=
  if isSpace c then some ⟨.colon key, frames⟩
  else if c = ':' then
    match frames with
    | .entries before :: frames => some ⟨.element, .entry before key :: frames⟩
    | _ => none
  else none

def inside? (mode : Mode) (t : Text) (frames : List Frame) (c : Char) : Option Reading :=
  if mode = .plain ∧ c = '"' then some (closeString t.reverse frames)
  else (mode.step t c).map fun (mode, t) => ⟨.inside mode t, frames⟩

def inWord? (w : Text) (frames : List Frame) (c : Char) : Option Reading :=
  if isWord c then some ⟨.word (c :: w), frames⟩
  else (word? w.reverse).bind fun d => close? d frames c

def step (r : Reading) (c : Char) : Option Reading :=
  match r.place with
  | .element => element? r.frames c
  | .key => key? r.frames c
  | .colon key => colon? key r.frames c
  | .inside mode t => inside? mode t r.frames c
  | .word w => inWord? w r.frames c
  | .after d => close? d r.frames c

section Step

variable (frames : List Frame) (c : Char)

@[simp] theorem step_element : step ⟨.element, frames⟩ c = element? frames c :=
  rfl

@[simp] theorem step_key : step ⟨.key, frames⟩ c = key? frames c :=
  rfl

@[simp] theorem step_colon (key : Text) :
    step ⟨.colon key, frames⟩ c = colon? key frames c :=
  rfl

@[simp] theorem step_inside (mode : Mode) (t : Text) :
    step ⟨.inside mode t, frames⟩ c = inside? mode t frames c :=
  rfl

@[simp] theorem step_inWord (w : Text) : step ⟨.word w, frames⟩ c = inWord? w frames c :=
  rfl

@[simp] theorem step_after (d : Data) : step ⟨.after d, frames⟩ c = close? d frames c :=
  rfl

end Step

def finish (r : Reading) : Option Data :=
  match r with
  | ⟨.after d, []⟩ => some d
  | ⟨.word w, []⟩ => word? w.reverse
  | _ => none

end Reading

/-- What a text stands for, with white space before and after it. -/
def read (t : Text) : Option Data :=
  (t.foldlM Reading.step .start).bind Reading.finish

def Reads (r : Reading) (w : Text) (r' : Reading) : Prop :=
  w.foldlM Reading.step r = some r'

variable {r r' r'' : Reading} {frames : List Frame} {place : Place} {mode : Mode} {c : Char}
  {d : Data} {t w : Text}

namespace Reads

theorem nil (r : Reading) : Reads r [] r :=
  rfl

theorem cons (hstep : r.step c = some r') (h : Reads r' w r'') : Reads r (c :: w) r'' := by
  rw [Reads, List.foldlM_cons, hstep]
  exact h

theorem single (hstep : r.step c = some r') : Reads r [c] r' :=
  cons hstep (nil r')

theorem append (h : Reads r w r') (h' : Reads r' t r'') : Reads r (w ++ t) r'' := by
  rw [Reads, List.foldlM_append, h]
  exact h'

end Reads

section Inside

theorem inside?_plain (hquote : c ≠ '"') (hslash : c ≠ '\\') (hc : 0x20 ≤ c.toNat) :
    Reading.inside? .plain t frames c = some ⟨.inside .plain (c :: t), frames⟩ := by
  simp [Reading.inside?, Mode.step, hquote, hslash, hc]

theorem inside?_of_ne_plain (h : mode ≠ .plain) :
    Reading.inside? mode t frames c =
      (mode.step t c).map fun (mode, t) => ⟨.inside mode t, frames⟩ :=
  if_neg fun hend => h hend.1

theorem reads_named {e : Char} (h : named? e = some c) :
    Reads ⟨.inside .plain t, frames⟩ ['\\', e] ⟨.inside .plain (c :: t), frames⟩ := by
  have hu : e ≠ 'u' := by
    rintro rfl
    simp [named?] at h
  have hescape : Reading.step ⟨.inside (.escape none) t, frames⟩ e =
      some ⟨.inside .plain (c :: t), frames⟩ := by
    simp [inside?_of_ne_plain, Mode.step, hu, h]
  exact .cons rfl (.single hescape)

theorem reads_digits {a b c e : Char} {high : Option Nat} {t' : Text}
    (h : Mode.unit high t [a, b, c, e] = some (mode, t')) :
    Reads ⟨.inside (.digits high []) t, frames⟩ [a, b, c, e] ⟨.inside mode t', frames⟩ := by
  refine .cons rfl (.cons rfl (.cons rfl (.single ?_)))
  simp [inside?_of_ne_plain, Mode.step, h]

theorem reads_unit {a b c e : Char} {n : Nat} (h : Text.readNat? 16 [a, b, c, e] = some n)
    (hhigh : ¬IsHigh n) (hlow : ¬IsLow n) :
    Reads ⟨.inside .plain t, frames⟩ ['\\', 'u', a, b, c, e]
      ⟨.inside .plain (Char.ofNat n :: t), frames⟩ := by
  refine .cons rfl (.cons rfl (reads_digits ?_))
  simp [Mode.unit, h, hhigh, hlow]

theorem reads_pair {a b c e a' b' c' e' : Char} {high low : Nat}
    (h : Text.readNat? 16 [a, b, c, e] = some high) (hhigh : IsHigh high)
    (h' : Text.readNat? 16 [a', b', c', e'] = some low) (hlow : IsLow low) :
    Reads ⟨.inside .plain t, frames⟩
      ['\\', 'u', a, b, c, e, '\\', 'u', a', b', c', e']
      ⟨.inside .plain (paired high low :: t), frames⟩ := by
  have hfirst : Mode.unit none t [a, b, c, e] = some (.between high, t) := by
    simp [Mode.unit, h, hhigh]
  have hsecond : Mode.unit (some high) t [a', b', c', e'] =
      some (.plain, paired high low :: t) := by
    simp [Mode.unit, h', hlow]
  refine .cons rfl (.cons rfl ((reads_digits hfirst).append ?_))
  exact .cons rfl (.cons rfl (reads_digits hsecond))

theorem reads_inside (h : Inside t w) (before : Text) :
    Reads ⟨.inside .plain before, frames⟩ w ⟨.inside .plain (t.reverse ++ before), frames⟩ := by
  induction h generalizing before with
  | nil => exact .nil _
  | plain hquote hslash hc _ ih =>
    rw [List.reverse_cons, List.append_assoc]
    exact .cons (inside?_plain hquote hslash hc) (ih _)
  | named he _ ih =>
    rw [List.reverse_cons, List.append_assoc]
    exact (reads_named he).append (ih _)
  | unit hread hhigh hlow _ ih =>
    rw [List.reverse_cons, List.append_assoc]
    exact (reads_unit hread hhigh hlow).append (ih _)
  | pair hread hhigh hread' hlow _ ih =>
    rw [List.reverse_cons, List.append_assoc]
    exact (reads_pair hread hhigh hread' hlow).append (ih _)

end Inside

section Complete

/-- What was read ends in a value, or would if the text went no further. -/
def Ends : Place → Data → Prop
  | .after d, d' => d = d'
  | .word w, d => word? w.reverse = some d
  | _, _ => False

theorem step_of_ends (h : Ends place d) (hc : isWord c = false) :
    Reading.step ⟨place, frames⟩ c = Reading.close? d frames c := by
  cases place with
  | after d' => exact congrArg (Reading.close? · frames c) h
  | word w =>
    have hword : word? w.reverse = some d := h
    simp [Reading.inWord?, hc, hword]
  | element | key | colon key | inside mode t => exact absurd h id

theorem finish_of_ends (h : Ends place d) : Reading.finish ⟨place, []⟩ = some d := by
  cases place with
  | after d' => exact congrArg some h
  | word w => exact h
  | element | key | colon key | inside mode t => exact absurd h id

theorem reads_spaces (h : Spaces w)
    (hplace : place = .element ∨ place = .key ∨ ∃ k, place = .colon k) :
    Reads ⟨place, frames⟩ w ⟨place, frames⟩ := by
  induction w with
  | nil => exact .nil _
  | cons c w ih =>
    obtain ⟨hc, hw⟩ := List.forall_mem_cons.mp h
    refine .cons ?_ (ih hw)
    rcases hplace with rfl | rfl | ⟨k, rfl⟩ <;>
      simp [Reading.element?, Reading.key?, Reading.colon?, hc]

theorem reads_spaces_behind (frames : List Frame) (h : Spaces w) (hplace : Ends place d) :
    ∃ place', Reads ⟨place, frames⟩ w ⟨place', frames⟩ ∧ Ends place' d := by
  induction w generalizing place with
  | nil => exact ⟨place, .nil _, hplace⟩
  | cons c w ih =>
    obtain ⟨hc, hw⟩ := List.forall_mem_cons.mp h
    have hafter : Ends (.after d) d := rfl
    obtain ⟨place', hreads, hends⟩ := ih hw hafter
    refine ⟨place', .cons ?_ hreads, hends⟩
    rw [step_of_ends hplace (by simp [isWord, hc]), Reading.close?.eq_def, if_pos hc]

def AtValue : List Frame → Prop
  | .entries _ :: _ => False
  | _ => True

/-- The reader follows what the grammar says of a piece of text. -/
def Follows : Part → Text → Prop
  | .value d, w | .element d, w => ∀ frames, AtValue frames →
    ∃ place, Reads ⟨.element, frames⟩ w ⟨place, frames⟩ ∧ Ends place d
  | .items ds, w => ∀ before frames, ∃ place d ds',
    Reads ⟨.element, .items before :: frames⟩ w ⟨place, .items ds' :: frames⟩ ∧
      Ends place d ∧ d :: ds' = ds.reverse ++ before
  | .entry k d, w => ∀ before frames, ∃ place,
    Reads ⟨.key, .entries before :: frames⟩ w ⟨place, .entry before k :: frames⟩ ∧ Ends place d
  | .entries es, w => ∀ before frames, ∃ place k d es',
    Reads ⟨.key, .entries before :: frames⟩ w ⟨place, .entry es' k :: frames⟩ ∧
      Ends place d ∧ (k, d) :: es' = es.reverse ++ before

theorem isMark_of_isWord (h : isWord c = true) : isSpace c = false ∧ isMark c = false := by
  simpa [isWord] using h

theorem element?_of_isWord (h : isWord c = true) :
    Reading.element? frames c = some ⟨.word [c], frames⟩ := by
  obtain ⟨hspace, hmark⟩ := isMark_of_isWord h
  have hne : c ≠ ']' ∧ c ≠ '"' ∧ c ≠ '[' ∧ c ≠ '\x7b' := by
    refine ⟨?_, ?_, ?_, ?_⟩ <;> rintro rfl <;> exact absurd hmark (by decide)
  simp [Reading.element?, Reading.open?, hspace, hne, h]

theorem reads_word (h : ∀ c ∈ w, isWord c = true) (before : Text) :
    Reads ⟨.word before, frames⟩ w ⟨.word (w.reverse ++ before), frames⟩ := by
  induction w generalizing before with
  | nil => exact .nil _
  | cons c w ih =>
    obtain ⟨hc, hw⟩ := List.forall_mem_cons.mp h
    rw [List.reverse_cons, List.append_assoc]
    exact .cons (by simp [Reading.inWord?, hc]) (ih hw _)

theorem follows_word (h : ∀ c ∈ w, isWord c = true) (hd : word? w = some d) :
    Follows (.value d) w := by
  intro frames _
  obtain ⟨c, w, rfl⟩ : ∃ c v, w = c :: v := by
    refine List.exists_cons_of_ne_nil ?_
    rintro rfl
    exact absurd (hd.symm.trans (show word? [] = none from rfl)) (by simp)
  obtain ⟨hc, hw⟩ := List.forall_mem_cons.mp h
  exact ⟨_, .cons (element?_of_isWord hc) (reads_word hw [c]), by simpa [Ends] using hd⟩

theorem follows_string (h : Inside t w) : Follows (.value (.string t)) ('"' :: w ++ ['"']) := by
  intro frames hframes
  refine ⟨.after (.string t), .cons rfl ((reads_inside h []).append (.single ?_)), rfl⟩
  match frames, hframes with
  | [], _ | .items _ :: _, _ | .entry _ _ :: _, _ =>
    simp [Reading.inside?, Reading.closeString]

theorem follows_noItems (h : Spaces w) : Follows (.value (.array [])) ('[' :: w ++ [']']) := by
  intro frames _
  refine ⟨.after (.array []), .cons rfl (.append (reads_spaces h (.inl rfl)) (.single ?_)), rfl⟩
  rfl

theorem follows_array {ds : List Data} (h : Follows (.items ds) w) :
    Follows (.value (.array ds)) ('[' :: w ++ [']']) := by
  intro frames _
  obtain ⟨place, d, ds', hreads, hends, heq⟩ := h [] frames
  refine ⟨.after (.array ds), .cons rfl (hreads.append (.single ?_)), rfl⟩
  rw [step_of_ends hends rfl]
  simp [Reading.close?, heq, isSpace]

theorem follows_noEntries (h : Spaces w) :
    Follows (.value (.object [])) ('\x7b' :: w ++ ['\x7d']) := by
  intro frames _
  refine ⟨.after (.object []), .cons rfl (.append (reads_spaces h (.inr (.inl rfl))) (.single ?_)),
    rfl⟩
  rfl

theorem follows_object {es : List (Text × Data)} (h : Follows (.entries es) w) :
    Follows (.value (.object es)) ('\x7b' :: w ++ ['\x7d']) := by
  intro frames _
  obtain ⟨place, k, d, es', hreads, hends, heq⟩ := h [] frames
  refine ⟨.after (.object es), .cons rfl (hreads.append (.single ?_)), rfl⟩
  rw [step_of_ends hends rfl]
  simp [Reading.close?, heq, isSpace]

theorem follows_element {s s' : Text} (hs : Spaces s) (h : Follows (.value d) w)
    (hs' : Spaces s') : Follows (.element d) (s ++ w ++ s') := by
  intro frames hframes
  obtain ⟨place, hreads, hends⟩ := h frames hframes
  obtain ⟨place', hbehind, hends'⟩ := reads_spaces_behind frames hs' hends
  exact ⟨place', ((reads_spaces hs (.inl rfl)).append hreads).append hbehind, hends'⟩

theorem follows_item (h : Follows (.element d) w) : Follows (.items [d]) w := by
  intro before frames
  obtain ⟨place, hreads, hends⟩ := h (.items before :: frames) trivial
  exact ⟨place, d, before, hreads, hends, rfl⟩

theorem follows_items {ds : List Data} {ws : Text} (h : Follows (.element d) w)
    (hs : Follows (.items ds) ws) : Follows (.items (d :: ds)) (w ++ ',' :: ws) := by
  intro before frames
  obtain ⟨place, hreads, hends⟩ := h (.items before :: frames) trivial
  obtain ⟨place', d', ds', hrest, hends', heq⟩ := hs (d :: before) frames
  refine ⟨place', d', ds', hreads.append (.cons ?_ hrest), hends', by rw [heq]; simp⟩
  rw [step_of_ends hends rfl]
  rfl

theorem follows_entry {k s q s' : Text} (hs : Spaces s) (hk : Inside k q) (hs' : Spaces s')
    (h : Follows (.element d) w) :
    Follows (.entry k d) (s ++ '"' :: q ++ '"' :: s' ++ ':' :: w) := by
  intro before frames
  obtain ⟨place, hreads, hends⟩ := h (.entry before k :: frames) trivial
  have hkey : Reads ⟨.key, .entries before :: frames⟩ ('"' :: q ++ ['"'])
      ⟨.colon k, .entries before :: frames⟩ := by
    refine .cons rfl ((reads_inside hk []).append (.single ?_))
    simp [Reading.inside?, Reading.closeString]
  have hcolon : Reads ⟨.colon k, .entries before :: frames⟩ (s' ++ ':' :: w)
      ⟨place, .entry before k :: frames⟩ :=
    (reads_spaces hs' (.inr (.inr ⟨k, rfl⟩))).append (.cons rfl hreads)
  refine ⟨place, ?_, hends⟩
  simpa using (reads_spaces hs (.inr (.inl rfl))).append (hkey.append hcolon)

theorem follows_lastEntry {k : Text} (h : Follows (.entry k d) w) :
    Follows (.entries [(k, d)]) w := by
  intro before frames
  obtain ⟨place, hreads, hends⟩ := h before frames
  exact ⟨place, k, d, before, hreads, hends, rfl⟩

theorem follows_entries {k : Text} {es : List (Text × Data)} {ws : Text}
    (h : Follows (.entry k d) w) (hs : Follows (.entries es) ws) :
    Follows (.entries ((k, d) :: es)) (w ++ ',' :: ws) := by
  intro before frames
  obtain ⟨place, hreads, hends⟩ := h before frames
  obtain ⟨place', k', d', es', hrest, hends', heq⟩ := hs ((k, d) :: before) frames
  refine ⟨place', k', d', es', hreads.append (.cons ?_ hrest), hends', by rw [heq]; simp⟩
  rw [step_of_ends hends rfl]
  rfl

theorem follows_of_written {p : Part} (h : Written p w) : Follows p w := by
  induction h with
  | word hw hd => exact follows_word hw hd
  | string h => exact follows_string h
  | noItems h => exact follows_noItems h
  | array _ ih => exact follows_array ih
  | noEntries h => exact follows_noEntries h
  | object _ ih => exact follows_object ih
  | element hs _ hs' ih => exact follows_element hs ih hs'
  | item _ ih => exact follows_item ih
  | items _ _ ih ihs => exact follows_items ih ihs
  | entry hs hk hs' _ ih => exact follows_entry hs hk hs' ih
  | lastEntry _ ih => exact follows_lastEntry ih
  | entries _ _ ih ihs => exact follows_entries ih ihs

theorem read_of_written (h : Written (.element d) t) : read t = some d := by
  obtain ⟨place, hreads, hends⟩ := follows_of_written h [] trivial
  exact Option.bind_eq_some_iff.mpr ⟨_, hreads, finish_of_ends hends⟩

end Complete

section Sound

variable {u v : Text} {before : List Data} {beforeEntries : List (Text × Data)}

def Listed (before : List Data) (w : Text) : Prop :=
  ∀ ds ws, Written (.items ds) ws → Written (.items (before.reverse ++ ds)) (w ++ ws)

def ListedEntries (before : List (Text × Data)) (w : Text) : Prop :=
  ∀ es ws, Written (.entries es) ws → Written (.entries (before.reverse ++ es)) (w ++ ws)

/-- What has been read up to the items and entries that are whole. -/
inductive Outer : List Frame → Text → Prop
  | top : Outer [] []
  | items {before : List Data} {frames : List Frame} {v s w : Text} :
      Outer frames v → Spaces s → Listed before w → (before = [] → w = []) →
      Outer (.items before :: frames) (v ++ (s ++ '[' :: w))
  | entries {before : List (Text × Data)} {frames : List Frame} {v s w : Text} :
      Outer frames v → Spaces s → ListedEntries before w → (before = [] → w = []) →
      Outer (.entries before :: frames) (v ++ (s ++ '\x7b' :: w))
  | entry {before : List (Text × Data)} {k : Text} {frames : List Frame} {v s w s' q s'' : Text} :
      Outer frames v → Spaces s → ListedEntries before w → Spaces s' → Inside k q → Spaces s'' →
      Outer (.entry before k :: frames)
        (v ++ (s ++ '\x7b' :: (w ++ (s' ++ '"' :: q ++ '"' :: s'' ++ [':']))))

/-- What has been read of an escape. -/
inductive Escape : Mode → Text → Prop
  | plain : Escape .plain []
  | escape : Escape (.escape none) ['\\']
  | digits {w : Text} : w.length ≤ 3 → Escape (.digits none w) ('\\' :: 'u' :: w)
  | between {a b c d : Char} {high : Nat} :
      Text.readNat? 16 [a, b, c, d] = some high → IsHigh high →
      Escape (.between high) ['\\', 'u', a, b, c, d]
  | escapeNext {high : Nat} {e : Text} :
      Escape (.between high) e → Escape (.escape (some high)) (e ++ ['\\'])
  | digitsNext {high : Nat} {e w : Text} :
      Escape (.between high) e → w.length ≤ 3 →
      Escape (.digits (some high) w) (e ++ '\\' :: 'u' :: w)

/-- What has been read behind these. -/
inductive Inner : Place → Text → Prop
  | element {s : Text} : Spaces s → Inner .element s
  | key {s : Text} : Spaces s → Inner .key s
  | colon {k s q s' : Text} :
      Spaces s → Inside k q → Spaces s' → Inner (.colon k) (s ++ '"' :: q ++ '"' :: s')
  | inside {mode : Mode} {t s q e : Text} :
      Spaces s → Inside t.reverse q → Escape mode e →
      Inner (.inside mode t) (s ++ '"' :: q ++ e)
  | word {s w : Text} : Spaces s → (∀ c ∈ w, isWord c = true) → Inner (.word w) (s ++ w.reverse)
  | after {d : Data} {w : Text} : Written (.element d) w → Inner (.after d) w

/-- What has been read is a text that may be gone on with. -/
def Behind (r : Reading) (t : Text) : Prop :=
  ∃ v u, t = v ++ u ∧ Outer r.frames v ∧ Inner r.place u

theorem spaces_nil : Spaces [] := by
  simp [Spaces]

theorem Spaces.concat (h : Spaces w) (hc : isSpace c = true) : Spaces (w ++ [c]) := by
  simpa [Spaces, or_imp, forall_and, hc] using h

theorem Inside.append {t' w' : Text} (h : Inside t w) (h' : Inside t' w') :
    Inside (t ++ t') (w ++ w') := by
  induction h with
  | nil => exact h'
  | plain hquote hslash hc _ ih => exact .plain hquote hslash hc ih
  | named he _ ih => exact .named he ih
  | unit hread hhigh hlow _ ih => exact .unit hread hhigh hlow ih
  | pair hread hhigh hread' hlow _ ih => exact .pair hread hhigh hread' hlow ih

theorem listed_nil : Listed [] [] := by
  intro ds ws h
  exact h

theorem listedEntries_nil : ListedEntries [] [] := by
  intro es ws h
  exact h

theorem Listed.cons (h : Listed before w) (hd : Written (.element d) u) :
    Listed (d :: before) (w ++ u ++ [',']) := by
  intro ds ws hs
  simpa using h _ _ (.items hd hs)

theorem ListedEntries.cons {k : Text} (h : ListedEntries beforeEntries w)
    (he : Written (.entry k d) u) : ListedEntries ((k, d) :: beforeEntries) (w ++ u ++ [',']) := by
  intro es ws hs
  simpa using h _ _ (.entries he hs)

theorem written_element_concat (h : Written (.element d) w) (hc : isSpace c = true) :
    Written (.element d) (w ++ [c]) := by
  cases h with
  | element hs h hs' => simpa using Written.element hs h (hs'.concat hc)

theorem written_element {s : Text} (hs : Spaces s) (h : Written (.value d) w) :
    Written (.element d) (s ++ w) := by
  simpa using Written.element hs h spaces_nil

theorem behind_close (hv : Outer frames v) (hu : Written (.element d) u)
    (hstep : Reading.close? d frames c = some r) : Behind r (v ++ u ++ [c]) := by
  by_cases hspace : isSpace c = true
  · obtain rfl : ⟨.after d, frames⟩ = r := by simpa [Reading.close?.eq_def, hspace] using hstep
    exact ⟨v, u ++ [c], by simp, hv, .after (written_element_concat hu hspace)⟩
  rw [Reading.close?.eq_def, if_neg hspace] at hstep
  cases hv with
  | top => simp at hstep
  | @items before frames v s w hv hs hlisted _ =>
    by_cases hcomma : c = ','
    · obtain rfl := hcomma
      obtain rfl : ⟨.element, .items (d :: before) :: frames⟩ = r := by simpa using hstep
      exact ⟨_, [], by simp, .items hv hs (hlisted.cons hu) (by simp), .element spaces_nil⟩
    by_cases hclose : c = ']'
    · obtain rfl := hclose
      obtain rfl : ⟨.after (.array (d :: before).reverse), frames⟩ = r := by simpa using hstep
      have hitems : Written (.items (d :: before).reverse) (w ++ u) := by
        simpa using hlisted _ _ (.item hu)
      exact ⟨v, _, by simp, hv, .after (written_element hs (.array hitems))⟩
    · simp [hcomma, hclose] at hstep
  | entries => simp at hstep
  | @entry before k frames v s w s' q s'' hv hs hlisted hs' hk hs'' =>
    have hentry : Written (.entry k d) (s' ++ '"' :: q ++ '"' :: s'' ++ ':' :: u) :=
      .entry hs' hk hs'' hu
    by_cases hcomma : c = ','
    · obtain rfl := hcomma
      obtain rfl : ⟨.key, .entries ((k, d) :: before) :: frames⟩ = r := by simpa using hstep
      exact ⟨_, [], by simp, .entries hv hs (hlisted.cons hentry) (by simp), .key spaces_nil⟩
    by_cases hclose : c = '\x7d'
    · obtain rfl := hclose
      obtain rfl : ⟨.after (.object ((k, d) :: before).reverse), frames⟩ = r := by
        simpa using hstep
      have hentries : Written (.entries ((k, d) :: before).reverse)
          (w ++ (s' ++ '"' :: q ++ '"' :: s'' ++ ':' :: u)) := by
        simpa using hlisted _ _ (.lastEntry hentry)
      exact ⟨v, _, by simp, hv, .after (written_element hs (.object hentries))⟩
    · simp [hcomma, hclose] at hstep

theorem behind_open {s : Text} (hv : Outer frames v) (hs : Spaces s)
    (hstep : Reading.open? frames c = some r) : Behind r (v ++ s ++ [c]) := by
  rw [Reading.open?] at hstep
  split at hstep
  · rename_i hc
    obtain rfl := Option.some.inj hstep
    exact ⟨v, s ++ '"' :: [] ++ [], by simp [hc], hv, .inside hs .nil .plain⟩
  split at hstep
  · rename_i _ hc
    obtain rfl := Option.some.inj hstep
    exact ⟨v ++ (s ++ '[' :: []), [], by simp [hc], .items hv hs listed_nil fun _ => rfl,
      .element spaces_nil⟩
  split at hstep
  · rename_i _ _ hc
    obtain rfl := Option.some.inj hstep
    exact ⟨v ++ (s ++ '\x7b' :: []), [], by simp [hc],
      .entries hv hs listedEntries_nil fun _ => rfl, .key spaces_nil⟩
  split at hstep
  · rename_i _ _ _ hc
    obtain rfl := Option.some.inj hstep
    exact ⟨v, s ++ [c].reverse, by simp, hv, .word hs (by simpa using hc)⟩
  · cases hstep

theorem unit_none {mode' : Mode} {t' : Text} (h : Mode.unit none t w = some (mode', t')) :
    ∃ n, Text.readNat? 16 w = some n ∧
      (IsHigh n ∧ mode' = .between n ∧ t' = t ∨
        ¬IsHigh n ∧ ¬IsLow n ∧ mode' = .plain ∧ t' = Char.ofNat n :: t) := by
  cases hread : Text.readNat? 16 w with
  | none => simp [Mode.unit, hread] at h
  | some n =>
    simp only [Mode.unit, hread] at h
    split at h
    · rename_i hhigh
      cases h
      exact ⟨n, rfl, .inl ⟨hhigh, rfl, rfl⟩⟩
    split at h
    · cases h
    · rename_i hhigh hlow
      cases h
      exact ⟨n, rfl, .inr ⟨hhigh, hlow, rfl, rfl⟩⟩

theorem unit_some {high : Nat} {mode' : Mode} {t' : Text}
    (h : Mode.unit (some high) t w = some (mode', t')) :
    ∃ low, Text.readNat? 16 w = some low ∧ IsLow low ∧ mode' = .plain ∧
      t' = paired high low :: t := by
  cases hread : Text.readNat? 16 w with
  | none => simp [Mode.unit, hread] at h
  | some low =>
    simp only [Mode.unit, hread] at h
    split at h
    · rename_i hlow
      cases h
      exact ⟨low, rfl, hlow, rfl, rfl⟩
    · cases h

theorem inside_step {e q t' : Text} {mode' : Mode} (hq : Inside t.reverse q)
    (he : Escape mode e) (hquote : mode = .plain → c ≠ '"')
    (hstep : mode.step t c = some (mode', t')) :
    ∃ q' e', Inside t'.reverse q' ∧ Escape mode' e' ∧ q' ++ e' = q ++ e ++ [c] := by
  cases he with
  | plain =>
    rw [Mode.step] at hstep
    split at hstep
    · rename_i hc
      cases hstep
      exact ⟨q, _, hq, .escape, by simp [hc]⟩
    split at hstep
    · rename_i hslash hc
      cases hstep
      have hchar : Inside [c] [c] := .plain (hquote rfl) hslash hc .nil
      exact ⟨q ++ [c], _, by simpa using hq.append hchar, .plain, by simp⟩
    · cases hstep
  | escape =>
    rw [Mode.step] at hstep
    split at hstep
    · rename_i hc
      cases hstep
      exact ⟨q, _, hq, .digits (Nat.zero_le 3), by simp [hc]⟩
    · obtain ⟨d, hnamed, heq⟩ := Option.map_eq_some_iff.mp hstep
      cases heq
      have hchar : Inside [d] ['\\', c] := .named hnamed .nil
      exact ⟨q ++ ['\\', c], _, by simpa using hq.append hchar, .plain, by simp⟩
  | @digits w hw =>
    rw [Mode.step] at hstep
    split at hstep
    · rename_i hlength
      obtain ⟨a, b, e, rfl⟩ := List.length_eq_three.mp hlength
      obtain ⟨n, hread, ⟨hhigh, rfl, rfl⟩ | ⟨hhigh, hlow, rfl, rfl⟩⟩ := unit_none hstep
      · exact ⟨q, _, hq, .between hread hhigh, by simp⟩
      · have hchar : Inside [Char.ofNat n] ['\\', 'u', a, b, e, c] := .unit hread hhigh hlow .nil
        exact ⟨q ++ ['\\', 'u', a, b, e, c], _, by simpa using hq.append hchar, .plain, by simp⟩
    · cases hstep
      exact ⟨q, _, hq, .digits (by simp; omega), by simp⟩
  | between hread hhigh =>
    rw [Mode.step] at hstep
    split at hstep
    · rename_i hc
      cases hstep
      exact ⟨q, _, hq, .escapeNext (.between hread hhigh), by simp [hc]⟩
    · cases hstep
  | escapeNext he =>
    rw [Mode.step] at hstep
    split at hstep
    · rename_i hc
      cases hstep
      exact ⟨q, _, hq, .digitsNext he (Nat.zero_le 3), by simp [hc]⟩
    · cases hstep
  | @digitsNext high e w he hw =>
    rw [Mode.step] at hstep
    split at hstep
    · rename_i hlength
      obtain ⟨low, hread', hlow, rfl, rfl⟩ := unit_some hstep
      obtain ⟨a', b', e', rfl⟩ := List.length_eq_three.mp hlength
      cases he with
      | @between a b e d _ hread hhigh =>
        have hchar : Inside [paired high low]
            ['\\', 'u', a, b, e, d, '\\', 'u', a', b', e', c] :=
          .pair hread hhigh hread' hlow .nil
        exact ⟨q ++ ['\\', 'u', a, b, e, d, '\\', 'u', a', b', e', c], _,
          by simpa using hq.append hchar, .plain, by simp⟩
    · cases hstep
      exact ⟨q, _, hq, .digitsNext he (by simp; omega), by simp⟩

theorem behind_element {s : Text} (hv : Outer frames v) (hs : Spaces s)
    (hstep : Reading.element? frames c = some r) : Behind r (v ++ s ++ [c]) := by
  rw [Reading.element?.eq_def] at hstep
  split at hstep
  · rename_i hspace
    obtain rfl := Option.some.inj hstep
    exact ⟨v, s ++ [c], by simp, hv, .element (hs.concat hspace)⟩
  split at hstep
  · rename_i _ hclose
    cases hv with
    | @items before frames v s' w hv hs' _ hfirst =>
      cases before with
      | nil =>
        obtain rfl := Option.some.inj hstep
        obtain rfl := hfirst rfl
        exact ⟨v, _, by simp [hclose], hv, .after (written_element hs' (.noItems hs))⟩
      | cons d before => cases hstep
    | top | entries | entry => cases hstep
  · exact behind_open hv hs hstep

theorem behind_key {s : Text} (hv : Outer frames v) (hs : Spaces s)
    (hstep : Reading.key? frames c = some r) : Behind r (v ++ s ++ [c]) := by
  rw [Reading.key?.eq_def] at hstep
  split at hstep
  · rename_i hspace
    obtain rfl := Option.some.inj hstep
    exact ⟨v, s ++ [c], by simp, hv, .key (hs.concat hspace)⟩
  split at hstep
  · rename_i _ hquote
    obtain rfl := Option.some.inj hstep
    exact ⟨v, s ++ '"' :: [] ++ [], by simp [hquote], hv, .inside hs .nil .plain⟩
  split at hstep
  · rename_i _ _ hclose
    cases hv with
    | @entries before frames v s' w hv hs' _ hfirst =>
      cases before with
      | nil =>
        obtain rfl := Option.some.inj hstep
        obtain rfl := hfirst rfl
        exact ⟨v, _, by simp [hclose], hv, .after (written_element hs' (.noEntries hs))⟩
      | cons e before => cases hstep
    | top | items | entry => cases hstep
  · cases hstep

theorem behind_colon {k s q s' : Text} (hv : Outer frames v) (hs : Spaces s) (hk : Inside k q)
    (hs' : Spaces s') (hstep : Reading.colon? k frames c = some r) :
    Behind r (v ++ (s ++ '"' :: q ++ '"' :: s') ++ [c]) := by
  rw [Reading.colon?.eq_def] at hstep
  split at hstep
  · rename_i hspace
    obtain rfl := Option.some.inj hstep
    exact ⟨v, _, by simp, hv, .colon hs hk (hs'.concat hspace)⟩
  split at hstep
  · rename_i _ hcolon
    cases hv with
    | entries hv hs₀ hlisted _ =>
      obtain rfl := Option.some.inj hstep
      exact ⟨_, [], by simp [hcolon], .entry hv hs₀ hlisted hs hk hs', .element spaces_nil⟩
    | top | items | entry => cases hstep
  · cases hstep

theorem behind_inside {s q e : Text} (hv : Outer frames v) (hs : Spaces s)
    (hq : Inside t.reverse q) (he : Escape mode e)
    (hstep : Reading.inside? mode t frames c = some r) :
    Behind r (v ++ (s ++ '"' :: q ++ e) ++ [c]) := by
  rw [Reading.inside?] at hstep
  split at hstep
  · rename_i hend
    obtain ⟨rfl, rfl⟩ := hend
    obtain rfl := Option.some.inj hstep
    cases he
    rw [Reading.closeString.eq_def]
    split
    · exact ⟨v, _, by simp, hv, .colon hs hq spaces_nil⟩
    · exact ⟨v, _, by simp, hv, .after (written_element hs (.string hq))⟩
  · rename_i hend
    obtain ⟨⟨mode', t'⟩, hinside, rfl⟩ := Option.map_eq_some_iff.mp hstep
    obtain ⟨q', e', hq', he', heq⟩ :=
      inside_step hq he (fun hplain hquote => hend ⟨hplain, hquote⟩) hinside
    exact ⟨v, s ++ '"' :: q' ++ e', by simp [heq], hv, .inside hs hq' he'⟩

theorem behind_word {s : Text} (hv : Outer frames v) (hs : Spaces s)
    (hw : ∀ c ∈ w, isWord c = true) (hstep : Reading.inWord? w frames c = some r) :
    Behind r (v ++ (s ++ w.reverse) ++ [c]) := by
  rw [Reading.inWord?] at hstep
  split at hstep
  · rename_i hc
    obtain rfl := Option.some.inj hstep
    refine ⟨v, s ++ (c :: w).reverse, by simp, hv, .word hs ?_⟩
    exact List.forall_mem_cons.mpr ⟨hc, hw⟩
  · obtain ⟨d, hd, hclose⟩ := Option.bind_eq_some_iff.mp hstep
    have hword : Written (.value d) w.reverse :=
      .word (fun c hc => hw c (List.mem_reverse.mp hc)) hd
    exact behind_close hv (written_element hs hword) hclose

theorem Behind.step (h : Behind r t) (hstep : r.step c = some r') : Behind r' (t ++ [c]) := by
  obtain ⟨v, u, rfl, hv, hu⟩ := h
  obtain ⟨place, frames⟩ := r
  cases hu with
  | element hs => exact behind_element hv hs hstep
  | key hs => exact behind_key hv hs hstep
  | colon hs hk hs' => exact behind_colon hv hs hk hs' hstep
  | inside hs hq he => exact behind_inside hv hs hq he hstep
  | word hs hw => exact behind_word hv hs hw hstep
  | after hd => exact behind_close hv hd hstep

theorem Behind.reads (h : Behind r t) (hreads : Reads r w r') : Behind r' (t ++ w) := by
  induction w generalizing r t with
  | nil =>
    obtain rfl : r = r' := by simpa [Reads] using hreads
    simpa using h
  | cons c w ih =>
    rw [Reads, List.foldlM_cons] at hreads
    obtain ⟨middle, hstep, hrest⟩ := Option.bind_eq_some_iff.mp hreads
    simpa using ih (h.step hstep) hrest

theorem Behind.finish (h : Behind r t) (hfinish : r.finish = some d) : Written (.element d) t := by
  obtain ⟨v, u, rfl, hv, hu⟩ := h
  obtain ⟨place, frames⟩ := r
  obtain rfl : frames = [] := by
    cases place <;> cases frames <;> simp_all [Reading.finish]
  cases hv
  cases hu with
  | word hs hw =>
    rw [List.nil_append]
    exact written_element hs (.word (fun c hc => hw c (List.mem_reverse.mp hc)) hfinish)
  | after hd =>
    cases Option.some.inj hfinish
    exact hd
  | element | key | colon | inside => cases hfinish

end Sound

/-- The reader reads a text exactly where the grammar gives it a meaning, and then that one. -/
theorem read_eq_some_iff : read t = some d ↔ Written (.element d) t := by
  refine ⟨fun h => ?_, read_of_written⟩
  obtain ⟨r, hreads, hfinish⟩ := Option.bind_eq_some_iff.mp h
  have hstart : Behind .start [] := ⟨[], [], rfl, .top, .element spaces_nil⟩
  exact (hstart.reads hreads).finish hfinish

end SceneAudit.Json
