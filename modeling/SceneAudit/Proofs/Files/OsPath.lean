import SceneAudit.Files.OsPath
import SceneAudit.Proofs.Files.Stripping
import SceneAudit.Proofs.Text.Utf8

/-! # Paths of bytes and paths of texts

No byte of a character but the slash is a slash, so that the bytes of a text are cut where the text
is. Everything that is read off the path of a text is then read off its bytes in the same way.
-/

namespace SceneAudit

namespace Utf8

theorem encode_injective : Function.Injective encode := by
  intro s t h
  have hdecode := congrArg decode? h
  rw [decode?_encode, decode?_encode] at hdecode
  exact Option.some.inj hdecode

theorem encode_eq_nil_iff {t : Text} : encode t = [] ↔ t = [] :=
  encode_injective.eq_iff' rfl

theorem slash_mem_encodeChar_iff {c : Char} : OsPath.slash ∈ encodeChar c ↔ c = '/' := by
  have hbyte : ∀ {k : Nat}, k < 256 → (OsPath.slash = UInt8.ofNat k ↔ k = 47) := by
    intro k hk
    rw [← UInt8.toNat_inj, toNat_ofNat hk]
    exact eq_comm
  have hslash : c = '/' ↔ c.toNat = 47 :=
    ⟨fun h => congrArg Char.toNat h, fun h => by rw [← Char.ofNat_toNat c, h]⟩
  have hvalid : c.toNat < 0x110000 := by
    rcases c.valid with h | h
    · exact h.trans (by decide)
    · exact h.2
  rw [hslash]
  unfold encodeChar
  dsimp only
  split_ifs with hone htwo hthree
  · rw [List.mem_singleton, hbyte (by omega)]
  · simp only [List.mem_cons, List.not_mem_nil, or_false]
    rw [hbyte (by omega), hbyte (by omega)]
    omega
  · simp only [List.mem_cons, List.not_mem_nil, or_false]
    rw [hbyte (by omega), hbyte (by omega), hbyte (by omega)]
    omega
  · simp only [List.mem_cons, List.not_mem_nil, or_false]
    rw [hbyte (by omega), hbyte (by omega), hbyte (by omega), hbyte (by omega)]
    omega

end Utf8

namespace Path

/-- The pieces of a path that are components. -/
def names (path : Text) : List Text :=
  (Text.splitOn '/' path).filter fun p => p ≠ [] ∧ p ≠ ['.']

def ofName (name : Text) : Component :=
  if name = ['.', '.'] then .up else .name name

theorem ofName_injective : Function.Injective ofName := by
  intro p q h
  unfold ofName at h
  split at h <;> split at h
  · rename_i hp hq
    rw [hp, hq]
  · exact nomatch h
  · exact nomatch h
  · exact Component.name.inj h

theorem components_eq_names (path : Text) :
    components path = startComponents (split path).1 ++ (names path).map ofName := by
  rw [components_eq, names]
  congr 1
  induction Text.splitOn '/' path with
  | nil => rfl
  | cons p ps ih =>
    by_cases hp : p = [] ∨ p = ['.']
    · rw [List.filterMap_cons_none (component?_eq_none_iff.mpr hp), ih, List.filter_cons_of_neg]
      simpa [imp_iff_not_or, or_comm, not_not] using hp
    · have hname : component? p = some (ofName p) := by
        rw [component?, if_neg hp, ofName]
        split <;> rfl
      rw [List.filterMap_cons_some hname, ih, List.filter_cons_of_pos, List.map_cons]
      simpa [not_or] using hp

theorem ofName_ne_root (name : Text) : ofName name ≠ .root := by
  unfold ofName
  split <;> exact nofun

theorem ofName_ne_here (name : Text) : ofName name ≠ .here := by
  unfold ofName
  split <;> exact nofun

theorem same_iff {a b : Text} :
    same a b = true ↔ (split a).1 = (split b).1 ∧ names a = names b := by
  rw [same, beq_iff_eq, components_eq_names, components_eq_names,
    ← ofName_injective.list_map.eq_iff]
  have hroot : ∀ (cs : List Component) (ns : List Text), .root :: cs ≠ ns.map ofName := by
    rintro cs ns h
    obtain ⟨n, -, -, hn, -⟩ := List.map_eq_cons_iff.mp h.symm
    exact ofName_ne_root n hn
  have hhere : ∀ (cs : List Component) (ns : List Text), .here :: cs ≠ ns.map ofName := by
    rintro cs ns h
    obtain ⟨n, -, -, hn, -⟩ := List.map_eq_cons_iff.mp h.symm
    exact ofName_ne_here n hn
  generalize (split a).1 = s, (split b).1 = t
  cases s <;> cases t <;> simp [startComponents, hroot, hhere, (hroot _ _).symm, (hhere _ _).symm]

theorem fileName?_eq (path : Text) :
    fileName? path = (names path).getLast?.filter (· ≠ ['.', '.']) := by
  rw [fileName?, components_eq_names, List.getLast?_append, List.getLast?_map]
  cases (names path).getLast? with
  | none => cases (split path).1 <;> rfl
  | some name =>
    by_cases hup : name = ['.', '.'] <;> simp [ofName, hup, Option.filter]

end Path

namespace OsPath

open Utf8

variable {a b : Text}

theorem splitOn_append_of_not_mem {s : Bytes} (hs : slash ∉ s) (path : OsPath) :
    (s ++ path).splitOn slash = (path.splitOn slash).modifyHead (s ++ ·) := by
  induction s with
  | nil =>
    rw [List.nil_append]
    cases path.splitOn slash <;> rfl
  | cons c s ih =>
    obtain ⟨hc, hs⟩ := List.ne_and_not_mem_of_not_mem_cons hs
    rw [List.cons_append, List.splitOn_cons_eq_if_modifyHead, if_neg (by simpa using hc.symm),
      ih hs, List.modifyHead_modifyHead]
    rfl

theorem pieces_encode (t : Text) : pieces (encode t) = (Text.splitOn '/' t).map encode := by
  unfold pieces
  induction t using Text.splitOn_induct '/' with
  | nil => rfl
  | separator t ih =>
    rw [encode_cons, Text.splitOn_cons_sep, List.map_cons, ← ih]
    exact List.splitOn_cons_eq_if_modifyHead ..
  | other c t piece pieces hc ht ih =>
    have hslash : slash ∉ encodeChar c := fun h => hc (slash_mem_encodeChar_iff.mp h)
    rw [encode_cons, splitOn_append_of_not_mem hslash, ih, Text.splitOn_cons hc ht, ht,
      List.map_cons, List.modifyHead_cons, List.map_cons, encode_cons]

theorem encode_eq_dot_iff {p : Text} : encode p = [dot] ↔ p = ['.'] :=
  encode_injective.eq_iff' rfl

theorem encode_eq_up_iff {p : Text} : encode p = [dot, dot] ↔ p = ['.', '.'] :=
  encode_injective.eq_iff' rfl

theorem names_encode (t : Text) : names (encode t) = (Path.names t).map encode := by
  rw [names, pieces_encode, List.filter_map, Path.names]
  congr 1
  refine List.filter_congr fun p _ => ?_
  simp only [Function.comp, ne_eq, encode_eq_nil_iff, encode_eq_dot_iff]

theorem start_encode (t : Text) : start (encode t) = (Path.split t).1 := by
  rw [start, pieces_encode]
  fun_cases Path.split t with
  | case1 body =>
    obtain ⟨piece, pieces, hbody⟩ := List.exists_cons_of_ne_nil (Text.splitOn_ne_nil '/' body)
    rw [Text.splitOn_cons_sep, hbody]
    rfl
  | case2 => rfl
  | case3 body =>
    rw [Text.splitOn_cons (by decide) (Text.splitOn_cons_sep body)]
    rfl
  | case4 _ hroot hdot hhere =>
    cases t with
    | nil => rfl
    | cons c t =>
      have hc : c ≠ '/' := fun h => hroot t (by rw [h])
      obtain ⟨piece, pieces, ht⟩ := List.exists_cons_of_ne_nil (Text.splitOn_ne_nil '/' t)
      have hpiece : encode (c :: piece) ≠ [dot] := by
        rw [ne_eq, encode_eq_dot_iff]
        rintro ⟨⟩
        cases t with
        | nil => exact hdot rfl
        | cons d t =>
          have hd : d ≠ '/' := fun h => hhere t (by rw [h])
          obtain ⟨_, _, hrest⟩ := List.exists_cons_of_ne_nil (Text.splitOn_ne_nil '/' t)
          rw [Text.splitOn_cons hd hrest] at ht
          exact List.cons_ne_nil _ _ (List.cons.inj ht).1
      obtain ⟨b, bs, hb⟩ := List.exists_cons_of_ne_nil (mt encode_eq_nil_iff.mp
        (List.cons_ne_nil c piece))
      rw [Text.splitOn_cons hc ht, List.map_cons]
      rw [hb] at hpiece ⊢
      exact if_neg hpiece

@[simp] theorem same_encode : same (encode a) (encode b) = Path.same a b := by
  rw [Bool.eq_iff_iff, Path.same_iff, same, decide_eq_true_iff, start_encode, start_encode,
    names_encode, names_encode, encode_injective.list_map.eq_iff]

@[simp] theorem fileName?_encode (path : Text) :
    fileName? (encode path) = (Path.fileName? path).map encode := by
  rw [fileName?, names_encode, List.getLast?_map, Path.fileName?_eq]
  cases (Path.names path).getLast? with
  | none => rfl
  | some name =>
    simp only [Option.map_some, Option.filter_some, decide_not, encode_eq_up_iff]
    split <;> rfl

theorem head?_encode {path : Text} : (encode path).head? = some slash ↔ path.head? = some '/' := by
  cases path with
  | nil => simp [encode]
  | cons c t =>
    rw [encode_cons, List.head?_append_of_ne_nil _ (encodeChar_ne_nil c), List.head?_cons,
      Option.some.injEq]
    constructor
    · exact fun h => slash_mem_encodeChar_iff.mp (List.mem_of_head? h)
    · rintro rfl
      rfl

theorem getLast?_encode {path : Text} :
    (encode path).getLast? = some slash ↔ path.getLast? = some '/' := by
  rcases List.eq_nil_or_concat' path with rfl | ⟨t, c, rfl⟩
  · simp [encode]
  · have hbytes : encode (t ++ [c]) = encode t ++ encodeChar c := by
      simp [encode]
    rw [hbytes, List.getLast?_append_of_ne_nil _ (encodeChar_ne_nil c), List.getLast?_concat,
      Option.some.injEq]
    constructor
    · exact fun h => slash_mem_encodeChar_iff.mp (List.mem_of_getLast? h)
    · rintro rfl
      rfl

@[simp] theorem join_encode (base path : Text) :
    join (encode base) (encode path) = encode (Path.join base path) := by
  have hconcat : encode base ++ slash :: encode path = encode (base ++ '/' :: path) := by
    simp only [encode, List.flatMap_append, List.flatMap_cons]
    rfl
  simp only [join, Path.join, Path.isAbsolute, beq_iff_eq, head?_encode, getLast?_encode,
    encode_eq_nil_iff, hconcat]
  split
  · rfl
  · split
    · simp only [encode, List.flatMap_append]
    · rfl

section Join

variable {path base piece : Bytes}

theorem slash_not_mem_of_mem_pieces (h : piece ∈ pieces path) : slash ∉ piece := by
  unfold pieces at h
  induction path generalizing piece with
  | nil =>
    obtain rfl := List.mem_singleton.mp h
    exact List.not_mem_nil
  | cons b path ih =>
    obtain ⟨first, rest, hpath⟩ := List.exists_cons_of_ne_nil (List.splitOn_ne_nil slash path)
    rw [List.splitOn_cons_eq_if_modifyHead, hpath, List.modifyHead_cons] at h
    rw [hpath] at ih
    split at h
    · rcases List.mem_cons.mp h with rfl | h
      · exact List.not_mem_nil
      · exact ih h
    · rename_i hb
      rcases List.mem_cons.mp h with rfl | h
      · refine List.not_mem_cons_of_ne_of_not_mem ?_ (ih List.mem_cons_self)
        rintro rfl
        exact hb (beq_self_eq_true slash)
      · exact ih (List.mem_cons_of_mem _ h)

theorem names_append_slash (base path : OsPath) :
    names (base ++ slash :: path) = names base ++ names path := by
  rw [names, pieces, List.splitOn_append_cons_self, List.filter_append]
  rfl

theorem names_join (hpath : path.head? ≠ some slash) :
    names (join base path) = names base ++ names path := by
  rw [join, if_neg hpath]
  split
  · rename_i hends
    rcases hends with rfl | hlast
    · rfl
    · obtain ⟨front, rfl⟩ := List.getLast?_eq_some_iff.mp hlast
      have hfront : names (front ++ [slash]) = names front := by
        rw [names_append_slash]
        exact List.append_nil _
      rw [List.append_assoc, List.singleton_append, names_append_slash, hfront]
  · exact names_append_slash base path

/-- A name is a piece of a path that is no other component. -/
structure IsName (name : Bytes) : Prop where
  ne_nil : name ≠ []
  ne_here : name ≠ [dot]
  ne_up : name ≠ [dot, dot]
  slash : slash ∉ name

theorem isName_of_fileName? (h : fileName? path = some piece) : IsName piece := by
  obtain ⟨hlast, hup⟩ := Option.filter_eq_some_iff.mp h
  obtain ⟨hpiece, hname⟩ := List.mem_filter.mp (List.mem_of_getLast? hlast)
  rw [decide_eq_true_eq] at hup hname
  exact ⟨hname.1, hname.2, hup, slash_not_mem_of_mem_pieces hpiece⟩

theorem IsName.fileName?_join (h : IsName piece) (base : OsPath) :
    fileName? (join base piece) = some piece := by
  have hhead : piece.head? ≠ some OsPath.slash := fun hhead => h.slash (List.mem_of_head? hhead)
  have hpieces : pieces piece = [piece] := List.splitOn_eq_singleton h.slash
  have hnames : names piece = [piece] := by
    rw [names, hpieces]
    simp [h.ne_nil, h.ne_here]
  rw [fileName?, names_join hhead, hnames, List.getLast?_concat]
  simp [Option.filter, h.ne_up]

theorem same_symm (a b : OsPath) (h : same a b = true) : same b a = true := by
  obtain ⟨hstart, hnames⟩ := of_decide_eq_true h
  exact decide_eq_true ⟨hstart.symm, hnames.symm⟩

theorem same_trans (a b c : OsPath) (hab : same a b = true) (hbc : same b c = true) :
    same a c = true := by
  obtain ⟨hstart, hnames⟩ := of_decide_eq_true hab
  obtain ⟨hstart', hnames'⟩ := of_decide_eq_true hbc
  exact decide_eq_true ⟨hstart.trans hstart', hnames.trans hnames'⟩

theorem fileName?_eq_of_same {a b : OsPath} (h : same a b = true) : fileName? a = fileName? b := by
  rw [fileName?, fileName?, (of_decide_eq_true h).2]

end Join

end OsPath

end SceneAudit
