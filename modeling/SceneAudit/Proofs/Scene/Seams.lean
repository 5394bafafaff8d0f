import SceneAudit.Proofs.Scene.Blocks

/-! # Seams between blocks

A header begins anew whatever stands in front of it. A text that ends where a line ends and a text
that begins with a header are therefore read apart from each other, and what stands in the body of
one block, readable or not, cannot be seen in another block.
-/

namespace SceneAudit.Scene

variable {reserved : List Text}

namespace RawBlock

theorem cut_block {header h body back : Text} (hheader : Text.lines header = [headerMark ++ h])
    (hended : Text.Ended header)
    (hbody : ∀ l ∈ Text.lines body, Text.startsWith headerMark l = false)
    (hback : back ≠ [] → Text.Ended body ∧ Text.startsWith headerMark back = true) :
    cut (Text.lines (header ++ (body ++ back))) =
      ([], ofHeader h (cut (Text.lines body)).1 :: split back) := by
  have hlines : Text.lines (body ++ back) = Text.lines body ++ Text.lines back := by
    by_cases hnil : back = []
    · simp [hnil, Text.lines]
    · exact Text.lines_append (hback hnil).1 back
  have hfront : (cut (Text.lines back)).1 = [] := by
    by_cases hnil : back = []
    · simp [hnil, Text.lines, cut]
    · exact cut_header (hback hnil).2
  rw [Text.lines_append hended, hheader, hlines, List.singleton_append, cut, cut_append hfront,
    Text.dropStart?_append, cut_of_headerless hbody]
  rfl

theorem split_append_of_cut {s t : Text} (hs : Text.Ended s) (ht : (cut (Text.lines t)).1 = []) :
    split (s ++ t) = split s ++ split t := by
  rw [split, Text.lines_append hs, cut_append ht]
  rfl

end RawBlock

theorem ofReadings_append (rs rs' : List Reading) :
    ofReadings (rs ++ rs') =
      ⟨(ofReadings rs).blocks ++ (ofReadings rs').blocks,
        (ofReadings rs).entities ++ (ofReadings rs').entities,
        (ofReadings rs).malformed + (ofReadings rs').malformed⟩ := by
  simp only [ofReadings, List.filterMap_append, List.countP_append]

theorem ofReadings_singleton (r : Reading) :
    ofReadings [r] = ⟨r.block?.toList, r.entity?.toList, r.isMalformed.toNat⟩ := by
  cases r with
  | ignored => rfl
  | malformed => rfl
  | block b entity => cases entity <;> rfl

theorem parse_of_split {t a b : Text}
    (h : RawBlock.split t = RawBlock.split a ++ RawBlock.split b) :
    parse reserved t =
      ⟨(parse reserved a).blocks ++ (parse reserved b).blocks,
        (parse reserved a).entities ++ (parse reserved b).entities,
        (parse reserved a).malformed + (parse reserved b).malformed⟩ := by
  rw [parse, h, List.map_append, ofReadings_append]
  rfl

/-- Cutting into blocks and reading them commutes with putting texts together at a header, and the
body of a block has a say in nothing but this block. -/
theorem parse_append_of_header (reserved : List Text) :
    (∀ a b : Text, Text.Ended a → Text.startsWith RawBlock.headerMark b = true →
      RawBlock.split (a ++ b) = RawBlock.split a ++ RawBlock.split b ∧
      (parse reserved (a ++ b)).blocks = (parse reserved a).blocks ++ (parse reserved b).blocks ∧
      (parse reserved (a ++ b)).entities =
        (parse reserved a).entities ++ (parse reserved b).entities ∧
      (parse reserved (a ++ b)).malformed =
        (parse reserved a).malformed + (parse reserved b).malformed) ∧
    (∀ front header h back : Text, Text.Ended front → Text.Ended header →
      Text.lines header = [RawBlock.headerMark ++ h] →
      (back ≠ [] → Text.startsWith RawBlock.headerMark back = true) →
      ∀ body : Text, (∀ l ∈ Text.lines body, Text.startsWith RawBlock.headerMark l = false) →
        (back ≠ [] → Text.Ended body) →
        let own := Reading.ofRaw reserved (RawBlock.ofHeader h (RawBlock.cut (Text.lines body)).1)
        let scene := parse reserved (front ++ (header ++ (body ++ back)))
        scene.blocks = (parse reserved front).blocks ++ own.block?.toList ++
          (parse reserved back).blocks ∧
        scene.entities = (parse reserved front).entities ++ own.entity?.toList ++
          (parse reserved back).entities ∧
        scene.malformed = (parse reserved front).malformed + own.isMalformed.toNat +
          (parse reserved back).malformed) := by
  refine ⟨?_, ?_⟩
  · intro a b ha hb
    have hsplit := RawBlock.split_append ha hb
    have hparse : parse reserved (a ++ b) = _ := parse_of_split hsplit
    refine ⟨hsplit, ?_, ?_, ?_⟩ <;> rw [hparse]
  · intro front header h back hfront hended hheader hback body hbody hend own scene
    have hcut := RawBlock.cut_block hheader hended hbody fun hne => ⟨hend hne, hback hne⟩
    have hsplit : RawBlock.split (front ++ (header ++ (body ++ back))) = RawBlock.split front ++
        (RawBlock.ofHeader h (RawBlock.cut (Text.lines body)).1 :: RawBlock.split back) := by
      rw [RawBlock.split_append_of_cut hfront (congrArg Prod.fst hcut)]
      exact congrArg (RawBlock.split front ++ ·) (congrArg Prod.snd hcut)
    have hscene : scene = ofReadings ((RawBlock.split front).map (Reading.ofRaw reserved) ++
        ([own] ++ (RawBlock.split back).map (Reading.ofRaw reserved))) := by
      rw [show scene = parse reserved _ from rfl, parse, hsplit, List.map_append, List.map_cons]
      rfl
    rw [hscene, ofReadings_append, ofReadings_append, ofReadings_singleton, ← List.append_assoc,
      ← List.append_assoc, ← Nat.add_assoc]
    exact ⟨rfl, rfl, rfl⟩

/-- A body that cannot be read, between two blocks that can. -/
theorem parse_append_around_damage :
    let front := "%YAML 1.1\n--- !u!1 &2\r\nGameObject:\n  m_Name: Top\n".toList
    let header := "--- !u!1 &7 \r\n".toList
    let body := "GameObject:\n  m_Name: [a\n...\n".toList
    let back := "--- &3\nGameObject: \x7bm_Name: Low\x7d\n".toList
    let scene := parse [] (front ++ (header ++ (body ++ back)))
    Text.Ended front ∧ Text.startsWith RawBlock.headerMark (header ++ (body ++ back)) = true ∧
      scene.entities = (parse [] front).entities ++ (parse [] (header ++ (body ++ back))).entities ∧
      scene.entities = [.object ⟨['2'], "Top".toList⟩, .object ⟨['3'], "Low".toList⟩] ∧
      scene.malformed = 1 := by
  repeat rw [String.toList_ofList]
  intro front header body back scene
  have hfront : Text.Ended front := Text.ended_of_getLast? (by decide)
  have hseam : Text.startsWith RawBlock.headerMark (header ++ (body ++ back)) = true := by decide
  obtain ⟨-, -, hentities, -⟩ := (parse_append_of_header []).1 front _ hfront hseam
  obtain ⟨-, hown, hmalformed⟩ := (parse_append_of_header []).2 front header " !u!1 &7 ".toList back
    hfront (Text.ended_of_getLast? (by decide)) (by decide) (fun _ => by decide) body (by decide)
    (fun _ => Text.ended_of_getLast? (by decide))
  refine ⟨hfront, hseam, hentities, hown.trans ?_, hmalformed.trans ?_⟩ <;> decide +kernel

end SceneAudit.Scene
