import SceneAudit.Proofs.Script.BaseLists
import SceneAudit.Proofs.Script.Commented
import SceneAudit.Proofs.Script.Likeness

/-! # Comments in base lists

Comments put between the tokens of a script leave everything of its types as it was but bases and
lines. A comment in front of a part of a base list, or of the comma there, is a base by its own
simple name; a comment inside a part belongs to the text that the simple name is taken of.
-/

namespace SceneAudit.Script

/-- An entry as it is written, before and after comments are put between its tokens. -/
inductive WrittenCommented : Text → Text → Prop where
  | first (e : Text) : WrittenCommented e e
  | more {e e' : Text} {t t' : Token} (h : WrittenCommented e e') (ht : t.Commented t') :
      WrittenCommented (e ++ t.gap ++ t.text) (e' ++ t'.gap ++ t'.text)

/-- The entries of a base list before and after comments are put between its tokens. -/
inductive EntriesCommented : List Node → List Node → Prop where
  | nil : EntriesCommented [] []
  | comments {t t' : Token} {es es' : List Node} (ht : t.Commented t')
      (hs : EntriesCommented es es') :
      EntriesCommented (commentNodes t ++ es) (commentNodes t' ++ es')
  | entry {e e' : Text} {es es' : List Node} (h : WrittenCommented e e')
      (hs : EntriesCommented es es') :
      EntriesCommented (.leaf .other none e :: es) (.leaf .other none e' :: es')

/-- The bases of a type before and after comments are put between the tokens of its script. -/
inductive BasesCommented : List Text → List Text → Prop where
  | nil : BasesCommented [] []
  | same {bs bs' : List Text} (b : Text) (hs : BasesCommented bs bs') :
      BasesCommented (b :: bs) (b :: bs')
  /-- The comments between two entries. -/
  | comments {cs cs' bs bs' : List Text} (h : cs.Sublist cs') (hs : BasesCommented bs bs') :
      BasesCommented (cs.filterMap TypeName.simple? ++ bs) (cs'.filterMap TypeName.simple? ++ bs')
  /-- An entry with comments inside. -/
  | entry {e e' : Text} {bs bs' : List Text} (h : WrittenCommented e e')
      (hs : BasesCommented bs bs') :
      BasesCommented ((TypeName.simple? e).toList ++ bs) ((TypeName.simple? e').toList ++ bs')

section Entries

theorem BasesCommented.refl (bs : List Text) : BasesCommented bs bs := by
  induction bs with
  | nil => exact .nil
  | cons b bs ih => exact .same b ih

theorem baseNames_append (es fs : List Node) :
    Node.baseNames (es ++ fs) = Node.baseNames es ++ Node.baseNames fs := by
  rw [Node.baseNames, List.filter_append, List.filterMap_append]
  rfl

theorem baseNames_comments (cs : List Text) :
    Node.baseNames (cs.map (Node.leaf .comment none)) = cs.filterMap TypeName.simple? := by
  induction cs with
  | nil => rfl
  | cons c cs ih =>
    have hc : Node.baseNames [Node.leaf .comment none c] = [c].filterMap TypeName.simple? := rfl
    rw [List.map_cons, ← List.singleton_append, baseNames_append, ih, hc, ← List.filterMap_append,
      List.singleton_append]

theorem baseNames_entry (e : Text) :
    Node.baseNames [Node.leaf .other none e] = (TypeName.simple? e).toList := by
  have he : Node.baseNames [Node.leaf .other none e] = [e].filterMap TypeName.simple? := rfl
  rw [he, List.filterMap_eq_flatMap_toList, List.flatMap_singleton]

theorem EntriesCommented.baseNames {es es' : List Node} (h : EntriesCommented es es') :
    BasesCommented (Node.baseNames es) (Node.baseNames es') := by
  induction h with
  | nil => exact .nil
  | comments ht _ ih =>
    rw [baseNames_append, baseNames_append, commentNodes, commentNodes, baseNames_comments,
      baseNames_comments]
    exact .comments ht.comments ih
  | @entry e e' es es' h _ ih =>
    rw [← List.singleton_append (l := es), ← List.singleton_append (l := es'), baseNames_append,
      baseNames_append, baseNames_entry, baseNames_entry]
    exact .entry h ih

theorem EntriesCommented.behind {entry entry' : Option Text} {t t' : Token} {es es' : List Node}
    (hentry : Option.Rel WrittenCommented entry entry') (ht : t.Commented t')
    (h : EntriesCommented es es') :
    EntriesCommented (entryNodes entry ++ commentNodes t ++ es)
      (entryNodes entry' ++ commentNodes t' ++ es') := by
  rw [List.append_assoc, List.append_assoc]
  cases hentry with
  | none => exact .comments ht h
  | some he => exact .entry he (.comments ht h)

theorem entryNodes_commented {entry entry' : Option Text}
    (hentry : Option.Rel WrittenCommented entry entry') :
    EntriesCommented (entryNodes entry) (entryNodes entry') := by
  cases hentry with
  | none => exact .nil
  | some he => exact .entry he .nil

theorem baseEntries_commented (whole : Bool) {entry entry' : Option Text} (depth angles : Nat)
    {ts ts' : List Token} (hentry : Option.Rel WrittenCommented entry entry')
    (h : MoreComments ts ts') :
    EntriesCommented (baseEntries whole entry depth angles ts).1
        (baseEntries whole entry' depth angles ts').1 ∧
      MoreComments (baseEntries whole entry depth angles ts).2
        (baseEntries whole entry' depth angles ts').2 := by
  induction h generalizing entry entry' depth angles with
  | nil =>
    rw [baseEntries, baseEntries]
    exact ⟨entryNodes_commented hentry, .nil⟩
  | @cons t t' ts ts' ht hs ih =>
    have hbegun : entry'.isSome = entry.isSome := by cases hentry <;> rfl
    have hfirst : Option.Rel WrittenCommented (some t.text) (some t'.text) :=
      .some (ht.text ▸ .first _)
    rw [baseEntries, baseEntries]
    simp only [ht.isSign, ht.isWord, ht.opens, ht.closes, hbegun]
    split
    · exact ⟨entryNodes_commented hentry, .cons ht hs⟩
    · split
      · obtain ⟨hentries, hrest⟩ := ih 0 0 .none
        exact ⟨.behind hentry ht hentries, hrest⟩
      · split
        · obtain ⟨hentries, hrest⟩ := ih 1 0 hfirst
          exact ⟨.behind hentry ht hentries, hrest⟩
        · cases hentry with
          | none =>
            obtain ⟨hentries, hrest⟩ := ih _ _ hfirst
            exact ⟨.comments ht hentries, hrest⟩
          | some he => exact ih _ _ (.some (.more he ht))

end Entries

/-- Nodes that differ in entries of base lists and in lines. -/
abbrev NodesCommented : List Node → List Node → Prop :=
  List.Forall₂ (Node.Alike EntriesCommented)

def ReadCommented (r r' : List Node × List Token) : Prop :=
  NodesCommented r.1 r'.1 ∧ MoreComments r.2 r'.2

section Nodes

theorem alike_refl (n : Node) : n.Alike EntriesCommented n := by
  induction n using Node.induct with
  | node kind role text line children ih => exact .node (List.forall₂_same.mpr ih)

theorem nodesCommented_refl (ns : List Node) : NodesCommented ns ns :=
  List.forall₂_same.mpr fun n _ => alike_refl n

variable {kind : NodeKind} {role : Option Role} {line line' : Nat} {ns ns' : List Node}

theorem inner_commented (h : NodesCommented ns ns') :
    (Node.inner kind role ns).Alike EntriesCommented (Node.inner kind role ns') :=
  .node h

theorem typeNode_commented (h : NodesCommented ns ns') :
    (typeNode kind line ns).Alike EntriesCommented (typeNode kind line' ns') :=
  .node h

end Nodes

section Trees

variable {ts ts' : List Token}

theorem headerStart_commented (h : MoreComments ts ts') :
    MoreComments (upTo (fun t => endsHeader t || t.isSign ":" || t.isWord "where") 0 ts)
      (upTo (fun t => endsHeader t || t.isSign ":" || t.isWord "where") 0 ts') :=
  upTo_commented 0 (fun _ _ ht => by rw [ht.endsHeader, ht.isSign, ht.isWord]) h

theorem typeHeader_commented (whole : Bool) (h : MoreComments ts ts') :
    ReadCommented (typeHeader whole ts) (typeHeader whole ts') := by
  have hends : ∀ t t' : Token, t.Commented t' → endsHeader t' = endsHeader t :=
    fun _ _ ht => ht.endsHeader
  have hrest := headerStart_commented h
  unfold typeHeader
  generalize upTo _ 0 ts = rest, upTo _ 0 ts' = rest' at hrest ⊢
  cases hrest with
  | nil => exact ⟨.nil, .nil⟩
  | cons ht hs =>
    dsimp only
    rw [ht.isSign]
    split
    · obtain ⟨hentries, hbehind⟩ := baseEntries_commented whole 0 0 .none hs
      exact ⟨.cons (.baseList hentries) .nil, upTo_commented 0 hends hbehind⟩
    · exact ⟨.nil, upTo_commented 0 hends (.cons ht hs)⟩

/-- The readers of declarations go by the tokens alone, but for base lists. -/
structure ItemsCommented (fuel : Nat) : Prop where
  items : ∀ (inType : Bool) {ts ts' : List Token}, MoreComments ts ts' →
    ReadCommented (items fuel inType ts) (items fuel inType ts')
  branches : ∀ (inType : Bool) {ts ts' : List Token}, MoreComments ts ts' →
    ReadCommented (branches fuel inType ts) (branches fuel inType ts')
  item : ∀ (inType : Bool) {ts ts' : List Token}, MoreComments ts ts' →
    (item fuel inType ts).1.Alike EntriesCommented (item fuel inType ts').1 ∧
      MoreComments (item fuel inType ts).2 (item fuel inType ts').2

namespace ItemsCommented

variable {fuel : Nat} (ih : ItemsCommented fuel) (inType : Bool)

include ih

theorem items_succ (h : MoreComments ts ts') :
    ReadCommented (Script.items (fuel + 1) inType ts) (Script.items (fuel + 1) inType ts') := by
  cases h with
  | nil => exact ⟨.nil, .nil⟩
  | cons ht hs =>
    have hregion := isNone_commented (afterAttributeRegion?_commented (.cons ht hs))
    rw [Script.items, Script.items, ht.isSign, ht.opensBranch, ht.closesBranch, ht.branch, hregion]
    split
    · exact ⟨.nil, .cons ht hs⟩
    · split
      · obtain ⟨hbody, hrest⟩ := ih.branches inType hs
        obtain ⟨hnodes, hbehind⟩ := ih.items inType hrest
        exact ⟨.cons (inner_commented hbody) hnodes, hbehind⟩
      · obtain ⟨hnode, hrest⟩ := ih.item inType (.cons ht hs)
        obtain ⟨hnodes, hbehind⟩ := ih.items inType hrest
        exact ⟨.cons hnode hnodes, hbehind⟩

theorem branches_succ (h : MoreComments ts ts') : ReadCommented
    (Script.branches (fuel + 1) inType ts) (Script.branches (fuel + 1) inType ts') := by
  obtain ⟨hbody, hrest⟩ := ih.items inType h
  rw [Script.branches, Script.branches]
  generalize Script.items fuel inType ts = read, Script.items fuel inType ts' = read'
    at hbody hrest
  rcases read with ⟨body, rest⟩
  rcases read' with ⟨body', rest'⟩
  dsimp only at hbody hrest ⊢
  cases hrest with
  | nil => exact ⟨hbody, .nil⟩
  | cons ht hs =>
    dsimp only
    rw [ht.opensBranch, ht.closesBranch, regionKind_commented ht]
    split
    · obtain ⟨hmore, hbehind⟩ := ih.branches inType hs
      exact ⟨List.rel_append hbody (.cons (inner_commented hmore) .nil), hbehind⟩
    · split
      · exact ⟨hbody, hs⟩
      · exact ⟨hbody, .cons ht hs⟩

theorem item_succ (h : MoreComments ts ts') :
    (Script.item (fuel + 1) inType ts).1.Alike EntriesCommented
        (Script.item (fuel + 1) inType ts').1 ∧
      MoreComments (Script.item (fuel + 1) inType ts).2 (Script.item (fuel + 1) inType ts').2 := by
  cases h with
  | nil => exact ⟨alike_refl _, .nil⟩
  | @cons t t' ts ts' ht hs =>
    have hbehind := afterHead_commented (ts.length + 1) (.cons ht hs)
    have hkind := itemKind_commented inType hbehind
    rw [Script.item, Script.item, isGlobalAttribute_commented (.cons ht hs), ← hs.length_eq]
    generalize afterHead (ts.length + 1) (t :: ts) = behind,
      afterHead (ts.length + 1) (t' :: ts') = behind' at hbehind hkind
    split
    · exact ⟨alike_refl _, afterGroup_commented 0 (.cons ht hs)⟩
    · dsimp only
      generalize itemKind inType behind = kind, itemKind inType behind' = kind' at hkind
      cases hkind with
      | passed => exact ⟨alike_refl _, afterMember_commented hbehind⟩
      | member =>
        obtain ⟨hnode, hrest⟩ := member_commented hbehind
        rw [hnode]
        exact ⟨alike_refl _, hrest⟩
      | scope =>
        have hheader := upTo_commented 0 (fun _ _ hu => hu.endsHeader) hbehind
        dsimp only
        generalize upTo endsHeader 0 behind = header, upTo endsHeader 0 behind' = header' at hheader
        cases hheader with
        | nil => exact ⟨alike_refl _, .nil⟩
        | cons hopening hs =>
          obtain ⟨hbody, hrest⟩ := ih.items false hs
          dsimp only
          rw [hopening.isSign]
          split
          · exact ⟨inner_commented hbody, hrest⟩
          · exact ⟨inner_commented (.cons (inner_commented hbody) .nil),
              dropClosing_commented hrest⟩
      | @type kind rest rest' hrest =>
        obtain ⟨hname, hrest⟩ := typeName_commented hrest
        obtain ⟨hbases, hheader⟩ := typeHeader_commented (isRecord kind) hrest
        have hchildren := List.rel_append (nodesCommented_refl (typeName rest).1) hbases
        dsimp only
        rw [hname]
        generalize (typeHeader (isRecord kind) (typeName rest).2).2 = header,
          (typeHeader (isRecord kind) (typeName rest').2).2 = header' at hheader
        cases hheader with
        | nil => exact ⟨typeNode_commented hchildren, .nil⟩
        | cons hopening hs =>
          obtain ⟨hbody, hrest⟩ := ih.items true hs
          dsimp only
          rw [hopening.isSign]
          split
          · exact ⟨typeNode_commented hchildren, hs⟩
          · exact ⟨typeNode_commented (List.rel_append hchildren
              (.cons (inner_commented hbody) .nil)), dropClosing_commented hrest⟩

end ItemsCommented

theorem itemsCommented (fuel : Nat) : ItemsCommented fuel := by
  induction fuel with
  | zero =>
    exact ⟨fun _ _ _ h => ⟨.nil, h⟩, fun _ _ _ h => ⟨.nil, h⟩,
      fun _ _ _ h => ⟨alike_refl _, List.forall₂_drop 1 h⟩⟩
  | succ fuel ih =>
    exact ⟨fun inType _ _ => ih.items_succ inType, fun inType _ _ => ih.branches_succ inType,
      fun inType _ _ => ih.item_succ inType⟩

theorem outlineFrom_commented {fuel : Nat} (h : MoreComments ts ts') :
    NodesCommented (outlineFrom fuel ts) (outlineFrom fuel ts') := by
  induction fuel generalizing ts ts' with
  | zero => exact .nil
  | succ fuel ih =>
    obtain ⟨hnodes, hrest⟩ := (itemsCommented (2 * ts.length + 2)).items false h
    rw [outlineFrom, outlineFrom, ← h.length_eq]
    generalize items (2 * ts.length + 2) false ts = read,
      items (2 * ts.length + 2) false ts' = read' at hnodes hrest
    rcases read with ⟨nodes, rest⟩
    rcases read' with ⟨nodes', rest'⟩
    dsimp only at hnodes hrest ⊢
    cases hrest with
    | nil => exact hnodes
    | cons _ hs => exact List.rel_append hnodes (ih hs)

end Trees

/-- A type before and after comments are put between the tokens of its script. -/
structure Declaration.Commented (d d' : Declaration) : Prop where
  name : d'.name = d.name
  bases : BasesCommented d.bases d'.bases
  fields : d'.fields = d.fields
  properties : d'.properties = d.properties

theorem Declaration.Commented.of_alike {d d' : Declaration} (h : d.Alike EntriesCommented d') :
    d.Commented d' where
  name := h.name
  bases := by
    rcases h.bases with hbases | ⟨entries, entries', hentries, hbases, hbases'⟩
    · rw [hbases]
      exact .refl _
    · rw [hbases, hbases']
      exact hentries.baseNames
  fields := h.fields
  properties := h.properties

/-- Comments put between the tokens of a script change nothing about its types but bases. -/
theorem ofText_commented {t t' : Text}
    (h : MoreComments (Token.ofText t) (Token.ofText t')) :
    List.Forall₂ Declaration.Commented (Declaration.ofText t) (Declaration.ofText t') := by
  have houtline : NodesCommented (outline t).children (outline t').children := by
    change NodesCommented (outlineFrom ((Token.ofText t).length + 1) (Token.ofText t))
      (outlineFrom ((Token.ofText t').length + 1) (Token.ofText t'))
    rw [← h.length_eq]
    exact outlineFrom_commented h
  exact (Node.gatherAll_declaration?_alike houtline).imp fun _ _ => .of_alike

end SceneAudit.Script
