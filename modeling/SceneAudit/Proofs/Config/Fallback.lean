import SceneAudit.Config.Load
import SceneAudit.Proofs.Toml.Statements

/-! # Configurations without a known extension

A text that loads under the extension of TOML loads under any other extension too, but YAML is asked
first. Unless the text is a mapping there, YAML refuses it or finds nothing written. A text with
nothing written in YAML has no statement in TOML, so both languages leave everything at its default.
-/

namespace SceneAudit.Config

open Yaml (Document Linked Token)

/-- The document of a text is a mapping. -/
def readsAsMapping (t : Text) : Bool :=
  match Document.ofText? t with
  | some (some doc) =>
    match doc.target? doc.root with
    | some (.mapping _ _) => true
    | _ => false
  | _ => false

section Defaults

theorem Language.config?_of_no_entries {α : Type} {language : Language α} {value : α}
    (h : ∀ fields, language.entries? fields value = some []) :
    language.config? value = some .default := by
  have hsection : ∀ fields, language.section? fields value = some [] := by
    intro fields
    rw [Language.section?, h]
    simp [Language.setsTwice]
  simp [Language.config?, hsection, Language.field?, Config.default]

theorem Language.exists_entries {α : Type} {language : Language α} {value : α} {config : Config}
    (h : language.config? value = some config) :
    ∃ fields entries, language.entries? fields value = some entries := by
  obtain ⟨entries, hsection, -⟩ := Option.bind_eq_some_iff.mp h
  unfold Language.section? at hsection
  simp only at hsection
  split at hsection
  · contradiction
  · rename_i entries' hentries
    exact ⟨_, entries', hentries⟩

variable {t : Text} {config : Config}

theorem eq_default_of_no_statements (h : ofToml? t = some config)
    (hnone : Toml.Statement.ofText? t = some []) : config = .default := by
  have hentries : Toml.Entries.ofText? t = some [] := by
    rw [Toml.Entries.ofText?, hnone]
    rfl
  rw [ofToml?, hentries, Option.bind_some,
    Language.config?_of_no_entries fun _ => rfl] at h
  exact (Option.some.inj h).symm

end Defaults

section Blank

variable {t : Text} {config : Config}

theorem eq_blank_of_target {node : Yaml.Written} {doc : Document}
    (hdoc : Document.ofNode? node = some doc) {props : Yaml.Properties}
    (htarget : doc.target? doc.root = some (.scalar props .plain [])) :
    node = .scalar props .plain [] := by
  obtain ⟨⟨root, anchors⟩, hlink, rfl⟩ := Option.map_eq_some_iff.mp hdoc
  cases node with
  | «alias» name =>
    rw [Yaml.Node.link] at hlink
    contradiction
  | scalar props' style text =>
    rw [Yaml.Node.link] at hlink
    obtain ⟨rfl, -⟩ := Prod.mk.inj (Option.some.inj hlink)
    obtain ⟨rfl, rfl, rfl⟩ := Yaml.Node.scalar.inj (Option.some.inj htarget)
    rfl
  | sequence props' items =>
    rw [Yaml.Node.link] at hlink
    obtain ⟨linked, -, hpair⟩ := Option.map_eq_some_iff.mp hlink
    obtain ⟨rfl, -⟩ := Prod.mk.inj hpair
    cases htarget
  | mapping props' entries =>
    rw [Yaml.Node.link] at hlink
    obtain ⟨linked, -, hpair⟩ := Option.map_eq_some_iff.mp hlink
    obtain ⟨rfl, -⟩ := Prod.mk.inj hpair
    cases htarget

theorem blank_of_config {doc : Document}
    (h : (FromYaml.language doc).config? doc.root = some config)
    (hmapping : ∀ props entries, doc.target? doc.root ≠ some (.mapping props entries)) :
    config = .default ∧ ∃ props, doc.target? doc.root = some (.scalar props .plain []) := by
  obtain ⟨fields, entries, hentries⟩ := Language.exists_entries h
  obtain ⟨props, htarget⟩ : ∃ props, doc.target? doc.root = some (.scalar props .plain []) := by
    change FromYaml.entries? doc fields doc.root = some entries at hentries
    unfold FromYaml.entries? at hentries
    split at hentries
    · rename_i props entries' htarget
      exact absurd htarget (hmapping props entries')
    · rename_i node _ htarget
      split at hentries
      · rename_i hblank
        unfold FromYaml.isBlank at hblank
        split at hblank
        · exact ⟨_, htarget⟩
        · contradiction
      · contradiction
    · contradiction
  refine ⟨?_, props, htarget⟩
  have hnone : ∀ fields, (FromYaml.language doc).entries? fields doc.root = some [] := by
    intro fields
    change FromYaml.entries? doc fields doc.root = some []
    rw [FromYaml.entries?, htarget]
    rfl
  rw [Language.config?_of_no_entries hnone] at h
  exact (Option.some.inj h).symm

/-- A text that sets something in YAML without being a mapping has no token that says something,
and sets nothing. -/
theorem blank_of_ofYaml (h : ofYaml? t = some config) (hmapping : readsAsMapping t = false) :
    config = .default ∧ ∃ tokens, Token.ofText? t = some tokens ∧
      tokens.all Token.isIdle = true := by
  unfold ofYaml? at h
  unfold readsAsMapping at hmapping
  split at h
  · contradiction
  · rename_i hnone
    refine ⟨(Option.some.inj h).symm, [], ?_, rfl⟩
    unfold Document.ofText? at hnone
    split at hnone
    · contradiction
    · rename_i hnode
      obtain ⟨tokens, htokens, hno⟩ := Option.bind_eq_some_iff.mp hnode
      rw [htokens, Yaml.Node.eq_nil_of_no_document hno]
    · obtain ⟨doc, -, hdoc⟩ := Option.map_eq_some_iff.mp hnone
      contradiction
  · rename_i doc hdoc
    rw [hdoc] at hmapping
    obtain ⟨hdefault, props, htarget⟩ := blank_of_config h (by
      intro props entries htarget
      simp [htarget] at hmapping)
    refine ⟨hdefault, ?_⟩
    unfold Document.ofText? at hdoc
    split at hdoc
    · contradiction
    · simp at hdoc
    · rename_i node hnode
      obtain ⟨doc', hof, hsome⟩ := Option.map_eq_some_iff.mp hdoc
      obtain rfl := Option.some.inj hsome
      obtain ⟨tokens, htokens, hforms⟩ := Option.bind_eq_some_iff.mp hnode
      rw [eq_blank_of_target hof htarget] at hforms
      exact ⟨tokens, htokens, Yaml.Node.all_isIdle_of_blank hforms⟩

end Blank

theorem eq_of_not_mapping {t : Text} {config config' : Config} (hyaml : ofYaml? t = some config')
    (hmapping : readsAsMapping t = false) (htoml : ofToml? t = some config) : config' = config := by
  obtain ⟨rfl, tokens, htokens, hidle⟩ := blank_of_ofYaml hyaml hmapping
  obtain ⟨entries, hentries, -⟩ := Option.bind_eq_some_iff.mp htoml
  cases hstatements : Toml.Statement.ofText? t with
  | none =>
    rw [Toml.Entries.ofText?, hstatements] at hentries
    contradiction
  | some statements =>
    obtain rfl | hpending := Toml.pending_of_ofText hstatements
    · exact (eq_default_of_no_statements htoml hstatements).symm
    · obtain ⟨u, hu, hsays⟩ := Yaml.exists_says_of_pending hpending htokens
      rw [List.all_eq_true.mp hidle u hu] at hsays
      contradiction

section Loading

variable {tree : FileTree} {path t : Text} {config : Config}

theorem ofToml_of_load (hext : Path.extension? path = some "toml".toList)
    (hread : tree.readText path = .ok t) (hload : load tree path = .ok config) :
    ofToml? t = some config := by
  rw [load, hread] at hload
  change parse path t = .ok config at hload
  rw [parse, hext, Option.getD_some, if_neg (by decide), if_pos rfl] at hload
  cases htoml : ofToml? t with
  | none =>
    rw [htoml] at hload
    contradiction
  | some config' =>
    rw [htoml] at hload
    rw [Except.ok.inj hload]

theorem load_of_other_extension
    (hext : ∀ ext ∈ ["yml", "yaml", "toml"].map String.toList, Path.extension? path ≠ some ext)
    (hread : tree.readText path = .ok t) :
    load tree path = orElseCause .unknownFormat (ofEither? t) := by
  have hne : ∀ ext ∈ ["yml", "yaml", "toml"].map String.toList,
      (Path.extension? path).getD [] ≠ ext := by
    intro ext hmem heq
    cases hpath : Path.extension? path with
    | none =>
      rw [hpath, Option.getD_none] at heq
      subst heq
      revert hmem
      decide
    | some e =>
      rw [hpath, Option.getD_some] at heq
      exact hext ext hmem (hpath.trans (congrArg some heq))
  rw [load, hread]
  change parse path t = _
  rw [parse, if_neg, if_neg]
  · exact hne _ (by decide)
  · rw [not_or]
    exact ⟨hne _ (by decide), hne _ (by decide)⟩

end Loading

/-- What loads from a TOML file loads from a file with the same text and another extension: as the
configuration that the text sets in YAML if it is a mapping there that sets one, and as the same
configuration otherwise. -/
theorem fallback_exact {tree tree' : FileTree} {path path' t : Text} {config : Config}
    (hext : Path.extension? path = some "toml".toList)
    (hext' : ∀ ext ∈ ["yml", "yaml", "toml"].map String.toList, Path.extension? path' ≠ some ext)
    (hread : tree.readText path = .ok t) (hread' : tree'.readText path' = .ok t)
    (hload : load tree path = .ok config) :
    load tree' path' = .ok (if readsAsMapping t then (ofYaml? t).getD config else config) := by
  have htoml := ofToml_of_load hext hread hload
  have hanswer : ofEither? t =
      some (if readsAsMapping t then (ofYaml? t).getD config else config) := by
    unfold ofEither?
    split
    · rename_i config' hyaml
      split
      · rw [hyaml, Option.getD_some]
      · rename_i hmapping
        rw [eq_of_not_mapping hyaml ((Bool.not_eq_true _).mp hmapping) htoml]
    · rename_i hyaml
      rw [htoml, hyaml, Option.getD_none, ite_self]
  rw [load_of_other_extension hext' hread', hanswer, orElseCause]

/-- A text that YAML takes for a scalar loads as TOML. -/
theorem fallback_exact_of_suffix :
    let t := "meta_suffix = 'm'\n".toList
    let tree : FileTree := ⟨[(["s.toml".toList], .file (Utf8.encode t)),
      ([['s']], .file (Utf8.encode t))], []⟩
    let config : Config := { default with metaSuffix := ['m'] }
    load tree "s.toml".toList = .ok config ∧ readsAsMapping t = false ∧
      load tree ['s'] = .ok config := by
  repeat rw [String.toList_ofList]
  intro t tree config
  have hload : load tree ['s', '.', 't', 'o', 'm', 'l'] = .ok config := by decide +kernel
  have hmapping : readsAsMapping t = false := by decide +kernel
  have hread : tree.readText ['s', '.', 't', 'o', 'm', 'l'] = .ok t := by decide +kernel
  have hread' : tree.readText ['s'] = .ok t := by decide +kernel
  refine ⟨hload, hmapping, ?_⟩
  have hother := fallback_exact (by decide) (by decide) hread hread' hload
  rwa [hmapping, if_neg Bool.false_ne_true] at hother

/-- A colon and a space inside a string make the text a mapping in YAML, where the string is part of
a key that is no field. So the two files do not load as the same configuration. -/
theorem not_same_fallback :
    ¬ ∀ (tree : FileTree) (path path' t : Text) (config : Config),
      Path.extension? path = some "toml".toList →
      (∀ ext ∈ ["yml", "yaml", "toml"].map String.toList, Path.extension? path' ≠ some ext) →
      tree.readText path = .ok t → tree.readText path' = .ok t →
      load tree path = .ok config → load tree path' = .ok config := by
  intro h
  let t := "meta_suffix = \"a: b\"\n".toList
  let tree : FileTree := ⟨[(["s.toml".toList], .file (Utf8.encode t)),
    ([['s']], .file (Utf8.encode t))], []⟩
  have hsame := h tree "s.toml".toList ['s'] t { default with metaSuffix := "a: b".toList }
    (by decide +kernel) (by decide +kernel) (by decide +kernel) (by decide +kernel)
    (by decide +kernel)
  have hdefault : load tree ['s'] = .ok default := by decide +kernel
  rw [hdefault] at hsame
  exact absurd (Except.ok.inj hsame) (by decide)

end SceneAudit.Config
