/-
  Configurations that are saved and loaded.

  * `Config.load_saved`: a configuration without handlers is loaded from the
    file in which it was saved, under each path with the extension `json` in
    any case and under any other, if the library of the format gives back the
    tree that it is given; `Serializer.returns_ofJson`, `Config.returns_standard`:
    that of JSON does;
  * `Config.load_saved_of_loaded`: the same of a configuration that was loaded
    before;
  * `Config.ofText_toText`: the same of the text of a file in a format;
  * `ofPath_append`: a path whose name ends in a point and `json` in any case
    is the path of a JSON file.
-/
import Invocation.Config.File
import Invocation.Proofs.Config.Records
import Invocation.Standard
import Mathlib

namespace Invocation

/-! ## Names of files -/

/-- The file name of a path is what stands after the last slash. It is long enough to be neither empty
nor made of points alone. -/
theorem fileName?_append {directory name : List Char}
    (hdirectory : directory = [] ∨ directory.getLast? = some '/') (hslash : '/' ∉ name)
    (hlong : 2 < name.length) : fileName? (String.ofList (directory ++ name)) = some name := by
  have hname : name.splitOn '/' = [name] :=
    List.splitOnP_eq_singleton fun c hc => beq_false_of_ne fun heq => hslash (heq ▸ hc)
  obtain ⟨parts, hparts⟩ : ∃ parts, (directory ++ name).splitOn '/' = parts ++ [name] := by
    rcases hdirectory with rfl | hlast
    · exact ⟨[], hname⟩
    · obtain ⟨front, rfl⟩ := List.getLast?_eq_some_iff.1 hlast
      refine ⟨front.splitOn '/', ?_⟩
      rw [List.append_assoc, ← hname]
      exact List.splitOnP_append_cons front name rfl
  have hne : ∀ short : List Char, short.length ≤ 2 → name ≠ short := by
    rintro short hshort rfl
    omega
  have hkeep : (name.isEmpty || name == ['.']) = false := by
    simp [hne [] (by simp), hne ['.'] (by simp)]
  simp [fileName?, hparts, hkeep, hne ['.', '.'] (by simp)]

/-- The extension of a name is what stands after its last point. -/
theorem extension?_append {stem ending : List Char} (hstem : stem ≠ []) (hpoint : '.' ∉ ending) :
    extension? (stem ++ '.' :: ending) = some ending := by
  have hbefore : ∀ c ∈ ending.reverse, (c != '.') = true := fun c hc =>
    bne_iff_ne.2 fun heq => hpoint (heq ▸ List.mem_reverse.1 hc)
  have hreverse : (stem ++ '.' :: ending).reverse = ending.reverse ++ '.' :: stem.reverse := by simp
  obtain ⟨c, rest, hrest⟩ := List.exists_cons_of_ne_nil (List.reverse_ne_nil_iff.2 hstem)
  have hdrop : ('.' :: stem.reverse).dropWhile (· != '.') = '.' :: c :: rest := by rw [hrest]; rfl
  have htake : ('.' :: stem.reverse).takeWhile (· != '.') = [] := rfl
  simp only [extension?, hreverse, List.dropWhile_append_of_pos hbefore, hdrop,
    List.takeWhile_append_of_pos hbefore, htake, List.append_nil, List.reverse_reverse]

/-- A path whose name ends in a point and `json` in any case is the path of a JSON file. -/
theorem ofPath_append {directory stem ending : List Char}
    (hdirectory : directory = [] ∨ directory.getLast? = some '/') (hstem : stem ≠ [])
    (hslash : '/' ∉ stem) (hending : ending.map Char.toLower = ['j', 's', 'o', 'n']) :
    Format.ofPath (String.ofList (directory ++ (stem ++ '.' :: ending))) = .json := by
  have hletter : ∀ c ∈ ending, c.toLower ∈ ['j', 's', 'o', 'n'] := fun c hc =>
    hending ▸ List.mem_map_of_mem hc
  have hpoint : '.' ∉ ending := fun h => absurd (hletter _ h) (by decide)
  have hname : '/' ∉ stem ++ '.' :: ending := by
    have h : '/' ∉ ending := fun h => absurd (hletter _ h) (by decide)
    simp [hslash, h]
  have hlong : 2 < (stem ++ '.' :: ending).length := by
    have hlength := congrArg List.length hending
    simp only [List.length_map, List.length_cons, List.length_nil] at hlength
    simp only [List.length_append, List.length_cons]
    omega
  have hfile := fileName?_append hdirectory hname hlong
  simp only [Format.ofPath, hfile, Option.bind_some, extension?_append hstem hpoint, hending, if_true]

/-! ## Texts of files -/

/-- A tree of texts, lists and objects is read as it was printed as JSON. -/
theorem Serializer.returns_ofJson {tree : Data} (h : tree.Textual) : Serializer.ofJson.Returns tree := by
  simp only [Returns, ofJson, Json.read_pretty h, Option.map_some, Data.document_ofData h]

namespace Config

variable {libs : Libraries}

/-- The text of a configuration in a format is this configuration, if the library of the format gives back
its tree. -/
theorem ofText_toText {c : Config} (hordered : c.Ordered) (hhandlers : c.WithoutHandlers)
    {format : Format} (hreturns : (libs.serializer format).Returns c.toData) :
    ofText libs format (c.toText libs format) = .ok c := by
  have hread : (libs.serializer format).parse? (c.toText libs format) = some c.toData.document := hreturns
  simp only [ofText, hread, Option.bind_some, ofDocument?_toData format hordered hhandlers]

/-- A configuration that is loaded has its sets and tables in order and no handler. -/
theorem ordered_of_load {path : String} {contents : FileContents} {c : Config}
    (h : load libs path contents = .ok c) : c.Ordered ∧ c.WithoutHandlers := by
  cases contents with
  | unreadable reason => cases h
  | refused reason => cases h
  | text s =>
    simp only [load, ofText] at h
    split at h
    · next c' hread =>
      obtain ⟨d, -, hd⟩ := Option.bind_eq_some_iff.1 hread
      cases h
      exact ordered_of_ofDocument? hd
    · cases h

/-! ## Saving and loading -/

/-- What stands in the file at a path in which a configuration was saved. -/
def saved (libs : Libraries) (path : String) (c : Config) : FileContents := .text (c.toText libs (.ofPath path))

theorem load_saved_of_returns {path : String} {c : Config} (hordered : c.Ordered)
    (hhandlers : c.WithoutHandlers) (hreturns : (libs.serializer (.ofPath path)).Returns c.toData) :
    load libs path (saved libs path c) = .ok c :=
  ofText_toText hordered hhandlers hreturns

/-- A configuration that was loaded from some file is loaded again from the file in which it was saved. -/
theorem load_saved_of_loaded {path path' : String} {contents : FileContents} {c : Config}
    (h : load libs path contents = .ok c) (hreturns : (libs.serializer (.ofPath path')).Returns c.toData) :
    load libs path' (saved libs path' c) = .ok c := by
  obtain ⟨hordered, hhandlers⟩ := ordered_of_load h
  exact load_saved_of_returns hordered hhandlers hreturns

/-- **A configuration without handlers is loaded as it was saved**, whatever characters its texts hold and
whatever is left out of it: under each path whose name ends in a point and `json` in any case, if the tree of
the configuration is read as it was printed as JSON, and under every path if it is so in the format of the
path. -/
theorem load_saved (libs : Libraries) {c : Config} (hordered : c.Ordered) (hhandlers : c.WithoutHandlers) :
    (libs.json.Returns c.toData → ∀ directory stem ending : List Char,
      directory = [] ∨ directory.getLast? = some '/' → stem ≠ [] → '/' ∉ stem →
        ending.map Char.toLower = ['j', 's', 'o', 'n'] →
          let path := String.ofList (directory ++ (stem ++ '.' :: ending))
          load libs path (saved libs path c) = .ok c) ∧
    ∀ path, (libs.serializer (.ofPath path)).Returns c.toData → load libs path (saved libs path c) = .ok c := by
  refine ⟨fun hjson directory stem ending hdirectory hstem hslash hending => ?_,
    fun path => load_saved_of_returns hordered hhandlers⟩
  refine load_saved_of_returns hordered hhandlers ?_
  rwa [ofPath_append hdirectory hstem hslash hending]

/-- A configuration with characters that are escaped, a set without words and a local layer without
fields. -/
def quoted : Config where
  settings := { falsy := some [] }
  commands := [{ name := "\"say\\\x07", settings := some {} }]

theorem load_saved_quoted :
    load .standard "commands/all.JsOn" (saved .standard "commands/all.JsOn" quoted) = .ok quoted ∧
      Format.ofPath "all.yml" = .yaml ∧
      load .standard "all.yml" (saved .standard "all.yml" quoted) = .ok quoted := by
  have hordered : quoted.Ordered := by decide
  have hhandlers : quoted.WithoutHandlers := by decide
  have hprint : Yaml.print quoted.toData =
      "settings:\n  falsy: []\ntypes: []\ncommands:\n- name: \"\\\"say\\\\\\a\"\n" ++
        "  signatures: []\n  settings: \x7b\x7d\n" := by decide +kernel
  have hyaml : Libraries.standard.yaml.Returns quoted.toData := by
    simp only [Serializer.Returns, Libraries.standard, Serializer.ofYaml, hprint]
    cbv
  have hjson : Libraries.standard.json.Returns quoted.toData := Serializer.returns_ofJson quoted.textual_toData
  have hformat : Format.ofPath "all.yml" = .yaml := by decide +kernel
  have hload := load_saved .standard hordered hhandlers
  refine ⟨hload.1 hjson "commands/".toList "all".toList "JsOn".toList (.inr (by decide)) (by decide) (by decide)
    (by decide), hformat, hload.2 "all.yml" ?_⟩
  rw [hformat]
  exact hyaml

end Config

end Invocation
