import CHeader.Config
import CHeader.Proofs.File.Writing
import CHeader.Proofs.Json.Ascii
import CHeader.Proofs.Text.Utf8

/-!
# A configuration is loaded as it was saved

What is written for a configuration is a document without numbers in ASCII, so that neither the bytes
nor the line breaks nor the escapes of the file change it. Only the project's root is not written; it
is the canonical path of the directory that the file's path names.
-/
namespace CHeader

open Text

/-- A file can be written under a path, to a location. -/
structure FileTree.Writable (tree : FileTree) (path : Text) (location : Location) : Prop where
  spelled : '\x00' ∉ path
  placed : tree.destination path = .ok location

theorem Extractor.ofName?_name (extractor : Extractor) :
    Extractor.ofName? extractor.name = some extractor := by
  cases extractor <;> decide

namespace Config

/-! ## Documents -/

/-- The members of the document that is written for a configuration. -/
def members (config : Config) : List (Text × JsonValue) := [
  (headerFilesKey, .strings config.headerFiles),
  (searchPathsKey, .strings config.searchPaths),
  (systemPathsKey, .strings config.systemPaths),
  (extractorKey, .string config.extractor.name)]

theorem stringList_strings (field : Text) (items : List Text) :
    stringList field (.strings items) = .ok items := by
  have faultless : items.zipIdx.filterMap (fun _ => (none : Option Problem)) = [] :=
    List.filterMap_none _
  have read : items.zipIdx.filterMap (fun item =>
      (Except.ok item.1 : Except Problem Text).toOption) = items := by
    simp only [Except.toOption, List.filterMap_eq_map', List.zipIdx_map_fst]
  simp only [stringList, JsonValue.strings, List.zipIdx_map, List.map_map, Function.comp_def,
    Prod.map, List.filterMap_map]
  rw [faultless, read]
  rfl

/-- The members that are written are those that a configuration is read from. -/
theorem ofMembers_members (config : Config) (root : Text) :
    ofMembers root config.members = .ok { config with projectRoot := root } := by
  -- each key is written once, so that its last member is its only one
  have headers : listMember config.members headerFilesKey [] = .ok config.headerFiles :=
    stringList_strings _ _
  have search : listMember config.members searchPathsKey [] = .ok config.searchPaths :=
    stringList_strings _ _
  have system : listMember config.members systemPathsKey defaultSystemPaths =
      .ok config.systemPaths := stringList_strings _ _
  have extractor : extractorMember config.members = .ok config.extractor := by
    have present : JsonValue.member? config.members extractorKey =
      some (.string config.extractor.name) := rfl
    simp only [extractorMember, present, Extractor.ofName?_name]
  simp only [ofMembers, headers, search, system, extractor]

theorem numberless_members (config : Config) : (JsonValue.object config.members).Numberless := by
  refine .object fun member among => ?_
  simp only [members, List.mem_cons, List.not_mem_nil, or_false] at among
  rcases among with rfl | rfl | rfl | rfl
  · exact JsonValue.numberless_strings _
  · exact JsonValue.numberless_strings _
  · exact JsonValue.numberless_strings _
  · exact .string _

variable {ε : Type} {host : Host ε}

/-- Where there is room for its brackets, the text that is written for a configuration is read as that
configuration, in any root. -/
theorem parse_render (room : ∀ level bracket, host.nest level bracket = none)
    (config : Config) (root : Text) :
    parse host root config.render = .ok (.ok { config with projectRoot := root }) := by
  have read : JsonValue.parse host config.render = .ok (.ok (.object config.members)) :=
    JsonValue.parse_render room config.numberless_members (by decide)
  simp only [parse, read, Except.map, ofMembers_members]

theorem isDocumentText_render (config : Config) : JsonValue.IsDocumentText config.render :=
  JsonValue.isDocumentText_append.mpr
    ⟨JsonValue.isDocumentText_render config.numberless_members 0, by decide⟩

theorem universalNewlines_render (config : Config) :
    universalNewlines config.render = config.render := by
  refine universalNewlines_eq_self fun member => ?_
  have printable := config.isDocumentText_render '\r' member
  revert printable
  decide

/-! ## Files -/

variable {tree : FileTree} {path : Text} {location : Location}

theorem save_of_writable (config : Config) (writable : tree.Writable (Path.tidy path) location) :
    config.save tree path = .ok (tree.put location (.file (encode config.render))) := by
  simp only [save, if_neg writable.spelled, writable.placed]

/-- A file with what is written for a configuration is loaded as that configuration. -/
theorem loadOn_of_find? {config : Config} {root : Text}
    (answered : host.lookUp (Path.tidy path) = none)
    (room : ∀ level bracket, host.nest level bracket = none)
    (found : tree.find? (Path.tidy path) = some (location, .file (encode config.render)))
    (readable : tree.readable location = true)
    (directory : tree.canonical (Path.ofText path).parent.toText = .ok root) :
    loadOn host tree path = .ok (.ok { config with projectRoot := root }) := by
  simp only [loadOn, answered, found, readable, Bool.true_eq_false, ↓reduceIte, decode?_encode,
    Path.ofText_tidy, directory, universalNewlines_render, parse_render room, Except.map]

/-- A configuration is loaded from the file in which it was saved, with the directory of the file as
its root, and saving what was loaded there again writes the same text. -/
theorem load_save (config : Config) (writable : tree.Writable (Path.tidy path) location)
    (readable : tree.readable location = true) :
    ∃ saved root, config.save tree path = .ok saved ∧
      saved.find? (Path.tidy path) = some (location, .file (encode config.render)) ∧
      tree.canonical (Path.ofText path).parent.toText = .ok root ∧
      saved.canonical (Path.ofText path).parent.toText = .ok root ∧
      load saved path = .ok { config with projectRoot := root } ∧
      save { config with projectRoot := root } saved path = .ok saved := by
  have vacant := FileTree.vacant_of_destination writable.placed
  have found := FileTree.find?_put writable.placed (Path.tidy_ne_nil path) writable.spelled
    (encode config.render)
  obtain ⟨root, before, after⟩ := FileTree.canonical_parent writable.placed (encode config.render)
  rw [Path.ofText_tidy] at before after
  -- the path leads to the same place in the tree with the file, and the root is not written
  have again : (tree.put location (.file (encode config.render))).Writable (Path.tidy path)
      location :=
    ⟨writable.spelled, FileTree.destination_put writable.placed _⟩
  have saved := save_of_writable { config with projectRoot := root } again
  have same : render { config with projectRoot := root } = config.render := rfl
  rw [same, vacant.put_put] at saved
  have loaded : loadOn .ample (tree.put location (.file (encode config.render))) path =
      .ok (.ok { config with projectRoot := root }) :=
    loadOn_of_find? rfl (fun _ _ => rfl) found readable after
  exact ⟨_, root, config.save_of_writable writable, found, before, after,
    congrArg Host.settle loaded, saved⟩

/-- A directory with a link to another one, which is empty. -/
def linkedTree : FileTree :=
  ⟨[(["p".toList], .directory), (["q".toList], .directory),
    (["p".toList, "l".toList], .link "../q".toList)], ["p".toList], []⟩

/-- A configuration with quotes, backslashes, control characters and characters of every plane. -/
def quotedConfig : Config where
  projectRoot := "/elsewhere".toList
  headerFiles := ["a \"b\" \\c.h".toList, "\r\n\t\x08\x0c\x00\x1f\x7f".toList,
    "é\u2028\uFFFD😀".toList, []]
  searchPaths := []
  systemPaths := ["/usr/include".toList]
  extractor := .tree

/-- It is saved through the link, and loaded with the directory behind the link as its root. -/
theorem load_save_linked :
    ∃ saved, quotedConfig.save linkedTree "./l//c.json".toList = .ok saved ∧
      load saved "./l//c.json".toList = .ok { quotedConfig with projectRoot := "/q".toList } ∧
      save { quotedConfig with projectRoot := "/q".toList } saved "./l//c.json".toList =
        .ok saved := by
  have writable : linkedTree.Writable (Path.tidy "./l//c.json".toList)
      ["q".toList, "c.json".toList] := ⟨by decide, by cbv⟩
  have readable : linkedTree.readable ["q".toList, "c.json".toList] = true := rfl
  have directory : linkedTree.canonical (Path.ofText "./l//c.json".toList).parent.toText =
      .ok "/q".toList := by cbv
  obtain ⟨saved, root, stored, -, canonical, -, loaded, again⟩ := load_save quotedConfig writable readable
  obtain rfl : root = "/q".toList := by
    rw [directory] at canonical
    exact (Except.ok.inj canonical).symm
  exact ⟨saved, stored, loaded, again⟩

end Config

end CHeader
