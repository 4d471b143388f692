import HostPattern.Proofs.Json.Order
import HostPattern.Proofs.Run.Presentation

/-!
# The contents of reports

A report is written as one document, and what is read of it is the report itself.  The fields
are read strictly: an object with other keys than those of a report is none.
-/

namespace HostPattern

open Text Json

namespace Report

theorem render_document (colour : Bool) (value : Json) :
    (document value).render colour = value.pretty ++ "\n" := by
  simp [document, Block.render, Segment.render]

/-- What a report on one pattern says. -/
structure OnPattern where
  pattern : String
  kind : String
  description : String
  results : List (String × Bool)
  deriving DecidableEq, Repr

/-- What a report on the folders of a directory says: each folder with its kind, and each
name with the folders that accept it. -/
structure OnFolders where
  directory : String
  folders : List (String × String)
  results : List (String × List String)
  deriving DecidableEq, Repr

section Reading

/-- The values beside the keys of an object that has these keys and no others. -/
def fields? (keys : List String) : Json → Option (List Json)
  | .obj members =>
    if members.length = keys.length then keys.mapM fun key => members.lookup key
    else none
  | _ => none

def verdict? (result : Json) : Option (String × Bool) :=
  match fields? ["name", "matched"] result with
  | some [.str name, .bool matched] => some (name, matched)
  | _ => none

def found? (result : Json) : Option (String × List String) :=
  match fields? ["name", "matched"] result with
  | some [.str name, matched] => (texts? matched).map (name, ·)
  | _ => none

def folder? (folder : Json) : Option (String × String) :=
  match fields? ["name", "kind"] folder with
  | some [.str name, .str kind] => some (name, kind)
  | _ => none

def onPattern? (report : Json) : Option OnPattern :=
  match fields? ["pattern", "kind", "description", "results"] report with
  | some [.str pattern, .str kind, .str description, .arr results] =>
    (results.mapM verdict?).map (OnPattern.mk pattern kind description)
  | _ => none

def onFolders? (report : Json) : Option OnFolders :=
  match fields? ["directory", "folders", "results"] report with
  | some [.str directory, .arr folders, .arr results] => do
    return ⟨directory, ← folders.mapM folder?, ← results.mapM found?⟩
  | _ => none

end Reading

section Fields

variable {members : List (String × Json)}

theorem fields?_sorted (nodup : (members.map Prod.fst).Nodup) :
    fields? (members.map Prod.fst) (Json.obj members).sorted =
      some (members.map fun member => member.2.sorted) := by
  have lookups := member?_sorted nodup
  have size : (sortedMembers members).length = members.length := by
    rw [sortedMembers_eq_map, List.length_map]
  simp only [sorted, member?] at lookups ⊢
  rw [fields?, List.length_mergeSort, List.length_map, size, if_pos rfl, funext lookups]
  apply mapM_map_of_forall
  intro member inside
  rw [(lookup_eq_some_iff_mem nodup).mpr inside, Option.map_some]

theorem verdict?_sorted (result : String × Bool) :
    verdict? (Json.obj [("name", .str result.1), ("matched", .bool result.2)]).sorted =
      some result := by
  have fields : fields? ["name", "matched"]
      (Json.obj [("name", .str result.1), ("matched", .bool result.2)]).sorted =
      some [(Json.str result.1).sorted, (Json.bool result.2).sorted] := fields?_sorted (by simp)
  rw [verdict?, fields, sorted, sorted]

theorem found?_sorted (result : String × List Folder) :
    found? (Json.obj [("name", .str result.1),
      ("matched", .arr (result.2.map fun folder => .str folder.name))]).sorted =
      some (result.1, result.2.map Folder.name) := by
  have fields : fields? ["name", "matched"] (Json.obj [("name", .str result.1),
      ("matched", .arr (result.2.map fun folder => .str folder.name))]).sorted =
      some [(Json.str result.1).sorted,
        (Json.arr (result.2.map fun folder => .str folder.name)).sorted] :=
    fields?_sorted (by simp)
  have names := texts?_sorted Folder.name result.2
  rw [found?, fields]
  simp only [sorted] at names ⊢
  rw [names]
  rfl

theorem folder?_sorted (folder : Folder) :
    folder? (Json.obj [("name", .str folder.name), ("kind", .str folder.pattern.kind)]).sorted =
      some (folder.name, folder.pattern.kind) := by
  have fields : fields? ["name", "kind"]
      (Json.obj [("name", .str folder.name), ("kind", .str folder.pattern.kind)]).sorted =
      some [(Json.str folder.name).sorted, (Json.str folder.pattern.kind).sorted] :=
    fields?_sorted (by simp)
  rw [folder?, fields, sorted, sorted]

theorem mapM_sortedItems {α β : Type} {read : Json → Option β} {write : α → Json}
    {value : α → β} (reads : ∀ x, read (write x).sorted = some (value x)) (xs : List α) :
    (sortedItems (xs.map write)).mapM read = some (xs.map value) := by
  rw [sortedItems_eq_map, List.map_map]
  exact mapM_map_of_forall fun x _ => reads x

theorem onPattern?_of_ofPattern? {raw description : String} {pattern : Pattern}
    (described : pattern.describe? = some description) (results : List (String × Bool)) :
    ∃ report, ofPattern? raw pattern results = some report ∧
      onPattern? report.sorted = some ⟨raw, pattern.kind, description, results⟩ := by
  let written : List Json := results.map fun result =>
    .obj [("name", .str result.1), ("matched", .bool result.2)]
  have fields : fields? ["pattern", "kind", "description", "results"]
      (Json.obj [("pattern", .str raw), ("kind", .str pattern.kind),
        ("description", .str description), ("results", .arr written)]).sorted =
      some [(Json.str raw).sorted, (Json.str pattern.kind).sorted,
        (Json.str description).sorted, (Json.arr written).sorted] := fields?_sorted (by simp)
  have made : ofPattern? raw pattern results = some (.obj [("pattern", .str raw),
      ("kind", .str pattern.kind), ("description", .str description),
      ("results", .arr written)]) := by
    rw [ofPattern?, described]
    rfl
  refine ⟨_, made, ?_⟩
  rw [onPattern?, fields]
  simp only [sorted]
  rw [mapM_sortedItems verdict?_sorted, List.map_id']
  rfl

theorem onFolders?_ofFolders (directory : String) (folders : List Folder)
    (results : List (String × List Folder)) :
    onFolders? (ofFolders directory folders results).sorted = some
      ⟨directory, folders.map fun folder => (folder.name, folder.pattern.kind),
        results.map fun result => (result.1, result.2.map Folder.name)⟩ := by
  let writtenFolders : List Json := folders.map fun folder =>
    .obj [("name", .str folder.name), ("kind", .str folder.pattern.kind)]
  let writtenResults : List Json := results.map fun result =>
    .obj [("name", .str result.1), ("matched", .arr (result.2.map fun folder => .str folder.name))]
  have fields : fields? ["directory", "folders", "results"]
      (Json.obj [("directory", .str directory), ("folders", .arr writtenFolders),
        ("results", .arr writtenResults)]).sorted =
      some [(Json.str directory).sorted, (Json.arr writtenFolders).sorted,
        (Json.arr writtenResults).sorted] := fields?_sorted (by simp)
  have made : ofFolders directory folders results = .obj [("directory", .str directory),
      ("folders", .arr writtenFolders), ("results", .arr writtenResults)] := rfl
  rw [onFolders?, made, fields]
  simp only [sorted]
  rw [mapM_sortedItems folder?_sorted, mapM_sortedItems found?_sorted]
  rfl

end Fields

/-- The output is one document and a line feed.  The grammar gives it one value, which is the
one that is read and differs from the given value in the order of members at most. -/
structure Decodes (output : String) (value document : Json) : Prop where
  line : ∃ text : String, output = text ++ "\n" ∧ Grammar.Value document text.toList
  unique : ∀ other, Grammar.Element other output.toList → other = document
  read : Json.read? output = some document
  same : Same value document

theorem decodes_pretty (value : Json) : Decodes (value.pretty ++ "\n") value value.sorted where
  line := ⟨value.pretty, rfl, value_pretty value⟩
  unique _ element := element_unique element (element_document value)
  read := read?_document value
  same := same_sorted value

end Report

namespace Question

open Report

/-- What a report says of the answer. -/
def Reported (report : Json) : Question → Prop
  | .check raw names =>
    ∃ description, (Pattern.compile raw).describe? = some description ∧
      onPattern? report = some ⟨raw, (Pattern.compile raw).kind, description,
        names.map fun name => (name, (Pattern.compile raw).accepts name)⟩
  | .search directory folders names =>
    onFolders? report = some
      ⟨directory, folders.map fun folder => (folder.name, folder.pattern.kind),
        names.map fun name => (name, (Folder.matching folders name).map Folder.name)⟩

theorem reported_sorted {asked : Question} {report : Json} (made : asked.report? = some report) :
    asked.Reported report.sorted := by
  cases asked with
  | check raw names =>
    obtain ⟨description, described, _⟩ := Option.bind_eq_some_iff.mp made
    obtain ⟨other, otherMade, contents⟩ := onPattern?_of_ofPattern? described
      (names.map fun name => (name, (Folder.ofName raw).accepts name))
    obtain rfl : other = report := Option.some.inj (otherMade.symm.trans made)
    exact ⟨description, described, contents⟩
  | search directory folders names =>
    cases made
    have contents := onFolders?_ofFolders directory folders
      (names.map fun name => (name, Folder.matching folders name))
    rwa [List.map_map] at contents

end Question

section Output

open Report

/-- What is written as JSON is read back, at any depth and whatever the texts hold, and only
the order of members is lost.  So are the reports: each field and each result in its order. -/
theorem json_output_read_back :
    (∀ colour value, value.DistinctKeys →
      (∃ document, Decodes ((Report.document value).render colour) value document ∧
        document.DistinctKeys) ∧
      ∀ other, Same value other →
        (Report.document other).render colour = (Report.document value).render colour) ∧
    (∀ colour raw pattern description results, pattern.describe? = some description →
      ∃ report document, ofPattern? raw pattern results = some report ∧
        Decodes ((Report.document report).render colour) report document ∧
        onPattern? document = some ⟨raw, pattern.kind, description, results⟩) ∧
    (∀ colour directory folders results, ∃ document,
      Decodes ((Report.document (ofFolders directory folders results)).render colour)
        (ofFolders directory folders results) document ∧
      onFolders? document = some
        ⟨directory, folders.map fun folder => (folder.name, folder.pattern.kind),
          results.map fun result => (result.1, result.2.map Folder.name)⟩) ∧
    ∀ arguments setting line asked report, setting.sink ≠ .full →
      CommandLine.read arguments = .ok line → line.json = true →
      question line setting = .ok asked → asked.report? = some report →
      ∃ outcome document, run arguments setting = some outcome ∧ outcome.stderr = "" ∧
        Decodes outcome.stdout report document ∧ asked.Reported document := by
  refine ⟨?_, ?_, ?_, ?_⟩
  · intro colour value distinct
    simp only [render_document]
    refine ⟨⟨_, decodes_pretty value, distinctKeys_sorted value distinct⟩, ?_⟩
    intro other same
    rw [pretty_eq_of_same same distinct]
  · intro colour raw pattern description results described
    obtain ⟨report, made, contents⟩ := onPattern?_of_ofPattern? described results
    refine ⟨report, _, made, ?_, contents⟩
    rw [render_document]
    exact decodes_pretty report
  · intro colour directory folders results
    refine ⟨_, ?_, onFolders?_ofFolders directory folders results⟩
    rw [render_document]
    exact decodes_pretty _
  · intro arguments setting line asked report room read json asks made
    refine ⟨⟨if asked.answer then 0 else 1, report.pretty ++ "\n", ""⟩, _, ?_, rfl,
      decodes_pretty report, Question.reported_sorted made⟩
    rw [run_eq_of_json room read json asks, made]
    rfl

theorem json_output_read_back_quotes :
    let value := Json.obj [("b", .arr [.str "\"\\\n\x1f", .null, .int (-7)]), ("a", .obj [])]
    let arguments := ["--json", "w%", "we\"b\n"].map Utf8.encode
    value.DistinctKeys ∧
    (∃ document, Decodes ((Report.document value).render true) value document) ∧
    ∃ outcome document, run arguments noTree = some outcome ∧
      Json.read? outcome.stdout = some document ∧
      onPattern? document = some ⟨"w%", "wildcard", "wildcard /^(?i-u:w)(?s:.*)$/",
        [("we\"b\n", true)]⟩ := by
  intro value arguments
  obtain ⟨documents, patterns, _, runs⟩ := json_output_read_back
  have distinct : value.DistinctKeys := by
    simp [value, DistinctKeys, DistinctKeysMembers, DistinctKeysItems]
  obtain ⟨⟨document, decodes, _⟩, _⟩ := documents true value distinct
  refine ⟨distinct, ⟨document, decodes⟩, ?_⟩
  have described : (Pattern.compile "w%").describe? = some "wildcard /^(?i-u:w)(?s:.*)$/" := by
    decide
  have verdict : (Pattern.compile "w%").accepts "we\"b\n" = true := by decide
  obtain ⟨report, _, made, _⟩ := patterns true "w%" _ _
    [("we\"b\n", (Pattern.compile "w%").accepts "we\"b\n")] described
  let line : CommandLine := ⟨["w%", "we\"b\n"], none, false, true, false, false⟩
  have read : CommandLine.read arguments = .ok line := by decide +kernel
  obtain ⟨outcome, document, done, _, decodes, description, shown, contents⟩ :=
    runs arguments noTree line (.check "w%" ["we\"b\n"]) report (by decide) read rfl rfl made
  obtain rfl := Option.some.inj (described.symm.trans shown)
  rw [List.map_singleton, verdict] at contents
  exact ⟨outcome, document, done, decodes.read, contents⟩

end Output

end HostPattern
