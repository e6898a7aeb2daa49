import SelectPlan.Proofs.Catalog.Document
import SelectPlan.Proofs.Catalog.Draft

/-!
# A catalog from the document of a configuration

The document of a configuration may be read as that of a catalog, where the settings of
the planner are a member that is not known.  If it is an object then both readings give
the same catalog, which has the last relation of each name with the last column of each
name (`catalog_loads_alike`).

An array does not do: its first item is the settings in one reading and the relations in
the other.
-/

namespace SelectPlan

open Json

namespace Json

/-- Whether a value is an object. -/
def isObject : Json → Bool
  | object _ => true
  | _ => false

theorem isObject_iff {json : Json} : json.isObject = true ↔ ∃ members, json = .object members := by
  cases json <;> simp [isObject]

/-! ## Fields of closed and of open records -/

/-- Fields that are all found are found one by one. -/
theorem field?_of_mem_zip {members : List (String × Json)} {names : List String}
    {values : List (Option Json)} (h : names.mapM (field? members) = some values)
    {name : String} {value : Option Json} (hmem : (name, value) ∈ names.zip values) :
    field? members name = some value := by
  induction names generalizing values with
  | nil => simp at hmem
  | cons first rest ih =>
      obtain ⟨found, hfound, others, hothers, rfl⟩ :
          ∃ found, field? members first = some found ∧
            ∃ others, rest.mapM (field? members) = some others ∧ found :: others = values := by
        simpa [List.mapM_cons, Option.bind_eq_some_iff] using h
      rcases List.mem_cons.mp hmem with heq | hmem
      · obtain ⟨rfl, rfl⟩ := Prod.mk.inj heq
        exact hfound
      · exact ih hothers hmem

/-- Of an object that is a record, one field alone makes a record that is open to the
others. -/
theorem fields?_singleton {members : List (List Piece × Json)} {names : List String}
    {closed : Bool} {values : List (Option Json)}
    (h : (object members).fields? names closed = some values) {name : String}
    {value : Option Json} (hmem : (name, value) ∈ names.zip values) :
    (object members).fields? [name] false = some [value] := by
  rw [fields?_object, Option.bind_eq_some_iff] at h
  obtain ⟨named, hnamed, hvalues⟩ := h
  split at hvalues
  · cases hvalues
  have hfield := field?_of_mem_zip hvalues hmem
  rw [fields?_object, hnamed, Option.bind_some, Bool.false_and, if_neg Bool.false_ne_true,
    List.mapM_cons, hfield]
  rfl

end Json

/-! ## The relations of both readings -/

/-- The relations of a configuration are those that its document lists for a catalog. -/
theorem Config.exists_drafts {members : List (List Piece × Json)} {config : Config}
    (h : Config.ofJson? (.object members) = some config) :
    ∃ drafts, Draft.listOfJson? (.object members) = some drafts ∧
      config.relations = drafts.map Draft.relation := by
  rw [Config.ofJson?] at h
  split at h
  case h_2 => cases h
  rename_i planner relations hfields
  -- For a catalog other members are let pass, so the planner does not stand in the way.
  have hopen : (object members).fields? ["relations"] false = some [relations] :=
    fields?_singleton hfields (by simp)
  obtain ⟨settings, -, listed, hlisted, rfl⟩ :
      ∃ settings, orElse {} PlannerConfig.ofJson? planner = some settings ∧
        ∃ listed, orElse [] Relation.listOfJson? relations = some listed ∧
          ⟨settings, listed⟩ = config := by
    simpa [Option.bind_eq_some_iff] using h
  rw [Draft.listOfJson?, hopen]
  cases relations with
  | none =>
      cases hlisted
      exact ⟨[], rfl, rfl⟩
  | some json =>
      rw [orElse_some, ← Draft.map_relation_items, Option.map_eq_some_iff] at hlisted
      obtain ⟨drafts, hdrafts, rfl⟩ := hlisted
      exact ⟨drafts, hdrafts, rfl⟩

theorem Config.catalog_ofJson? {json : Json} (hobject : json.isObject = true) {config : Config}
    (h : Config.ofJson? json = some config) : Catalog.ofJson? json = some config.catalog := by
  obtain ⟨members, rfl⟩ := isObject_iff.mp hobject
  obtain ⟨drafts, hdrafts, hrelations⟩ := Config.exists_drafts h
  rw [← Draft.map_ofList_listOfJson?, hdrafts, Option.map_some, ← hrelations]
  rfl

/-! ## Both readings -/

theorem Config.ofText_eq_ok_iff {text : String} {config : Config} :
    Config.ofText text = .ok config ↔ decode? Config.ofJson? text = some config := by
  rw [Config.ofText, decode?]
  cases (Json.ofText? text.toList).bind Config.ofJson? <;> simp

/-- The document of a configuration that is an object is also that of its catalog, and so
is the document that is written for the configuration.  In both, the last of several
relations or columns of one name counts. -/
theorem catalog_loads_alike {text : String} {config : Config}
    (hobject : (Json.ofText? text.toList).any isObject = true)
    (hconfig : Config.ofText text = .ok config) :
    decode? Catalog.ofJson? text = some config.catalog ∧
      decode? Catalog.ofJson? (encode Config.toJson config) = some config.catalog ∧
      ∃ drafts, decode? Draft.listOfJson? text = some drafts ∧
        config.relations = drafts.map Draft.relation ∧ config.catalog.Records drafts := by
  obtain ⟨json, hjson, hread⟩ :=
    Option.bind_eq_some_iff.mp (Config.ofText_eq_ok_iff.mp hconfig)
  rw [hjson, Option.any_some] at hobject
  refine ⟨?_, ?_, ?_⟩
  · rw [decode?, hjson, Option.bind_some]
    exact Config.catalog_ofJson? hobject hread
  · have hwritten : Json.ofText? (encode Config.toJson config).toList =
        some (Config.toJson config) := by
      rw [encode, String.toList_ofList, (format_config.textual config).ofText?_render]
    rw [decode?, hwritten, Option.bind_some]
    exact Config.catalog_ofJson? rfl (format_config.read_write config)
  · obtain ⟨members, rfl⟩ := isObject_iff.mp hobject
    obtain ⟨drafts, hdrafts, hrelations⟩ := Config.exists_drafts hread
    refine ⟨drafts, ?_, hrelations, ?_⟩
    · rw [decode?, hjson, Option.bind_some, hdrafts]
    · rw [Config.catalog, hrelations]
      exact Catalog.records_ofList drafts

/-- A relation that is given twice, the second time as an array with a column that is
given twice, and members that are not known. -/
theorem catalog_loads_alike_repeated :
    let text := "\x7b\"relations\":[\x7b\"columns\":[],\"note\":true,\"name\":\"t\"\x7d," ++
      "[\"t\",null,[[\"a\"],[\"a\",\"TEXT\"]]]],\"planner\":\x7b\"x\":[]\x7d\x7d"
    let config : Config :=
      { relations :=
          [{ name := "t", columns := .ofList [] },
           { name := "t", columns := .ofList [{ name := "a", type := .text }] }] }
    let catalog : Catalog :=
      ⟨.ofList [{ name := "t", columns := .ofList [{ name := "a", type := .text }] }]⟩
    (Json.ofText? text.toList).any isObject = true ∧ Config.ofText text = .ok config ∧
      decode? Catalog.ofJson? text = some catalog ∧
      decode? Catalog.ofJson? (encode Config.toJson config) = some catalog := by
  intro text config catalog
  -- The reader recurses on a measure, which does not compute: the value is given, and is
  -- read back from what it renders to.
  let first := ofFields [("columns", .array []), ("note", .bool true), ("name", ofString "t")]
  let columns : Json := .array [.array [ofString "a"], .array [ofString "a", ofString "TEXT"]]
  let document := ofFields
    [("relations", .array [first, .array [ofString "t", .null, columns]]),
      ("planner", ofFields [("x", .array [])])]
  have hempty : (Json.array []).Textual := .array (by simp)
  have hfirst : first.Textual :=
    textual_ofFields (by simp [hempty, Textual.bool, textual_ofString])
  have hcolumn : ∀ names : List String, (Json.array (names.map ofString)).Textual :=
    fun names => .array (by simp [textual_ofString])
  have hcolumns : columns.Textual :=
    .array (by simpa [Textual.null] using ⟨hcolumn ["a"], hcolumn ["a", "TEXT"]⟩)
  have hsecond : (Json.array [ofString "t", .null, columns]).Textual :=
    .array (by simp [textual_ofString, Textual.null, hcolumns])
  have hrelations : (Json.array [first, .array [ofString "t", .null, columns]]).Textual :=
    .array (by simp [hfirst, hsecond])
  have hplanner : (ofFields [("x", Json.array [])]).Textual := textual_ofFields (by simp [hempty])
  have hdocument : document.Textual := textual_ofFields (by simp [hrelations, hplanner])
  have htext : text.toList = document.render := by decide +kernel
  have hjson : Json.ofText? text.toList = some document := htext ▸ hdocument.ofText?_render
  have hobject : (Json.ofText? text.toList).any isObject = true := by rw [hjson]; rfl
  have hconfig : Config.ofText text = .ok config := by
    rw [Config.ofText_eq_ok_iff, decode?, hjson, Option.bind_some]
    rfl
  have hcatalog : config.catalog = catalog := rfl
  obtain ⟨hread, hwritten, -⟩ := catalog_loads_alike hobject hconfig
  exact ⟨hobject, hconfig, hcatalog ▸ hread, hcatalog ▸ hwritten⟩

end SelectPlan
