import SelectPlan.Config
import SelectPlan.Proofs.Json.Format

/-!
# Catalogs and configurations as texts

Columns, relations, catalogs and configurations are read back from the texts that
write them (`documents_round_trip`).  Columns and relations are written as lists,
and filed again one by one in reading; since they are written in order of their
names, each goes to the end and the directory is the same (`Directory.ofList_items`).
-/

namespace SelectPlan

open Json

/-! ## Directories -/

namespace Directory

variable {α : Type} [Named α]

/-- An item of a greater name than all others goes to the end. -/
theorem insertInto_eq_append {item : α} {items : List α}
    (h : ∀ other ∈ items, Named.name other < Named.name item) :
    insertInto item items = items ++ [item] := by
  induction items with
  | nil => rfl
  | cons head rest ih =>
      obtain ⟨hhead, hrest⟩ := List.forall_mem_cons.mp h
      have hnot : ¬ Named.name item < Named.name head := String.lt_asymm hhead
      rw [insertInto, if_neg hnot, if_pos hhead, ih hrest, List.cons_append]

/-- Filing items in order of their names leaves them in this order. -/
theorem items_foldl_insert (directory : Directory α) (items : List α)
    (h : (directory.items ++ items).Pairwise fun first second =>
      Named.name first < Named.name second) :
    (items.foldl insert directory).items = directory.items ++ items := by
  induction items generalizing directory with
  | nil => simp
  | cons item rest ih =>
      have hlast : (directory.insert item).items = directory.items ++ [item] :=
        insertInto_eq_append fun other hother =>
          (List.pairwise_append.mp h).2.2 other hother item List.mem_cons_self
      rw [List.foldl_cons, ih (directory.insert item) (by simpa [hlast] using h), hlast]
      simp

/-- A directory is made up of its items. -/
theorem ofList_items (directory : Directory α) : ofList directory.items = directory := by
  have hitems := items_foldl_insert {} directory.items directory.increasing
  rw [ofList]
  generalize directory.items.foldl insert {} = filed at hitems
  cases filed
  cases directory
  simpa using hitems

end Directory

/-! ## Formats -/

theorem format_dataType : Format DataType.toJson DataType.ofJson? where
  textual type := textual_ofString type.name
  read_write type := by
    rw [DataType.toJson, DataType.ofJson?, alternative?_ofString, Option.bind_some]
    cases type <;> decide

theorem textual_locationField (location : Option String) :
    ∀ field ∈ locationField location, field.2.Textual := by
  cases location with
  | none => simp [locationField]
  | some location => simpa [locationField] using textual_ofString location

@[simp] theorem orElse_some {α : Type} (absent : α) (read : Json → Option α) (json : Json) :
    orElse absent read (some json) = read json :=
  rfl

/-- A location that may be missing is read back. -/
theorem orElse_location (location : Option String) :
    orElse none (nullable? string?) ((locationField location).head?.map Prod.snd) =
      some location := by
  cases location with
  | none => rfl
  | some location =>
      have hstring := string?_ofString location
      rw [locationField, List.head?_cons, Option.map_some, orElse, nullable?]
      · rw [hstring]
        rfl
      · simp [ofString]

theorem format_column : Format Column.toJson Column.ofJson? where
  textual column := by
    refine textual_ofFields fun field hmem => ?_
    rcases List.mem_append.mp hmem with hmem | hmem
    · rcases List.mem_cons.mp hmem with rfl | hmem
      · exact textual_ofString column.name
      · rw [List.mem_singleton.mp hmem]
        exact format_dataType.textual column.type
    · exact textual_locationField _ _ hmem
  read_write column := by
    obtain ⟨name, type, location⟩ := column
    have hfields : (Column.toJson ⟨name, type, location⟩).fields? ["name", "type", "location"]
        false = some [some (.ofString name), some type.toJson,
          (locationField location).head?.map Prod.snd] := by
      rw [Column.toJson, fields?_ofFields _ (by simp)]
      cases location <;> simp [field?, locationField]
    rw [Column.ofJson?, hfields]
    simp [orElse_location, format_dataType.read_write]

theorem format_relation : Format Relation.toJson Relation.ofJson? where
  textual relation := by
    refine textual_ofFields fun field hmem => ?_
    rcases List.mem_append.mp hmem with hmem | hmem
    · rcases List.mem_append.mp hmem with hmem | hmem
      · rw [List.mem_singleton.mp hmem]
        exact textual_ofString relation.name
      · exact textual_locationField _ _ hmem
    · rw [List.mem_singleton.mp hmem]
      exact Format.textual_array format_column relation.columns.items
  read_write relation := by
    obtain ⟨name, location, columns⟩ := relation
    have hfields : (Relation.toJson ⟨name, location, columns⟩).fields?
        ["name", "location", "columns"] false = some [some (.ofString name),
          (locationField location).head?.map Prod.snd,
          some (array (columns.items.map Column.toJson))] := by
      rw [Relation.toJson, fields?_ofFields _ (by simp)]
      cases location <;> simp [field?, locationField]
    rw [Relation.ofJson?, hfields]
    simp [orElse_location, Format.read_items format_column, Directory.ofList_items]

theorem format_catalog : Format Catalog.toJson Catalog.ofJson? where
  textual catalog := by
    refine textual_ofFields fun field hmem => ?_
    rw [List.mem_singleton.mp hmem]
    exact Format.textual_array format_relation catalog.relations.items
  read_write catalog := by
    have hfields : catalog.toJson.fields? ["relations"] false =
        some [some (array (catalog.relations.items.map Relation.toJson))] := by
      rw [Catalog.toJson, fields?_ofFields _ (by simp)]
      simp [field?]
    rw [Catalog.ofJson?, hfields]
    simp [Relation.listOfJson?, Format.read_items format_relation, Catalog.ofList,
      Directory.ofList_items]

theorem format_predicateScope : Format PredicateScope.toJson PredicateScope.ofJson? where
  textual scope := textual_ofString scope.name
  read_write scope := by
    rw [PredicateScope.toJson, PredicateScope.ofJson?, alternative?_ofString, Option.bind_some]
    cases scope <;> decide

theorem format_plannerConfig : Format PlannerConfig.toJson PlannerConfig.ofJson? where
  textual config := by
    refine textual_ofFields fun field hmem => ?_
    rw [List.mem_singleton.mp hmem]
    exact Format.textual format_predicateScope config.predicateScope
  read_write config := by
    have hfields : config.toJson.fields? ["predicate_scope"] false =
        some [some config.predicateScope.toJson] := by
      rw [PlannerConfig.toJson, fields?_ofFields _ (by simp)]
      simp [field?]
    rw [PlannerConfig.ofJson?, hfields]
    simp [Format.read_write format_predicateScope]

theorem format_config : Format Config.toJson Config.ofJson? where
  textual config := by
    refine textual_ofFields fun field hmem => ?_
    rcases List.mem_cons.mp hmem with rfl | hmem
    · exact Format.textual format_plannerConfig config.planner
    · rw [List.mem_singleton.mp hmem]
      exact Format.textual_array format_relation config.relations
  read_write config := by
    have hfields : config.toJson.fields? ["planner", "relations"] true =
        some [some config.planner.toJson, some (array (config.relations.map Relation.toJson))] := by
      -- A configuration has no members but these two.
      rw [Config.toJson, fields?_ofFields _ (by simp)]
      simp [field?]
    rw [Config.ofJson?, hfields]
    simp [Relation.listOfJson?, Format.read_write format_plannerConfig,
      Format.read_items format_relation]

/-! ## Texts -/

/-- A configuration is read back from its text. -/
theorem Config.ofText_encode (config : Config) :
    Config.ofText (encode Config.toJson config) = .ok config := by
  have hread := Format.decode?_encode format_config config
  rw [decode?] at hread
  rw [Config.ofText, hread]

/-- Columns, relations, catalogs and configurations are read back from the texts that
write them, and so are configurations from where they are loaded. -/
theorem documents_round_trip :
    RoundTrips Column.toJson Column.ofJson? ∧
      RoundTrips Relation.toJson Relation.ofJson? ∧
      RoundTrips Catalog.toJson Catalog.ofJson? ∧
      RoundTrips Config.toJson Config.ofJson? ∧
      (∀ config, Config.ofText (encode Config.toJson config) = .ok config) ∧
      ∀ text, ((Config.ofText text).bind fun config =>
        Config.ofText (encode Config.toJson config)) = Config.ofText text := by
  refine ⟨format_column.roundTrips, format_relation.roundTrips, format_catalog.roundTrips,
    format_config.roundTrips, Config.ofText_encode, fun text => ?_⟩
  cases Config.ofText text with
  | error error => rfl
  | ok config => exact Config.ofText_encode config

end SelectPlan
