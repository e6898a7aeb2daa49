import SelectPlan.Planner
import SelectPlan.Proofs.Catalog.Latest
import SelectPlan.Proofs.Text.ByteOrder

/-!
# Drafts of relations

A draft is a relation as it was put together, with its columns in the order in which
they were added.  Drafts that are added to a catalog one after the other determine it
(`Catalog.records_ofList`), and so they do if relations and columns are kept in maps,
where each of them is stored under its own name (`Catalog.storedIn_keyedBy`).  The
documents of relations and catalogs are read as drafts first
(`Draft.map_relation_ofJson?`, `Draft.map_ofList_listOfJson?`).
-/

namespace SelectPlan

open Json Text

/-! ## Drafts -/

/-- A relation with its columns in the order in which they were added. -/
structure Draft where
  name : String
  location : Option String := none
  columns : List Column := []
  deriving DecidableEq

instance : Named Draft := ⟨Draft.name⟩

/-- A relation with its columns in an ordered map. -/
structure MappedRelation where
  name : String
  location : Option String
  columns : Std.ExtTreeMap String Column

instance : Named MappedRelation := ⟨MappedRelation.name⟩

/-- The relation with its columns stored under their names. -/
def Relation.mapped (relation : Relation) : MappedRelation :=
  ⟨relation.name, relation.location, keyedBy relation.columns.items⟩

namespace Draft

/-- The relation that has these columns stored under their names. -/
def mapped (draft : Draft) : MappedRelation :=
  ⟨draft.name, draft.location, keyedBy draft.columns⟩

/-- The relation that has these columns filed. -/
def relation (draft : Draft) : Relation :=
  ⟨draft.name, draft.location, .ofList draft.columns⟩

theorem mapped_relation (draft : Draft) : draft.relation.mapped = draft.mapped := by
  rw [Relation.mapped, mapped, relation, keyedBy_items_ofList]

theorem latest_map_relation (name : String) (drafts : List Draft) :
    latest name (drafts.map relation) = (latest name drafts).map relation :=
  latest_map relation (fun _ => rfl) name drafts

theorem latest_map_mapped (name : String) (drafts : List Draft) :
    latest name (drafts.map mapped) = (latest name drafts).map mapped :=
  latest_map mapped (fun _ => rfl) name drafts

/-! ## Documents -/

/-- The draft of a value, with its columns as they are listed. -/
def ofJson? (json : Json) : Option Draft :=
  match json.fields? ["name", "location", "columns"] false with
  | some [some name, location, columns] => do
    let name ← name.string?
    let location ← Json.orElse none (Json.nullable? Json.string?) location
    let columns ← Json.orElse [] (fun json => json.items?.bind (·.mapM Column.ofJson?)) columns
    pure ⟨name, location, columns⟩
  | _ => none

/-- The drafts of the value of a catalog, as they are listed. -/
def listOfJson? (json : Json) : Option (List Draft) :=
  match json.fields? ["relations"] false with
  | some [relations] => Json.orElse [] (fun json => json.items?.bind (·.mapM ofJson?)) relations
  | _ => none

theorem map_relation_ofJson? (json : Json) :
    (ofJson? json).map relation = Relation.ofJson? json := by
  rw [ofJson?, Relation.ofJson?]
  generalize json.fields? ["name", "location", "columns"] false = fields
  -- All but one shape of the fields are refused by both readers.
  rcases fields with _ | _ | ⟨_ | name, _ | ⟨location, _ | ⟨columns, _ | ⟨_, _⟩⟩⟩⟩
  case some.cons.some.cons.cons.nil =>
    dsimp only
    cases name.string? with
    | none => rfl
    | some name =>
        cases orElse none (nullable? string?) location with
        | none => rfl
        | some location =>
            cases orElse [] (fun json => json.items?.bind (·.mapM Column.ofJson?)) columns with
            | none => rfl
            | some columns => rfl
  all_goals rfl

theorem mapM_map_eq_map_mapM {α β γ : Type} (read? : α → Option β) (change : β → γ)
    (items : List α) :
    items.mapM (fun item => (read? item).map change) =
      (items.mapM read?).map (List.map change) := by
  induction items with
  | nil => rfl
  | cons item rest ih =>
      rw [List.mapM_cons, List.mapM_cons, ih]
      cases read? item with
      | none => rfl
      | some value => cases rest.mapM read? <;> rfl

/-- The relations of a list are its drafts with their columns filed. -/
theorem map_relation_items (json : Json) :
    (json.items?.bind (·.mapM ofJson?)).map (List.map relation) = Relation.listOfJson? json := by
  have hread : Relation.ofJson? = fun json => (ofJson? json).map relation :=
    funext fun json => (map_relation_ofJson? json).symm
  rw [Relation.listOfJson?, hread]
  cases json.items? with
  | none => rfl
  | some items => rw [Option.bind_some, Option.bind_some, mapM_map_eq_map_mapM]

theorem map_ofList_listOfJson? (json : Json) :
    (listOfJson? json).map (fun drafts => Catalog.ofList (drafts.map relation)) =
      Catalog.ofJson? json := by
  rw [listOfJson?, Catalog.ofJson?]
  generalize json.fields? ["relations"] false = fields
  rcases fields with _ | _ | ⟨_ | relations, _ | ⟨_, _⟩⟩
  case some.cons.some.nil =>
    dsimp only
    rw [orElse_some, orElse_some, ← map_relation_items]
    cases relations.items?.bind (·.mapM ofJson?) <;> rfl
  all_goals rfl

end Draft

/-! ## What drafts tell -/

/-- A relation is what the columns tell that were added to it: the last one of each
name is found, under its own name, and they come in the order of the bytes of their
names. -/
structure Relation.Records (relation : Relation) (draft : Draft) : Prop where
  name : relation.name = draft.name
  location : relation.location = draft.location
  column? : ∀ name, relation.column? name = latest name draft.columns
  own : ∀ column ∈ relation.columns.items, relation.column? column.name = some column
  increasing : relation.columns.items.Pairwise fun first second =>
    encodeUtf8 first.name.toList < encodeUtf8 second.name.toList

/-- A catalog is what the relations tell that were added to it: the last one of each
name is found, under its own name, they come in the order of the bytes of their
names, and what is a column is one of theirs. -/
structure Catalog.Records (catalog : Catalog) (drafts : List Draft) : Prop where
  relation? : ∀ name, catalog.relation? name = (latest name drafts).map Draft.relation
  relation : ∀ name, Planner.relation catalog name =
    match latest name drafts with
    | some draft => .ok draft.relation
    | none => .error (.noSuchRelation name)
  found : ∀ name relation, catalog.relation? name = some relation →
    ∃ draft, latest name drafts = some draft ∧ relation.Records draft
  size : catalog.size = (drafts.map Draft.name).dedup.length
  own : ∀ relation ∈ catalog.relations.items, catalog.relation? relation.name = some relation
  increasing : catalog.relations.items.Pairwise fun first second =>
    encodeUtf8 first.name.toList < encodeUtf8 second.name.toList
  hasColumn : ∀ name, catalog.hasColumn name = true ↔
    ∃ relation draft, latest relation drafts = some draft ∧
      ((latest name draft.columns).isSome ∨
        ∃ column, Qualified name relation column ∧ (latest column draft.columns).isSome)

/-- A map stores the relations of a catalog in the same order, each under its own
name, and each of their columns under its own name. -/
structure Catalog.StoredIn (catalog : Catalog) (map : Std.ExtTreeMap String MappedRelation) :
    Prop where
  own : ∀ (name : String) (relation : MappedRelation), map[name]? = some relation →
    relation.name = name ∧ ∀ (name : String) (column : Column),
      relation.columns[name]? = some column → column.name = name
  relation? : ∀ name : String, map[name]? = (catalog.relation? name).map Relation.mapped
  relations : map.toList =
    catalog.relations.items.map fun relation => (relation.name, relation.mapped)
  columns : ∀ relation ∈ catalog.relations.items, relation.mapped.columns.toList =
    relation.columns.items.map fun column => (column.name, column)

theorem Directory.bytes_increasing {α : Type} [Named α] (directory : Directory α) :
    directory.items.Pairwise fun first second =>
      encodeUtf8 (Named.name first).toList < encodeUtf8 (Named.name second).toList := by
  refine directory.increasing.imp fun hlt => ?_
  rw [encodeUtf8_lt_iff]
  exact String.lt_iff.mp hlt

theorem Draft.records_relation (draft : Draft) : draft.relation.Records draft where
  name := rfl
  location := rfl
  column? name := Directory.find?_ofList draft.columns name
  own _ hmem := Directory.find?_name hmem
  increasing := Directory.bytes_increasing (.ofList draft.columns)

theorem Draft.has_iff (draft : Draft) (name : String) :
    draft.relation.Has name ↔ (latest name draft.columns).isSome := by
  rw [← draft.records_relation.column?, Relation.column?, Directory.find?, List.find?_isSome]
  simp [Relation.Has, Named.name]

theorem Catalog.records_ofList (drafts : List Draft) :
    (Catalog.ofList (drafts.map Draft.relation)).Records drafts := by
  have hrelation : ∀ name, (Catalog.ofList (drafts.map Draft.relation)).relation? name =
      (latest name drafts).map Draft.relation := by
    intro name
    rw [relation?, ofList, Directory.find?_ofList, Draft.latest_map_relation]
  constructor
  case relation? => exact hrelation
  case relation =>
    intro name
    rw [Planner.relation, hrelation]
    cases latest name drafts <;> rfl
  case found =>
    intro name relation hfound
    rw [hrelation, Option.map_eq_some_iff] at hfound
    obtain ⟨draft, hlatest, rfl⟩ := hfound
    exact ⟨draft, hlatest, draft.records_relation⟩
  case size =>
    rw [size, ofList, Directory.length_items_ofList, List.map_map]
    rfl
  case own => exact fun _ hmem => Directory.find?_name hmem
  case increasing => exact Directory.bytes_increasing (.ofList (drafts.map Draft.relation))
  case hasColumn =>
    intro name
    rw [hasColumn_iff]
    constructor
    · rintro ⟨relation, hmem, hhas⟩
      have hfound := (hrelation relation.name).symm.trans (Directory.find?_name hmem)
      obtain ⟨draft, hlatest, hdraft⟩ := Option.map_eq_some_iff.mp hfound
      refine ⟨relation.name, draft, hlatest, ?_⟩
      simpa only [← Draft.has_iff, hdraft] using hhas
    · rintro ⟨relation, draft, hlatest, hhas⟩
      have hfound := hrelation relation
      rw [hlatest, Option.map_some, relation?_eq_some_iff] at hfound
      refine ⟨draft.relation, hfound.1, ?_⟩
      simpa only [Draft.has_iff, hfound.2] using hhas

theorem Catalog.storedIn_keyedBy (drafts : List Draft) :
    (Catalog.ofList (drafts.map Draft.relation)).StoredIn (keyedBy (drafts.map Draft.mapped)) := by
  constructor
  case own =>
    intro name relation hstored
    rw [getElem?_keyedBy, Draft.latest_map_mapped, Option.map_eq_some_iff] at hstored
    obtain ⟨draft, hlatest, rfl⟩ := hstored
    exact ⟨name_of_latest hlatest, fun _ _ => name_of_getElem?_keyedBy⟩
  case relation? =>
    intro name
    rw [getElem?_keyedBy, Draft.latest_map_mapped, (records_ofList drafts).relation?,
      Option.map_map]
    exact congrArg (Option.map · _) (funext fun draft => draft.mapped_relation.symm)
  case relations =>
    -- Both are listed by name, in one order, and item by item they are the same.
    have hfiled : (ofList (drafts.map Draft.relation)).relations.items =
        (Directory.ofList drafts).items.map Draft.relation :=
      Directory.items_ofList_map Draft.relation (fun _ => rfl) drafts
    have hstored : (Directory.ofList (drafts.map Draft.mapped)).items =
        (Directory.ofList drafts).items.map Draft.mapped :=
      Directory.items_ofList_map Draft.mapped (fun _ => rfl) drafts
    rw [toList_keyedBy, hfiled, hstored, List.map_map, List.map_map]
    exact List.map_congr_left fun draft _ => congrArg _ draft.mapped_relation.symm
  case columns =>
    intro relation _
    rw [Relation.mapped, toList_keyedBy, Directory.ofList_items]
    rfl

end SelectPlan
