import SelectPlan.Catalog.Basic
import SelectPlan.Json.Record

/-!
# Catalogs as documents

The JSON forms of types, columns, relations and catalogs.  Fields are written in
a fixed order, a missing location is left out, and columns and relations come in
order of their names.  In reading, the last of several columns or relations of
one name stays.
-/

namespace SelectPlan

namespace DataType

/-- The value of a type. -/
def toJson (type : DataType) : Json :=
  .ofString type.name

/-- The type of a value; its name has to be exact. -/
def ofJson? (json : Json) : Option DataType :=
  json.alternative?.bind ofName?

end DataType

/-- The field of a location, or nothing if there is none. -/
def locationField : Option String → List (String × Json)
  | some location => [("location", .ofString location)]
  | none => []

namespace Column

/-- The value of a column. -/
def toJson (column : Column) : Json :=
  .ofFields ([("name", .ofString column.name), ("type", column.type.toJson)] ++
    locationField column.location)

/-- The column of a value. -/
def ofJson? (json : Json) : Option Column :=
  match json.fields? ["name", "type", "location"] false with
  | some [some name, type, location] => do
    let name ← name.string?
    let type ← Json.orElse .null DataType.ofJson? type
    let location ← Json.orElse none (Json.nullable? Json.string?) location
    pure ⟨name, type, location⟩
  | _ => none

end Column

namespace Relation

/-- The value of a relation. -/
def toJson (relation : Relation) : Json :=
  .ofFields ([("name", .ofString relation.name)] ++ locationField relation.location ++
    [("columns", .array (relation.columns.items.map Column.toJson))])

/-- The relation of a value. -/
def ofJson? (json : Json) : Option Relation :=
  match json.fields? ["name", "location", "columns"] false with
  | some [some name, location, columns] => do
    let name ← name.string?
    let location ← Json.orElse none (Json.nullable? Json.string?) location
    let columns ← Json.orElse [] (fun json => json.items?.bind (·.mapM Column.ofJson?)) columns
    pure ⟨name, location, .ofList columns⟩
  | _ => none

/-- The relations of an array. -/
def listOfJson? (json : Json) : Option (List Relation) :=
  json.items?.bind (·.mapM Relation.ofJson?)

end Relation

namespace Catalog

/-- The value of a catalog. -/
def toJson (catalog : Catalog) : Json :=
  .ofFields [("relations", .array (catalog.relations.items.map Relation.toJson))]

/-- The catalog of a value. -/
def ofJson? (json : Json) : Option Catalog :=
  match json.fields? ["relations"] false with
  | some [relations] => do
    let relations ← Json.orElse [] Relation.listOfJson? relations
    pure (.ofList relations)
  | _ => none

end Catalog

end SelectPlan
