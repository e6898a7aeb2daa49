import SelectPlan.Catalog.Document
import SelectPlan.Planner

/-!
# Configurations

A configuration holds the settings of the planner and the relations of the
catalog.  It is read from one JSON document, in which nothing else may stand.
-/

namespace SelectPlan

namespace PredicateScope

/-- The name of a scope. -/
def name : PredicateScope → String
  | catalog => "catalog"
  | relation => "relation"

/-- The scope of a name. -/
def ofName? (name : String) : Option PredicateScope :=
  [catalog, relation].find? fun scope => scope.name = name

/-- The value of a scope. -/
def toJson (scope : PredicateScope) : Json :=
  .ofString scope.name

/-- The scope of a value. -/
def ofJson? (json : Json) : Option PredicateScope :=
  json.alternative?.bind ofName?

end PredicateScope

namespace PlannerConfig

/-- The value of the settings. -/
def toJson (config : PlannerConfig) : Json :=
  .ofFields [("predicate_scope", config.predicateScope.toJson)]

/-- The settings of a value. -/
def ofJson? (json : Json) : Option PlannerConfig :=
  match json.fields? ["predicate_scope"] false with
  | some [scope] => do
    let scope ← Json.orElse .catalog PredicateScope.ofJson? scope
    pure ⟨scope⟩
  | _ => none

end PlannerConfig

/-- The settings of the planner and the relations of the catalog, in the order
in which they are given. -/
structure Config where
  planner : PlannerConfig := {}
  relations : List Relation := []
  deriving DecidableEq

namespace Config

/-- The catalog of a configuration, with the last relation of each name. -/
def catalog (config : Config) : Catalog :=
  .ofList config.relations

/-- The value of a configuration. -/
def toJson (config : Config) : Json :=
  .ofFields [("planner", config.planner.toJson),
    ("relations", .array (config.relations.map Relation.toJson))]

/-- The configuration of a value. -/
def ofJson? (json : Json) : Option Config :=
  match json.fields? ["planner", "relations"] true with
  | some [planner, relations] => do
    let planner ← Json.orElse {} PlannerConfig.ofJson? planner
    let relations ← Json.orElse [] Relation.listOfJson? relations
    pure ⟨planner, relations⟩
  | _ => none

/-- What is wrong with a text that is no configuration. -/
def malformedDetail : String := "not a configuration document"

/-- The configuration of a text. -/
def ofText (text : String) : Except Error Config :=
  match (Json.ofText? text.toList).bind ofJson? with
  | some config => .ok config
  | none => .error (.configuration malformedDetail)

end Config

end SelectPlan
