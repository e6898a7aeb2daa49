import SelectPlan.Catalog.Relation
import SelectPlan.Ident

/-!
# Catalogs

A catalog is a directory of relations.  Statements are checked against it; it
never changes while that happens.
-/

namespace SelectPlan

/-- The relations that statements may name. -/
structure Catalog where
  relations : Directory Relation := {}
  deriving DecidableEq

namespace Catalog

/-- Adds a relation, in place of one of the same name. -/
def add (catalog : Catalog) (relation : Relation) : Catalog :=
  ⟨catalog.relations.insert relation⟩

/-- The catalog of a list of relations, the last one of each name. -/
def ofList (relations : List Relation) : Catalog :=
  ⟨.ofList relations⟩

/-- The relation of a name. -/
def relation? (catalog : Catalog) (name : String) : Option Relation :=
  catalog.relations.find? name

/-- The number of relations. -/
def size (catalog : Catalog) : Nat :=
  catalog.relations.items.length

/-- Whether some relation has a column of exactly this name, or the name is
qualified by a relation that has the column. -/
def hasColumn (catalog : Catalog) (name : String) : Bool :=
  catalog.relations.items.any (·.hasColumn name) ||
    match Ident.qualified? ⟨name⟩ with
    | some (qualifier, column) => (catalog.relation? qualifier).any (·.hasColumn column)
    | none => false

end Catalog

end SelectPlan
