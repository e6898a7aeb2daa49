import SelectPlan.Catalog.Directory
import SelectPlan.Error

/-!
# Columns and relations

A relation is a name, an opaque location and a directory of columns.  Each
column has a declared type and may have a location of its own.
-/

namespace SelectPlan

/-- The declared types of columns. -/
inductive DataType
  | null
  | text
  | real
  | integer
  | datetime
  | boolean
  | blob
  deriving DecidableEq, Repr, Inhabited

namespace DataType

/-- The name of a type. -/
def name : DataType → String
  | null => "NULL"
  | text => "TEXT"
  | real => "REAL"
  | integer => "INTEGER"
  | datetime => "DATETIME"
  | boolean => "BOOLEAN"
  | blob => "BLOB"

/-- Every type, once. -/
def all : List DataType := [null, text, real, integer, datetime, boolean, blob]

/-- The type of an exact name. -/
def ofName? (name : String) : Option DataType :=
  all.find? fun type => type.name = name

/-- The type of a name in any mixture of ASCII cases. -/
def ofText (text : String) : Except Error DataType :=
  match all.find? fun type => type.name.toList = text.toList.map Char.toUpper with
  | some type => .ok type
  | none => .error (.configuration ("unknown data type: " ++ text))

end DataType

/-- A column of a relation. -/
structure Column where
  name : String
  type : DataType := .null
  location : Option String := none
  deriving DecidableEq, Repr

instance : Named Column := ⟨Column.name⟩

/-- A relation with its columns in order of their names. -/
structure Relation where
  name : String
  location : Option String := none
  columns : Directory Column := {}
  deriving DecidableEq

instance : Named Relation := ⟨Relation.name⟩

namespace Relation

/-- Adds a column, in place of one of the same name. -/
def addColumn (relation : Relation) (column : Column) : Relation :=
  { relation with columns := relation.columns.insert column }

/-- The column of a name. -/
def column? (relation : Relation) (name : String) : Option Column :=
  relation.columns.find? name

/-- Whether there is a column of exactly this name. -/
def hasColumn (relation : Relation) (name : String) : Bool :=
  relation.columns.contains name

end Relation

end SelectPlan
