import SelectPlan.Json.Piece

/-!
# JSON values

Values keep what was written: a number its spelling, a string its pieces, an
object its members in order, repeated keys included.
-/

namespace SelectPlan

/-- JSON values. -/
inductive Json
  | null
  | bool (value : Bool)
  | number (spelling : List Char)
  | string (pieces : List Json.Piece)
  | array (items : List Json)
  | object (members : List (List Json.Piece × Json))

namespace Json

/-- The value that writes a text. -/
def ofString (text : String) : Json :=
  .string (piecesOf text.toList)

/-- The text that a value denotes. -/
def string? : Json → Option String
  | string pieces => (textOf? pieces).map String.ofList
  | _ => none

/-- The object of named values. -/
def ofFields (fields : List (String × Json)) : Json :=
  .object (fields.map fun (name, value) => (piecesOf name.toList, value))

mutual

/-- A value on one line, without blanks. -/
def render : Json → List Char
  | null => ['n', 'u', 'l', 'l']
  | bool true => ['t', 'r', 'u', 'e']
  | bool false => ['f', 'a', 'l', 's', 'e']
  | number spelling => spelling
  | string pieces => renderString pieces
  | array items => '[' :: (renderItems items ++ [']'])
  | object members => '\x7b' :: (renderMembers members ++ ['\x7d'])

/-- The items of an array, with commas between them. -/
def renderItems : List Json → List Char
  | [] => []
  | [item] => item.render
  | item :: rest => item.render ++ ',' :: renderItems rest

/-- The members of an object, with commas between them. -/
def renderMembers : List (List Piece × Json) → List Char
  | [] => []
  | [(key, value)] => renderString key ++ ':' :: value.render
  | (key, value) :: rest => renderString key ++ ':' :: (value.render ++ ',' :: renderMembers rest)

end

end Json

end SelectPlan
