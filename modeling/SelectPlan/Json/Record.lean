import SelectPlan.Json.Reader

/-!
# Records in JSON

A record is written as an object, or as an array of its fields in their order.
In an object every known field may stand once; other members are refused or
ignored, as the record has it.  An array may leave out fields at its end.
-/

namespace SelectPlan.Json

/-- The value of a field among named members: none if it is absent, and a
failure if it is repeated. -/
def field? (members : List (String × Json)) (name : String) : Option (Option Json) :=
  match members.filter (fun member => member.1 = name) with
  | [] => some none
  | [member] => some (some member.2)
  | _ => none

/-- The fields of a record in the order of their names.  A closed record has no
other members. -/
def fields? (names : List String) (closed : Bool) : Json → Option (List (Option Json))
  | .array items =>
    if items.length ≤ names.length then
      some (items.map some ++ List.replicate (names.length - items.length) none)
    else none
  | .object members => do
    let named ← members.mapM fun (key, value) =>
      (textOf? key).map fun name => (String.ofList name, value)
    if closed && named.any (fun member => !names.contains member.1) then none
    else names.mapM (field? named)
  | _ => none

/-- The items of an array. -/
def items? : Json → Option (List Json)
  | .array items => some items
  | _ => none

/-- The name of an alternative: a string, or an object whose only member has the
value `null`. -/
def alternative? : Json → Option String
  | .string pieces => (textOf? pieces).map String.ofList
  | .object [(key, .null)] => (textOf? key).map String.ofList
  | _ => none

/-- A value that may be `null`. -/
def nullable? (read : Json → Option α) : Json → Option (Option α)
  | .null => some none
  | json => (read json).map some

/-- A field that may be absent. -/
def orElse (absent : α) (read : Json → Option α) : Option Json → Option α
  | some json => read json
  | none => some absent

end SelectPlan.Json
