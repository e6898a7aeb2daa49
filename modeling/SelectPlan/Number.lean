/-!
# The spelling of numbers

Two grammars over characters, with ASCII digits and an optional sign in front.
An integer is a sign and at least one digit; `int?` gives its exact value when
64 bits hold it.  A decimal has digits on at least one side of an optional point
and an optional exponent with digits of its own.
-/

namespace SelectPlan.Number

/-- Whether a character is `+` or `-`. -/
def isSign (c : Char) : Bool :=
  c = '+' || c = '-'

/-- How many characters the sign takes that a text may start with. -/
def signLength : List Char → Nat
  | [] => 0
  | c :: _ => if isSign c then 1 else 0

/-- The text after the sign it may start with. -/
def dropSign (text : List Char) : List Char :=
  text.drop (signLength text)

/-- How many digits a text starts with. -/
def digitCount (text : List Char) : Nat :=
  (text.takeWhile Char.isDigit).length

/-- Whether a text is a run of at least one digit. -/
def isDigits (text : List Char) : Bool :=
  !text.isEmpty && text.all Char.isDigit

/-- The number that a run of digits writes in base ten. -/
def digitsValue (digits : List Char) : Nat :=
  digits.foldl (fun value digit => 10 * value + (digit.toNat - '0'.toNat)) 0

/-- The exact value of a sign and digits, however many there are. -/
def integer? (text : List Char) : Option Int :=
  if isDigits (dropSign text) then
    let magnitude := digitsValue (dropSign text)
    if text.head? = some '-' then some (-magnitude) else some magnitude
  else none

/-- The smallest integer that 64 bits hold. -/
def minInt : Int := -9223372036854775808

/-- The largest integer that 64 bits hold. -/
def maxInt : Int := 9223372036854775807

/-- The value of an integer text that fits into 64 bits. -/
def int? (text : List Char) : Option Int :=
  (integer? text).filter fun value => minInt ≤ value && value ≤ maxInt

/-- Whether a text is empty or an exponent: `e` or `E`, an optional sign and at
least one digit. -/
def isExponent : List Char → Bool
  | [] => true
  | c :: rest => (c = 'e' || c = 'E') && isDigits (dropSign rest)

/-- Whether a text is a decimal: an optional sign, digits with an optional point
among or beside them, and an optional exponent. -/
def isDecimal (text : List Char) : Bool :=
  let body := dropSign text
  let whole := body.takeWhile Char.isDigit
  match body.dropWhile Char.isDigit with
  | '.' :: rest =>
    !(whole ++ rest.takeWhile Char.isDigit).isEmpty && isExponent (rest.dropWhile Char.isDigit)
  | rest => !whole.isEmpty && isExponent rest

end SelectPlan.Number
