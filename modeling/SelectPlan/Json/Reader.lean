import SelectPlan.Json.Basic
import SelectPlan.Number

/-!
# Reading JSON

A text is cut into symbols, and the symbols are read as one value.  The grammar
is the strict one: no comments, no trailing commas, no leading zeros, no control
characters inside strings, and only blanks around the value.
-/

namespace SelectPlan.Json

open Number

/-- The symbols of the grammar. -/
inductive Symbol
  | openBrace
  | closeBrace
  | openBracket
  | closeBracket
  | colon
  | comma
  | null
  | bool (value : Bool)
  | number (spelling : List Char)
  | string (pieces : List Piece)
  deriving DecidableEq, Repr

/-! ## Symbols -/

/-- Whether a character may stand between symbols. -/
def isSpace (c : Char) : Bool :=
  c = ' ' || c = '\n' || c = '\r' || c = '\t'

/-- The length of a whole number without leading zeros. -/
def wholeLength? : List Char → Option Nat
  | [] => none
  | first :: rest =>
    if first = '0' then some 1 else if first.isDigit then some (digitCount rest + 1) else none

/-- The length of a run of at least one digit. -/
def digitsLength? (text : List Char) : Option Nat :=
  if digitCount text = 0 then none else some (digitCount text)

/-- The length of a point with digits, or zero where there is no point. -/
def fractionLength? : List Char → Option Nat
  | '.' :: rest => (digitsLength? rest).map (· + 1)
  | _ => some 0

/-- The length of an exponent, or zero where there is none. -/
def exponentLength? : List Char → Option Nat
  | [] => some 0
  | first :: rest =>
    if first = 'e' || first = 'E' then
      (digitsLength? (dropSign rest)).map (1 + signLength rest + ·)
    else some 0

/-- The length of a number. -/
def numberLength? (text : List Char) : Option Nat := do
  let sign := if text.head? = some '-' then 1 else 0
  let whole ← wholeLength? (text.drop sign)
  let fraction ← fractionLength? (text.drop (sign + whole))
  let exponent ← exponentLength? (text.drop (sign + whole + fraction))
  pure (sign + whole + fraction + exponent)

/-- Reads the rest of a literal word. -/
def readWord (word : List Char) (symbol : Symbol) (text : List Char) :
    Option (Symbol × List Char) :=
  if word.isPrefixOf text then some (symbol, text.drop word.length) else none

/-- The symbol that a text starts with, and the text after it. -/
def readSymbol (first : Char) (rest : List Char) : Option (Symbol × List Char) :=
  match first with
  | '\x7b' => some (.openBrace, rest)
  | '\x7d' => some (.closeBrace, rest)
  | '[' => some (.openBracket, rest)
  | ']' => some (.closeBracket, rest)
  | ':' => some (.colon, rest)
  | ',' => some (.comma, rest)
  | 'n' => readWord ['u', 'l', 'l'] .null rest
  | 't' => readWord ['r', 'u', 'e'] (.bool true) rest
  | 'f' => readWord ['a', 'l', 's', 'e'] (.bool false) rest
  | '"' => (readString rest).map fun (pieces, after) => (.string pieces, after)
  | _ =>
    (numberLength? (first :: rest)).map fun length =>
      (.number ((first :: rest).take length), rest.drop (length - 1))

theorem readWord_length_le {word text after : List Char} {symbol found : Symbol}
    (h : readWord word symbol text = some (found, after)) : after.length ≤ text.length := by
  unfold readWord at h
  split at h
  · cases h
    simp
  · cases h

theorem readSymbol_length_le {first : Char} {rest after : List Char} {symbol : Symbol}
    (h : readSymbol first rest = some (symbol, after)) : after.length ≤ rest.length := by
  unfold readSymbol at h
  split at h
  -- Only words, strings and numbers reach past their first character.
  case h_7 => exact readWord_length_le h
  case h_8 => exact readWord_length_le h
  case h_9 => exact readWord_length_le h
  case h_10 =>
    obtain ⟨⟨pieces, after'⟩, hstring, heq⟩ := Option.map_eq_some_iff.mp h
    cases heq
    exact readString_length_le hstring
  case h_11 =>
    obtain ⟨length, _, heq⟩ := Option.map_eq_some_iff.mp h
    cases heq
    simp
  all_goals
    cases h
    exact Nat.le_refl _

/-- The symbols of a text. -/
def symbols? (text : List Char) : Option (List Symbol) :=
  match _htext : text.dropWhile isSpace with
  | [] => some []
  | first :: rest =>
    match _hsymbol : readSymbol first rest with
    | some (symbol, after) => (symbols? after).map (symbol :: ·)
    | none => none
termination_by text.length
decreasing_by
  have hafter := readSymbol_length_le _hsymbol
  have htext := (List.dropWhile_sublist isSpace (l := text)).length_le
  rw [_htext, List.length_cons] at htext
  omega

/-! ## Values -/

/-- What is left of some symbols after at least one of them is read. -/
abbrev Rest (symbols : List Symbol) : Type :=
  { rest : List Symbol // rest.length < symbols.length }

mutual

/-- Reads a value. -/
def readValue : (symbols : List Symbol) → Option (Json × Rest symbols)
  | .null :: rest => some (.null, ⟨rest, by simp⟩)
  | .bool value :: rest => some (.bool value, ⟨rest, by simp⟩)
  | .number spelling :: rest => some (.number spelling, ⟨rest, by simp⟩)
  | .string pieces :: rest => some (.string pieces, ⟨rest, by simp⟩)
  | .openBracket :: .closeBracket :: rest =>
    some (.array [], ⟨rest, by simp only [List.length_cons]; omega⟩)
  | .openBrace :: .closeBrace :: rest =>
    some (.object [], ⟨rest, by simp only [List.length_cons]; omega⟩)
  | .openBracket :: rest =>
    match readItems rest with
    | some (items, ⟨after, h⟩) =>
      some (.array items, ⟨after, by simp only [List.length_cons]; omega⟩)
    | none => none
  | .openBrace :: rest =>
    match readMembers rest with
    | some (members, ⟨after, h⟩) =>
      some (.object members, ⟨after, by simp only [List.length_cons]; omega⟩)
    | none => none
  | _ => none
termination_by symbols => (symbols.length, 0)

/-- Reads the items of an array and the bracket after them. -/
def readItems (symbols : List Symbol) : Option (List Json × Rest symbols) :=
  match readValue symbols with
  | some (item, ⟨.closeBracket :: after, h⟩) =>
    some ([item], ⟨after, by simp only [List.length_cons] at h; omega⟩)
  | some (item, ⟨.comma :: rest, h⟩) =>
    have hrest : rest.length + 1 < symbols.length := by simpa using h
    match readItems rest with
    | some (items, ⟨after, h'⟩) => some (item :: items, ⟨after, by omega⟩)
    | none => none
  | _ => none
termination_by (symbols.length, 1)

/-- Reads the members of an object and the brace after them. -/
def readMembers : (symbols : List Symbol) → Option (List (List Piece × Json) × Rest symbols)
  | .string key :: .colon :: rest =>
    match readValue rest with
    | some (value, ⟨.closeBrace :: after, h⟩) =>
      some ([(key, value)], ⟨after, by simp only [List.length_cons] at h ⊢; omega⟩)
    | some (value, ⟨.comma :: later, h⟩) =>
      have hlater : later.length + 1 < rest.length := by simpa using h
      match readMembers later with
      | some (members, ⟨after, h'⟩) =>
        some ((key, value) :: members, ⟨after, by simp only [List.length_cons]; omega⟩)
      | none => none
    | _ => none
  | _ => none
termination_by symbols => (symbols.length, 1)

end

/-- The value that takes all of some symbols. -/
def ofSymbols? (symbols : List Symbol) : Option Json :=
  match readValue symbols with
  | some (json, ⟨[], _⟩) => some json
  | _ => none

/-- The value that a text writes. -/
def ofText? (text : List Char) : Option Json :=
  (symbols? text).bind ofSymbols?

end SelectPlan.Json
