import SelectPlan.Number
import SelectPlan.Text.CharClass

/-!
# Log filters

A log filter is a list of directives separated by commas.  A directive is
written

  `target[span{field}]=level`,

and blanks around it do not count.  It starts with a target or with a span in
brackets; all that follows may be missing, and so may the level after its sign.
A word alone is accepted whether it is a level or not, since it may be a target.
The field of a span may be a name with a pattern, which is not looked into.

The library that the program leaves this to refuses more.  So no result is about these
filters: a run takes what is wrong with a log level from its surroundings, and
`logLevelFault?` is only what the program is started with.
-/

namespace SelectPlan.Shell

open Text Number

/-- What is wrong with a log filter. -/
inductive LogFilterFault
  /-- A directive is not of the form of one. -/
  | malformed
  | unknownLevel
  deriving DecidableEq, Repr

/-- The wording of what is wrong with a log filter. -/
def LogFilterFault.message : LogFilterFault → String
  | malformed => "invalid filter directive"
  | unknownLevel =>
    "error parsing level filter: expected one of \"off\", \"error\", \"warn\", \"info\", " ++
      "\"debug\", \"trace\", or a number 0-5"

/-- The names of the levels, in lower case. -/
def logLevels : List String :=
  ["off", "error", "warn", "info", "debug", "trace"]

/-- Whether a text is the number of a level, with zeros or a plus sign in front
or without. -/
def isLevelNumber (text : List Char) : Bool :=
  text.head? ≠ some '-' && (integer? text).any (· ≤ 5)

/-- Whether a text names a level, in letters of either case. -/
def isLevelName (text : List Char) : Bool :=
  logLevels.contains (String.ofList (text.map Char.toLower))

/-- What is wrong with a level.  A missing one stands for the most detailed. -/
def levelFault? (level : List Char) : Option LogFilterFault :=
  if level.isEmpty || isLevelNumber level || isLevelName level then none else some .unknownLevel

/-- What is wrong with the text after a span. -/
def spanEndFault? : List Char → Option LogFilterFault
  | [] => none
  | '=' :: level => levelFault? level
  | _ => some .malformed

/-- What is wrong with the text after the opening brace of a field. -/
def fieldFault? (text : List Char) : Option LogFilterFault :=
  match text.dropWhile (· ≠ '}') with
  | '}' :: ']' :: rest => if text.head? = some '}' then some .malformed else spanEndFault? rest
  | _ => some .malformed

/-- What is wrong with the text after the opening bracket of a span. -/
def spanFault? (text : List Char) : Option LogFilterFault :=
  match text.dropWhile fun c => c ≠ ']' && c ≠ '{' with
  | ']' :: rest => spanEndFault? rest
  | _ :: field => fieldFault? field
  | [] => some .malformed

/-- Whether a target may start with a character. -/
def startsTarget (c : Char) : Bool :=
  isWordChar c || c = '-' || c = ':'

/-- What is wrong with a directive.  A target ends at the first `=` or `[`. -/
def directiveFault? (directive : List Char) : Option LogFilterFault :=
  match trim directive with
  | [] => some .malformed
  | '[' :: span => spanFault? span
  | first :: rest =>
    if startsTarget first then
      match rest.dropWhile fun c => c ≠ '=' && c ≠ '[' with
      | '=' :: level => levelFault? level
      | _ :: span => spanFault? span
      | [] => none
    else some .malformed

/-- What is wrong with the first directive of a log filter that is wrong.  Where
commas follow each other there is no directive between them. -/
def logFilterFault? (filter : String) : Option LogFilterFault :=
  ((filter.toList.splitOn ',').filter (!·.isEmpty)).findSome? directiveFault?

/-- What is wrong with a log level, which is taken for a log filter. -/
def logLevelFault? (level : String) : Option String :=
  (logFilterFault? level).map LogFilterFault.message

end SelectPlan.Shell
