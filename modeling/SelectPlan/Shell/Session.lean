import SelectPlan.Compile
import SelectPlan.Config
import SelectPlan.Shell.Batch
import SelectPlan.Shell.Terminal

/-!
# Sessions

A session explains statements against one configuration: all those of a text
given at once, or those of each line of an input.  A statement never changes the
session.  Lines that start with certain dot commands are not statements.

A text that cannot be split into statements ends the program at once.
-/

namespace SelectPlan.Shell

open Text

/-- What the statements of a session are checked against. -/
structure Session where
  catalog : Catalog
  planner : PlannerConfig

/-- The session of a configuration. -/
def Session.ofConfig (config : Config) : Session :=
  ⟨config.catalog, config.planner⟩

/-! ## Fixed texts -/

/-- What the program prints before it reads a line. -/
def prompt : String := "relq> "

/-- How the program is used. -/
def usage : String :=
  "Usage: relq [--config FILE] [-c|--command SQL] [--log-level LEVEL]\n\n" ++
  "Prints the logical plan of each SELECT statement.\n\n" ++
  "Examples:\n\n" ++
  "relq --config catalog.json\n" ++
  "relq --config catalog.json -c \"SELECT name FROM users WHERE id = 1;\"\n" ++
  "RUST_LOG=relq.plan=debug relq --config catalog.json\n"

/-- What may be entered at the prompt. -/
def promptHelp : String :=
  "Dot commands:\n\n" ++
  ".help      Show this help\n" ++
  ".tables    List relations in the catalog\n" ++
  ".quit      Exit the shell\n" ++
  ".exit      Exit the shell\n\n" ++
  "Each line is one statement; `;` separates several on a line.\n"

/-- What is wrong with bytes that are no text. -/
def notUtf8 : String := "stream did not contain valid UTF-8"

/-! ## Statements -/

/-- Prints the plan of a statement, or complains; says whether the plan was
printed. -/
def explain (session : Session) (statement : String) (terminal : Terminal) : Bool × Terminal :=
  match compile session.planner session.catalog statement with
  | .ok plan =>
    match terminal.writeLine plan.render with
    | (true, terminal) => (true, terminal)
    | (false, terminal) => (false, terminal.complain "error: failed writing plan")
  | .error error =>
    let terminal := terminal.complain ("error: " ++ error.message)
    match error.hint? with
    | some hint => (false, terminal.complain ("hint: " ++ hint))
    | none => (false, terminal)

/-- Explains statements in turn; says whether every plan was printed. -/
def explainAll (session : Session) : List String → Terminal → Bool × Terminal
  | [], terminal => (true, terminal)
  | statement :: rest, terminal =>
    let (printed, terminal) := explain session statement terminal
    let (allPrinted, terminal) := explainAll session rest terminal
    (printed && allPrinted, terminal)

/-- The exit code of a program that is aborted. -/
def abortCode : Nat := 101

/-- Explains the statements of a text, and gives the exit code. -/
def runCommand (session : Session) (command : String) (terminal : Terminal) : Nat × Terminal :=
  match splitStatements command with
  | none => (abortCode, terminal)
  | some statements =>
    let (printed, terminal) := explainAll session statements terminal
    (if printed then 0 else 1, terminal)

/-! ## Lines -/

/-- Prints lines until one does not fit; says whether all of them fit. -/
def writeLines : List String → Terminal → Bool × Terminal
  | [], terminal => (true, terminal)
  | line :: rest, terminal =>
    match terminal.writeLine line with
    | (true, terminal) => writeLines rest terminal
    | (false, terminal) => (false, terminal)

/-- A relation and its columns on one line. -/
def tableLine (relation : Relation) : String :=
  relation.name ++ " (" ++
    String.intercalate ", " (relation.columns.items.map fun column =>
      column.name ++ " " ++ column.type.name) ++ ")"

/-- Goes on with the session if a write succeeded, and ends it with code 1
otherwise. -/
def unlessFailed : Bool × Terminal → Option Nat × Terminal
  | (true, terminal) => (none, terminal)
  | (false, terminal) => (some 1, terminal)

/-- Answers one line of the input, and gives an exit code if the session ends
there. -/
def answer (session : Session) (line : List UInt8) (terminal : Terminal) :
    Option Nat × Terminal :=
  match decodeUtf8? line with
  | none => (some 1, terminal.complain ("error: " ++ notUtf8))
  | some text =>
    match String.ofList (trim text) with
    | "" => (none, terminal)
    | ".exit" | ".quit" => (some 0, terminal)
    | ".help" => unlessFailed (terminal.writeLine promptHelp)
    | ".tables" =>
      unlessFailed (writeLines (session.catalog.relations.items.map tableLine) terminal)
    | text =>
      match splitStatements text with
      | none => (some abortCode, terminal)
      | some statements => (none, (explainAll session statements terminal).2)

/-- The lines of an input, each with the line feed that ends it. -/
def inputLines : List UInt8 → List (List UInt8)
  | [] => []
  | byte :: rest =>
    if byte = 10 then [byte] :: inputLines rest
    else
      match inputLines rest with
      | [] => [[byte]]
      | line :: lines => (byte :: line) :: lines

/-- Answers the lines of an input after a prompt each, and gives the exit code.
At the end of the input a line feed follows the last prompt, if it fits. -/
def runLines (session : Session) : List (List UInt8) → Terminal → Nat × Terminal
  | lines, terminal =>
    match terminal.write prompt with
    | (false, terminal) => (1, terminal)
    | (true, terminal) =>
      match lines with
      | [] => (0, (terminal.writeLine "").2)
      | line :: rest =>
        match answer session line terminal with
        | (some code, terminal) => (code, terminal)
        | (none, terminal) => runLines session rest terminal

end SelectPlan.Shell
