import SelectPlan.Shell.Arguments
import SelectPlan.Shell.Session

/-!
# Whole runs

A run reads its arguments, then its configuration, and then explains either the
statements of its command or those of its input.  Exit codes: 0 for success, 1
for statements or output that failed, 2 for wrong arguments, 3 for a
configuration that cannot be read, 101 where a text cannot be split.

A log level is not looked into here: what is wrong with it is said by the surroundings
of a run, as are the contents of files.
-/

namespace SelectPlan.Shell

open Text

/-- What a run does once its arguments are understood. -/
inductive Task
  | help
  /-- Explains statements, with the configuration of a file if one is named. -/
  | explain (config : Option String) (command : Option String)
  deriving DecidableEq, Repr

/-- The task of some arguments, or the complaint about them, given what is wrong with a
log level.  Help is given whatever else is asked for. -/
def Task.ofArguments (levelFault? : String → Option String) (arguments : List (List UInt8)) :
    Except String Task :=
  match Options.ofBytes arguments with
  | .error error => .error ("error: " ++ error.message ++ "\n" ++ usage)
  | .ok options =>
    if options.help then .ok .help
    else
      match options.logLevel.bind fun level => (levelFault? level).map (level, ·) with
      | some (level, fault) => .error ("error: invalid log level `" ++ level ++ "`: " ++ fault)
      | none => .ok (.explain options.config options.command)

/-- The configuration in a file, which may be missing. -/
def readConfig (path : String) (content : Option (List UInt8)) : Except Error Config :=
  match content with
  | none => .error (.inputOutput "No such file or directory (os error 2)")
  | some bytes =>
    match decodeUtf8? bytes with
    | none => .error (.inputOutput notUtf8)
    | some text =>
      match Config.ofText (String.ofList text) with
      | .ok config => .ok config
      | .error (.configuration detail) => .error (.configuration (path ++ ": " ++ detail))
      | .error error => .error error

/-- The session of a run: over the configuration of a file, or over an empty
one.  A file is asked for by the bytes of its name. -/
def openSession (files : List UInt8 → Option (List UInt8)) :
    Option String → Except Error Session
  | some path => (readConfig path (files (encodeUtf8 path.toList))).map Session.ofConfig
  | none => .ok (.ofConfig {})

/-- What a run is given. -/
structure Surroundings where
  arguments : List (List UInt8)
  /-- What is wrong with a log level. -/
  levelFault? : String → Option String
  /-- The contents of the files that exist, by the bytes of their names. -/
  files : List UInt8 → Option (List UInt8) := fun _ => none
  input : List UInt8 := []
  /-- How many bytes the output takes; `none` is no limit. -/
  room : Option Nat := none

/-- The task of a run, or the complaint about its arguments. -/
def Surroundings.task (surroundings : Surroundings) : Except String Task :=
  Task.ofArguments surroundings.levelFault? surroundings.arguments

/-- The file that holds the configuration of a run, if its arguments name one. -/
def Surroundings.configPath? (surroundings : Surroundings) : Option String :=
  match surroundings.task with
  | .ok (.explain config _) => config
  | _ => none

/-- How a run starts: it is over without a look at its input, or a session waits
for lines. -/
inductive Opening
  | over (code : Nat) (terminal : Terminal)
  | lines (session : Session) (terminal : Terminal)

/-- The part of a run that does not look at its input. -/
def opening (surroundings : Surroundings) : Opening :=
  let terminal : Terminal := { room := surroundings.room }
  match surroundings.task with
  | .error complaint => .over 2 (terminal.complain complaint)
  | .ok .help =>
    match terminal.writeLine usage with
    | (true, terminal) => .over 0 terminal
    | (false, terminal) => .over 1 terminal
  | .ok (.explain config command) =>
    match openSession surroundings.files config with
    | .error error => .over error.exitCode (terminal.complain ("error: " ++ error.message))
    | .ok session =>
      match command with
      | some command =>
        let (code, terminal) := runCommand session command terminal
        .over code terminal
      | none => .lines session terminal

/-- Runs the program, and gives its exit code and what it has written. -/
def run (surroundings : Surroundings) : Nat × Terminal :=
  match opening surroundings with
  | .over code terminal => (code, terminal)
  | .lines session terminal => runLines session (inputLines surroundings.input) terminal

end SelectPlan.Shell
