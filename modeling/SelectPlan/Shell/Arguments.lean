import SelectPlan.Text.Utf8

/-!
# Arguments

The options of the program.  An option with a value is written `--name value`,
where the next argument is the value whatever it looks like, or `--name=value`.
Each such option may be given once.
-/

namespace SelectPlan.Shell

open Text

/-- The options that take a value. -/
inductive ValueOption
  | command
  | config
  | logLevel
  deriving DecidableEq, Repr

/-- What is wrong with the arguments. -/
inductive UsageError
  | missingValue (option : ValueOption)
  | repeated (option : ValueOption)
  | unexpected (argument : String)
  deriving DecidableEq, Repr

/-- An option as messages show it. -/
def ValueOption.flag : ValueOption → String
  | command => "-c/--command"
  | config => "--config"
  | logLevel => "--log-level"

/-- What the value of an option is. -/
def ValueOption.valueName : ValueOption → String
  | command => "SQL"
  | config => "file"
  | logLevel => "level"

/-- The wording of a usage error. -/
def UsageError.message : UsageError → String
  | missingValue option =>
    "missing " ++ option.valueName ++ " argument for `" ++ option.flag ++ "`"
  | repeated option => "`" ++ option.flag ++ "` may only be provided once"
  | unexpected argument => "unexpected argument `" ++ argument ++ "`"

/-- The options of one run. -/
structure Options where
  command : Option String := none
  config : Option String := none
  logLevel : Option String := none
  help : Bool := false
  deriving DecidableEq, Repr

namespace Options

/-- The value of an option. -/
def get? (options : Options) : ValueOption → Option String
  | .command => options.command
  | .config => options.config
  | .logLevel => options.logLevel

/-- Gives an option its value. -/
def set (options : Options) (option : ValueOption) (value : String) : Options :=
  match option with
  | .command => { options with command := some value }
  | .config => { options with config := some value }
  | .logLevel => { options with logLevel := some value }

/-- Gives an option its value, unless it has one. -/
def setOnce (options : Options) (option : ValueOption) (value : String) :
    Except UsageError Options :=
  if (options.get? option).isSome then .error (.repeated option)
  else .ok (options.set option value)

end Options

/-- What one argument is by itself. -/
inductive Argument
  | help
  /-- An option whose value is the next argument. -/
  | flag (option : ValueOption)
  | assignment (option : ValueOption) (value : String)
  | stray (text : String)
  deriving DecidableEq, Repr

/-- The rest of a text that starts in a certain way. -/
def after? (lead : String) (text : List Char) : Option String :=
  if lead.toList.isPrefixOf text then some (String.ofList (text.drop lead.toList.length)) else none

/-- The ways to write an option and its value as one argument. -/
def assignments : List (String × ValueOption) :=
  [("--command=", .command), ("-c=", .command), ("--config=", .config),
   ("--log-level=", .logLevel)]

/-- What an argument is. -/
def Argument.ofText (text : String) : Argument :=
  match text with
  | "-h" | "--help" => .help
  | "-c" | "--command" => .flag .command
  | "--config" => .flag .config
  | "--log-level" => .flag .logLevel
  | _ =>
    match assignments.findSome? fun (lead, option) =>
        (after? lead text.toList).map (option, ·) with
    | some (option, value) => .assignment option value
    | none => .stray text

/-- Reads arguments from left to right into options. -/
def readArguments (options : Options) : List String → Except UsageError Options
  | [] => .ok options
  | text :: rest =>
    match Argument.ofText text with
    | .help => readArguments { options with help := true } rest
    | .flag option =>
      match rest with
      | [] => .error (.missingValue option)
      | value :: rest => do
        let options ← options.setOnce option value
        readArguments options rest
    | .assignment option value => do
      let options ← options.setOnce option value
      readArguments options rest
    | .stray text => .error (.unexpected text)

/-- The options of a list of arguments. -/
def Options.ofArguments (arguments : List String) : Except UsageError Options :=
  readArguments {} arguments

/-- The options of arguments that are given as bytes, with U+FFFD for what is
not UTF-8. -/
def Options.ofBytes (arguments : List (List UInt8)) : Except UsageError Options :=
  Options.ofArguments (arguments.map fun bytes => String.ofList (decodeLossy bytes))

end SelectPlan.Shell
