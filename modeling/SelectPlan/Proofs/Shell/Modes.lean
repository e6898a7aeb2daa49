import SelectPlan.Proofs.Batch.Statements
import SelectPlan.Proofs.Catalog.Document
import SelectPlan.Proofs.Shell.Arguments
import SelectPlan.Proofs.Shell.Session

/-!
# Commands and lines

A run explains the statements of its command, or those of each line of its input.
Both come to the same: what a run writes for a line is what a run with this line as
its command writes (`lines_agree_with_commands`).

## Strategy

Both runs open the same session (`run_of_lines`, `run_withCommand`).  A line is
trimmed before it is split and a command is not, but the statements are the same
(`splitStatements_trim`); so a line and its command ask for the same statements
(`asks_of_sameLine`), and the session writes the same for them.
-/

namespace SelectPlan.Shell

open Text

/-! ## How a run starts -/

section Opening

variable (surroundings : Surroundings) {config? : Option String} {session : Session}

theorem opening_of_error {complaint : String} (h : surroundings.task = .error complaint) :
    opening surroundings =
      .over 2 (Terminal.complain { room := surroundings.room } complaint) := by
  rw [opening, h]

theorem opening_of_help (h : surroundings.task = .ok .help) :
    opening surroundings =
      .over (if (Terminal.writeLine { room := surroundings.room } usage).1 then 0 else 1)
        (Terminal.writeLine { room := surroundings.room } usage).2 := by
  rw [opening, h]
  dsimp only
  rcases Terminal.writeLine { room := surroundings.room } usage with ⟨_ | _, terminal⟩ <;> rfl

theorem opening_of_unreadable {command? : Option String} {error : Error}
    (h : surroundings.task = .ok (.explain config? command?))
    (hsession : openSession surroundings.files config? = .error error) :
    opening surroundings =
      .over error.exitCode
        (Terminal.complain { room := surroundings.room } ("error: " ++ error.message)) := by
  rw [opening, h]
  dsimp only
  rw [hsession]

theorem opening_of_command {command : String}
    (h : surroundings.task = .ok (.explain config? (some command)))
    (hsession : openSession surroundings.files config? = .ok session) :
    opening surroundings =
      .over (runCommand session command { room := surroundings.room }).1
        (runCommand session command { room := surroundings.room }).2 := by
  rw [opening, h]
  dsimp only
  rw [hsession]

theorem opening_of_lines (h : surroundings.task = .ok (.explain config? none))
    (hsession : openSession surroundings.files config? = .ok session) :
    opening surroundings = .lines session { room := surroundings.room } := by
  rw [opening, h]
  dsimp only
  rw [hsession]

theorem run_of_lines (h : surroundings.task = .ok (.explain config? none))
    (hsession : openSession surroundings.files config? = .ok session) :
    run surroundings =
      runLines session (inputLines surroundings.input) { room := surroundings.room } := by
  rw [run, opening_of_lines surroundings h hsession]

variable {surroundings} in
theorem run_of_over {code : Nat} {terminal : Terminal}
    (h : opening surroundings = .over code terminal) : run surroundings = (code, terminal) := by
  rw [run, h]

end Opening

/-- The session of a configuration is opened from a file that holds its text. -/
theorem openSession_encode {files : List UInt8 → Option (List UInt8)} {path : String}
    (config : Config)
    (h : files (encodeUtf8 path.toList) =
      some (encodeUtf8 (Json.encode Config.toJson config).toList)) :
    openSession files (some path) = .ok (.ofConfig config) := by
  rw [openSession, h, readConfig, decodeUtf8?_encodeUtf8]
  dsimp only
  rw [String.ofList_toList, Config.ofText_encode]
  rfl

/-! ## Runs with a command -/

/-- The statements of a command that is given as bytes. -/
def statementsOf (command : List UInt8) : List String :=
  (statements (decodeLossy command)).map String.ofList

section Command

variable {surroundings : Surroundings} {config? : Option String} {session : Session}
  (htask : surroundings.task = .ok (.explain config? none))
  (hsession : openSession surroundings.files config? = .ok session)

include htask hsession

theorem run_withCommand (command : List UInt8) :
    run (surroundings.withCommand command) =
      runCommand session (String.ofList (decodeLossy command)) { room := surroundings.room } :=
  run_of_over (opening_of_command _ (task_withCommand htask command) hsession)

/-- What a run with a command comes to on a terminal without a limit, if spans can hold
the offsets of the command. -/
theorem run_withCommand_of_unlimited (hroom : surroundings.room = none)
    {command : List UInt8} (hsize : byteLength (decodeLossy command) ≤ Span.lastOffset) :
    run (surroundings.withCommand command) =
      (if (statementsOf command).all session.accepts then 0 else 1,
        { output := session.output (statementsOf command)
          complaints := session.complaints (statementsOf command) }) := by
  have hsplit : splitStatements (String.ofList (decodeLossy command)) =
      some (statementsOf command) := by
    rw [splitStatements_eq (by rwa [utf8ByteSize_ofList]), String.toList_ofList, statementsOf]
  rw [run_withCommand htask hsession, hroom, runCommand_eq Terminal.unlimited_empty hsplit,
    Terminal.empty_add]

end Command

/-! ## A line as a command -/

/-- The command is the line, with or without the line feed that ends it. -/
def SameLine (line command : List UInt8) : Prop :=
  command = line ∨ line = command ++ [10]

/-- A line asks for the statements of its command, which is a text as well. -/
theorem asks_of_sameLine {text : List Char} {line command : List UInt8}
    (hline : line = encodeUtf8 text) (hsize : command.length ≤ Span.lastOffset)
    (hdot : String.ofList (trim text) ∉ dotCommands) (hcommand : SameLine line command) :
    byteLength (decodeLossy command) ≤ Span.lastOffset ∧ Asks line (statementsOf command) := by
  rcases hcommand with rfl | hfeed
  · rw [hline, length_encodeUtf8] at hsize
    rw [hline, statementsOf, decodeLossy_encodeUtf8]
    exact ⟨hsize, text, rfl, hdot, splitStatements_trim hsize⟩
  · -- Without its line feed the line is a text that differs from it by a blank.
    obtain ⟨content, rfl, rfl⟩ := exists_encodeUtf8_of_append_lineFeed (hline.symm.trans hfeed)
    have hblank : Blank ['\n'] := List.forall_mem_singleton.mpr (by decide)
    have hsame : trim (content ++ ['\n']) = trim content := trim_append_blank content hblank
    rw [length_encodeUtf8] at hsize
    rw [statementsOf, decodeLossy_encodeUtf8]
    refine ⟨hsize, _, hline, hdot, ?_⟩
    rw [hsame, splitStatements_trim hsize]

/-- The lines of a text ask for the statements of their commands, which are texts as
well. -/
theorem forall₂_asks {text : List Char} {commands : List (List UInt8)}
    (hdot : ∀ line ∈ inputLines (encodeUtf8 text),
      String.ofList (trim (decodeLossy line)) ∉ dotCommands)
    (hsize : ∀ command ∈ commands, command.length ≤ Span.lastOffset)
    (hcommands : List.Forall₂ SameLine (inputLines (encodeUtf8 text)) commands) :
    (∀ command ∈ commands, byteLength (decodeLossy command) ≤ Span.lastOffset) ∧
      List.Forall₂ Asks (inputLines (encodeUtf8 text)) (commands.map statementsOf) := by
  have htexts : ∀ line ∈ inputLines (encodeUtf8 text),
      ∃ content, line = encodeUtf8 content ∧ String.ofList (trim content) ∉ dotCommands := by
    intro line hmem
    obtain ⟨content, rfl⟩ := exists_encodeUtf8_of_mem_inputLines line hmem
    have hline := hdot _ hmem
    rw [decodeLossy_encodeUtf8] at hline
    exact ⟨content, rfl, hline⟩
  -- Each command is taken together with its line, and then both parts are read off.
  have hboth := (List.forall₂_and_left _ _).mpr
    ⟨hsize, ((List.forall₂_and_left _ _).mpr ⟨htexts, hcommands⟩).flip⟩
  have hasks : List.Forall₂ (fun command line =>
      byteLength (decodeLossy command) ≤ Span.lastOffset ∧ Asks line (statementsOf command))
      commands (inputLines (encodeUtf8 text)) := by
    refine hboth.imp ?_
    rintro command line ⟨hshort, ⟨content, hline, hdot⟩, hcommand⟩
    exact asks_of_sameLine hline hshort hdot hcommand
  obtain ⟨hshort, hlines⟩ := (List.forall₂_and_left _ _).mp hasks
  exact ⟨hshort, List.forall₂_map_right_iff.mpr hlines.flip⟩

/-! ## Both ways to ask -/

/-- On a terminal without a limit, and over any configuration that loads:

* If the input is a text, spans can hold the offsets of its lines as commands and none of
  these lines is a dot command, the run ends well.  For each line it prints the prompt and
  what the run with this line as its command prints, and at the end a prompt on a line of
  its own; and it complains of what those runs complain of.
* A run with a command whose offsets spans can hold prints the plan of each of its
  statements that compiles, and complains of each of the others, whatever becomes of the
  statements around it.  Its exit code is 0 if all of them compile and 1 otherwise. -/
theorem lines_agree_with_commands {surroundings : Surroundings} {config : Option String}
    {session : Session} (htask : surroundings.task = .ok (.explain config none))
    (hsession : openSession surroundings.files config = .ok session)
    (hroom : surroundings.room = none) :
    (∀ (text : List Char) (commands : List (List UInt8)),
      surroundings.input = encodeUtf8 text →
      (∀ command ∈ commands, command.length ≤ Span.lastOffset) →
      (∀ line ∈ inputLines surroundings.input,
        String.ofList (trim (decodeLossy line)) ∉ dotCommands) →
      List.Forall₂ SameLine (inputLines surroundings.input) commands →
      (run surroundings).1 = 0 ∧
      (run surroundings).2.output =
        (commands.flatMap fun command =>
          encodeUtf8 prompt.toList ++ (run (surroundings.withCommand command)).2.output) ++
        encodeUtf8 (prompt ++ "\n").toList ∧
      (run surroundings).2.complaints =
        String.join (commands.map fun command =>
          (run (surroundings.withCommand command)).2.complaints)) ∧
    ∀ text : String, text.utf8ByteSize ≤ Span.lastOffset →
      ∃ pieces, splitStatements text = some pieces ∧
      let result := run (surroundings.withCommand (encodeUtf8 text.toList))
      (result.1 = 0 ↔ ∀ piece ∈ pieces,
        ∃ plan, compile session.planner session.catalog piece = .ok plan) ∧
      (result.1 = 0 ∨ result.1 = 1) ∧
      result.2.output =
        (pieces.flatMap fun piece => encodeUtf8 (session.explanation piece).toList) ∧
      result.2.complaints = String.join (pieces.map session.complaint) := by
  constructor
  · intro text commands hinput hsize hdot hcommands
    rw [hinput] at hdot hcommands
    obtain ⟨hshort, hasks⟩ := forall₂_asks hdot hsize hcommands
    have hcommand : ∀ command ∈ commands, run (surroundings.withCommand command) =
        (if (statementsOf command).all session.accepts then 0 else 1,
          { output := session.output (statementsOf command)
            complaints := session.complaints (statementsOf command) }) :=
      fun command hmem => run_withCommand_of_unlimited htask hsession hroom (hshort command hmem)
    -- Both sides come to what the session prints for the same statements.
    rw [run_of_lines _ htask hsession, hinput, hroom,
      runLines_eq Terminal.unlimited_empty hasks, Terminal.empty_add, List.flatMap_map,
      List.map_map]
    refine ⟨rfl, ?_, ?_⟩
    · refine congrArg (· ++ _) (List.flatMap_congr fun command hmem => ?_)
      rw [hcommand command hmem]
    · refine congrArg String.join (List.map_congr_left fun command hmem => ?_)
      rw [hcommand command hmem]
      rfl
  · intro text hsize
    refine ⟨_, splitStatements_eq hsize, ?_⟩
    intro result
    have hstatements : statementsOf (encodeUtf8 text.toList) =
        (statements text.toList).map String.ofList := by
      rw [statementsOf, decodeLossy_encodeUtf8]
    have hshort : byteLength (decodeLossy (encodeUtf8 text.toList)) ≤ Span.lastOffset := by
      rwa [decodeLossy_encodeUtf8, ← utf8ByteSize_eq]
    have hresult := run_withCommand_of_unlimited htask hsession hroom hshort
    rw [hstatements] at hresult
    generalize (statements text.toList).map String.ofList = pieces at hresult ⊢
    have hall : pieces.all session.accepts = true ↔
        ∀ piece ∈ pieces, ∃ plan, compile session.planner session.catalog piece = .ok plan := by
      rw [List.all_eq_true]
      exact forall₂_congr fun piece _ => Session.accepts_iff
    rw [show result = _ from hresult, ← hall]
    refine ⟨?_, ?_, rfl, rfl⟩
    · cases pieces.all session.accepts <;> simp
    · cases pieces.all session.accepts <;> simp

/-- Two statements of which the first fails, a lone semicolon, and a string that does
not end on a line that does not end either. -/
theorem lines_agree_with_commands_unended :
    let config : Config := { relations := [{ name := "t", columns := .ofList [{ name := "a" }] }] }
    let surroundings : Surroundings :=
      { arguments := ["--config", "t.json"].map fun argument => encodeUtf8 argument.toList
        levelFault? := fun _ => none
        files := fun path =>
          if path = encodeUtf8 "t.json".toList then
            some (encodeUtf8 (Json.encode Config.toJson config).toList)
          else none
        input := encodeUtf8 "SELECT b FROM t; SELECT a FROM t\n ;\nSELECT 'ä; ".toList }
    let first := "SELECT b FROM t; SELECT a FROM t"
    let commands := [first, " ;\n", "SELECT 'ä; "].map fun command => encodeUtf8 command.toList
    surroundings.task = .ok (.explain (some "t.json") none) ∧
      openSession surroundings.files (some "t.json") = .ok (.ofConfig config) ∧
      (∀ command ∈ commands, command.length ≤ Span.lastOffset) ∧
      (∀ line ∈ inputLines surroundings.input,
        String.ofList (trim (decodeLossy line)) ∉ dotCommands) ∧
      List.Forall₂ SameLine (inputLines surroundings.input) commands ∧
      first.utf8ByteSize ≤ Span.lastOffset ∧
      (run surroundings).1 = 0 ∧
      (run surroundings).2.output =
        (commands.flatMap fun command =>
          encodeUtf8 prompt.toList ++ (run (surroundings.withCommand command)).2.output) ++
        encodeUtf8 (prompt ++ "\n").toList ∧
      (run (surroundings.withCommand (encodeUtf8 first.toList))).1 = 1 ∧
      (run (surroundings.withCommand (encodeUtf8 first.toList))).2.output =
        encodeUtf8 "Projection(a)\n  TableScan(t)\n".toList ∧
      (run (surroundings.withCommand (encodeUtf8 first.toList))).2.complaints =
        "error: unknown column in statement: b\n" ++
          "hint: Check the column name against the relation schema\n" := by
  intro config surroundings first commands
  have htask : surroundings.task = .ok (.explain (some "t.json") none) := by
    decide +kernel
  have hsession : openSession surroundings.files (some "t.json") = .ok (.ofConfig config) :=
    openSession_encode config rfl
  have hsize : ∀ command ∈ commands, command.length ≤ Span.lastOffset := by
    decide +kernel
  have hdot : ∀ line ∈ inputLines surroundings.input,
      String.ofList (trim (decodeLossy line)) ∉ dotCommands := by
    decide +kernel
  have hlines : inputLines surroundings.input =
      ["SELECT b FROM t; SELECT a FROM t\n", " ;\n", "SELECT 'ä; "].map fun line =>
        encodeUtf8 line.toList := by
    decide +kernel
  have hcommands : List.Forall₂ SameLine (inputLines surroundings.input) commands := by
    rw [hlines]
    exact .cons (.inr (by decide +kernel)) (.cons (.inl rfl) (.cons (.inl rfl) .nil))
  have hfirst : first.utf8ByteSize ≤ Span.lastOffset := by decide
  have hsplit : splitStatements first = some ["SELECT b FROM t;", "SELECT a FROM t"] := by
    decide +kernel
  obtain ⟨hrun, hcommand⟩ := lines_agree_with_commands htask hsession rfl
  obtain ⟨hcode, houtput, -⟩ := hrun _ commands rfl hsize hdot hcommands
  obtain ⟨pieces, hpieces, hzero, hcodes, hprinted, hcomplaints⟩ := hcommand first hfirst
  obtain rfl := Option.some.inj (hpieces.symm.trans hsplit)
  have herror : compile (Session.ofConfig config).planner (Session.ofConfig config).catalog
      "SELECT b FROM t;" = .error (.noSuchColumn "b") := by
    decide +kernel
  have hfails : (run (surroundings.withCommand (encodeUtf8 first.toList))).1 ≠ 0 := by
    intro hsuccess
    obtain ⟨plan, hplan⟩ := hzero.mp hsuccess "SELECT b FROM t;" List.mem_cons_self
    rw [herror] at hplan
    cases hplan
  exact ⟨htask, hsession, hsize, hdot, hcommands, hfirst, hcode, houtput,
    hcodes.resolve_left hfails, hprinted.trans (by decide +kernel),
    hcomplaints.trans (by decide +kernel)⟩

end SelectPlan.Shell
