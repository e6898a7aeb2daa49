import SelectPlan.Proofs.Shell.Lines
import SelectPlan.Shell.Session

/-!
# What a session writes

On a terminal without a limit every write succeeds, and what is written does not
depend on what has been written before.  So the plan or the complaint of a
statement is a text of its own (`Session.explanation`, `Session.complaint`), and a
session writes one after the other, whether the statements are given at once
(`explainAll_eq`) or line by line (`runLines_eq`).
-/

namespace SelectPlan.Shell

open Text

/-! ## Terminals without a limit -/

namespace Terminal

/-- A terminal with more output and more complaints. -/
def add (terminal : Terminal) (output : List UInt8) (complaints : String) : Terminal :=
  { terminal with
    output := terminal.output ++ output
    complaints := terminal.complaints ++ complaints }

/-- A terminal whose output takes any number of bytes. -/
def Unlimited (terminal : Terminal) : Prop :=
  terminal.room = none

variable {terminal : Terminal}

theorem add_nil (terminal : Terminal) : terminal.add [] "" = terminal := by
  rw [add, List.append_nil, String.append_empty]

theorem add_add (terminal : Terminal) (output more : List UInt8) (complaints others : String) :
    (terminal.add output complaints).add more others =
      terminal.add (output ++ more) (complaints ++ others) := by
  rw [add, add, add, List.append_assoc, String.append_assoc]

theorem empty_add (output : List UInt8) (complaints : String) :
    ({} : Terminal).add output complaints = { output, complaints } := by
  rw [add, List.nil_append, String.empty_append]

theorem unlimited_empty : ({} : Terminal).Unlimited := rfl

theorem Unlimited.add (h : terminal.Unlimited) (output : List UInt8) (complaints : String) :
    (terminal.add output complaints).Unlimited := h

theorem Unlimited.write_eq (h : terminal.Unlimited) (text : String) :
    terminal.write text = (true, terminal.add (encodeUtf8 text.toList) "") := by
  have hroom : terminal.room = none := h
  rw [write, writeBytes, hroom, Terminal.add, String.append_empty, hroom]

theorem Unlimited.writeLine_eq (h : terminal.Unlimited) (line : String) :
    terminal.writeLine line = (true, terminal.add (encodeUtf8 (line ++ "\n").toList) "") :=
  h.write_eq (line ++ "\n")

theorem complain_eq (terminal : Terminal) (line : String) :
    terminal.complain line = terminal.add [] (line ++ "\n") := by
  rw [complain, add, List.append_nil, String.append_assoc]

end Terminal

/-! ## Statements -/

namespace Session

/-- Whether a statement has a plan. -/
def accepts (session : Session) (statement : String) : Bool :=
  (compile session.planner session.catalog statement).isOk

theorem accepts_iff {session : Session} {statement : String} :
    session.accepts statement = true ↔
      ∃ plan, compile session.planner session.catalog statement = .ok plan := by
  rw [accepts]
  cases compile session.planner session.catalog statement with
  | ok plan => exact iff_of_true rfl ⟨plan, rfl⟩
  | error error =>
      refine iff_of_false Bool.false_ne_true ?_
      rintro ⟨plan, hplan⟩
      cases hplan

/-- The output of a session for a statement. -/
def explanation (session : Session) (statement : String) : String :=
  match compile session.planner session.catalog statement with
  | .ok plan => plan.render ++ "\n"
  | .error _ => ""

/-- The complaints of a session about a statement. -/
def complaint (session : Session) (statement : String) : String :=
  match compile session.planner session.catalog statement with
  | .ok _ => ""
  | .error error =>
    "error: " ++ error.message ++ "\n" ++
      match error.hint? with
      | some hint => "hint: " ++ hint ++ "\n"
      | none => ""

/-- The output of a session for statements in turn. -/
def output (session : Session) (statements : List String) : List UInt8 :=
  statements.flatMap fun statement => encodeUtf8 (session.explanation statement).toList

/-- The complaints of a session about statements in turn. -/
def complaints (session : Session) (statements : List String) : String :=
  String.join (statements.map session.complaint)

theorem output_cons (session : Session) (statement : String) (rest : List String) :
    session.output (statement :: rest) =
      encodeUtf8 (session.explanation statement).toList ++ session.output rest :=
  List.flatMap_cons

theorem complaints_cons (session : Session) (statement : String) (rest : List String) :
    session.complaints (statement :: rest) =
      session.complaint statement ++ session.complaints rest := by
  rw [complaints, List.map_cons, String.join_cons, ← complaints]

end Session

variable {session : Session} {terminal : Terminal}

theorem explain_eq (h : terminal.Unlimited) (statement : String) :
    explain session statement terminal =
      (session.accepts statement,
        terminal.add (encodeUtf8 (session.explanation statement).toList)
          (session.complaint statement)) := by
  rw [explain, Session.accepts, Session.explanation, Session.complaint]
  cases compile session.planner session.catalog statement with
  | ok plan =>
      dsimp only
      rw [h.writeLine_eq]
      rfl
  | error error =>
      dsimp only
      cases error.hint? with
      | none =>
          dsimp only
          rw [Terminal.complain_eq, String.append_empty]
          rfl
      | some hint =>
          dsimp only
          rw [Terminal.complain_eq, Terminal.complain_eq, Terminal.add_add]
          rfl

/-- Statements are explained in turn, each as if it were alone, and none is left
out after one that fails. -/
theorem explainAll_eq (h : terminal.Unlimited) (statements : List String) :
    explainAll session statements terminal =
      (statements.all session.accepts,
        terminal.add (session.output statements) (session.complaints statements)) := by
  induction statements generalizing terminal with
  | nil =>
      rw [explainAll]
      exact congrArg (Prod.mk true) terminal.add_nil.symm
  | cons statement rest ih =>
      rw [explainAll, explain_eq h]
      dsimp only
      rw [ih (h.add _ _), Terminal.add_add, List.all_cons, Session.output_cons,
        Session.complaints_cons]

theorem runCommand_eq (h : terminal.Unlimited) {command : String} {statements : List String}
    (hsplit : splitStatements command = some statements) :
    runCommand session command terminal =
      (if statements.all session.accepts then 0 else 1,
        terminal.add (session.output statements) (session.complaints statements)) := by
  rw [runCommand, hsplit]
  dsimp only
  rw [explainAll_eq h]

/-! ## Lines -/

/-- The lines that are no statements. -/
def dotCommands : List String :=
  [".exit", ".quit", ".help", ".tables"]

/-- The line is a text made up of these statements, and no dot command. -/
def Asks (line : List UInt8) (statements : List String) : Prop :=
  ∃ text, line = encodeUtf8 text ∧ String.ofList (trim text) ∉ dotCommands ∧
    splitStatements (String.ofList (trim text)) = some statements

/-- A line is answered with the plans of its statements, and the session goes on. -/
theorem answer_eq (h : terminal.Unlimited) {line : List UInt8} {statements : List String}
    (hline : Asks line statements) :
    answer session line terminal =
      (none, terminal.add (session.output statements) (session.complaints statements)) := by
  obtain ⟨text, rfl, hdot, hsplit⟩ := hline
  rw [answer, decodeUtf8?_encodeUtf8]
  dsimp only
  split
  case h_1 hempty =>
    have hnone : splitStatements "" = some [] := by decide +kernel
    obtain rfl := Option.some.inj ((hempty ▸ hsplit).symm.trans hnone)
    exact congrArg (Prod.mk none) terminal.add_nil.symm
  case h_6 =>
    rw [hsplit]
    dsimp only
    rw [explainAll_eq h]
  -- The other branches are those of the dot commands.
  all_goals
    rename_i hcommand
    exact absurd (by rw [hcommand]; decide) hdot

/-- Lines are answered in turn behind a prompt each, and the session ends well. -/
theorem runLines_eq (h : terminal.Unlimited) {lines : List (List UInt8)}
    {batches : List (List String)} (hlines : List.Forall₂ Asks lines batches) :
    runLines session lines terminal =
      (0, terminal.add
        ((batches.flatMap fun statements => encodeUtf8 prompt.toList ++ session.output statements)
          ++ encodeUtf8 (prompt ++ "\n").toList)
        (String.join (batches.map session.complaints))) := by
  induction hlines generalizing terminal with
  | nil =>
      rw [runLines, h.write_eq]
      dsimp only
      rw [(h.add _ _).writeLine_eq, Terminal.add_add, String.empty_append, String.toList_append,
        encodeUtf8_append]
      rfl
  | cons hline _ ih =>
      rw [runLines, h.write_eq]
      dsimp only
      rw [answer_eq (h.add _ _) hline]
      dsimp only
      rw [ih ((h.add _ _).add _ _), Terminal.add_add, Terminal.add_add, List.flatMap_cons,
        List.map_cons, String.join_cons, String.empty_append]
      simp only [List.append_assoc]

end SelectPlan.Shell
