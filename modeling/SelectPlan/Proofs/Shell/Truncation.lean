import SelectPlan.Proofs.Shell.Modes

/-!
# Output that is cut off

A run whose output takes a limited number of bytes is compared with the same run
without a limit.  It stores the front of the same output, and its exit code says so
if anything is lost (`run_cut_off`).

## Strategy

`Terminal.CutAt` relates the terminals of the two runs: one holds the front of what
the other holds, and its room is what is left up to the limit.  Each write keeps this
relation and succeeds on the limited side just while the whole output fits
(`CutAt.write`).  The two runs part where the limited one gives up after a failed
write.  From there on the whole output only grows, and its front is what it was
(`CutAt.add`); so the relation holds at the end of the runs as well.

Only the line feed at the end of an input is written without a look at the result.
That is why a run that loses nothing else ends well.
-/

namespace SelectPlan.Shell

open Text

namespace Terminal

/-- One terminal has no limit, and the other one holds the front of its output. -/
structure CutAt (limit : Nat) (whole cut : Terminal) : Prop where
  unlimited : whole.Unlimited
  output : cut.output = whole.output.take limit
  room : cut.room = some (limit - whole.output.length)

theorem length_add (terminal : Terminal) (output : List UInt8) (complaints : String) :
    (terminal.add output complaints).output.length =
      terminal.output.length + output.length :=
  List.length_append

variable {limit : Nat} {whole cut : Terminal}

theorem cutAt_empty (limit : Nat) : CutAt limit {} { room := some limit } :=
  ⟨rfl, List.take_nil.symm, rfl⟩

/-- A write stores on the limited side what fits, and succeeds just if all that has
been written fits. -/
theorem CutAt.write (h : CutAt limit whole cut) (text : String) (hne : text ≠ "") :
    CutAt limit (whole.add (encodeUtf8 text.toList) "") (cut.write text).2 ∧
      ((cut.write text).1 = true ↔
        (whole.add (encodeUtf8 text.toList) "").output.length ≤ limit) := by
  have hpos := List.length_pos_of_ne_nil (encodeUtf8_ne_nil hne)
  rw [Terminal.write, writeBytes, h.room]
  refine ⟨⟨h.unlimited.add _ _, ?_, ?_⟩, ?_⟩
  · simp only [Terminal.add, h.output, List.take_append]
  · simp only [Terminal.add, List.length_append, Nat.sub_sub]
  · simp only [Terminal.add, List.length_append, decide_eq_true_eq]
    omega

/-- What is written beyond the limit does not show in the front. -/
theorem CutAt.add (h : CutAt limit whole cut) (hfull : limit < whole.output.length)
    (output : List UInt8) (complaints : String) :
    CutAt limit (whole.add output complaints) cut := by
  refine ⟨h.unlimited.add _ _, ?_, ?_⟩
  · simp only [Terminal.add, h.output, List.take_append_of_le_length hfull.le]
  · simp only [h.room, Terminal.add, List.length_append]
    congr 1
    omega

theorem CutAt.length_eq (h : CutAt limit whole cut) (hfull : limit < whole.output.length) :
    cut.output.length = limit := by
  rw [h.output, List.length_take_of_le hfull.le]

/-- A line feed alone does not fit just if all that is in front of it does, and then it
is all that is lacking. -/
theorem CutAt.eq_append_lineFeed (h : CutAt limit whole cut)
    {front : Terminal} (hfits : front.output.length ≤ limit)
    (hwhole : whole = front.add [10] "") (hfull : limit < whole.output.length) :
    whole.output = cut.output ++ [10] := by
  subst hwhole
  rw [length_add, List.length_singleton] at hfull
  have hlimit : limit = front.output.length := by omega
  rw [h.output, hlimit]
  simp only [Terminal.add, List.take_left]

theorem CutAt.complain_left (h : CutAt limit whole cut) (line : String) :
    CutAt limit (whole.complain line) cut :=
  ⟨h.unlimited, h.output, h.room⟩

theorem CutAt.complain_right (h : CutAt limit whole cut) (line : String) :
    CutAt limit whole (cut.complain line) :=
  ⟨h.unlimited, h.output, h.room⟩

end Terminal

open Terminal

variable {limit : Nat} {whole cut : Terminal} {session : Session}

/-! ## Steps that say whether they succeeded -/

/-- Both sides have done the same step, and the limited one reports success just if
the other one does and all of its output fits. -/
structure Reports (limit : Nat) (whole cut : Bool × Terminal) : Prop where
  cutAt : CutAt limit whole.2 cut.2
  success : cut.1 = true ↔ whole.1 = true ∧ whole.2.output.length ≤ limit

theorem reports_writeLine (h : CutAt limit whole cut) (line : String) :
    Reports limit (whole.writeLine line) (cut.writeLine line) := by
  have hne : line ++ "\n" ≠ "" := fun hnil =>
    absurd (String.append_eq_empty_iff.mp hnil).2 (by decide)
  obtain ⟨hcut, hsuccess⟩ := h.write _ hne
  rw [h.unlimited.writeLine_eq]
  exact ⟨hcut, hsuccess.trans (iff_and_self.mpr fun _ => rfl)⟩

theorem reports_explain (h : CutAt limit whole cut) (statement : String) :
    Reports limit (explain session statement whole) (explain session statement cut) := by
  rw [explain, explain]
  cases compile session.planner session.catalog statement with
  | ok plan =>
      dsimp only
      obtain ⟨hcut, hsuccess⟩ := reports_writeLine h plan.render
      rw [h.unlimited.writeLine_eq] at hcut hsuccess ⊢
      rcases hwrite : cut.writeLine plan.render with ⟨_ | _, after⟩
      · rw [hwrite] at hcut hsuccess
        exact ⟨hcut.complain_right _, hsuccess⟩
      · rw [hwrite] at hcut hsuccess
        exact ⟨hcut, hsuccess⟩
  | error error =>
      dsimp only
      have hcomplains := (h.complain_left ("error: " ++ error.message)).complain_right
        ("error: " ++ error.message)
      cases error.hint? with
      | none => exact ⟨hcomplains, by simp⟩
      | some hint => exact ⟨(hcomplains.complain_left _).complain_right _, by simp⟩

/-- Statements are explained on both sides even after one whose plan does not fit. -/
theorem cutAt_explainAll (h : CutAt limit whole cut) (statements : List String) :
    CutAt limit (explainAll session statements whole).2 (explainAll session statements cut).2 := by
  induction statements generalizing whole cut with
  | nil => exact h
  | cons statement rest ih => exact ih (reports_explain h statement).cutAt

theorem reports_explainAll (h : CutAt limit whole cut) (hfits : whole.output.length ≤ limit)
    (statements : List String) :
    Reports limit (explainAll session statements whole) (explainAll session statements cut) := by
  refine ⟨cutAt_explainAll h statements, ?_⟩
  induction statements generalizing whole cut with
  | nil => exact iff_of_true rfl ⟨rfl, hfits⟩
  | cons statement rest ih =>
      obtain ⟨hcut, hsuccess⟩ : Reports limit (explain session statement whole)
          (explain session statement cut) := reports_explain h statement
      rw [explainAll, explainAll]
      dsimp only
      by_cases hnext : (explain session statement whole).2.output.length ≤ limit
      · rw [Bool.and_eq_true, Bool.and_eq_true, hsuccess, ih hcut hnext]
        tauto
      · have hgrown : ¬ (explainAll session rest
            (explain session statement whole).2).2.output.length ≤ limit := by
          rw [explainAll_eq hcut.unlimited, length_add]
          omega
        rw [Bool.and_eq_true, hsuccess]
        tauto

theorem writeLines_eq (h : whole.Unlimited) (lines : List String) :
    writeLines lines whole =
      (true, whole.add (lines.flatMap fun line => encodeUtf8 (line ++ "\n").toList) "") := by
  induction lines generalizing whole with
  | nil => exact congrArg (Prod.mk true) whole.add_nil.symm
  | cons line rest ih =>
      rw [writeLines, h.writeLine_eq]
      dsimp only
      rw [ih (h.add _ _), add_add, List.flatMap_cons, String.append_empty]

/-- The lines after one that does not fit are written on one side only. -/
theorem reports_writeLines (h : CutAt limit whole cut) (hfits : whole.output.length ≤ limit)
    (lines : List String) :
    Reports limit (writeLines lines whole) (writeLines lines cut) := by
  induction lines generalizing whole cut with
  | nil => exact ⟨h, iff_of_true rfl ⟨rfl, hfits⟩⟩
  | cons line rest ih =>
      obtain ⟨hcut, hsuccess⟩ := reports_writeLine h line
      rw [writeLines, writeLines]
      rw [h.unlimited.writeLine_eq] at hcut hsuccess ⊢
      rcases hwrite : cut.writeLine line with ⟨_ | _, after⟩
      · rw [hwrite] at hcut hsuccess
        dsimp only at hcut hsuccess ⊢
        have hfull : limit < (whole.add (encodeUtf8 (line ++ "\n").toList) "").output.length :=
          not_le.mp fun hle => Bool.false_ne_true (hsuccess.mpr ⟨rfl, hle⟩)
        rw [writeLines_eq hcut.unlimited]
        refine ⟨hcut.add hfull _ _, iff_of_false Bool.false_ne_true fun hall => ?_⟩
        rw [length_add] at hall
        omega
      · rw [hwrite] at hcut hsuccess
        exact ih hcut (hsuccess.mp rfl).2

/-! ## Lines -/

/-- A line after which the session goes on, unless a write fails. -/
def GoesOn (line : List UInt8) : Prop :=
  ∃ text, decodeUtf8? line = some text ∧ String.ofList (trim text) ≠ ".exit" ∧
    String.ofList (trim text) ≠ ".quit" ∧ splitStatements (String.ofList (trim text)) ≠ none

theorem goesOn_iff_of_decodeUtf8? {line : List UInt8} {text : List Char}
    (h : decodeUtf8? line = some text) :
    GoesOn line ↔ String.ofList (trim text) ≠ ".exit" ∧ String.ofList (trim text) ≠ ".quit" ∧
      splitStatements (String.ofList (trim text)) ≠ none := by
  simp [GoesOn, h]

theorem answer_eq_none_iff (session : Session) (h : whole.Unlimited) (line : List UInt8) :
    (answer session line whole).1 = none ↔ GoesOn line := by
  rw [answer]
  cases hread : decodeUtf8? line with
  | none => simp [GoesOn, hread]
  | some text =>
      rw [goesOn_iff_of_decodeUtf8? hread]
      dsimp only
      -- The lines with a meaning of their own are short texts, which are split like others.
      split
      case h_1 hline =>
        rw [hline]
        exact iff_of_true rfl (by decide +kernel)
      case h_2 hline => simp [hline]
      case h_3 hline => simp [hline]
      case h_4 hline =>
        rw [hline, h.writeLine_eq]
        exact iff_of_true rfl (by decide +kernel)
      case h_5 hline =>
        rw [hline, writeLines_eq h]
        exact iff_of_true rfl (by decide +kernel)
      case h_6 hexit hquit _ _ =>
        cases hsplit : splitStatements (String.ofList (trim text)) with
        | none => simp
        | some statements => exact iff_of_true rfl ⟨hexit, hquit, by simp⟩

/-- What a line is answered with comes behind what has been written. -/
theorem exists_answer_eq (session : Session) (h : whole.Unlimited) (line : List UInt8) :
    ∃ output complaints, (answer session line whole).2 = whole.add output complaints := by
  rw [answer]
  cases decodeUtf8? line with
  | none => exact ⟨[], _, complain_eq _ _⟩
  | some text =>
      dsimp only
      split
      case h_4 =>
        rw [h.writeLine_eq]
        exact ⟨_, _, rfl⟩
      case h_5 =>
        rw [writeLines_eq h]
        exact ⟨_, _, rfl⟩
      case h_6 =>
        cases splitStatements (String.ofList (trim text)) with
        | none => exact ⟨[], "", whole.add_nil.symm⟩
        | some statements =>
            dsimp only
            rw [explainAll_eq h]
            exact ⟨_, _, rfl⟩
      all_goals exact ⟨[], "", whole.add_nil.symm⟩

/-- Lines are answered behind a prompt, and something follows it if none of them ends
the session. -/
theorem exists_runLines_eq (session : Session) (h : whole.Unlimited)
    (lines : List (List UInt8)) :
    ∃ output complaints,
      (runLines session lines whole).2 =
        (whole.add (encodeUtf8 prompt.toList) "").add output complaints ∧
      ((∀ line ∈ lines, GoesOn line) → output ≠ []) := by
  induction lines generalizing whole with
  | nil =>
      rw [runLines, h.write_eq]
      dsimp only
      rw [(h.add _ _).writeLine_eq]
      exact ⟨_, _, rfl, fun _ => encodeUtf8_ne_nil (by decide)⟩
  | cons line rest ih =>
      rw [runLines, h.write_eq]
      dsimp only
      have hprompt := h.add (encodeUtf8 prompt.toList) ""
      have hcode := answer_eq_none_iff session hprompt line
      obtain ⟨output, complaints, hanswer⟩ := exists_answer_eq session hprompt line
      rcases hline : answer session line (whole.add (encodeUtf8 prompt.toList) "") with
        ⟨_ | code, after⟩
      · rw [hline] at hanswer
        obtain rfl : after = _ := hanswer
        obtain ⟨more, others, hrest, -⟩ := ih (hprompt.add output complaints)
        dsimp only
        rw [hrest, add_add _ output, add_add _ (output ++ _)]
        refine ⟨_, _, rfl, fun _ => ?_⟩
        have hne : encodeUtf8 prompt.toList ≠ [] := encodeUtf8_ne_nil (by decide)
        simp [hne]
      · rw [hline] at hanswer hcode
        -- The session is over, which only some other line than one that goes on does.
        refine ⟨output, complaints, hanswer, fun hall => ?_⟩
        cases hcode.mpr (List.forall_mem_cons.mp hall).1

/-- What becomes of a line on both sides.  They part where the line is answered with
texts that do not fit. -/
inductive Answered (limit : Nat) : Option Nat × Terminal → Option Nat × Terminal → Prop
  | ended {whole cut : Terminal} (code : Nat) (cutAt : CutAt limit whole cut)
      (fits : whole.output.length ≤ limit) : Answered limit (some code, whole) (some code, cut)
  | goesOn {whole cut : Terminal} (cutAt : CutAt limit whole cut) :
      Answered limit (none, whole) (none, cut)
  | failed {whole cut : Terminal} (cutAt : CutAt limit whole cut)
      (full : limit < whole.output.length) : Answered limit (none, whole) (some 1, cut)

theorem Reports.answered {whole cut : Bool × Terminal} (h : Reports limit whole cut)
    (hwhole : whole.1 = true) : Answered limit (unlessFailed whole) (unlessFailed cut) := by
  obtain ⟨_ | _, whole⟩ := whole
  · cases hwhole
  obtain ⟨_ | _, cut⟩ := cut
  · exact .failed h.cutAt (not_le.mp fun hle => Bool.false_ne_true (h.success.mpr ⟨rfl, hle⟩))
  · exact .goesOn h.cutAt

theorem answered_answer (session : Session) (h : CutAt limit whole cut)
    (hfits : whole.output.length ≤ limit) (line : List UInt8) :
    Answered limit (answer session line whole) (answer session line cut) := by
  rw [answer, answer]
  cases decodeUtf8? line with
  | none => exact .ended 1 ((h.complain_left _).complain_right _) hfits
  | some text =>
      dsimp only
      split
      case h_1 => exact .goesOn h
      case h_2 => exact .ended 0 h hfits
      case h_3 => exact .ended 0 h hfits
      case h_4 => exact (reports_writeLine h promptHelp).answered (by rw [h.unlimited.writeLine_eq])
      case h_5 => exact (reports_writeLines h hfits _).answered (by rw [writeLines_eq h.unlimited])
      case h_6 =>
        cases splitStatements (String.ofList (trim text)) with
        | none => exact .ended abortCode h hfits
        | some statements => exact .goesOn (cutAt_explainAll h statements)

/-! ## Whole runs -/

/-- How a limited run ends, given how the other one does and whether that one reads its
input to the end. -/
structure Truncates (limit : Nat) (atEnd : Prop) (whole cut : Nat × Terminal) : Prop where
  cutAt : CutAt limit whole.2 cut.2
  same : whole.2.output.length ≤ limit → cut.1 = whole.1
  failed : limit < whole.2.output.length →
    ¬ (atEnd ∧ whole.2.output = cut.2.output ++ [10]) → cut.1 = 1
  unended : atEnd → whole.2.output = cut.2.output ++ [10] → cut.1 = 0

theorem Truncates.of_fits {atEnd : Prop} {code : Nat} (h : CutAt limit whole cut)
    (hfits : whole.output.length ≤ limit) (hend : ¬ atEnd) :
    Truncates limit atEnd (code, whole) (code, cut) :=
  ⟨h, fun _ => rfl, fun hfull => absurd hfits hfull.not_ge, fun h => absurd h hend⟩

/-- The limited run gives up after a write that did not fit.  The other one goes on; if
it reads its input to the end it writes more, so the limited run lacks two bytes at
least. -/
theorem Truncates.of_full {atEnd : Prop} {more : Nat × Terminal} (h : CutAt limit whole cut)
    (hfull : limit < whole.output.length) {output : List UInt8} {complaints : String}
    (hmore : more.2 = whole.add output complaints) (hend : atEnd → output ≠ []) :
    Truncates limit atEnd more (1, cut) := by
  have hlength : more.2.output.length = whole.output.length + output.length := by
    rw [hmore, length_add]
  refine ⟨hmore ▸ h.add hfull _ _, fun hfits => absurd hfits (by omega), fun _ _ => rfl, ?_⟩
  intro hread hlacks
  have hpos := List.length_pos_of_ne_nil (hend hread)
  rw [hlacks, List.length_append, h.length_eq hfull, List.length_singleton] at hlength
  omega

/-- An exit code says whether the last step succeeded. -/
theorem Reports.truncates {atEnd : Prop} {whole cut : Bool × Terminal}
    (h : Reports limit whole cut) (hend : ¬ atEnd) :
    Truncates limit atEnd (if whole.1 then 0 else 1, whole.2)
      (if cut.1 then 0 else 1, cut.2) := by
  refine ⟨h.cutAt, fun hfits => ?_, fun hfull _ => ?_, fun hread => absurd hread hend⟩
  · have hsame : cut.1 = whole.1 := Bool.eq_iff_iff.mpr (h.success.trans (and_iff_left hfits))
    rw [hsame]
  · exact if_neg fun hcut => absurd (h.success.mp hcut).2 hfull.not_ge

/-- A session is over if its prompt does not fit. -/
theorem truncates_of_full (h : CutAt limit whole cut) (lines : List (List UInt8))
    {after : Terminal} (hwrite : cut.write prompt = (false, after)) :
    Truncates limit (∀ line ∈ lines, GoesOn line) (runLines session lines whole)
      (runLines session lines cut) := by
  obtain ⟨hcut, hsuccess⟩ := h.write prompt (by decide)
  obtain ⟨output, complaints, hmore, hend⟩ := exists_runLines_eq session h.unlimited lines
  rw [hwrite] at hcut hsuccess
  have hfull := not_le.mp fun hle => Bool.false_ne_true (hsuccess.mpr hle)
  have hover : runLines session lines cut = (1, after) := by rw [runLines, hwrite]
  rw [hover]
  exact .of_full hcut hfull hmore hend

theorem truncates_runLines (h : CutAt limit whole cut) (lines : List (List UInt8)) :
    Truncates limit (∀ line ∈ lines, GoesOn line) (runLines session lines whole)
      (runLines session lines cut) := by
  induction lines generalizing whole cut with
  | nil =>
      obtain ⟨hcut, hsuccess⟩ := h.write prompt (by decide)
      rcases hwrite : cut.write prompt with ⟨_ | _, after⟩
      · exact truncates_of_full h [] hwrite
      rw [hwrite] at hcut hsuccess
      -- The prompt fits, and only the line feed may be lost: this is the end that goes
      -- unnoticed.
      have hfits := hsuccess.mp rfl
      obtain ⟨hend, -⟩ := reports_writeLine hcut ""
      rw [runLines, runLines, h.unlimited.write_eq, hwrite]
      dsimp only
      rw [hcut.unlimited.writeLine_eq] at hend ⊢
      refine ⟨hend, fun _ => rfl, fun hfull hlacks => ?_, fun _ _ => rfl⟩
      exact absurd ⟨List.forall_mem_nil _, hend.eq_append_lineFeed hfits rfl hfull⟩ hlacks
  | cons line rest ih =>
      obtain ⟨hcut, hsuccess⟩ := h.write prompt (by decide)
      rcases hwrite : cut.write prompt with ⟨_ | _, after⟩
      · exact truncates_of_full h (line :: rest) hwrite
      rw [hwrite] at hcut hsuccess
      -- The prompt fits, so both sessions give the same answer as far as it fits.
      have hline := answered_answer session hcut (hsuccess.mp rfl) line
      have hcode := answer_eq_none_iff session hcut.unlimited line
      rw [runLines, runLines, h.unlimited.write_eq, hwrite]
      dsimp only at hline ⊢
      generalize answer session line (whole.add (encodeUtf8 prompt.toList) "") = left at *
      generalize answer session line after = right at *
      cases hline with
      | ended code cutAt fits =>
          refine .of_fits cutAt fits fun hall => ?_
          cases hcode.mpr (List.forall_mem_cons.mp hall).1
      | goesOn cutAt =>
          rw [List.forall_mem_cons, and_iff_right (hcode.mp rfl)]
          exact ih cutAt
      | @failed more cut cutAt full =>
          -- Only the limited session stops here; the other one prints a prompt at least.
          obtain ⟨output, complaints, hmore, -⟩ :=
            exists_runLines_eq session cutAt.unlimited rest
          rw [add_add] at hmore
          refine .of_full cutAt full hmore fun _ => ?_
          have hne : encodeUtf8 prompt.toList ≠ [] := encodeUtf8_ne_nil (by decide)
          simp [hne]

/-! ## Full terminals -/

namespace Terminal

/-- No byte fits any more. -/
def Full (terminal : Terminal) : Prop :=
  terminal.room = some 0

variable {terminal : Terminal}

theorem full_of_write_eq_false {text : String} (h : (terminal.write text).1 = false) :
    (terminal.write text).2.Full := by
  rw [Terminal.write, writeBytes] at h ⊢
  cases hroom : terminal.room with
  | none =>
      rw [hroom] at h
      cases h
  | some room =>
      rw [hroom] at h
      have hlong : ¬ (encodeUtf8 text.toList).length ≤ room := of_decide_eq_false h
      exact congrArg some (Nat.sub_eq_zero_of_le (Nat.le_of_not_le hlong))

theorem Full.write_eq (h : terminal.Full) {text : String} (hne : text ≠ "") :
    terminal.write text = (false, terminal) := by
  obtain ⟨output, room, complaints⟩ := terminal
  obtain rfl : room = some 0 := h
  have hlong : ¬ (encodeUtf8 text.toList).length ≤ 0 :=
    not_le.mpr (List.length_pos_of_ne_nil (encodeUtf8_ne_nil hne))
  simp [Terminal.write, writeBytes, hlong]

end Terminal

variable {terminal : Terminal}

theorem explain_of_full (session : Session) (h : terminal.Full) (statement : String) :
    (explain session statement terminal).1 = false ∧
      (explain session statement terminal).2.output = terminal.output ∧
      (explain session statement terminal).2.Full := by
  rw [explain]
  cases compile session.planner session.catalog statement with
  | ok plan =>
      have hne : plan.render ++ "\n" ≠ "" := fun hnil =>
        absurd (String.append_eq_empty_iff.mp hnil).2 (by decide)
      dsimp only
      rw [writeLine, h.write_eq hne]
      exact ⟨rfl, rfl, h⟩
  | error error =>
      dsimp only
      cases error.hint? with
      | none => exact ⟨rfl, rfl, h⟩
      | some hint => exact ⟨rfl, rfl, h⟩

theorem explainAll_of_full (h : terminal.Full) (statements : List String) :
    (explainAll session statements terminal).2.output = terminal.output := by
  induction statements generalizing terminal with
  | nil => rfl
  | cons statement rest ih =>
      obtain ⟨-, houtput, hfull⟩ := explain_of_full session h statement
      exact (ih hfull).trans houtput

theorem runLines_of_full (h : terminal.Full) (lines : List (List UInt8)) :
    runLines session lines terminal = (1, terminal) := by
  rw [runLines, h.write_eq (by decide)]

/-! ## Runs with and without a limit -/

/-- The run is a session over lines of input, none of which ends it. -/
def ReadsToEnd (surroundings : Surroundings) : Prop :=
  ∃ config session, surroundings.task = .ok (.explain config none) ∧
    openSession surroundings.files config = .ok session ∧
    ∀ line ∈ inputLines surroundings.input, GoesOn line

theorem not_readsToEnd {surroundings : Surroundings}
    (h : ∀ config, surroundings.task ≠ .ok (.explain config none)) :
    ¬ ReadsToEnd surroundings := by
  rintro ⟨config, _, htask, -⟩
  exact h config htask

theorem truncates_runCommand (h : CutAt limit whole cut) (hfits : whole.output.length ≤ limit)
    {atEnd : Prop} (hend : ¬ atEnd) (command : String) :
    Truncates limit atEnd (runCommand session command whole) (runCommand session command cut) := by
  rw [runCommand, runCommand]
  cases splitStatements command with
  | none => exact .of_fits h hfits hend
  | some statements => exact (reports_explainAll h hfits statements).truncates hend

/-- A session that is opened explains a command, or it reads lines to their end. -/
theorem truncates_run_of_session {surroundings : Surroundings} (limit : Nat)
    {config? command? : Option String}
    (htask : surroundings.task = .ok (.explain config? command?))
    (hsession : openSession surroundings.files config? = .ok session) :
    Truncates limit (ReadsToEnd surroundings) (run { surroundings with room := none })
      (run { surroundings with room := some limit }) := by
  cases command? with
  | some command =>
      have hend : ¬ ReadsToEnd surroundings := not_readsToEnd (by simp [htask])
      rw [run_of_over (opening_of_command { surroundings with room := none } htask hsession),
        run_of_over (opening_of_command { surroundings with room := some limit } htask hsession)]
      exact truncates_runCommand (cutAt_empty limit) (Nat.zero_le _) hend command
  | none =>
      have hend : ReadsToEnd surroundings ↔
          ∀ line ∈ inputLines surroundings.input, GoesOn line := by
        constructor
        · rintro ⟨_, _, -, -, hlines⟩
          exact hlines
        · exact fun hlines => ⟨config?, session, htask, hsession, hlines⟩
      rw [hend, run_of_lines { surroundings with room := none } htask hsession,
        run_of_lines { surroundings with room := some limit } htask hsession]
      exact truncates_runLines (cutAt_empty limit) _

theorem truncates_run (surroundings : Surroundings) (limit : Nat) :
    Truncates limit (ReadsToEnd surroundings) (run { surroundings with room := none })
      (run { surroundings with room := some limit }) := by
  have hstart := cutAt_empty limit
  -- Neither the arguments nor the configuration depend on the limit, so both runs start alike.
  cases htask : surroundings.task with
  | error complaint =>
      have hend : ¬ ReadsToEnd surroundings := not_readsToEnd (by simp [htask])
      rw [run_of_over (opening_of_error { surroundings with room := none } htask),
        run_of_over (opening_of_error { surroundings with room := some limit } htask)]
      exact .of_fits ((hstart.complain_left _).complain_right _) (Nat.zero_le _) hend
  | ok task =>
      cases task with
      | help =>
          have hend : ¬ ReadsToEnd surroundings := not_readsToEnd (by simp [htask])
          rw [run_of_over (opening_of_help { surroundings with room := none } htask),
            run_of_over (opening_of_help { surroundings with room := some limit } htask)]
          exact (reports_writeLine hstart usage).truncates hend
      | explain config? command? =>
          cases hsession : openSession surroundings.files config? with
          | error error =>
              have hend : ¬ ReadsToEnd surroundings := by
                rintro ⟨_, _, hexplain, hopen, -⟩
                cases htask.symm.trans hexplain
                cases hsession.symm.trans hopen
              rw [run_of_over
                  (opening_of_unreadable { surroundings with room := none } htask hsession),
                run_of_over
                  (opening_of_unreadable { surroundings with room := some limit } htask hsession)]
              exact .of_fits ((hstart.complain_left _).complain_right _) (Nat.zero_le _) hend
          | ok session => exact truncates_run_of_session limit htask hsession

/-- Of the output of a run, a terminal with a limit stores the front:

* If all of the output fits, the exit code is the same.
* If it does not, the exit code is 1, except for a session that reads its input to the
  end and lacks nothing but the line feed behind its last prompt: this one ends well.
* After a write that fails, whatever the session is asked next adds nothing to the
  output: no plan counts as printed, and the session ends at its next prompt. -/
theorem run_cut_off (surroundings : Surroundings) (limit : Nat) :
    let whole := run { surroundings with room := none }
    let cut := run { surroundings with room := some limit }
    let lacksLineFeed := ReadsToEnd surroundings ∧ whole.2.output = cut.2.output ++ [10]
    cut.2.output = whole.2.output.take limit ∧
      (whole.2.output.length ≤ limit → cut.1 = whole.1) ∧
      (limit < whole.2.output.length → ¬ lacksLineFeed → cut.1 = 1) ∧
      (lacksLineFeed → cut.1 = 0) ∧
      ∀ (terminal : Terminal) (text : String), (terminal.write text).1 = false →
        let after := (terminal.write text).2
        ∀ session : Session,
          (∀ statement, (explain session statement after).1 = false) ∧
          (∀ statements, (explainAll session statements after).2.output = after.output) ∧
          ∀ lines, runLines session lines after = (1, after) := by
  intro whole cut lacksLineFeed
  -- The relation of the two runs holds all but what follows a failed write.
  obtain ⟨hcut, hsame, hfailed, hunended⟩ := truncates_run surroundings limit
  refine ⟨hcut.output, hsame, hfailed, fun hlacks => hunended hlacks.1 hlacks.2, ?_⟩
  intro terminal text hfails after session
  have hfull : after.Full := full_of_write_eq_false hfails
  exact ⟨fun statement => (explain_of_full session hfull statement).1, explainAll_of_full hfull,
    runLines_of_full hfull⟩

/-- Two statements, where the limit falls into the second plan; and a session without
input, where the limit falls into the prompt, before the line feed, or behind it. -/
theorem run_cut_off_midway :
    let config : Config := { relations := [{ name := "t", columns := .ofList [{ name := "a" }] }] }
    let surroundings : Surroundings :=
      { arguments := ["--config", "t.json"].map fun argument => encodeUtf8 argument.toList
        levelFault? := fun _ => none
        files := fun path =>
          if path = encodeUtf8 "t.json".toList then
            some (encodeUtf8 (Json.encode Config.toJson config).toList)
          else none }
    let explaining :=
      surroundings.withCommand (encodeUtf8 "SELECT a FROM t; SELECT a FROM t".toList)
    let whole := run { explaining with room := none }
    let cut := run { explaining with room := some 32 }
    let silent : Surroundings := { arguments := [], levelFault? := fun _ => none }
    let idle := fun limit => run { silent with room := limit }
    whole.1 = 0 ∧ whole.2.output.length = 58 ∧
      cut.1 = 1 ∧
      cut.2.output = encodeUtf8 "Projection(a)\n  TableScan(t)\nPro".toList ∧
      (idle none).1 = 0 ∧ (idle none).2.output = encodeUtf8 "relq> \n".toList ∧
      (idle (some 3)).1 = 1 ∧ (idle (some 3)).2.output = encodeUtf8 "rel".toList ∧
      (idle (some 6)).1 = 0 ∧ (idle (some 6)).2.output = encodeUtf8 "relq> ".toList ∧
      (idle (some 7)).1 = 0 ∧ (idle (some 7)).2.output = encodeUtf8 "relq> \n".toList ∧
      let after := (Terminal.write { room := some 3 } prompt).2
      (explain (.ofConfig config) "SELECT a FROM t" after).1 = false := by
  intro config surroundings explaining whole cut silent idle
  have htask : surroundings.task = .ok (.explain (some "t.json") none) := by
    decide +kernel
  have hsession : openSession surroundings.files (some "t.json") = .ok (.ofConfig config) :=
    openSession_encode config rfl
  have hwhole : whole = runCommand (.ofConfig config) "SELECT a FROM t; SELECT a FROM t" {} := by
    have hrun := @run_withCommand { surroundings with room := none } _ _ htask hsession
      (encodeUtf8 "SELECT a FROM t; SELECT a FROM t".toList)
    rwa [decodeLossy_encodeUtf8, String.ofList_toList] at hrun
  have houtput : whole.2.output = encodeUtf8
      ("Projection(a)\n  TableScan(t)\n" ++ "Projection(a)\n  TableScan(t)\n").toList := by
    rw [hwhole]
    decide +kernel
  have hidle : (idle none).2.output = encodeUtf8 "relq> \n".toList := by decide +kernel
  have hread : ReadsToEnd silent :=
    ⟨none, .ofConfig {}, by decide +kernel, rfl, List.forall_mem_nil _⟩
  have hlength : whole.2.output.length = 58 := by
    rw [houtput]
    decide +kernel
  obtain ⟨hfront, -, hfailed, -, hafter⟩ := run_cut_off explaining 32
  have hcut : cut.2.output = encodeUtf8 "Projection(a)\n  TableScan(t)\nPro".toList := by
    rw [hfront, houtput]
    decide +kernel
  -- The limits fall into the prompt, behind it, and behind the line feed.
  have hfronts : ∀ limit,
      (idle (some limit)).2.output = (encodeUtf8 "relq> \n".toList).take limit := by
    intro limit
    rw [← hidle]
    exact (run_cut_off silent limit).1
  obtain ⟨-, -, hfailed₃, -, -⟩ := run_cut_off silent 3
  obtain ⟨-, -, -, hlacks₆, -⟩ := run_cut_off silent 6
  obtain ⟨-, hsame₇, -, -, -⟩ := run_cut_off silent 7
  refine ⟨by rw [hwhole]; decide +kernel, hlength, ?_, hcut, rfl, hidle, ?_,
    (hfronts 3).trans (by decide +kernel), ?_, (hfronts 6).trans (by decide +kernel),
    hsame₇ (by rw [hidle]; decide +kernel), (hfronts 7).trans (by decide +kernel),
    (hafter { room := some 3 } prompt (by decide +kernel) _).1 _⟩
  · refine hfailed (by rw [hlength]; decide) fun hlacks => ?_
    have hone := congrArg List.length hlacks.2
    rw [hlength, hcut] at hone
    exact absurd hone (by decide +kernel)
  · refine hfailed₃ (by rw [hidle]; decide +kernel) fun hlacks => ?_
    have hone := hlacks.2
    rw [hidle, hfronts 3] at hone
    exact absurd hone (by decide +kernel)
  · refine hlacks₆ ⟨hread, ?_⟩
    rw [hidle, hfronts 6]
    decide +kernel

end SelectPlan.Shell
