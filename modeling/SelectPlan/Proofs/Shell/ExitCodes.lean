import SelectPlan.Proofs.Shell.Truncation

/-!
# Exit codes

The exit code of a run comes from the first of its steps that fails: 2 from the arguments,
3 from the configuration, 1 from the statements of the command or from a line of the input
that is not UTF-8.  A call for help ends the run well before any file is looked at.  A run
that fails before its statements writes nothing and reads no input (`exit_codes`).

Two things are out of the ordinary (`unexpected_exit_codes`).  A file is asked for by the
text of an argument, so one whose name is not UTF-8 is not found.  And a text that is too
long for spans may not be split at all, which aborts the run.

## Strategy

The arguments settle the task of a run (`task_eq_error_iff`), the task settles how it
starts, and each start has its exit codes: `exitCode_of_openSession` for a configuration
that cannot be read, `runCommand_exit` for a command, and for lines `runLines_exit`, by
induction on the lines with what one line does (`answer_exit`).
-/

namespace SelectPlan.Shell

open Text

/-! ## Arguments -/

/-- The arguments cannot be read, or they give a log level that is wrong and do not call
for help. -/
def Refused (surroundings : Surroundings) : Prop :=
  (∃ error, Options.ofBytes surroundings.arguments = .error error) ∨
    ∃ options level, Options.ofBytes surroundings.arguments = .ok options ∧
      options.help = false ∧ options.logLevel = some level ∧
      (surroundings.levelFault? level).isSome = true

theorem task_eq_error_iff {surroundings : Surroundings} :
    (∃ complaint, surroundings.task = .error complaint) ↔ Refused surroundings := by
  rw [Surroundings.task, Task.ofArguments, Refused]
  cases Options.ofBytes surroundings.arguments with
  | error error => simp
  | ok options =>
      obtain ⟨command, config, logLevel, help⟩ := options
      cases help with
      | true => simp
      | false =>
          cases logLevel with
          | none => simp
          | some level => cases hfault : surroundings.levelFault? level <;> simp [hfault]

theorem task_of_help {surroundings : Surroundings} {options : Options}
    (h : Options.ofBytes surroundings.arguments = .ok options) (hhelp : options.help = true) :
    surroundings.task = .ok .help := by
  rw [Surroundings.task, Task.ofArguments, h]
  exact if_pos hhelp

theorem task_of_not_refused {surroundings : Surroundings} {options : Options}
    (h : Options.ofBytes surroundings.arguments = .ok options) (hhelp : options.help = false)
    (haccepted : ¬ Refused surroundings) :
    surroundings.task = .ok (.explain options.config options.command) := by
  refine ofArguments_eq_explain_iff.mpr ⟨options, h, hhelp, ?_, rfl, rfl⟩
  rw [Option.bind_eq_none_iff]
  intro level hlevel
  rw [Option.map_eq_none_iff, ← Option.not_isSome_iff_eq_none]
  exact fun hfault => haccepted (.inr ⟨options, level, h, hhelp, hlevel, hfault⟩)

theorem not_refused {surroundings : Surroundings} {options : Options}
    (h : Options.ofBytes surroundings.arguments = .ok options)
    (hright : ∀ level ∈ options.logLevel, surroundings.levelFault? level = none) :
    ¬ Refused surroundings := by
  rintro (⟨error, herror⟩ | ⟨other, level, hother, -, hlevel, hfault⟩)
  · cases h.symm.trans herror
  · obtain rfl := Except.ok.inj (h.symm.trans hother)
    rw [hright level hlevel] at hfault
    cases hfault

/-! ## Configurations -/

/-- The configuration of a run: that of the file with the bytes of a text as its name, or
an empty one. -/
def Configured (files : List UInt8 → Option (List UInt8)) : Option String → Config → Prop
  | none, config => config = {}
  | some path, config =>
    ∃ text, files (encodeUtf8 path.toList) = some (encodeUtf8 text) ∧
      Config.ofText (String.ofList text) = .ok config

theorem exitCode_of_readConfig {path : String} {content : Option (List UInt8)} {error : Error}
    (h : readConfig path content = .error error) : error.exitCode = 3 := by
  unfold readConfig at h
  split at h
  case h_1 =>
    cases h
    rfl
  split at h
  case h_1 =>
    cases h
    rfl
  rename_i text _
  -- A text is refused with one error only, so the last branch is never reached.
  have hkind : ∀ error, Config.ofText (String.ofList text) = .error error →
      error = .configuration Config.malformedDetail := by
    intro error herror
    rw [Config.ofText] at herror
    split at herror
    · cases herror
    · cases herror
      rfl
  split at h
  case h_1 => cases h
  case h_2 =>
    cases h
    rfl
  case h_3 hother herror => exact absurd (hkind _ herror) (hother _)

theorem readConfig_eq_ok_iff {path : String} {content : Option (List UInt8)} {config : Config} :
    readConfig path content = .ok config ↔
      ∃ text, content = some (encodeUtf8 text) ∧
        Config.ofText (String.ofList text) = .ok config := by
  constructor
  · intro h
    unfold readConfig at h
    split at h
    case h_1 => cases h
    split at h
    case h_1 => cases h
    rename_i text htext
    split at h
    case h_1 found hfound =>
      cases h
      exact ⟨text, congrArg some (decodeUtf8?_eq_some_iff.mp htext), hfound⟩
    case h_2 => cases h
    case h_3 => cases h
  · rintro ⟨text, rfl, hconfig⟩
    simp only [readConfig, decodeUtf8?_encodeUtf8, hconfig]

theorem openSession_eq_ok_iff {files : List UInt8 → Option (List UInt8)}
    {path? : Option String} {session : Session} :
    openSession files path? = .ok session ↔
      ∃ config, Configured files path? config ∧ session = .ofConfig config := by
  cases path? with
  | none =>
      rw [openSession]
      simp [Configured, eq_comm]
  | some path =>
      rw [openSession]
      cases hread : readConfig path (files (encodeUtf8 path.toList)) with
      | error error =>
          refine iff_of_false (fun h => by cases h) ?_
          rintro ⟨config, hconfig, -⟩
          cases hread.symm.trans (readConfig_eq_ok_iff.mpr hconfig)
      | ok config =>
          -- The file has been read, and no other configuration comes of it.
          have hconfig : Configured files (some path) config := readConfig_eq_ok_iff.mp hread
          constructor
          · rintro ⟨⟩
            exact ⟨config, hconfig, rfl⟩
          · rintro ⟨other, hother, rfl⟩
            obtain rfl := Except.ok.inj (hread.symm.trans (readConfig_eq_ok_iff.mpr hother))
            rfl

/-- A run has one configuration at most. -/
theorem Configured.unique {files : List UInt8 → Option (List UInt8)} {path? : Option String}
    {config other : Config} (h : Configured files path? config)
    (h' : Configured files path? other) : config = other := by
  cases path? with
  | none => exact h.trans (Eq.symm h')
  | some path =>
      have hread := (@readConfig_eq_ok_iff path _ _).mpr h
      exact Except.ok.inj (hread.symm.trans (readConfig_eq_ok_iff.mpr h'))

theorem exitCode_of_openSession {files : List UInt8 → Option (List UInt8)}
    {path? : Option String} {error : Error} (h : openSession files path? = .error error) :
    error.exitCode = 3 := by
  cases path? with
  | none => cases h
  | some path =>
      rw [openSession] at h
      cases hread : readConfig path (files (encodeUtf8 path.toList)) with
      | error error' =>
          rw [hread] at h
          cases h
          exact exitCode_of_readConfig hread
      | ok config =>
          rw [hread] at h
          cases h

/-! ## Lines -/

/-- A line of this kind is read: none in front of it ends the session. -/
def Reads (kind : List UInt8 → Prop) (lines : List (List UInt8)) : Prop :=
  ∃ front line back, lines = front ++ line :: back ∧ (∀ earlier ∈ front, GoesOn earlier) ∧
    kind line

theorem reads_cons {kind : List UInt8 → Prop} {line : List UInt8} {rest : List (List UInt8)} :
    Reads kind (line :: rest) ↔ kind line ∨ (GoesOn line ∧ Reads kind rest) := by
  constructor
  · rintro ⟨front, found, back, hlines, hfront, hfound⟩
    cases front with
    | nil =>
        obtain ⟨rfl, rfl⟩ := List.cons.inj hlines
        exact .inl hfound
    | cons first front =>
        obtain ⟨rfl, rfl⟩ := List.cons.inj hlines
        obtain ⟨hfirst, hfront⟩ := List.forall_mem_cons.mp hfront
        exact .inr ⟨hfirst, front, found, back, rfl, hfront, hfound⟩
  · rintro (hfound | ⟨hgoes, front, found, back, rfl, hfront, hfound⟩)
    · exact ⟨[], line, rest, rfl, List.forall_mem_nil _, hfound⟩
    · exact ⟨line :: front, found, back, rfl, List.forall_mem_cons.mpr ⟨hgoes, hfront⟩, hfound⟩

theorem not_reads_nil {kind : List UInt8 → Prop} : ¬ Reads kind [] := by
  rintro ⟨front, line, back, hlines, -⟩
  simp at hlines

/-- The line is no text. -/
def Undecodable (line : List UInt8) : Prop :=
  ∀ text, line ≠ encodeUtf8 text

/-- The line is a text that cannot be split. -/
def Unsplit (line : List UInt8) : Prop :=
  ∃ text, line = encodeUtf8 text ∧ splitStatements (String.ofList (trim text)) = none

theorem undecodable_iff {line : List UInt8} : Undecodable line ↔ decodeUtf8? line = none := by
  rw [← Option.not_isSome_iff_eq_none, Option.isSome_iff_exists]
  simp only [decodeUtf8?_eq_some_iff, not_exists]
  rfl

theorem unsplit_iff {line : List UInt8} {text : List Char} (h : decodeUtf8? line = some text) :
    Unsplit line ↔ splitStatements (String.ofList (trim text)) = none := by
  constructor
  · rintro ⟨other, hline, hsplit⟩
    obtain rfl := Option.some.inj (h.symm.trans (decodeUtf8?_eq_some_iff.mpr hline))
    exact hsplit
  · exact fun hsplit => ⟨text, decodeUtf8?_eq_some_iff.mp h, hsplit⟩

/-- A line that goes on is a text that can be split. -/
theorem GoesOn.ordinary {line : List UInt8} (h : GoesOn line) :
    ¬ Undecodable line ∧ ¬ Unsplit line := by
  obtain ⟨text, htext, -, -, hsplit⟩ := h
  rw [undecodable_iff, unsplit_iff htext]
  exact ⟨by simp [htext], hsplit⟩

/-- How what is explained ends: badly, in an abort, or well. -/
structure EndsBy (fails aborts : Prop) (code : Nat) : Prop where
  failed : fails → code = 1
  aborted : aborts → code = abortCode
  fine : ¬ fails → ¬ aborts → code = 0

theorem EndsBy.code_cases {fails aborts : Prop} {code : Nat} (h : EndsBy fails aborts code) :
    code = 0 ∨ code = 1 ∨ code = abortCode := by
  by_cases hfails : fails
  · exact .inr (.inl (h.failed hfails))
  by_cases haborts : aborts
  · exact .inr (.inr (h.aborted haborts))
  · exact .inl (h.fine hfails haborts)

theorem EndsBy.congr {fails aborts fails' aborts' : Prop} {code : Nat}
    (h : EndsBy fails aborts code) (hfails : fails' ↔ fails) (haborts : aborts' ↔ aborts) :
    EndsBy fails' aborts' code := by
  rwa [hfails, haborts]

variable {session : Session} {terminal : Terminal}

/-- A line that ends the session ends it by what is wrong with it, and well if nothing
is. -/
theorem answer_exit (h : terminal.Unlimited) {line : List UInt8} {code : Nat}
    (hcode : (answer session line terminal).1 = some code) :
    EndsBy (Undecodable line) (Unsplit line) code := by
  rw [answer] at hcode
  cases hread : decodeUtf8? line with
  | none =>
      rw [hread] at hcode
      obtain rfl := Option.some.inj hcode
      have hbad : Undecodable line := undecodable_iff.mpr hread
      refine ⟨fun _ => rfl, ?_, fun hgood => absurd hbad hgood⟩
      rintro ⟨text, hline, -⟩
      exact absurd hline (hbad text)
  | some text =>
      rw [hread] at hcode
      have hgood : ¬ Undecodable line := by simp [undecodable_iff, hread]
      rw [unsplit_iff hread]
      -- The commands that leave the session are texts that can be split.
      have hleaves : ∀ {command : String}, String.ofList (trim text) = command →
          splitStatements command ≠ none →
          EndsBy (Undecodable line) (splitStatements (String.ofList (trim text)) = none) 0 :=
        fun hline hsplits =>
          ⟨fun hbad => absurd hbad hgood, fun hnone => absurd (hline ▸ hnone) hsplits,
            fun _ _ => rfl⟩
      dsimp only at hcode
      split at hcode
      case h_2 hline =>
        obtain rfl := Option.some.inj hcode
        exact hleaves hline (by decide +kernel)
      case h_3 hline =>
        obtain rfl := Option.some.inj hcode
        exact hleaves hline (by decide +kernel)
      case h_4 =>
        rw [h.writeLine_eq] at hcode
        cases hcode
      case h_5 =>
        rw [writeLines_eq h] at hcode
        cases hcode
      case h_6 =>
        -- Only a text that cannot be split ends the session here.
        cases hsplit : splitStatements (String.ofList (trim text)) with
        | none =>
            rw [hsplit] at hcode
            obtain rfl := Option.some.inj hcode
            exact ⟨fun hbad => absurd hbad hgood, fun _ => rfl, fun _ hsplits => absurd rfl hsplits⟩
        | some statements =>
            rw [hsplit] at hcode
            cases hcode
      case h_1 => cases hcode

/-- A session over lines ends by the first line that it reads and that is not UTF-8 or
cannot be split, and well if there is none. -/
theorem runLines_exit (h : terminal.Unlimited) (lines : List (List UInt8)) :
    EndsBy (Reads Undecodable lines) (Reads Unsplit lines)
      (runLines session lines terminal).1 := by
  induction lines generalizing terminal with
  | nil =>
      rw [runLines, h.write_eq]
      exact ⟨fun hbad => absurd hbad not_reads_nil, fun hbad => absurd hbad not_reads_nil,
        fun _ _ => rfl⟩
  | cons line rest ih =>
      have hprompt := h.add (encodeUtf8 prompt.toList) ""
      have hgoes := answer_eq_none_iff session hprompt line
      obtain ⟨output, complaints, hanswer⟩ := exists_answer_eq session hprompt line
      rw [runLines, h.write_eq]
      dsimp only
      rcases hline : answer session line (terminal.add (encodeUtf8 prompt.toList) "") with
        ⟨_ | code, after⟩
      · -- The line is an ordinary one, so the others decide.
        rw [hline] at hgoes hanswer
        have hon : GoesOn line := hgoes.mp rfl
        obtain rfl : after = _ := hanswer
        refine (ih (hprompt.add output complaints)).congr ?_ ?_
        · rw [reads_cons, and_iff_right hon, or_iff_right hon.ordinary.1]
        · rw [reads_cons, and_iff_right hon, or_iff_right hon.ordinary.2]
      · -- The session is over, and no other line is read.
        have hexit := answer_exit hprompt (congrArg Prod.fst hline)
        rw [hline] at hgoes
        have hover : ¬ GoesOn line := fun hon => by cases hgoes.mpr hon
        refine hexit.congr ?_ ?_
        · rw [reads_cons, or_iff_left fun hrest => hover hrest.1]
        · rw [reads_cons, or_iff_left fun hrest => hover hrest.1]

/-- A command ends by a statement that has no plan, or by itself if it cannot be split. -/
theorem runCommand_exit (h : terminal.Unlimited) (command : String) :
    EndsBy
      (∃ pieces, splitStatements command = some pieces ∧ ∃ piece ∈ pieces,
        ∀ plan, compile session.planner session.catalog piece ≠ .ok plan)
      (splitStatements command = none) (runCommand session command terminal).1 := by
  cases hsplit : splitStatements command with
  | none =>
      rw [runCommand, hsplit]
      refine ⟨?_, fun _ => rfl, fun _ hsplits => absurd rfl hsplits⟩
      rintro ⟨pieces, hpieces, -⟩
      cases hpieces
  | some pieces =>
      have hall : pieces.all session.accepts = true ↔
          ¬ ∃ piece ∈ pieces, ∀ plan, compile session.planner session.catalog piece ≠ .ok plan := by
        rw [List.all_eq_true]
        push Not
        exact forall₂_congr fun piece _ => Session.accepts_iff
      rw [runCommand_eq h hsplit]
      refine ⟨?_, fun hnone => absurd hnone (Option.some_ne_none pieces), fun hnone _ => ?_⟩
      · rintro ⟨others, hothers, hfails⟩
        obtain rfl := Option.some.inj hothers
        exact if_neg fun haccepts => hall.mp haccepts hfails
      · exact if_pos (hall.mpr fun hfails => hnone ⟨pieces, rfl, hfails⟩)

/-! ## A line that aborts the run -/

theorem inputLines_of_not_mem {line : List UInt8} (hne : line ≠ []) (hfeed : 10 ∉ line) :
    inputLines line = [line] := by
  have h := inputLines_append hne hfeed []
  rwa [List.append_nil, inputLines, List.headD_nil, List.append_nil, List.tail_nil] at h

theorem byteLength_replicate (count : Nat) (c : Char) :
    byteLength (List.replicate count c) = count * c.utf8Size := by
  induction count with
  | zero => rw [List.replicate_zero, byteLength_nil, Nat.zero_mul]
  | succ count ih => rw [List.replicate_succ, byteLength_cons, ih, Nat.succ_mul, Nat.add_comm]

/-- A line of letters of two bytes and a semicolon cannot be split if the last offset of
spans is inside the last letter. -/
theorem unsplit_letters {count : Nat} (hcount : Span.lastOffset = 2 * count + 1) :
    Unsplit (encodeUtf8 (List.replicate (count + 1) 'é' ++ [';'])) := by
  have hletter : isBlank 'é' = false := by decide +kernel
  have hsemicolon : isBlank ';' = false := by decide
  have htrim : trim (List.replicate (count + 1) 'é' ++ [';']) =
      List.replicate (count + 1) 'é' ++ [';'] := by
    rw [List.replicate_succ, List.cons_append, trim_cons hletter,
      trimEnd_append_singleton _ hsemicolon]
  -- In front of the last letter there are `count` letters of two bytes, which is one byte less
  -- than the last offset.
  have hbody : Body (List.replicate count 'é' ++ 'é' :: []) := by
    refine body_of_forall fun c hmem => ?_
    rw [← List.replicate_succ'] at hmem
    rw [List.eq_of_mem_replicate hmem]
    decide
  have hsize : 'é'.utf8Size = 2 := by decide
  refine ⟨_, rfl, ?_⟩
  rw [htrim, List.replicate_succ']
  refine splitStatements_eq_none hbody ?_ ?_
  · rw [byteLength_replicate, hsize, hcount]
    omega
  · rw [byteLength_replicate, hsize, hcount]
    omega

theorem run_of_long_line (count : Nat) (hcount : Span.lastOffset = 2 * count + 1) :
    (run { arguments := [], levelFault? := fun _ => none,
           input := encodeUtf8 (List.replicate (count + 1) 'é' ++ [';']) }).1 = abortCode := by
  -- The input is one line, as no byte of it is a line feed.
  have hfeed : 10 ∉ encodeUtf8 (List.replicate (count + 1) 'é' ++ [';']) := by
    intro hmem
    obtain ⟨c, hc, hbyte⟩ := List.mem_flatMap.mp hmem
    obtain ⟨rfl, -⟩ := eq_lineFeed_of_mem hbyte
    rcases List.mem_append.mp hc with hletter | hsemicolon
    · exact absurd (List.eq_of_mem_replicate hletter) (by decide)
    · exact absurd hsemicolon (by decide)
  have hne : encodeUtf8 (List.replicate (count + 1) 'é' ++ [';']) ≠ [] := by
    rw [encodeUtf8_append]
    exact List.append_ne_nil_of_right_ne_nil _ (by decide)
  rw [@run_of_lines _ none (.ofConfig {}) rfl rfl]
  refine (runLines_exit Terminal.unlimited_empty _).aborted ?_
  rw [inputLines_of_not_mem hne hfeed]
  exact ⟨[], _, [], rfl, List.forall_mem_nil _, unsplit_letters hcount⟩

/-! ## Runs -/

namespace Surroundings

/-- A statement of the command has no plan over the configuration, or without a command a
line is read that is not UTF-8. -/
def FailsOver (surroundings : Surroundings) (config : Config) : Option String → Prop
  | some command => ∃ pieces, splitStatements command = some pieces ∧ ∃ piece ∈ pieces,
      ∀ plan, compile config.planner config.catalog piece ≠ .ok plan
  | none => Reads Undecodable (inputLines surroundings.input)

/-- The command cannot be split, or without a command a line is read that cannot. -/
def Aborts (surroundings : Surroundings) : Option String → Prop
  | some command => splitStatements command = none
  | none => Reads Unsplit (inputLines surroundings.input)

variable {surroundings : Surroundings}

/-- Texts whose offsets spans can hold are split. -/
theorem not_aborts {command? : Option String}
    (hcommand : ∀ command, command? = some command → command.utf8ByteSize ≤ Span.lastOffset)
    (hlines : ∀ line ∈ inputLines surroundings.input, line.length ≤ Span.lastOffset) :
    ¬ surroundings.Aborts command? := by
  cases command? with
  | some command =>
      rw [Aborts, splitStatements_eq (hcommand command rfl)]
      exact Option.some_ne_none _
  | none =>
      rintro ⟨front, line, back, hinput, -, text, rfl, hsplit⟩
      have hshort := hlines (encodeUtf8 text) (by simp [hinput])
      rw [length_encodeUtf8] at hshort
      rw [splitStatements_trim hshort] at hsplit
      cases hsplit

/-- The run ends with an error before it writes or reads anything. -/
def EndsEarly (surroundings : Surroundings) (code : Nat) : Prop :=
  ∃ complaint, ∀ input, opening { surroundings with input } =
    .over code (Terminal.complain { room := surroundings.room } complaint)

theorem EndsEarly.run_eq {code : Nat} (h : surroundings.EndsEarly code) :
    (run surroundings).1 = code ∧ (run surroundings).2.output = [] ∧
      ∀ input, opening { surroundings with input } =
        .over (run surroundings).1 (run surroundings).2 := by
  obtain ⟨complaint, hopening⟩ := h
  rw [run_of_over (hopening surroundings.input)]
  exact ⟨rfl, rfl, hopening⟩

theorem endsEarly_of_refused (h : Refused surroundings) : surroundings.EndsEarly 2 := by
  obtain ⟨complaint, htask⟩ := task_eq_error_iff.mpr h
  exact ⟨complaint, fun input => opening_of_error { surroundings with input } htask⟩

theorem run_of_help (hroom : surroundings.room = none) (h : surroundings.task = .ok .help) :
    (run surroundings).1 = 0 := by
  rw [run_of_over (opening_of_help _ h), hroom, Terminal.unlimited_empty.writeLine_eq]
  rfl

/-- A run that explains fails for its configuration or for what it explains. -/
theorem run_of_explain (hroom : surroundings.room = none) {config? command? : Option String}
    (h : surroundings.task = .ok (.explain config? command?)) :
    (surroundings.EndsEarly 3 ∧
      ∀ config, ¬ Configured surroundings.files config? config) ∨
    ∃ config, Configured surroundings.files config? config ∧
      EndsBy (surroundings.FailsOver config command?) (surroundings.Aborts command?)
        (run surroundings).1 := by
  cases hsession : openSession surroundings.files config? with
  | error error =>
      refine .inl ⟨⟨"error: " ++ error.message, fun input => ?_⟩, fun config hconfig => ?_⟩
      · rw [opening_of_unreadable { surroundings with input } h hsession,
          exitCode_of_openSession hsession]
      · cases hsession.symm.trans (openSession_eq_ok_iff.mpr ⟨config, hconfig, rfl⟩)
  | ok session =>
      obtain ⟨config, hconfig, rfl⟩ := openSession_eq_ok_iff.mp hsession
      refine .inr ⟨config, hconfig, ?_⟩
      cases command? with
      | some command =>
          rw [run_of_over (opening_of_command _ h hsession), hroom]
          exact @runCommand_exit (.ofConfig config) {} Terminal.unlimited_empty command
      | none =>
          rw [run_of_lines _ h hsession, hroom]
          exact @runLines_exit (.ofConfig config) {} Terminal.unlimited_empty
            (inputLines surroundings.input)

/-- A run is refused for its arguments, or for its configuration, or it explains. -/
theorem run_cases (hroom : surroundings.room = none) :
    (Refused surroundings ∧ surroundings.EndsEarly 2) ∨
      (¬ Refused surroundings ∧ (surroundings.EndsEarly 3 ∨ (run surroundings).1 = 0 ∨
        (run surroundings).1 = 1 ∨ (run surroundings).1 = abortCode)) := by
  by_cases hrefused : Refused surroundings
  · exact .inl ⟨hrefused, endsEarly_of_refused hrefused⟩
  refine .inr ⟨hrefused, ?_⟩
  cases hoptions : Options.ofBytes surroundings.arguments with
  | error error => exact absurd (.inl ⟨error, hoptions⟩) hrefused
  | ok options =>
      cases hhelp : options.help with
      | true => exact .inr (.inl (run_of_help hroom (task_of_help hoptions hhelp)))
      | false =>
          rcases run_of_explain hroom (task_of_not_refused hoptions hhelp hrefused) with
            ⟨hearly, -⟩ | ⟨config, -, hends⟩
          · exact .inl hearly
          · exact .inr hends.code_cases

end Surroundings

/-- The condition decides between the exit codes 1 and 0. -/
def FailsJust (code : Nat) (condition : Prop) : Prop :=
  (condition → code = 1) ∧ (¬ condition → code = 0)

/-- On a terminal without a limit, and whatever log levels are wrong:

* The exit code is 2 just if the arguments cannot be read, or give a log level that is
  wrong and do not call for help.
* It is 0 for a call for help, whatever else the arguments give.
* Otherwise it is 3 just if a file is named that does not hold the UTF-8 of a
  configuration.
* Otherwise, if nothing that is explained defies splitting, it is 1 if a statement of the
  command has no plan, or without a command if a line is read that is not UTF-8; and else
  it is 0.  Texts whose offsets spans can hold do not defy splitting.

A run that ends with 2 or 3 writes no output, and it is over whatever its input is. -/
theorem exit_codes {surroundings : Surroundings} (hroom : surroundings.room = none) :
    let result := run surroundings
    (result.1 = 2 ↔ Refused surroundings) ∧
    (∀ options, Options.ofBytes surroundings.arguments = .ok options →
      (options.help = true → result.1 = 0) ∧
      (options.help = false → ¬ Refused surroundings →
        (result.1 = 3 ↔ ∃ path, options.config = some path ∧
          ∀ config, ¬ Configured surroundings.files (some path) config) ∧
        ∀ config, Configured surroundings.files options.config config →
          ¬ surroundings.Aborts options.command →
          FailsJust result.1 (surroundings.FailsOver config options.command))) ∧
    (∀ command? : Option String,
      (∀ command, command? = some command → command.utf8ByteSize ≤ Span.lastOffset) →
      (∀ line ∈ inputLines surroundings.input, line.length ≤ Span.lastOffset) →
      ¬ surroundings.Aborts command?) ∧
    (result.1 = 2 ∨ result.1 = 3 → result.2.output = [] ∧
      ∀ input, opening { surroundings with input } = .over result.1 result.2) := by
  intro result
  have hcases : (Refused surroundings ∧ surroundings.EndsEarly 2) ∨
      (¬ Refused surroundings ∧ (surroundings.EndsEarly 3 ∨ result.1 = 0 ∨ result.1 = 1 ∨
        result.1 = abortCode)) :=
    Surroundings.run_cases hroom
  -- The codes differ from each other, so each of them tells which case it is.
  have habort : abortCode = 101 := rfl
  refine ⟨⟨fun htwo => ?_, fun hrefused => ?_⟩,
    fun options hoptions => ⟨fun hhelp => ?_, fun hhelp haccepted => ?_⟩,
    fun _ => Surroundings.not_aborts, fun hcode => ?_⟩
  · rcases hcases with ⟨hrefused, -⟩ | ⟨-, hearly | hother⟩
    · exact hrefused
    · exact absurd (htwo.symm.trans hearly.run_eq.1) (by decide)
    · omega
  · exact (Surroundings.endsEarly_of_refused hrefused).run_eq.1
  · exact Surroundings.run_of_help hroom (task_of_help hoptions hhelp)
  · rcases Surroundings.run_of_explain hroom (task_of_not_refused hoptions hhelp haccepted) with
      ⟨hearly, hnone⟩ | ⟨config, hconfig, hends⟩
    · -- The configuration cannot be read.
      refine ⟨⟨fun _ => ?_, fun _ => hearly.run_eq.1⟩, fun config hconfig =>
        absurd hconfig (hnone config)⟩
      cases hpath : options.config with
      | none => exact absurd (hpath ▸ rfl) (hnone {})
      | some path => exact ⟨path, rfl, hpath ▸ hnone⟩
    · -- The configuration is read, and there is no other.
      refine ⟨⟨fun hthree => ?_, ?_⟩, fun other hother hsplits => ?_⟩
      · have hcode : result.1 = 0 ∨ result.1 = 1 ∨ result.1 = abortCode := hends.code_cases
        omega
      · rintro ⟨path, hpath, hnone⟩
        exact absurd (hpath ▸ hconfig) (hnone config)
      · obtain rfl := hconfig.unique hother
        exact ⟨hends.failed, fun hgood => hends.fine hgood hsplits⟩
  · rcases hcases with ⟨-, hearly⟩ | ⟨-, hearly | hother⟩
    · exact hearly.run_eq.2
    · exact hearly.run_eq.2
    · omega

/-- A statement that fails and then bytes that are not UTF-8, with a line between them that
ends the session or without one; a file that is missing, for a level that may be wrong; a
call for help behind which all of that stands; and a file that is there, for a command
with a statement that fails and for one without. -/
theorem exit_codes_unfinished :
    let right : String → Option String := fun _ => none
    let wrong : String → Option String := fun _ => some "unheard of"
    let lines : List UInt8 → Surroundings := fun between =>
      { arguments := []
        levelFault? := right
        input := encodeUtf8 "SELECT;\n".toList ++ between ++ [0xFF, 0xFE] }
    let missing : List String → (String → Option String) → Surroundings :=
      fun others levelFault? =>
        { arguments := (["--config=t.json", "--log-level", "loud"] ++ others).map fun argument =>
            encodeUtf8 argument.toList
          levelFault? }
    let config : Config := { relations := [{ name := "t", columns := .ofList [{ name := "a" }] }] }
    let explaining : String → Surroundings := fun command =>
      { arguments := ["-c", command, "--config", "t.json"].map fun argument =>
          encodeUtf8 argument.toList
        levelFault? := wrong
        files := fun path =>
          if path = encodeUtf8 "t.json".toList then
            some (encodeUtf8 (Json.encode Config.toJson config).toList)
          else none }
    (run (lines [])).1 = 1 ∧ (run (lines (encodeUtf8 " .quit\n".toList))).1 = 0 ∧
      (run (missing [] right)).1 = 3 ∧ (run (missing [] right)).2.output = [] ∧
      (run (missing [] wrong)).1 = 2 ∧ (run (missing ["-h"] wrong)).1 = 0 ∧
      (run (explaining "SELECT a FROM t; SELECT b FROM t")).1 = 1 ∧
      (run (explaining "SELECT a FROM t;")).1 = 0 := by
  intro right wrong lines missing config explaining
  -- Without arguments the exit code is that of the lines, which are short.
  have hlines : ∀ between, (∀ line ∈ inputLines (lines between).input, line.length ≤ 8) →
      FailsJust (run (lines between)).1 (Reads Undecodable (inputLines (lines between).input)) := by
    intro between hshort
    have hoptions : Options.ofBytes (lines between).arguments = .ok {} := rfl
    have haccepted : ¬ Refused (lines between) := not_refused hoptions nofun
    obtain ⟨-, hcodes, hsplits, -⟩ := @exit_codes (lines between) rfl
    exact ((hcodes {} hoptions).2 rfl haccepted).2 {} rfl
      (hsplits none nofun fun line hmem => (hshort line hmem).trans (by decide))
  have hbad : Undecodable [0xFF, 0xFE] := undecodable_iff.mpr (by decide +kernel)
  have hgoes : GoesOn (encodeUtf8 "SELECT;\n".toList) :=
    ⟨_, decodeUtf8?_encodeUtf8 _, by decide +kernel, by decide +kernel, by decide +kernel⟩
  have hinput : inputLines (lines []).input =
      [encodeUtf8 "SELECT;\n".toList, [0xFF, 0xFE]] := by
    decide +kernel
  have hquit : inputLines (lines (encodeUtf8 " .quit\n".toList)).input =
      [encodeUtf8 "SELECT;\n".toList, encodeUtf8 " .quit\n".toList, [0xFF, 0xFE]] := by
    decide +kernel
  -- The missing file counts only if the level is right.
  have hlevel : Options.ofBytes (missing [] right).arguments =
      .ok { config := some "t.json", logLevel := some "loud" } := by
    decide +kernel
  have haccepted : ¬ Refused (missing [] right) := not_refused hlevel fun _ _ => rfl
  obtain ⟨-, hcodes, -, hearly⟩ := @exit_codes (missing [] right) rfl
  have hthree := ((hcodes _ hlevel).2 rfl haccepted).1.mpr
    ⟨"t.json", rfl, fun config ⟨text, htext, _⟩ => by cases htext⟩
  have hhelp : Options.ofBytes (missing ["-h"] wrong).arguments =
      .ok { config := some "t.json", logLevel := some "loud", help := true } := by
    decide +kernel
  -- Over the file the exit code is that of the command.
  have hcommand : ∀ command : String, command.utf8ByteSize ≤ Span.lastOffset →
      Options.ofBytes (explaining command).arguments =
        .ok { command := some command, config := some "t.json" } →
      FailsJust (run (explaining command)).1
        ((explaining command).FailsOver config (some command)) := by
    intro command hshort hoptions
    have haccepted : ¬ Refused (explaining command) := not_refused hoptions nofun
    have hconfig : Configured (explaining command).files (some "t.json") config :=
      ⟨(Json.encode Config.toJson config).toList, by simp [explaining], by
        rw [String.ofList_toList, Config.ofText_encode]⟩
    obtain ⟨-, hcodes, hsplits, -⟩ := @exit_codes (explaining command) rfl
    refine ((hcodes _ hoptions).2 rfl haccepted).2 config hconfig (hsplits _ ?_ nofun)
    rintro _ ⟨⟩
    exact hshort
  refine ⟨(hlines [] ?_).1 ?_, (hlines _ ?_).2 ?_, hthree, (hearly (.inr hthree)).1,
    (@exit_codes (missing [] wrong) rfl).1.mpr (.inr ⟨_, _, hlevel, rfl, rfl, rfl⟩),
    ((@exit_codes (missing ["-h"] wrong) rfl).2.1 _ hhelp).1 rfl,
    (hcommand _ (by decide) (by decide +kernel)).1 ?_,
    (hcommand _ (by decide) (by decide +kernel)).2 ?_⟩
  · rw [hinput]
    decide +kernel
  · rw [hinput]
    exact ⟨[_], _, [], rfl, List.forall_mem_singleton.mpr hgoes, hbad⟩
  · rw [hquit]
    decide +kernel
  · rw [hquit, reads_cons, reads_cons]
    rintro (htext | ⟨-, htext | ⟨⟨text, htext, -, hquit, -⟩, -⟩⟩)
    · exact htext _ rfl
    · exact htext _ rfl
    · obtain rfl := Option.some.inj ((decodeUtf8?_encodeUtf8 _).symm.trans htext)
      exact hquit (by decide +kernel)
  · have herror : compile config.planner config.catalog "SELECT b FROM t" =
        .error (.noSuchColumn "b") := by
      decide +kernel
    refine ⟨["SELECT a FROM t;", "SELECT b FROM t"], by decide +kernel, "SELECT b FROM t",
      by simp, fun plan hplan => ?_⟩
    cases herror.symm.trans hplan
  · rintro ⟨pieces, hpieces, piece, hmem, hfails⟩
    have hsplit : splitStatements "SELECT a FROM t;" = some ["SELECT a FROM t;"] := by
      decide +kernel
    obtain rfl := Option.some.inj (hsplit.symm.trans hpieces)
    obtain rfl := List.mem_singleton.mp hmem
    exact hfails (.projection [⟨"a"⟩] (.tableScan "t")) (by decide +kernel)

/-- Runs with another exit code than their bytes suggest:

* The name of a configuration file is a byte that is no UTF-8.  The file is there, but it
  is not found.
* With the same arguments another file is read, since its name is the text that U+FFFD is.
* A line of 4294967297 bytes is a text, but the last offset of spans is inside its last
  letter: the run is aborted. -/
theorem unexpected_exit_codes :
    let replacement := encodeUtf8 "\uFFFD".toList
    let configuration := encodeUtf8 (Json.encode Config.toJson {}).toList
    let named : List UInt8 → Surroundings := fun name =>
      { arguments := [encodeUtf8 "--config".toList, [0xFF]]
        levelFault? := fun _ => none
        files := fun path => if path = name then some configuration else none }
    let long : Surroundings :=
      { arguments := []
        levelFault? := fun _ => none
        input := encodeUtf8 (List.replicate 2147483648 'é' ++ [';']) }
    Config.ofText (Json.encode Config.toJson {}) = .ok {} ∧
      (named [0xFF]).files [0xFF] = some configuration ∧ (run (named [0xFF])).1 = 3 ∧
      (named replacement).files [0xFF] = none ∧ (run (named replacement)).1 = 0 ∧
      (run long).1 = 101 := by
  intro replacement configuration named long
  have htask : (named replacement).task = .ok (.explain (some "\uFFFD") none) := by
    decide +kernel
  have hfile : ∀ name, (named name).files name = some configuration := fun name => by
    simp [named]
  refine ⟨Config.ofText_encode {}, hfile _, by decide +kernel, by decide +kernel, ?_,
    run_of_long_line 2147483647 (by decide)⟩
  rw [run_of_lines _ htask (openSession_encode {} (hfile replacement))]
  rfl

end SelectPlan.Shell
