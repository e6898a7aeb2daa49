import SelectPlan.Proofs.Text.Utf8
import SelectPlan.Shell.Run

/-!
# Arguments behind arguments

Arguments are read from left to right, so what stands behind arguments that can be
read is read with the options of those (`readArguments_append`).  In this way a run
without a command gets one, and keeps its other options (`task_withCommand`).
-/

namespace SelectPlan.Shell

open Text

theorem readArguments_flag {text : String} {option : ValueOption}
    (h : Argument.ofText text = .flag option) (options : Options) (value : String)
    (rest : List String) :
    readArguments options (text :: value :: rest) =
      (options.setOnce option value).bind fun changed => readArguments changed rest := by
  rw [readArguments, h]
  rfl

theorem readArguments_assignment {text : String} {option : ValueOption} {value : String}
    (h : Argument.ofText text = .assignment option value) (options : Options)
    (rest : List String) :
    readArguments options (text :: rest) =
      (options.setOnce option value).bind fun changed => readArguments changed rest := by
  rw [readArguments, h]
  rfl

/-- Arguments behind others are read with their options. -/
theorem readArguments_append {options found : Options} {front : List String}
    (h : readArguments options front = .ok found) (back : List String) :
    readArguments options (front ++ back) = readArguments found back := by
  -- The induction is on how the front is read; a front that is refused in it contradicts `h`.
  fun_induction readArguments options front with
  | case1 options =>
      cases h
      rfl
  | case2 options text rest hhelp ih =>
      rw [List.cons_append, readArguments, hhelp]
      exact ih h
  | case3 options text option hflag => cases h
  | case4 options text option hflag value rest ih =>
      rw [List.cons_append, List.cons_append, readArguments_flag hflag]
      cases hset : options.setOnce option value with
      | error error =>
          rw [hset] at h
          cases h
      | ok changed =>
          rw [hset] at h
          exact ih changed h
  | case5 options text rest option value hassignment ih =>
      rw [List.cons_append, readArguments_assignment hassignment]
      cases hset : options.setOnce option value with
      | error error =>
          rw [hset] at h
          cases h
      | ok changed =>
          rw [hset] at h
          exact ih changed h
  | case6 options text rest stray hstray => cases h

/-- The task of arguments is to explain just if their options say so. -/
theorem ofArguments_eq_explain_iff {levelFault? : String → Option String}
    {arguments : List (List UInt8)} {config command : Option String} :
    Task.ofArguments levelFault? arguments = .ok (.explain config command) ↔
      ∃ options, Options.ofBytes arguments = .ok options ∧ options.help = false ∧
        (options.logLevel.bind fun level => (levelFault? level).map (level, ·)) = none ∧
        options.config = config ∧ options.command = command := by
  constructor
  · intro h
    unfold Task.ofArguments at h
    split at h
    · cases h
    rename_i options hoptions
    split at h
    · cases h
    rename_i hhelp
    split at h
    · cases h
    rename_i hfilter
    cases h
    exact ⟨options, hoptions, by simpa using hhelp, hfilter, rfl, rfl⟩
  · rintro ⟨options, hoptions, hhelp, hfilter, rfl, rfl⟩
    rw [Task.ofArguments, hoptions]
    simp only [hhelp, hfilter]
    rfl

/-- What a run is given, with a command behind its other arguments. -/
def Surroundings.withCommand (surroundings : Surroundings) (command : List UInt8) :
    Surroundings :=
  { surroundings with
    arguments := surroundings.arguments ++ [encodeUtf8 "-c".toList, command] }

/-- A run without a command gets one, and keeps its other options. -/
theorem task_withCommand {surroundings : Surroundings} {config : Option String}
    (h : surroundings.task = .ok (.explain config none)) (command : List UInt8) :
    (surroundings.withCommand command).task =
      .ok (.explain config (some (String.ofList (decodeLossy command)))) := by
  obtain ⟨options, hoptions, hhelp, hfilter, hconfig, hcommand⟩ :=
    ofArguments_eq_explain_iff.mp h
  refine ofArguments_eq_explain_iff.mpr
    ⟨{ options with command := some (String.ofList (decodeLossy command)) }, ?_, hhelp, hfilter,
      hconfig, rfl⟩
  rw [Options.ofBytes, Options.ofArguments, Surroundings.withCommand, List.map_append,
    readArguments_append hoptions, List.map_cons, List.map_singleton, decodeLossy_encodeUtf8]
  have hset : options.setOnce .command (String.ofList (decodeLossy command)) =
      .ok { options with command := some (String.ofList (decodeLossy command)) } := by
    rw [Options.setOnce, Options.get?, hcommand]
    rfl
  have hflag : Argument.ofText "-c" = .flag .command := rfl
  rw [String.ofList_toList, readArguments_flag hflag, hset]
  rfl

end SelectPlan.Shell
