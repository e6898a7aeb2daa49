import Mathlib.Data.List.Induction
import Mathlib.Data.List.Nodup
import SelectPlan.Proofs.Shell.Arguments

/-!
# Groups of arguments

Arguments that can be read are groups in any order: an option with its value, in one
argument or in two, or a call for help.  No option has two groups.  Whether the value of
an option looks like another option does not matter, and neither does the order of the
groups or in how many arguments one is written.  All other arguments fail at the first
that begins no group, that lacks its value or that gives an option again
(`ofBytes_groups`).

## Strategy

The first argument of a group says what group it is (`ofText_first`, `exists_first`), so
any arguments are groups up to the first that begins none (`exists_groups`).  A group
changes the options by itself (`Group.apply`, `readArguments_written`), and groups without
a repeated option give just the options that `Gives` tells of (`applied_cases`).
-/

namespace SelectPlan.Shell

open Text

/-! ## Groups -/

/-- The ways to write the option that a value belongs to. -/
inductive Flag
  | shortCommand
  | command
  | config
  | logLevel

namespace Flag

/-- The argument that is an option without its value. -/
def text : Flag → String
  | shortCommand => "-c"
  | command => "--command"
  | config => "--config"
  | logLevel => "--log-level"

/-- What an argument starts with that is an option with its value. -/
def lead (flag : Flag) : String :=
  flag.text ++ "="

/-- The option that is meant. -/
def option : Flag → ValueOption
  | shortCommand | command => .command
  | config => .config
  | logLevel => .logLevel

end Flag

/-- The ways to call for help. -/
inductive HelpFlag
  | short
  | long

/-- The argument that calls for help. -/
def HelpFlag.text : HelpFlag → String
  | short => "-h"
  | long => "--help"

/-- Arguments that belong together.  A value may be any bytes. -/
inductive Group
  | help (flag : HelpFlag)
  /-- An option and its value in two arguments. -/
  | spaced (flag : Flag) (value : List UInt8)
  /-- An option and its value in one argument. -/
  | joined (flag : Flag) (value : List UInt8)

/-- The text of an argument, with U+FFFD for what is not UTF-8. -/
def lossy (argument : List UInt8) : String :=
  String.ofList (decodeLossy argument)

namespace Group

/-- The first argument of a group. -/
def first : Group → List UInt8
  | help flag => encodeUtf8 flag.text.toList
  | spaced flag _ => encodeUtf8 flag.text.toList
  | joined flag value => encodeUtf8 flag.lead.toList ++ value

/-- The arguments of a group. -/
def arguments : Group → List (List UInt8)
  | help flag => [(help flag).first]
  | spaced flag value => [(spaced flag value).first, value]
  | joined flag value => [(joined flag value).first]

/-- The option that a group gives a value. -/
def option? : Group → Option ValueOption
  | help _ => none
  | spaced flag _ | joined flag _ => some flag.option

/-- The value that a group gives its option. -/
def value? : Group → Option String
  | help _ => none
  | spaced _ value | joined _ value => some (lossy value)

end Group

/-- The arguments of groups. -/
def written (groups : List Group) : List (List UInt8) :=
  groups.flatMap Group.arguments

/-- Whether no option is given twice. -/
def Single (groups : List Group) : Prop :=
  (groups.filterMap Group.option?).Nodup

/-- Options that are just what some groups give. -/
structure Gives (groups : List Group) (options : Options) : Prop where
  get?_iff : ∀ option value, options.get? option = some value ↔
    ∃ group ∈ groups, group.option? = some option ∧ group.value? = some value
  help_iff : options.help = true ↔ ∃ flag, Group.help flag ∈ groups

/-- What is wrong with the arguments behind some groups. -/
inductive Bad (front : List Group) : List (List UInt8) → UsageError → Prop
  | stray {argument : List UInt8} {rest : List (List UInt8)}
      (h : ∀ group : Group, group.first ≠ argument) :
      Bad front (argument :: rest) (.unexpected (lossy argument))
  | missing (flag : Flag) : Bad front [encodeUtf8 flag.text.toList] (.missingValue flag.option)
  | repeated {group : Group} {rest : List (List UInt8)} {option : ValueOption}
      (hoption : group.option? = some option)
      (hgiven : option ∈ front.filterMap Group.option?) :
      Bad front (group.arguments ++ rest) (.repeated option)

/-! ## The first argument of a group -/

/-- What the first argument of a group is by itself. -/
def Group.opening : Group → Argument
  | help _ => .help
  | spaced flag _ => .flag flag.option
  | joined flag value => .assignment flag.option (lossy value)

theorem ofText_lead (flag : Flag) (value : List Char) :
    Argument.ofText (String.ofList (flag.lead.toList ++ value)) =
      .assignment flag.option (String.ofList value) := by
  unfold Argument.ofText
  split
  case h_7 =>
    rw [String.toList_ofList]
    cases flag <;> simp [assignments, after?, Flag.lead, Flag.text, Flag.option]
  all_goals
    rename_i heq
    have hlist := congrArg String.toList heq
    rw [String.toList_ofList] at hlist
    cases flag <;> simp [Flag.lead, Flag.text] at hlist

theorem lossy_encodeUtf8 (text : String) : lossy (encodeUtf8 text.toList) = text := by
  rw [lossy, decodeLossy_encodeUtf8, String.ofList_toList]

theorem Flag.lead_clean (flag : Flag) : '\uFFFD' ∉ flag.lead.toList := by
  cases flag <;> simp [Flag.lead, Flag.text]

theorem lossy_encodeUtf8_append {front : List Char} (hclean : '\uFFFD' ∉ front)
    (rest : List UInt8) :
    lossy (encodeUtf8 front ++ rest) = String.ofList (front ++ decodeLossy rest) :=
  congrArg String.ofList ((decodeLossy_eq_append_iff hclean).mpr ⟨rest, rfl, rfl⟩)

theorem ofText_first (group : Group) : Argument.ofText (lossy group.first) = group.opening := by
  cases group with
  | help flag =>
      rw [Group.first, lossy_encodeUtf8]
      cases flag <;> rfl
  | spaced flag value =>
      rw [Group.first, lossy_encodeUtf8]
      cases flag <;> rfl
  | joined flag value =>
      rw [Group.first, lossy_encodeUtf8_append flag.lead_clean, ofText_lead]
      rfl

theorem exists_flag_of_mem_assignments {lead : String} {option : ValueOption}
    (h : (lead, option) ∈ assignments) : ∃ flag : Flag, lead = flag.lead := by
  simp only [assignments, List.mem_cons, Prod.mk.injEq, List.not_mem_nil, or_false] at h
  rcases h with ⟨rfl, -⟩ | ⟨rfl, -⟩ | ⟨rfl, -⟩ | ⟨rfl, -⟩
  · exact ⟨.command, rfl⟩
  · exact ⟨.shortCommand, rfl⟩
  · exact ⟨.config, rfl⟩
  · exact ⟨.logLevel, rfl⟩

theorem toList_of_after? {lead value : String} {text : List Char}
    (h : after? lead text = some value) : text = lead.toList ++ value.toList := by
  rw [after?] at h
  split at h
  case isTrue hlead =>
    obtain rfl := Option.some.inj h
    rw [String.toList_ofList]
    exact (List.prefix_iff_eq_append.mp (List.isPrefixOf_iff_prefix.mp hlead)).symm
  case isFalse => cases h

/-- An argument is a stray one unless it is or starts as one that is known. -/
theorem ofText_cases (text : String) :
    (∃ flag : HelpFlag, text = flag.text) ∨ (∃ flag : Flag, text = flag.text) ∨
      (∃ (flag : Flag) (value : List Char), text.toList = flag.lead.toList ++ value) ∨
      Argument.ofText text = .stray text := by
  unfold Argument.ofText
  split
  · exact .inl ⟨.short, rfl⟩
  · exact .inl ⟨.long, rfl⟩
  · exact .inr (.inl ⟨.shortCommand, rfl⟩)
  · exact .inr (.inl ⟨.command, rfl⟩)
  · exact .inr (.inl ⟨.config, rfl⟩)
  · exact .inr (.inl ⟨.logLevel, rfl⟩)
  split
  case h_1 option value hfound =>
    obtain ⟨⟨lead, option'⟩, hmem, hafter⟩ := List.exists_of_findSome?_eq_some hfound
    obtain ⟨value', hvalue, -⟩ := Option.map_eq_some_iff.mp hafter
    obtain ⟨flag, rfl⟩ := exists_flag_of_mem_assignments hmem
    exact .inr (.inr (.inl ⟨flag, _, toList_of_after? hvalue⟩))
  case h_2 => exact .inr (.inr (.inr rfl))

/-- Bytes that are read as a text without U+FFFD are those of the text. -/
theorem eq_encodeUtf8_of_lossy {argument : List UInt8} {text : String}
    (h : lossy argument = text) (hclean : '\uFFFD' ∉ text.toList) :
    argument = encodeUtf8 text.toList := by
  have hread : decodeLossy argument = text.toList ++ [] := by
    rw [← h, lossy, String.toList_ofList, List.append_nil]
  obtain ⟨rest, rfl, hrest⟩ := (decodeLossy_eq_append_iff hclean).mp hread
  rw [eq_nil_of_pieces (List.map_eq_nil_iff.mp hrest), List.append_nil]

/-- An argument begins a group, or it is a stray one. -/
theorem exists_first (argument : List UInt8) :
    (∃ group : Group, group.first = argument) ∨
      Argument.ofText (lossy argument) = .stray (lossy argument) := by
  rcases ofText_cases (lossy argument) with
    ⟨flag, htext⟩ | ⟨flag, htext⟩ | ⟨flag, value, htext⟩ | hstray
  · exact .inl ⟨.help flag, (eq_encodeUtf8_of_lossy htext (by cases flag <;> decide)).symm⟩
  · exact .inl ⟨.spaced flag [], (eq_encodeUtf8_of_lossy htext (by cases flag <;> decide)).symm⟩
  · rw [lossy, String.toList_ofList] at htext
    obtain ⟨rest, rfl, -⟩ := (decodeLossy_eq_append_iff flag.lead_clean).mp htext
    exact .inl ⟨.joined flag rest, rfl⟩
  · exact .inr hstray

/-- A stray argument begins no group. -/
theorem first_ne_of_stray {argument : List UInt8} {text : String}
    (h : Argument.ofText (lossy argument) = .stray text) (group : Group) :
    group.first ≠ argument := by
  rintro rfl
  rw [ofText_first] at h
  cases group <;> cases h

/-! ## Reading groups -/

/-- What a group changes in the options. -/
def Group.apply (options : Options) : Group → Except UsageError Options
  | help _ => .ok { options with help := true }
  | spaced flag value | joined flag value => options.setOnce flag.option (lossy value)

/-- What groups change in the options. -/
def applied (options : Options) (groups : List Group) : Except UsageError Options :=
  groups.foldlM Group.apply options

/-- Reads arguments that are bytes behind given options. -/
def readBytes (options : Options) (arguments : List (List UInt8)) : Except UsageError Options :=
  readArguments options (arguments.map lossy)

theorem readBytes_group (options : Options) (group : Group) (rest : List (List UInt8)) :
    readBytes options (group.arguments ++ rest) =
      (group.apply options).bind fun changed => readBytes changed rest := by
  have hfirst := ofText_first group
  cases group with
  | help flag =>
      rw [readBytes, Group.arguments, List.singleton_append, List.map_cons, readArguments, hfirst]
      rfl
  | spaced flag value => exact readArguments_flag hfirst options (lossy value) (rest.map lossy)
  | joined flag value => exact readArguments_assignment hfirst options (rest.map lossy)

theorem readBytes_written (options : Options) (groups : List Group) (rest : List (List UInt8)) :
    readBytes options (written groups ++ rest) =
      (applied options groups).bind fun changed => readBytes changed rest := by
  induction groups generalizing options with
  | nil => rfl
  | cons group groups ih =>
      rw [written, List.flatMap_cons, List.append_assoc, readBytes_group, applied,
        List.foldlM_cons]
      cases group.apply options with
      | error error => rfl
      | ok changed => exact ih changed

/-! ## What groups give -/

theorem Options.get?_set (options : Options) (option other : ValueOption) (value : String) :
    (options.set option value).get? other =
      if other = option then some value else options.get? other := by
  cases option <;> cases other <;> rfl

theorem Options.help_set (options : Options) (option : ValueOption) (value : String) :
    (options.set option value).help = options.help := by
  cases option <;> rfl

/-- Options are told apart by their values and the call for help. -/
theorem Options.ext_get? {options others : Options}
    (hget : ∀ option, options.get? option = others.get? option)
    (hhelp : options.help = others.help) : options = others := by
  cases options
  cases others
  exact Options.mk.injEq .. ▸ ⟨hget .command, hget .config, hget .logLevel, hhelp⟩

theorem Group.exists_value? {group : Group} {option : ValueOption}
    (h : group.option? = some option) : ∃ value, group.value? = some value := by
  cases group with
  | help flag => cases h
  | spaced flag value => exact ⟨_, rfl⟩
  | joined flag value => exact ⟨_, rfl⟩

/-- A group that gives an option sets it once. -/
theorem Group.apply_of_option? {group : Group} {option : ValueOption} {value : String}
    (hoption : group.option? = some option) (hvalue : group.value? = some value)
    (options : Options) : group.apply options = options.setOnce option value := by
  cases group <;> cases hoption <;> cases hvalue <;> rfl

theorem mem_options {groups : List Group} {option : ValueOption} :
    option ∈ groups.filterMap Group.option? ↔ ∃ group ∈ groups, group.option? = some option :=
  List.mem_filterMap

theorem single_append_singleton {front : List Group} {group : Group} :
    Single (front ++ [group]) ↔
      Single front ∧ ∀ option, group.option? = some option →
        option ∉ front.filterMap Group.option? := by
  rw [Single, List.filterMap_append, List.filterMap_cons, List.filterMap_nil]
  cases hoption : group.option? with
  | none => simp [Single]
  | some option =>
      simp only [Option.some.injEq, forall_eq', Single, List.nodup_append, List.mem_singleton,
        forall_eq, List.nodup_singleton, true_and, ne_eq, List.forall_mem_ne']

theorem Single.perm {groups others : List Group} (h : Single groups)
    (hperm : groups.Perm others) : Single others :=
  (hperm.filterMap Group.option?).nodup_iff.mp h

theorem Gives.perm {groups others : List Group} {options : Options} (h : Gives groups options)
    (hperm : groups.Perm others) : Gives others options where
  get?_iff option value := by simp only [h.get?_iff, hperm.mem_iff]
  help_iff := by simp only [h.help_iff, hperm.mem_iff]

/-- Groups give one set of options. -/
theorem Gives.unique {groups : List Group} {options others : Options}
    (h : Gives groups options) (h' : Gives groups others) : options = others := by
  refine Options.ext_get? (fun option => ?_) ?_
  · exact Option.ext fun value => (h.get?_iff option value).trans (h'.get?_iff option value).symm
  · exact Bool.eq_iff_iff.mpr (h.help_iff.trans h'.help_iff.symm)

theorem gives_nil : Gives [] {} where
  get?_iff option value := by cases option <;> simp [Options.get?]
  help_iff := by simp

section Step

variable {front : List Group} {options : Options}

theorem Gives.isSome_get?_iff (h : Gives front options) (option : ValueOption) :
    (options.get? option).isSome = true ↔ option ∈ front.filterMap Group.option? := by
  rw [Option.isSome_iff_exists, mem_options]
  constructor
  · rintro ⟨value, hvalue⟩
    obtain ⟨group, hmem, hoption, -⟩ := (h.get?_iff option value).mp hvalue
    exact ⟨group, hmem, hoption⟩
  · rintro ⟨group, hmem, hoption⟩
    obtain ⟨value, hvalue⟩ := group.exists_value? hoption
    exact ⟨value, (h.get?_iff option value).mpr ⟨group, hmem, hoption, hvalue⟩⟩

theorem Gives.help (h : Gives front options) (flag : HelpFlag) :
    Gives (front ++ [.help flag]) { options with help := true } where
  get?_iff option value := by
    have hsame : ({ options with help := true } : Options).get? option = options.get? option := by
      cases option <;> rfl
    simp [hsame, h.get?_iff, Group.option?, or_and_right, exists_or]
  help_iff := by simp

theorem Gives.set (h : Gives front options) {group : Group} {option : ValueOption}
    {value : String} (hoption : group.option? = some option) (hvalue : group.value? = some value)
    (hnew : option ∉ front.filterMap Group.option?) :
    Gives (front ++ [group]) (options.set option value) where
  get?_iff other found := by
    rw [Options.get?_set]
    simp only [List.mem_append, List.mem_singleton, or_and_right, exists_or, exists_eq_left,
      hoption, hvalue, Option.some.injEq, ← h.get?_iff]
    split
    case isTrue heq =>
      subst heq
      have hnone : options.get? other = none := by
        rw [← Option.not_isSome_iff_eq_none, h.isSome_get?_iff]
        exact hnew
      simp [hnone]
    case isFalse hne => simp [Ne.symm hne]
  help_iff := by
    have hgroup : ∀ flag, group ≠ .help flag := by
      rintro flag rfl
      cases hoption
    simp [Options.help_set, h.help_iff, Ne.symm (hgroup _)]

/-- A group behind others gives an option again, or adds what it gives. -/
theorem Gives.apply (h : Gives front options) (group : Group) :
    (∃ option, group.option? = some option ∧ option ∈ front.filterMap Group.option? ∧
      group.apply options = .error (.repeated option)) ∨
    ((∀ option, group.option? = some option → option ∉ front.filterMap Group.option?) ∧
      ∃ changed, group.apply options = .ok changed ∧ Gives (front ++ [group]) changed) := by
  cases hoption : group.option? with
  | none =>
      obtain ⟨flag, rfl⟩ : ∃ flag, group = .help flag := by
        cases group with
        | help flag => exact ⟨flag, rfl⟩
        | spaced flag value => cases hoption
        | joined flag value => cases hoption
      exact .inr ⟨fun _ hsome => absurd hsome (by simp), _, rfl, h.help flag⟩
  | some option =>
      obtain ⟨value, hvalue⟩ := group.exists_value? hoption
      rw [Group.apply_of_option? hoption hvalue, Options.setOnce]
      by_cases hgiven : option ∈ front.filterMap Group.option?
      · -- An option has a value just if a group in front gave it, so reading notices a second
        -- one.
        exact .inl ⟨option, rfl, hgiven, if_pos ((h.isSome_get?_iff option).mpr hgiven)⟩
      · refine .inr ⟨?_, _, if_neg (mt (h.isSome_get?_iff option).mp hgiven),
          h.set hoption hvalue hgiven⟩
        rintro _ ⟨⟩
        exact hgiven

end Step

/-- Groups give an option again, or they give just the options that are read. -/
theorem applied_cases (groups : List Group) :
    (∃ options, applied {} groups = .ok options ∧ Single groups ∧ Gives groups options) ∨
    ∃ front group back option, groups = front ++ group :: back ∧ Single front ∧
      group.option? = some option ∧ option ∈ front.filterMap Group.option? ∧
      applied {} groups = .error (.repeated option) := by
  -- Options are set from the front on, so the induction adds a group at the end.
  induction groups using List.reverseRecOn with
  | nil => exact .inl ⟨{}, rfl, List.nodup_nil, gives_nil⟩
  | append_singleton front group ih =>
      have happend : applied {} (front ++ [group]) = (applied {} front).bind group.apply := by
        rw [applied, List.foldlM_append, ← applied]
        cases applied {} front with
        | error error => rfl
        | ok options => exact bind_pure (group.apply options)
      rcases ih with ⟨options, hread, hsingle, hgives⟩ |
        ⟨before, again, after, option, rfl, hsingle, hoption, hgiven, herror⟩
      · rw [hread] at happend
        rcases hgives.apply group with
          ⟨option, hoption, hgiven, herror⟩ | ⟨hnew, changed, hok, hgives'⟩
        · exact .inr ⟨front, group, [], option, rfl, hsingle, hoption, hgiven, happend.trans herror⟩
        · exact .inl ⟨changed, happend.trans hok, single_append_singleton.mpr ⟨hsingle, hnew⟩,
            hgives'⟩
      · rw [herror] at happend
        exact .inr ⟨before, again, after ++ [group], option, by simp, hsingle, hoption, hgiven,
          happend⟩

/-! ## Arguments as groups -/

theorem written_append (front back : List Group) :
    written (front ++ back) = written front ++ written back :=
  List.flatMap_append

/-- What is behind groups that have no more behind them. -/
inductive Ending : List (List UInt8) → Prop
  | nil : Ending []
  | lone (flag : Flag) : Ending [encodeUtf8 flag.text.toList]
  | stray {argument : List UInt8} {rest : List (List UInt8)}
      (h : Argument.ofText (lossy argument) = .stray (lossy argument)) :
      Ending (argument :: rest)

/-- A group before arguments that are groups up to some ending. -/
theorem exists_groups_cons (group : Group) {later : List (List UInt8)}
    (h : ∃ groups rest, later = written groups ++ rest ∧ Ending rest) :
    ∃ groups rest, group.arguments ++ later = written groups ++ rest ∧ Ending rest := by
  obtain ⟨groups, rest, rfl, hending⟩ := h
  exact ⟨group :: groups, rest, (List.append_assoc ..).symm, hending⟩

/-- Any arguments are groups up to where no group begins. -/
theorem exists_groups (arguments : List (List UInt8)) :
    ∃ groups rest, arguments = written groups ++ rest ∧ Ending rest := by
  match arguments with
  | [] => exact ⟨[], [], rfl, .nil⟩
  | argument :: later =>
      rcases exists_first argument with ⟨group, rfl⟩ | hstray
      · cases group with
        | help flag => exact exists_groups_cons (.help flag) (exists_groups later)
        | joined flag value => exact exists_groups_cons (.joined flag value) (exists_groups later)
        | spaced flag _ =>
            match later with
            | [] => exact ⟨[], _, rfl, .lone flag⟩
            | value :: later => exact exists_groups_cons (.spaced flag value) (exists_groups later)
      · exact ⟨[], _, rfl, .stray hstray⟩
termination_by arguments.length

/-! ## What is read -/

theorem ofBytes_written (groups : List Group) (rest : List (List UInt8)) :
    Options.ofBytes (written groups ++ rest) =
      (applied {} groups).bind fun options => readBytes options rest :=
  readBytes_written {} groups rest

theorem readBytes_lone (options : Options) (flag : Flag) :
    readBytes options [encodeUtf8 flag.text.toList] = .error (.missingValue flag.option) := by
  rw [readBytes, List.map_singleton, lossy_encodeUtf8]
  cases flag <;> rfl

theorem readBytes_stray {argument : List UInt8}
    (h : Argument.ofText (lossy argument) = .stray (lossy argument)) (options : Options)
    (rest : List (List UInt8)) :
    readBytes options (argument :: rest) = .error (.unexpected (lossy argument)) := by
  rw [readBytes, List.map_cons, readArguments, h]

/-- Groups that give no option twice are read as what they give. -/
theorem Single.applied {groups : List Group} (h : Single groups) :
    ∃ options, applied {} groups = .ok options ∧ Gives groups options := by
  rcases applied_cases groups with ⟨options, hread, -, hgives⟩ |
    ⟨front, group, back, option, rfl, -, hoption, hgiven, -⟩
  · exact ⟨options, hread, hgives⟩
  · rw [Single, List.filterMap_append, List.filterMap_cons_some hoption] at h
    exact absurd List.mem_cons_self (List.disjoint_of_nodup_append h hgiven)

theorem Single.ofBytes {groups : List Group} (h : Single groups) :
    ∃ options, Options.ofBytes (written groups) = .ok options ∧ Gives groups options := by
  obtain ⟨options, hread, hgives⟩ := h.applied
  refine ⟨options, ?_, hgives⟩
  rw [← List.append_nil (written groups), ofBytes_written, hread]
  rfl

/-- Arguments are read, as groups without a repeated option, or the first that is bad is
told of. -/
theorem ofBytes_cases (arguments : List (List UInt8)) :
    (∃ groups, arguments = written groups ∧ Single groups) ∨
    ∃ front rest error, arguments = written front ++ rest ∧ Single front ∧
      Bad front rest error ∧ Options.ofBytes arguments = .error error := by
  obtain ⟨groups, rest, rfl, hending⟩ := exists_groups arguments
  rw [ofBytes_written]
  rcases applied_cases groups with ⟨options, hread, hsingle, -⟩ |
    ⟨front, group, back, option, rfl, hsingle, hoption, hgiven, herror⟩
  · rw [hread]
    cases hending with
    | nil => exact .inl ⟨groups, List.append_nil _, hsingle⟩
    | lone flag =>
        exact .inr ⟨groups, _, _, rfl, hsingle, .missing flag, readBytes_lone options flag⟩
    | stray hstray =>
        exact .inr ⟨groups, _, _, rfl, hsingle, .stray (first_ne_of_stray hstray),
          readBytes_stray hstray options _⟩
  · rw [herror]
    refine .inr ⟨front, group.arguments ++ (written back ++ rest), _, ?_, hsingle,
      .repeated hoption hgiven, rfl⟩
    rw [written_append, List.append_assoc]
    exact congrArg (written front ++ ·) (List.append_assoc ..)

/-- What is bad behind groups without a repeated option is told of. -/
theorem Bad.ofBytes {front : List Group} {rest : List (List UInt8)} {error : UsageError}
    (h : Bad front rest error) (hsingle : Single front) :
    Options.ofBytes (written front ++ rest) = .error error := by
  obtain ⟨options, hread, hgives⟩ := hsingle.applied
  rw [ofBytes_written, hread]
  cases h with
  | stray hnone =>
      have hstray := (exists_first _).resolve_left fun ⟨group, hfirst⟩ => hnone group hfirst
      exact readBytes_stray hstray options _
  | missing flag => exact readBytes_lone options flag
  | @repeated group later option hoption hgiven =>
      rcases hgives.apply group with ⟨option', hoption', -, herror⟩ | ⟨hnew, -⟩
      · obtain rfl := Option.some.inj (hoption.symm.trans hoption')
        change readBytes options (group.arguments ++ later) = _
        rw [readBytes_group, herror]
        rfl
      · exact absurd hgiven (hnew option hoption)

/-- Arguments are read just if they are groups that give no option twice; the options are
then what the groups give, in whatever order they stand.  An option and its value may as
well be one argument as two.  If arguments are not read, the reason is the first of them
that is bad. -/
theorem ofBytes_groups :
    (∀ arguments, (∃ options, Options.ofBytes arguments = .ok options) ↔
      ∃ groups, arguments = written groups ∧ Single groups) ∧
    (∀ groups, Single groups → ∃ options, Gives groups options ∧
      ∀ others, groups.Perm others → Options.ofBytes (written others) = .ok options) ∧
    (∀ front flag value rest,
      Options.ofBytes (written (front ++ [.joined flag value]) ++ rest) =
        Options.ofBytes (written (front ++ [.spaced flag value]) ++ rest)) ∧
    ∀ arguments error, Options.ofBytes arguments = .error error ↔
      ∃ front rest, arguments = written front ++ rest ∧ Single front ∧ Bad front rest error := by
  refine ⟨fun arguments => ⟨?_, ?_⟩, fun groups hsingle => ?_, fun front flag value rest => ?_,
    fun arguments error => ⟨?_, ?_⟩⟩
  · rintro ⟨options, hread⟩
    refine (ofBytes_cases arguments).resolve_right ?_
    rintro ⟨front, rest, error, -, -, -, herror⟩
    cases hread.symm.trans herror
  · rintro ⟨groups, rfl, hsingle⟩
    obtain ⟨options, hread, -⟩ := hsingle.ofBytes
    exact ⟨options, hread⟩
  · obtain ⟨options, -, hgives⟩ := hsingle.ofBytes
    refine ⟨options, hgives, fun others hperm => ?_⟩
    obtain ⟨found, hread, hgives'⟩ := (hsingle.perm hperm).ofBytes
    rw [hread, (hgives.perm hperm).unique hgives']
  · have happlied : applied {} (front ++ [.joined flag value]) =
        applied {} (front ++ [.spaced flag value]) := by
      rw [applied, applied, List.foldlM_append, List.foldlM_append]
      rfl
    rw [ofBytes_written, ofBytes_written, happlied]
  · intro herror
    rcases ofBytes_cases arguments with ⟨groups, rfl, hsingle⟩ |
      ⟨front, rest, error', hwritten, hsingle, hbad, herror'⟩
    · obtain ⟨options, hread, -⟩ := hsingle.ofBytes
      cases hread.symm.trans herror
    · obtain rfl := Except.error.inj (herror.symm.trans herror')
      exact ⟨front, rest, hwritten, hsingle, hbad⟩
  · rintro ⟨front, rest, rfl, hsingle, hbad⟩
    exact hbad.ofBytes hsingle

/-- A value that looks like an option and one that is not UTF-8, in either order; and an
option that is given again in another spelling. -/
theorem ofBytes_groups_flagged :
    let groups := [.spaced .config [0xFF], .help .short,
      .spaced .shortCommand (encodeUtf8 "--config".toList)]
    let options : Options :=
      { command := some "--config", config := some "\uFFFD", help := true }
    Single groups ∧ Options.ofBytes (written groups.reverse) = .ok options ∧
      Options.ofBytes (written groups ++ written [.joined .command []]) =
        .error (.repeated .command) := by
  intro groups options
  have hsingle : Single groups := by
    unfold Single
    decide
  obtain ⟨-, hread, -, herror⟩ := ofBytes_groups
  obtain ⟨found, -, hfound⟩ := hread groups hsingle
  have hinvalid : lossy [0xFF] = "\uFFFD" := by
    simp [lossy, decodeLossy, pieces, firstPiece, lead?]
  have harguments : (written groups).map lossy =
      ["--config", "\uFFFD", "-h", "-c", "--config"] := by
    simp only [groups, written, List.flatMap_cons, List.flatMap_nil, Group.arguments, Group.first,
      Flag.text, HelpFlag.text, List.cons_append, List.nil_append, List.map_cons, List.map_nil,
      lossy_encodeUtf8, hinvalid]
  have hoptions : Options.ofBytes (written groups) = .ok options :=
    (congrArg Options.ofArguments harguments).trans rfl
  obtain rfl := Except.ok.inj ((hfound groups (.refl groups)).symm.trans hoptions)
  refine ⟨hsingle, hfound _ (List.reverse_perm groups).symm, ?_⟩
  exact (herror _ _).mpr ⟨groups, _, rfl, hsingle, .repeated rfl (by decide)⟩

end SelectPlan.Shell
