import SelectPlan.Proofs.Grammar.Parse
import SelectPlan.Proofs.Parser.Orderly

/-!
# How positions are entered

The parser looks at the lexeme ahead, picks a position by it, and then reads what
stands there, where it checks the lexeme once more and looks at what the statement has
already.  These checks agree with the choice: no position is reached but at its
keyword and with its clause still to come (`reached_entry`).  So the faults that only
guard a position are never reported, and no clause is written over.

* `Entry position progress`: what holds when a position is entered.
* `Reached text position progress`: the position and the progress occur in the run on
  a text.
* `Select.KeptIn`: what a statement has complete, another one has as well.

## Strategy

One step is looked at for each position (`stepped_step`): from its entry condition it
goes on to a position with its own, or fails properly.  The phrases inside a step are
orderly, so only the keyword in front, the change of the statement and the look ahead
are left to each position.  Runs follow by induction.
-/

namespace SelectPlan

/-! ## Clauses that are kept -/

/-- What is complete in a statement stands in another one unchanged: lists may go on,
and a list of names is complete when it has a name. -/
structure Select.KeptIn (before after : Select) : Prop where
  fields : before.fields <+: after.fields
  table : ∀ table ∈ before.table, after.table = some table
  joins : before.joins <+: after.joins
  filter : ∀ condition ∈ before.filter, after.filter = some condition
  groupBy : ∀ names ∈ before.groupBy, names ≠ [] → after.groupBy = some names
  orderBy : ∀ names ∈ before.orderBy, names ≠ [] → after.orderBy = some names
  limit : ∀ value ∈ before.limit, after.limit = some value
  offset : ∀ value ∈ before.offset, after.offset = some value

theorem Select.KeptIn.refl (statement : Select) : statement.KeptIn statement where
  fields := List.prefix_rfl
  table := fun _ h => h
  joins := List.prefix_rfl
  filter := fun _ h => h
  groupBy := fun _ h _ => h
  orderBy := fun _ h _ => h
  limit := fun _ h => h
  offset := fun _ h => h

theorem Select.KeptIn.trans {first second third : Select} (h : first.KeptIn second)
    (h' : second.KeptIn third) : first.KeptIn third where
  fields := h.fields.trans h'.fields
  table := fun table hmem => h'.table table (h.table table hmem)
  joins := h.joins.trans h'.joins
  filter := fun condition hmem => h'.filter condition (h.filter condition hmem)
  groupBy := fun names hmem hne => h'.groupBy names (h.groupBy names hmem hne) hne
  orderBy := fun names hmem hne => h'.orderBy names (h.orderBy names hmem hne) hne
  limit := fun value hmem => h'.limit value (h.limit value hmem)
  offset := fun value hmem => h'.offset value (h.offset value hmem)

namespace Parser

/-! ## Entry conditions -/

/-- The lexemes at which a position is entered. -/
def Position.Opened : Position → Token → Prop
  | .join, token => ∃ word ∈ [Keyword.JOIN, .INNER, .LEFT, .RIGHT, .FULL], token = .keyword word
  | .filter, token => token = .keyword .WHERE
  | .groupBy, token => token = .keyword .GROUP
  | .orderBy, token => token = .keyword .ORDER
  | .limit, token => token = .keyword .LIMIT
  | .offset, token => token = .keyword .OFFSET
  | .finish, token => token = .eof ∨ token = .semicolon
  | .start, _ | .selectList, _ | .source, _ | .groupList, _ | .orderList, _ => True

/-- What a position finds of the clauses from it on: none of them, and in the lists of
names a clause that is empty. -/
def Position.Finds : Position → Select → Prop
  | .start, statement | .selectList, statement | .source, statement =>
    statement.table = none ∧ statement.joins = [] ∧ statement.filter = none ∧
      statement.groupBy = none ∧ statement.orderBy = none ∧ statement.limit = none ∧
      statement.offset = none
  | .join, statement | .filter, statement =>
    statement.filter = none ∧ statement.groupBy = none ∧ statement.orderBy = none ∧
      statement.limit = none ∧ statement.offset = none
  | .groupBy, statement =>
    statement.groupBy = none ∧ statement.orderBy = none ∧ statement.limit = none ∧
      statement.offset = none
  | .groupList, statement =>
    statement.groupBy = some [] ∧ statement.orderBy = none ∧ statement.limit = none ∧
      statement.offset = none
  | .orderBy, statement =>
    statement.orderBy = none ∧ statement.limit = none ∧ statement.offset = none
  | .orderList, statement =>
    statement.orderBy = some [] ∧ statement.limit = none ∧ statement.offset = none
  | .limit, _ | .offset, _ | .finish, _ => True

/-- What holds when a position is entered. -/
structure Entry (position : Position) (progress : Progress Pushback) : Prop where
  opened : position.Opened (Feed.scan progress.feed).1.token
  finds : position.Finds progress.statement
  ordered : progress.statement.offset.isSome → progress.statement.orderBy.isSome

/-- The positions of the clauses that may follow a part of a statement. -/
def Part.nexts : Part → List Position
  | .table => [.join, .filter, .groupBy, .orderBy, .limit]
  | .filter => [.groupBy, .orderBy, .limit, .offset]
  | .groupBy => [.orderBy, .limit, .offset]
  | .orderBy => [.limit, .offset]
  | .limit => [.offset]
  | .offset => [.limit]

theorem mem_nexts {part : Part} {word : Keyword} {position : Position}
    (h : following part word = some position) : position ∈ Part.nexts part := by
  cases part <;> cases word <;> cases h <;> decide

/-- The lexeme that leads to a position is one at which it is entered. -/
theorem opened_of_positionAfter {part : Part} {token : Token} {position : Position}
    (h : positionAfter part token = some position) : position.Opened token := by
  rcases positionAfter_cases h with ⟨hterminal, rfl⟩ | ⟨word, rfl, hword⟩
  · cases token with
    | eof => exact .inl rfl
    | semicolon => exact .inr rfl
    | _ => cases hterminal
  · have hopens := mem_opens hword
    cases position with
    | join => exact ⟨word, hopens, rfl⟩
    | start | selectList | source | groupList | orderList | finish => cases hopens
    | filter | groupBy | orderBy | limit | offset =>
        rw [List.mem_singleton.mp hopens]
        rfl

/-! ## What one step does -/

variable {α : Type} {text : String} {feed : Pushback} {before : Select}

/-- The outcome of a step that started with a statement. -/
structure Stepped (text : String) (before : Select)
    (run : Except ParseError (Option Position) × Progress Pushback) : Prop where
  within : run.2.feed.Within text
  kept : before.KeptIn run.2.statement
  entry : ∀ next, run.1 = .ok (some next) → Entry next run.2
  proper : ∀ error, run.1 = .error error → error.fault.Proper text

theorem stepped_error {after : Select} (hwithin : feed.Within text) (hkept : before.KeptIn after)
    {error : ParseError} (hproper : error.fault.Proper text) :
    Stepped text before (.error error, ⟨feed, after⟩) where
  within := hwithin
  kept := hkept
  entry := fun _ h => by cases h
  proper := fun _ h => Except.error.inj h ▸ hproper

theorem stepped_next {position : Position} {after : Select} (hwithin : feed.Within text)
    (hkept : before.KeptIn after) (hentry : Entry position ⟨feed, after⟩) :
    Stepped text before (.ok (some position), ⟨feed, after⟩) where
  within := hwithin
  kept := hkept
  entry := fun _ h => Option.some.inj (Except.ok.inj h) ▸ hentry
  proper := fun _ h => by cases h

/-- A phrase in front leaves the statement as it is. -/
theorem stepped_bind {first : Parser Pushback α} {next : α → Parser Pushback (Option Position)}
    (hwithin : feed.Within text) (hfirst : Orderly text Eq first)
    (hnext : ∀ result feed, feed.Within text → Stepped text before (next result ⟨feed, before⟩)) :
    Stepped text before ((first >>= next) ⟨feed, before⟩) := by
  rw [bind_apply]
  cases hrun : first ⟨feed, before⟩ with
  | mk outcome after =>
      obtain ⟨feed', after'⟩ := after
      obtain ⟨hafter, hsame, hproper⟩ := hfirst _ _ _ hwithin hrun
      obtain rfl : before = after' := hsame
      cases outcome with
      | ok result => exact hnext result feed' hafter
      | error error => exact stepped_error hafter (.refl before) (hproper error rfl)

/-- The keyword that a position is entered at is read. -/
theorem keyword_bind {word : Keyword} (hopened : (Feed.scan feed).1.token = .keyword word)
    (next : Unit → Parser Pushback α) :
    (keyword word >>= next) ⟨feed, before⟩ = next () ⟨(Feed.scan feed).2, before⟩ := by
  rw [keyword, bind_apply, take_apply, keywordForm, if_pos hopened]

/-- With `GROUP` or `ORDER` ahead, only `BY` can be missing. -/
theorem stepped_keywordBy {word : Keyword} {next : Unit → Parser Pushback (Option Position)}
    (hword : word = .GROUP ∨ word = .ORDER) (hwithin : feed.Within text)
    (hopened : (Feed.scan feed).1.token = .keyword word)
    (hnext : ∀ feed, feed.Within text → Stepped text before (next () ⟨feed, before⟩)) :
    Stepped text before ((keywordBy word >>= next) ⟨feed, before⟩) := by
  let second := (Feed.scan (Feed.scan feed).2).1
  have hlater := hwithin.scan.2.1.scan.2.1
  have hrun : keywordBy word ⟨feed, before⟩ =
      (if (Feed.scan feed).1.token = .keyword word ∧ second.token = .keyword .BY then pure ()
        else fail (.unexpected ((Feed.scan feed).1.text ++ " " ++ second.text) (.keyword word))
          ((Feed.scan feed).1.span.merge second.span) : Parser Pushback Unit)
        ⟨(Feed.scan (Feed.scan feed).2).2, before⟩ := rfl
  rw [bind_apply, hrun]
  by_cases hsecond : second.token = .keyword .BY
  · rw [if_pos ⟨hopened, hsecond⟩]
    exact hnext _ hlater
  · rw [if_neg fun h => hsecond h.2]
    refine stepped_error hlater (.refl before) ⟨fun hguard => ?_, ?_⟩
    · rcases hword with rfl | rfl <;> cases hguard
    · intro found word' hfault _
      obtain ⟨rfl, hsame⟩ := Fault.unexpected.inj hfault
      obtain rfl := Expectation.keyword.inj hsame
      have hend : feed.scan.1.token ≠ .eof := by
        rw [show feed.scan.1.token = .keyword word from hopened]
        exact Token.noConfusion
      exact ⟨_, second, hwithin.pair hend, hopened, hsecond, rfl⟩

/-- A clause that may not stand here is a fault of its own. -/
theorem stepped_forbid {wrong : Bool} {fault : Fault}
    {next : Unit → Parser Pushback (Option Position)} (hwithin : feed.Within text)
    (hproper : fault.Proper text)
    (hnext : wrong = false → Stepped text before (next () ⟨feed, before⟩)) :
    Stepped text before ((forbid wrong fault >>= next) ⟨feed, before⟩) := by
  cases wrong with
  | false => exact hnext rfl
  | true => exact stepped_error hwithin.scan.2.2 (.refl before) hproper

/-- At the end of a clause the statement is changed, and the lexeme ahead says where to
go on. -/
theorem stepped_goOn {change : Select → Select} {part : Part} (hwithin : feed.Within text)
    (hkept : before.KeptIn (change before))
    (hfinds : ∀ position ∈ Part.nexts part, position.Finds (change before))
    (hordered : (change before).offset.isSome → (change before).orderBy.isSome) :
    Stepped text before
      ((do update change; goOn part : Parser Pushback (Option Position)) ⟨feed, before⟩) := by
  have hunscan := hwithin.scan.2.2
  have hrun : (do update change; goOn part : Parser Pushback (Option Position)) ⟨feed, before⟩ =
      goOn part ⟨feed, change before⟩ := rfl
  rw [hrun, goOn_apply]
  cases hposition : positionAfter part (Feed.scan feed).1.token with
  | none =>
      exact stepped_error hunscan hkept (Fault.proper_unexpected text _ rfl)
  | some position =>
      refine stepped_next hunscan hkept ⟨?_, ?_, hordered⟩
      · -- The lexeme that was looked at is still ahead.
        have hsame : (Feed.scan (Feed.unscan (Feed.scan feed).2)).1 = (Feed.scan feed).1 :=
          feed.scan_unscan_scan
        change position.Opened (Feed.scan (Feed.unscan (Feed.scan feed).2)).1.token
        rw [hsame]
        exact opened_of_positionAfter hposition
      · rcases positionAfter_cases hposition with ⟨-, rfl⟩ | ⟨word, -, hword⟩
        · trivial
        · exact hfinds position (mem_nexts hword)

/-! ## Every step keeps its promise -/

theorem stepped_start (hwithin : feed.Within text) (hentry : Entry .start ⟨feed, before⟩) :
    Stepped text before (readStart ⟨feed, before⟩) :=
  stepped_bind hwithin (orderly_keyword rfl) fun _ _ hafter =>
    stepped_next hafter (.refl before) ⟨trivial, hentry.finds, hentry.ordered⟩

/-- The select list is read in place, and what has been read of it is kept. -/
theorem stepped_selectList (hwithin : feed.Within text)
    (hentry : Entry .selectList ⟨feed, before⟩) :
    Stepped text before (readSelectList ⟨feed, before⟩) := by
  have hfinds := hentry.finds
  have hordered := hentry.ordered
  rw [readSelectList, bind_apply]
  cases hrun : selectList ⟨feed, before⟩ with
  | mk outcome after =>
      obtain ⟨feed', after⟩ := after
      obtain ⟨hafter, ⟨more, rfl⟩, hproper⟩ := orderly_selectList _ _ _ hwithin hrun
      have hkept : before.KeptIn { before with fields := before.fields ++ more } :=
        { Select.KeptIn.refl before with fields := List.prefix_append _ _ }
      cases outcome with
      | error error => exact stepped_error hafter hkept (hproper error rfl)
      | ok result => exact stepped_next hafter hkept ⟨trivial, hfinds, hordered⟩

theorem stepped_source (hwithin : feed.Within text) (hentry : Entry .source ⟨feed, before⟩) :
    Stepped text before (readSource ⟨feed, before⟩) := by
  obtain ⟨htable, -, hlater⟩ : Position.Finds .source before := hentry.finds
  refine stepped_bind hwithin (orderly_keyword rfl) fun _ _ hwithin => ?_
  refine stepped_bind hwithin (orderly_name rfl) fun name _ hwithin => ?_
  apply stepped_goOn hwithin
  · exact { Select.KeptIn.refl before with table := by simp [htable] }
  · simp [Part.nexts, Position.Finds, hlater]
  · exact hentry.ordered

theorem stepped_join (hwithin : feed.Within text) (hentry : Entry .join ⟨feed, before⟩) :
    Stepped text before (readJoin ⟨feed, before⟩) := by
  have hlater : Position.Finds .join before := hentry.finds
  refine stepped_bind hwithin orderly_joinKind fun kind _ hwithin => ?_
  refine stepped_bind hwithin (orderly_name rfl) fun name _ hwithin => ?_
  refine stepped_bind hwithin (orderly_keyword rfl) fun _ _ hwithin => ?_
  refine stepped_bind hwithin orderly_criterion fun condition _ hwithin => ?_
  apply stepped_goOn hwithin
  · exact { Select.KeptIn.refl before with joins := List.prefix_append _ _ }
  · simpa [Part.nexts, Position.Finds] using hlater
  · exact hentry.ordered

theorem stepped_filter (hwithin : feed.Within text) (hentry : Entry .filter ⟨feed, before⟩) :
    Stepped text before (readFilter ⟨feed, before⟩) := by
  obtain ⟨hfilter, hlater⟩ : Position.Finds .filter before := hentry.finds
  rw [readFilter, keyword_bind hentry.opened]
  refine stepped_bind hwithin.scan.2.1 orderly_predicate fun condition _ hwithin => ?_
  apply stepped_goOn hwithin
  · exact { Select.KeptIn.refl before with filter := by simp [hfilter] }
  · simp [Part.nexts, Position.Finds, hlater]
  · exact hentry.ordered

theorem stepped_groupBy (hwithin : feed.Within text) (hentry : Entry .groupBy ⟨feed, before⟩) :
    Stepped text before (readGroupBy ⟨feed, before⟩) := by
  obtain ⟨hgroupBy, hlater⟩ : Position.Finds .groupBy before := hentry.finds
  rw [readGroupBy, statement_bind, hgroupBy, Option.isSome_none, forbid_false_bind]
  refine stepped_keywordBy (.inl rfl) hwithin hentry.opened fun _ hwithin => ?_
  apply stepped_next hwithin
  · exact { Select.KeptIn.refl before with groupBy := by simp [hgroupBy] }
  · exact ⟨trivial, ⟨rfl, hlater⟩, hentry.ordered⟩

theorem stepped_groupList (hwithin : feed.Within text)
    (hentry : Entry .groupList ⟨feed, before⟩) :
    Stepped text before (readGroupList ⟨feed, before⟩) := by
  obtain ⟨hgroupBy, hlater⟩ : Position.Finds .groupList before := hentry.finds
  refine stepped_bind hwithin orderly_nameList fun names _ hwithin => ?_
  apply stepped_goOn hwithin
  · exact { Select.KeptIn.refl before with groupBy := by simp [hgroupBy] }
  · simp [Part.nexts, Position.Finds, hlater]
  · exact hentry.ordered

theorem stepped_orderBy (hwithin : feed.Within text) (hentry : Entry .orderBy ⟨feed, before⟩) :
    Stepped text before (readOrderBy ⟨feed, before⟩) := by
  obtain ⟨horderBy, hlater⟩ : Position.Finds .orderBy before := hentry.finds
  rw [readOrderBy, statement_bind, horderBy, Option.isSome_none, forbid_false_bind]
  refine stepped_keywordBy (.inr rfl) hwithin hentry.opened fun _ hwithin => ?_
  apply stepped_next hwithin
  · exact { Select.KeptIn.refl before with orderBy := by simp [horderBy] }
  · exact ⟨trivial, ⟨rfl, hlater⟩, fun _ => rfl⟩

theorem stepped_orderList (hwithin : feed.Within text)
    (hentry : Entry .orderList ⟨feed, before⟩) :
    Stepped text before (readOrderList ⟨feed, before⟩) := by
  obtain ⟨horderBy, -⟩ : Position.Finds .orderList before := hentry.finds
  refine stepped_bind hwithin orderly_nameList fun names _ hwithin => ?_
  apply stepped_goOn hwithin
  · exact { Select.KeptIn.refl before with orderBy := by simp [horderBy] }
  · simp [Part.nexts, Position.Finds]
  · simp [horderBy]

theorem stepped_limit (hwithin : feed.Within text) (hentry : Entry .limit ⟨feed, before⟩) :
    Stepped text before (readLimit ⟨feed, before⟩) := by
  rw [readLimit, statement_bind]
  refine stepped_forbid hwithin
    (Fault.proper_repeated text (by decide) (by decide)) fun hlimit => ?_
  rw [Option.isSome_eq_false_iff, Option.isNone_iff_eq_none] at hlimit
  rw [keyword_bind hentry.opened]
  refine stepped_bind hwithin.scan.2.1 (orderly_count .limit) fun value _ hwithin => ?_
  apply stepped_goOn hwithin
  · exact { Select.KeptIn.refl before with limit := by simp [hlimit] }
  · simp [Part.nexts, Position.Finds]
  · exact hentry.ordered

/-- Whether there is an ORDER BY clause is looked at before anything is read, so an
OFFSET that is read has one. -/
theorem stepped_offset (hwithin : feed.Within text) (hentry : Entry .offset ⟨feed, before⟩) :
    Stepped text before (readOffset ⟨feed, before⟩) := by
  rw [readOffset, statement_bind]
  refine stepped_forbid hwithin (Fault.proper_offsetWithoutOrder text) fun horderBy => ?_
  refine stepped_forbid hwithin
    (Fault.proper_repeated text (by decide) (by decide)) fun hoffset => ?_
  rw [Option.isSome_eq_false_iff, Option.isNone_iff_eq_none] at hoffset
  rw [keyword_bind hentry.opened]
  refine stepped_bind hwithin.scan.2.1 (orderly_count .offset) fun value _ hwithin => ?_
  apply stepped_goOn hwithin
  · exact { Select.KeptIn.refl before with offset := by simp [hoffset] }
  · simp [Part.nexts, Position.Finds]
  · exact fun _ => by simpa using horderBy

theorem stepped_finish (hwithin : feed.Within text) (hentry : Entry .finish ⟨feed, before⟩) :
    Stepped text before (readFinish ⟨feed, before⟩) := by
  have hterminal : (Feed.scan feed).1.token.isTerminal = true := by
    rcases hentry.opened with heof | hsemicolon
    · exact heof ▸ rfl
    · exact hsemicolon ▸ rfl
  rw [readFinish, bind_apply, scan_apply]
  dsimp only
  rw [if_pos hterminal]
  change Stepped text before (.ok none, ⟨(Feed.scan feed).2, before⟩)
  exact ⟨hwithin.scan.2.1, .refl before, (fun _ h => by cases h), fun _ h => by cases h⟩

/-- From the entry condition of a position, a step goes on to a position with its own,
or ends, or fails properly. -/
theorem stepped_step {position : Position} {progress : Progress Pushback}
    (hwithin : progress.feed.Within text) (hentry : Entry position progress) :
    Stepped text progress.statement (step position progress) := by
  cases position with
  | start => exact stepped_start hwithin hentry
  | selectList => exact stepped_selectList hwithin hentry
  | source => exact stepped_source hwithin hentry
  | join => exact stepped_join hwithin hentry
  | filter => exact stepped_filter hwithin hentry
  | groupBy => exact stepped_groupBy hwithin hentry
  | groupList => exact stepped_groupList hwithin hentry
  | orderBy => exact stepped_orderBy hwithin hentry
  | orderList => exact stepped_orderList hwithin hentry
  | limit => exact stepped_limit hwithin hentry
  | offset => exact stepped_offset hwithin hentry
  | finish => exact stepped_finish hwithin hentry

/-! ## Runs -/

/-- The positions of a run on a text, each with the progress made when it is
entered. -/
inductive Reached (text : String) : Position → Progress Pushback → Prop
  | start : Reached text .start (startOf text)
  | step {position next : Position} {progress after : Progress Pushback} :
      Reached text position progress → step position progress = (.ok (some next), after) →
      Reached text next after

variable {position : Position} {progress : Progress Pushback}

theorem Reached.within_entry (h : Reached text position progress) :
    progress.feed.Within text ∧ Entry position progress := by
  induction h with
  | start =>
      exact ⟨Pushback.within_ofText text, trivial, ⟨rfl, rfl, rfl, rfl, rfl, rfl, rfl⟩,
        fun h => absurd h Bool.false_ne_true⟩
  | @step position next progress after _ hstep ih =>
      have hstepped := stepped_step ih.1 ih.2
      rw [hstep] at hstepped
      exact ⟨hstepped.within, hstepped.entry next rfl⟩

theorem Reached.stepped (h : Reached text position progress) :
    Stepped text progress.statement (Parser.step position progress) :=
  stepped_step h.within_entry.1 h.within_entry.2

/-- What is complete at a position is complete at the end of the run, and if the run
fails it does so properly. -/
theorem Reached.run (h : Reached text position progress) :
    progress.statement.KeptIn (run position progress).2.statement ∧
      ∀ error, (run position progress).1 = .error error → error.fault.Proper text := by
  fun_induction Parser.run position progress with
  | case1 position progress error after hstep =>
      have hstepped := h.stepped
      rw [hstep] at hstepped
      exact ⟨hstepped.kept, fun _ h => Except.error.inj h ▸ hstepped.proper error rfl⟩
  | case2 position progress after hstep =>
      have hstepped := h.stepped
      rw [hstep] at hstepped
      exact ⟨hstepped.kept, fun _ h => by cases h⟩
  | case3 position progress next after hstep ih =>
      have hstepped := h.stepped
      rw [hstep] at hstepped
      obtain ⟨hkept, hproper⟩ := ih (h.step hstep)
      exact ⟨hstepped.kept.trans hkept, hproper⟩

/-- All positions of a run lead to the end of the same run. -/
theorem Reached.run_eq (h : Reached text position progress) :
    Parser.run position progress = Parser.run .start (startOf text) := by
  induction h with
  | start => rfl
  | @step position next progress after _ hstep ih =>
      rw [← ih, run_eq_step_bind position, bind_apply, hstep]
      rfl

/-- Every position of the run on a text is entered at its keyword and with its clause
still to come.  So no step writes over what is complete, and the statement at the end
of the run has all of it; and if the run fails, no guard of a position has failed. -/
theorem reached_entry (text : String) :
    (∀ position progress, Reached text position progress → Entry position progress) ∧
      (∀ position progress, Reached text position progress →
        progress.statement.KeptIn (step position progress).2.statement ∧
          progress.statement.KeptIn (Select.parsePartial text).1) ∧
      ∀ error, Select.parse text = .error error → error.fault.Proper text := by
  refine ⟨fun _ _ h => h.within_entry.2, fun _ _ h => ⟨h.stepped.kept, ?_⟩, fun error h => ?_⟩
  · have hkept := h.run.1
    rw [h.run_eq] at hkept
    exact hkept
  · have hproper := (Reached.start : Reached text .start _).run.2
    cases hrun : run .start (startOf text) with
    | mk outcome after =>
        rw [hrun] at hproper
        cases outcome with
        | ok result =>
            rw [parse_of_run_ok hrun] at h
            cases h
        | error error' =>
            rw [parse_of_run_error hrun] at h
            exact Except.error.inj h ▸ hproper error' rfl

/-- A text without `BY` fails at the two lexemes that it has instead, of which the
first is the keyword. -/
theorem reached_entry_unpaired :
    Select.parse "SELECT a FROM t GROUP a" =
        .error ⟨.unexpected "GROUP a" (.keyword .GROUP), ⟨16, 23⟩⟩ ∧
      ∃ first second, [first, second] <:+: Scanner.tokenize "SELECT a FROM t GROUP a" ∧
        first.token = .keyword .GROUP ∧ second.token ≠ .keyword .BY ∧
        "GROUP a" = first.text ++ " " ++ second.text := by
  have hparse : Select.parse "SELECT a FROM t GROUP a" =
      .error ⟨.unexpected "GROUP a" (.keyword .GROUP), ⟨16, 23⟩⟩ := by
    decide +kernel
  have hproper := (reached_entry "SELECT a FROM t GROUP a").2.2 _ hparse
  exact ⟨hparse, hproper.pair _ .GROUP rfl (.inl rfl)⟩

end Parser

end SelectPlan
