import SelectPlan.Proofs.Grammar.Clauses

/-!
# The order of clauses

The loop over positions as a right-linear grammar: after a part of a statement
comes either its end, or a clause that the keyword table leads to and the
statement so far allows (`Following`).

* `reads_proceed`: what `Following` derives is read.
* `verdict_proceed`: whatever is offered is read as `Following` derives it, or
  rejected at a symbol in front of which `Following` can still be completed.

`reads_run` and `verdict_run` say the same of whole statements.
-/

namespace SelectPlan.Parser

open Grammar

/-- The rest of a statement after a part of it, clause by clause. -/
inductive Following : Part → Select → List Symbol → Select → Prop
  | finish {part statement ending} : ending.token.isTerminal = true →
      Following part statement [ending] statement
  | clause {part word position before symbols between rest after} :
      following part word = some position → allows position before = true →
      Extends position before symbols between → Following (partOf position) between rest after →
      Following part before (symbols ++ rest) after

theorem positionAfter_of_isTerminal {token : Token} (h : token.isTerminal = true) (part : Part) :
    positionAfter part token = some .finish := by
  cases token with
  | eof => rfl
  | semicolon => rfl
  | _ => cases h

theorem positionAfter_cases {part : Part} {token : Token} {position : Position}
    (h : positionAfter part token = some position) :
    token.isTerminal = true ∧ position = .finish ∨
      ∃ word, token = .keyword word ∧ following part word = some position := by
  cases token with
  | eof => exact .inl ⟨rfl, (Option.some_inj.mp h).symm⟩
  | semicolon => exact .inl ⟨rfl, (Option.some_inj.mp h).symm⟩
  | keyword word => exact .inr ⟨word, rfl, h⟩
  | _ => cases h

/-- The first symbol tells where to go on. -/
theorem Following.exists_cons {part : Part} {before after : Select} {symbols : List Symbol}
    (h : Following part before symbols after) :
    ∃ symbol rest, symbols = symbol :: rest ∧ positionAfter part symbol.token ≠ none := by
  cases h with
  | @finish _ _ ending hending =>
      refine ⟨ending, [], rfl, ?_⟩
      rw [positionAfter_of_isTerminal hending]
      simp
  | clause hword _ hextends _ =>
      obtain ⟨symbol, rest, other, rfl, hsymbol, hother⟩ := hextends.exists_cons
      refine ⟨symbol, _, rfl, ?_⟩
      rw [hsymbol, positionAfter, following_of_mem_opens hword hother]
      simp

variable {σ : Type} [Feed σ] [LawfulFeed σ]

/-! ## Looking ahead and stopping -/

omit [LawfulFeed σ] in
theorem goOn_apply (part : Part) (feed : σ) (before : Select) :
    goOn part ⟨feed, before⟩ =
      ((positionAfter part (Feed.scan feed).1.token).elim
          (.error ⟨.unexpected (Feed.scan feed).1.text (.clauseAfter part),
            (Feed.scan feed).1.span⟩)
          fun position => .ok (some position),
        ⟨Feed.unscan (Feed.scan feed).2, before⟩) := by
  rw [goOn, bind_apply, peek_apply]
  dsimp only
  cases positionAfter part (Feed.scan feed).1.token <;> rfl

theorem reads_goOn {part : Part} {next : Symbol} {position : Position}
    (h : positionAfter part next.token = some position) (before : Select) :
    Reads (goOn part : Parser σ (Option Position)) [] [next] before (some position) before := by
  intro feed passed coming hpassed hcoming hoffers
  rw [List.map_eq_nil_iff] at hpassed
  subst hpassed
  obtain ⟨lexeme, rest, rfl, hlexeme⟩ := exists_of_singleton_prefix hcoming
  rw [List.nil_append] at hoffers
  refine ⟨_, ?_, LawfulFeed.offers_unscan hoffers⟩
  have hposition : positionAfter part lexeme.token = some position := by
    rw [show lexeme.token = next.token from congrArg Symbol.token hlexeme]
    exact h
  rw [goOn_apply, LawfulFeed.scan_eq hoffers, hposition, Option.elim_some]

theorem rejects_goOn {part : Part} {bad : Symbol} (h : positionAfter part bad.token = none)
    (before : Select) :
    Rejects (goOn part : Parser σ (Option Position)) [] bad before
      (.unexpected bad.text (.clauseAfter part)) before := by
  intro feed passed lexeme hpassed hlexeme hoffers
  rw [List.map_eq_nil_iff] at hpassed
  subst hpassed
  subst hlexeme
  rw [List.nil_append] at hoffers
  refine ⟨Feed.unscan (Feed.scan feed).2, ?_⟩
  have hposition : positionAfter part lexeme.token = none := h
  rw [goOn_apply, LawfulFeed.scan_eq hoffers, hposition, Option.elim_none]
  rfl

theorem reads_finish {ending : Symbol} (h : ending.token.isTerminal = true)
    (ahead : List Symbol) (before : Select) :
    Reads (run .finish : Parser σ Unit) [ending] ahead before () before := by
  intro feed passed coming hpassed hcoming hoffers
  obtain ⟨lexeme, rfl, hlexeme⟩ := List.map_eq_singleton_iff.mp hpassed
  rw [List.singleton_append] at hoffers
  refine ⟨_, ?_, LawfulFeed.offers_scan hoffers⟩
  have hterminal : lexeme.token.isTerminal = true := by
    rw [show lexeme.token = ending.token from congrArg Symbol.token hlexeme]
    exact h
  rw [run_eq_step_bind, step, readFinish, bind_assoc, bind_apply, scan_apply]
  dsimp only
  rw [LawfulFeed.scan_eq hoffers, if_pos hterminal]
  rfl

theorem reads_proceed_of_run {part : Part} {next : Symbol} {position : Position}
    (h : positionAfter part next.token = some position) {used ahead : List Symbol}
    (hnext : [next] <+: used ++ ahead) {before after : Select}
    (hrun : Reads (run position : Parser σ Unit) used ahead before () after) :
    Reads (proceed part : Parser σ Unit) used ahead before () after := by
  have hboth : Reads (goOn part >>= goTo : Parser σ Unit) ([] ++ used) ahead before () after :=
    Reads.bind ((reads_goOn h before).extend hnext) hrun
  exact hboth

theorem rejects_proceed_of_run {part : Part} {next : Symbol} {position : Position}
    (h : positionAfter part next.token = some position) {used : List Symbol} {bad : Symbol}
    (hnext : [next] <+: used ++ [bad]) {before after : Select} {fault : Fault}
    (hrun : Rejects (run position : Parser σ Unit) used bad before fault after) :
    Rejects (proceed part : Parser σ Unit) used bad before fault after := by
  have hboth : Rejects (goOn part >>= goTo : Parser σ Unit) ([] ++ used) bad before fault after :=
    Reads.bind_rejects ((reads_goOn h before).extend hnext) settled_nil hrun
  exact hboth

/-! ## What may follow is read -/

/-- What `Following` derives is read. -/
theorem reads_proceed {part : Part} {before after : Select} {used : List Symbol}
    (h : Following part before used after) :
    Reads (proceed part : Parser σ Unit) used [] before () after := by
  induction h with
  | @finish part before ending hending =>
      have hposition := positionAfter_of_isTerminal hending part
      exact reads_proceed_of_run hposition List.prefix_rfl (reads_finish hending [] before)
  | @clause part word position before symbols between rest after hword hallows hextends hrest ih =>
      -- The first symbol leads to the clause, the one behind the clause ends it.
      obtain ⟨first, others, other, hsymbols, hfirst, hother⟩ := hextends.exists_cons
      obtain ⟨next, later, hnext, hfollows⟩ := hrest.exists_cons
      have hposition : positionAfter part first.token = some position := by
        rw [hfirst]
        exact following_of_mem_opens hword hother
      have hclause :
          Reads (clause position : Parser σ Unit) symbols (rest ++ []) before () between :=
        (reads_clause hextends hfollows).extend (by simp [hnext])
      have hrun : Reads (run position : Parser σ Unit) (symbols ++ rest) [] before () after :=
        (hclause.bind ih).congr (run_eq_clause ⟨part, word, hword⟩ hallows)
      exact reads_proceed_of_run hposition (by simp [hsymbols]) hrun

/-! ## What is offered is read or rejected -/

/-- What becomes of the symbols ahead of a parser that reads to the end of a
statement. -/
inductive Verdict (parser : Parser σ Unit) (phrase : Phrase Unit) (before : Select)
    (symbols : List Symbol) : Prop
  | accepts (used : List Symbol) (ending : Symbol) (rest : List Symbol) (after : Select)
      (split : symbols = used ++ ending :: rest)
      (derived : phrase before (used ++ [ending]) () after)
      (run : Reads parser (used ++ [ending]) [] before () after)
  | rejects (used : List Symbol) (bad : Symbol) (rest : List Symbol) (fault : Fault)
      (after : Select) (split : symbols = used ++ bad :: rest)
      (inner : ∀ symbol ∈ used, symbol.Inner) (viable : Viable phrase before used)
      (unpaired : Unpaired used bad) (run : Rejects parser used bad before fault after)

/-- The verdict on a parser that goes on after another. -/
theorem Fate.bind_verdict {first : Parser σ α} {next : α → Parser σ Unit} {phrase : Phrase α}
    {rest : α → Phrase Unit} {before : Select} {symbols : List Symbol}
    (hfirst : Fate first phrase before symbols)
    (hviable : ∀ middle between, Viable (rest middle) between [])
    (hnext : ∀ used symbol more middle between, symbols = used ++ symbol :: more →
      (∀ symbol ∈ used, symbol.Inner) → phrase before used middle between →
      Verdict (next middle) (rest middle) between (symbol :: more)) :
    Verdict (first >>= next) (phrase.andThen rest) before symbols := by
  rcases hfirst with
    ⟨used, symbol, more, middle, between, hsplit, hinner, hsettled, hderived, hrun⟩ |
    ⟨used, bad, more, fault, after, hsplit, hinner, hcomplete, hunpaired, hrun⟩
  · rcases hnext used symbol more middle between hsplit hinner hderived with
      ⟨used', ending, more', after, hsplit', hderived', hrun'⟩ |
      ⟨used', bad, more', fault, after, hsplit', hinner', hcomplete', hunpaired', hrun'⟩
    · have hahead : [symbol] <+: (used' ++ [ending]) ++ [] := by
        rw [List.append_nil]
        exact singleton_prefix_of_split hsplit'
      refine .accepts (used ++ used') ending more' after ?_ ?_ ?_
      · rw [hsplit, hsplit', List.append_assoc]
      · exact ⟨used, used' ++ [ending], middle, between, List.append_assoc .., hderived, hderived'⟩
      · rw [List.append_assoc]
        exact (hrun.extend hahead).bind hrun'
    · refine .rejects (used ++ used') bad more' fault after ?_
        (List.forall_mem_append.mpr ⟨hinner, hinner'⟩) (.andThen_right hderived hcomplete')
        (hsettled.unpaired_append hunpaired')
        ((hrun.extend (singleton_prefix_of_split hsplit')).bind_rejects hsettled hrun')
      rw [hsplit, hsplit', List.append_assoc]
  · exact .rejects used bad more fault after hsplit hinner (hcomplete.andThen_left hviable)
      hunpaired (hrun.bind next)

/-- The phrase of what may follow a part of a statement. -/
def followingPhrase (part : Part) : Phrase Unit :=
  fun before used _ after => Following part before used after

/-- After every part a statement may end. -/
theorem viable_following (part : Part) (before : Select) :
    Viable (followingPhrase part) before [] :=
  ⟨[⟨.semicolon, ";"⟩], (), before, by simpa using ⟨spelled_semicolon, by simp⟩, .finish rfl⟩

/-- A keyword that leads to an allowed clause passes the verdict on to it. -/
theorem Verdict.of_run {part : Part} {word : Keyword} {position : Position}
    (hword : following part word = some position) {before : Select} {symbol : Symbol}
    {rest : List Symbol} (hsymbol : symbol.token = .keyword word)
    (hallows : allows position before = true)
    (h : Verdict (clause position >>= fun _ => proceed (partOf position) : Parser σ Unit)
      ((clausePhrase position).andThen fun _ => followingPhrase (partOf position)) before
      (symbol :: rest)) :
    Verdict (proceed part : Parser σ Unit) (followingPhrase part) before (symbol :: rest) := by
  have hposition : positionAfter part symbol.token = some position := by
    rw [hsymbol]
    exact hword
  have hphrase : ∀ used after, ((clausePhrase position).andThen fun _ =>
      followingPhrase (partOf position)) before used () after →
      followingPhrase part before used () after := by
    rintro used after ⟨front, back, _, between, rfl, hextends, hfollowing⟩
    exact .clause hword hallows hextends hfollowing
  have hsame := fun feed => run_eq_clause (σ := σ) ⟨part, word, hword⟩ hallows feed
  rcases h with
    ⟨used, ending, more, after, hsplit, hderived, hrun⟩ |
    ⟨used, bad, more, fault, after, hsplit, hinner, ⟨completion, _, final, hwritable, hderived⟩,
      hunpaired, hrun⟩
  · refine .accepts used ending more after hsplit (hphrase _ _ hderived) ?_
    refine reads_proceed_of_run hposition ?_ (hrun.congr hsame)
    rw [List.append_nil]
    exact singleton_prefix_of_split hsplit
  · refine .rejects used bad more fault after hsplit hinner
      ⟨completion, (), final, hwritable, hphrase _ _ hderived⟩ hunpaired ?_
    exact rejects_proceed_of_run hposition (singleton_prefix_of_split hsplit) (hrun.congr hsame)

/-- Whatever is offered after a part of a statement is read as `Following`
derives it, or rejected where `Following` can still be completed. -/
theorem verdict_proceed (part : Part) (before : Select) (symbols : List Symbol)
    (hended : Ended symbols) :
    Verdict (proceed part : Parser σ Unit) (followingPhrase part) before symbols := by
  obtain ⟨symbol, rest, rfl⟩ := hended.exists_cons
  cases hposition : positionAfter part symbol.token with
  | none =>
      exact .rejects [] symbol rest _ before rfl (by simp) (viable_following part before)
        (unpaired_nil symbol) ((rejects_goOn hposition before).bind goTo)
  | some position =>
      rcases positionAfter_cases hposition with ⟨hterminal, rfl⟩ | ⟨word, hsymbol, hword⟩
      · exact .accepts [] symbol rest before rfl (.finish hterminal)
          (reads_proceed_of_run hposition List.prefix_rfl (reads_finish hterminal [] before))
      · cases hallows : allows position before with
        -- The keyword is rejected before anything is read, and the statement may
        -- still end there.
        | false =>
            obtain ⟨fault, hrejects⟩ := rejects_run (σ := σ) ⟨part, word, hword⟩ hallows symbol
            exact .rejects [] symbol rest fault before rfl (by simp) (viable_following part before)
              (unpaired_nil symbol) (rejects_proceed_of_run hposition List.prefix_rfl hrejects)
        | true =>
            refine .of_run hword hsymbol hallows ?_
            refine (fate_clause (mem_opens hword) hsymbol hended before).bind_verdict
              (fun _ between => viable_following (partOf position) between) ?_
            intro used next more _ between hsplit hinner hextends
            -- The clause took its keyword at least, so what is left is shorter.
            have hshorter : (next :: more).length < (symbol :: rest).length := by
              obtain ⟨first, others, other, rfl, -, -⟩ := Extends.exists_cons hextends
              rw [hsplit]
              simp only [List.length_append, List.length_cons]
              omega
            exact verdict_proceed (partOf position) between (next :: more)
              (Ended.of_append (hsplit ▸ hended) hinner)
termination_by symbols.length

/-! ## Whole statements -/

/-- The start of a statement: its select list and its relation. -/
def opening : Parser σ Unit := do
  keyword .SELECT
  selectList
  keyword .FROM
  let name ← tableName
  update fun statement => { statement with table := some (.ident name) }

/-- The phrase of the start of a statement. -/
def openingPhrase : Phrase Unit :=
  fun before used _ after => ∃ selecting fields source table, used = selecting ++ source ∧
    Selecting selecting fields ∧ Source source table ∧
    after = { before with fields := before.fields ++ fields, table := some (.ident table) }

/-- The phrase of a whole statement. -/
def statementPhrase : Phrase Unit :=
  openingPhrase.andThen fun _ => followingPhrase .table

omit [LawfulFeed σ] in
theorem run_start_eq :
    (run .start : Parser σ Unit) = opening >>= fun _ => proceed .table := by
  simp only [run_eq_step_bind, step, readStart, readSelectList, readSource, opening, proceed, goTo,
    bind_assoc, pure_bind]

/-- `FROM` and its relation. -/
def sourcePhrase : Phrase Unit :=
  setting [.FROM] Name fun name statement => { statement with table := some (.ident name) }

theorem openingPhrase_iff (before : Select) (used : List Symbol) (result : Unit)
    (after : Select) :
    Phrase.andThen (Phrase.still fun used (_ : Unit) => Keywords [.SELECT] used)
        (fun _ => fieldsPhrase.andThen fun _ => sourcePhrase) before used result after ↔
      openingPhrase before used result after := by
  constructor
  · rintro ⟨lead, rest, _, between, rfl, ⟨hlead, rfl⟩, list, source, _, later, rfl,
      ⟨fields, hfields, rfl⟩, table, hsource, rfl⟩
    exact ⟨lead ++ list, fields, source, table, (List.append_assoc ..).symm,
      .intro hlead hfields, hsource, rfl⟩
  · rintro ⟨_, fields, source, table, rfl, ⟨hlead, hfields⟩, hsource, rfl⟩
    exact ⟨_, _, (), before, List.append_assoc .., ⟨hlead, rfl⟩, _, source, (), _, rfl,
      ⟨fields, hfields, rfl⟩, table, hsource, rfl⟩

theorem parses_source :
    Parses anyToken
      (do keyword .FROM; let name ← tableName; update fun statement =>
        { statement with table := some (.ident name) } : Parser σ Unit) sourcePhrase :=
  parses_clause rfl (parses_name .tableName) _

theorem parses_opening : Parses anyToken (opening : Parser σ Unit) openingPhrase := by
  have hlist := (parses_selectList (σ := σ)).bind_of_stops (fun _ => parses_source) ?_
  · exact ((parses_keyword (σ := σ) rfl).bind fun _ => hlist).congr openingPhrase_iff
  · -- A select list stops at `FROM`, which is not a comma.
    rintro _ before used result after ⟨table, hclause, rfl⟩ next - head hhead
    obtain ⟨symbol, rest, rfl, hsymbol⟩ := exists_of_clause hclause
    rw [List.cons_append, List.head?_cons, Option.mem_some_iff] at hhead
    rw [← hhead, hsymbol]
    rfl

theorem reads_run {before after : Select} {used : List Symbol}
    (h : statementPhrase before used () after) :
    Reads (run .start : Parser σ Unit) used [] before () after := by
  obtain ⟨front, back, _, between, rfl, hopening, hfollowing⟩ := h
  obtain ⟨next, rest, hback, -⟩ := Following.exists_cons hfollowing
  rw [run_start_eq]
  have hread : Reads (opening : Parser σ Unit) front (back ++ []) before () between :=
    (parses_opening.complete hopening next trivial).extend (by simp [hback])
  exact hread.bind (reads_proceed hfollowing)

theorem verdict_run (before : Select) (symbols : List Symbol) (hended : Ended symbols) :
    Verdict (run .start : Parser σ Unit) statementPhrase before symbols := by
  rw [run_start_eq]
  refine (parses_opening.fate before symbols hended).bind_verdict
    (fun _ between => viable_following .table between) ?_
  intro used next more _ between hsplit hinner hopening
  exact verdict_proceed .table between (next :: more) (Ended.of_append (hsplit ▸ hended) hinner)

end SelectPlan.Parser
