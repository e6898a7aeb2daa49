import SelectPlan.Proofs.Grammar.Following

/-!
# The parser and the grammar

The loop over clauses derives what the grammar of statements derives
(`statementPhrase_iff`).  So a text is parsed to a statement just if its lexemes
start with symbols that derive the statement, and symbols derive at most one
statement.
-/

namespace SelectPlan.Parser

open Grammar

/-! ## The clauses of a statement, last ones first -/

/-- The counts that may come after an ORDER BY clause. -/
inductive Counts : List Symbol → Option Nat → Option Nat → Prop
  | nothing : Counts [] none none
  | limit {symbols value} : Limiting symbols value → Counts symbols (some value) none
  | offset {symbols count} : Skipping symbols count → Counts symbols none (some count)
  | limitOffset {limit value offset count} : Limiting limit value → Skipping offset count →
      Counts (limit ++ offset) (some value) (some count)
  | offsetLimit {offset count limit value} : Skipping offset count → Limiting limit value →
      Counts (offset ++ limit) (some value) (some count)

/-- A tail orders by names and then counts, or has a LIMIT at most. -/
theorem tail_iff {tail : List Symbol} {orderBy : Option (List Ident)} {limit offset : Option Nat} :
    Tail tail orderBy limit offset ↔
      (tail = [] ∧ orderBy = none ∧ limit = none ∧ offset = none) ∨
      (∃ value, Limiting tail value ∧ orderBy = none ∧ limit = some value ∧ offset = none) ∨
      ∃ order names counts, tail = order ++ counts ∧ Ordering order names ∧
        Counts counts limit offset ∧ orderBy = some names := by
  constructor
  · intro h
    cases h with
    | nothing => exact .inl ⟨rfl, rfl, rfl, rfl⟩
    | limit hlimit => exact .inr (.inl ⟨_, hlimit, rfl, rfl, rfl⟩)
    | order horder =>
        exact .inr (.inr ⟨tail, _, [], (List.append_nil tail).symm, horder, .nothing, rfl⟩)
    | orderLimit horder hlimit => exact .inr (.inr ⟨_, _, _, rfl, horder, .limit hlimit, rfl⟩)
    | orderOffset horder hoffset => exact .inr (.inr ⟨_, _, _, rfl, horder, .offset hoffset, rfl⟩)
    | orderLimitOffset horder hlimit hoffset =>
        exact .inr (.inr ⟨_, _, _, List.append_assoc .., horder, .limitOffset hlimit hoffset, rfl⟩)
    | orderOffsetLimit horder hoffset hlimit =>
        exact .inr (.inr ⟨_, _, _, List.append_assoc .., horder, .offsetLimit hoffset hlimit, rfl⟩)
  · rintro (⟨rfl, rfl, rfl, rfl⟩ | ⟨value, hlimit, rfl, rfl, rfl⟩ |
      ⟨order, names, counts, rfl, horder, hcounts, rfl⟩)
    · exact .nothing
    · exact .limit hlimit
    · cases hcounts with
      | nothing =>
          rw [List.append_nil]
          exact .order horder
      | limit hlimit => exact .orderLimit horder hlimit
      | offset hoffset => exact .orderOffset horder hoffset
      | limitOffset hlimit hoffset =>
          rw [← List.append_assoc]
          exact .orderLimitOffset horder hlimit hoffset
      | offsetLimit hoffset hlimit =>
          rw [← List.append_assoc]
          exact .orderOffsetLimit horder hoffset hlimit

variable {fields : List Ident} {table : Option Expr} {joins : List Join} {filter : Option Expr}
  {groupBy orderBy : Option (List Ident)} {limit offset : Option Nat} {symbols : List Symbol}
  {after : Select}

/-- What may follow one part may follow another if the keyword table leads from
there to all the same clauses, as far as they are allowed. -/
theorem Following.of_part {part part' : Part} {before : Select}
    (h : Following part before symbols after)
    (hparts : ∀ word position, following part word = some position →
      allows position before = true → following part' word = some position) :
    Following part' before symbols after := by
  cases h with
  | finish hending => exact .finish hending
  | clause hword hallows hextends hrest =>
      exact .clause (hparts _ _ hword hallows) hallows hextends hrest

theorem following_limit_iff
    (h : allows .offset ⟨fields, table, joins, filter, groupBy, orderBy, limit, offset⟩ = false) :
    Following .limit ⟨fields, table, joins, filter, groupBy, orderBy, limit, offset⟩ symbols after ↔
      ∃ ending, symbols = [ending] ∧ ending.token.isTerminal = true ∧
        after = ⟨fields, table, joins, filter, groupBy, orderBy, limit, offset⟩ := by
  constructor
  · intro hfollowing
    cases hfollowing with
    | finish hending => exact ⟨_, rfl, hending, rfl⟩
    | @clause _ word _ _ _ _ _ _ hword hallows _ _ =>
        -- Only OFFSET is led to from here, and the statement does not allow it.
        cases word <;> cases hword
        rw [h] at hallows
        cases hallows
  · rintro ⟨ending, rfl, hending, rfl⟩
    exact .finish hending

theorem following_offset_iff {names : List Ident} {count : Nat} :
    Following .offset ⟨fields, table, joins, filter, groupBy, some names, limit, some count⟩ symbols
        after ↔
      ∃ rest ending limit', symbols = rest ++ [ending] ∧ ending.token.isTerminal = true ∧
        (rest = [] ∧ limit' = limit ∨
          limit = none ∧ ∃ value, Limiting rest value ∧ limit' = some value) ∧
        after = ⟨fields, table, joins, filter, groupBy, some names, limit', some count⟩ := by
  constructor
  · intro hfollowing
    cases hfollowing with
    | finish hending => exact ⟨[], _, limit, rfl, hending, .inl ⟨rfl, rfl⟩, rfl⟩
    | @clause _ word _ _ used _ _ _ hword hallows hextends hrest =>
        cases word <;> cases hword
        cases hextends with
        | @limit _ _ value hlimit =>
            obtain ⟨ending, rfl, hending, rfl⟩ := (following_limit_iff rfl).mp hrest
            exact ⟨used, ending, some value, rfl, hending,
              .inr ⟨Option.isNone_iff_eq_none.mp hallows, value, hlimit, rfl⟩, rfl⟩
  · rintro ⟨rest, ending, limit', rfl, hending, ⟨rfl, rfl⟩ | ⟨rfl, value, hlimit, rfl⟩, rfl⟩
    · exact .finish hending
    · exact .clause (show following .offset .LIMIT = some .limit from rfl) rfl (.limit hlimit)
        (.finish hending)

theorem following_ordered_limit_iff {names : List Ident} {value : Nat} :
    Following .limit ⟨fields, table, joins, filter, groupBy, some names, some value, none⟩ symbols
        after ↔
      ∃ rest ending offset', symbols = rest ++ [ending] ∧ ending.token.isTerminal = true ∧
        (rest = [] ∧ offset' = none ∨ ∃ count, Skipping rest count ∧ offset' = some count) ∧
        after = ⟨fields, table, joins, filter, groupBy, some names, some value, offset'⟩ := by
  constructor
  · intro hfollowing
    cases hfollowing with
    | finish hending => exact ⟨[], _, none, rfl, hending, .inl ⟨rfl, rfl⟩, rfl⟩
    | @clause _ word _ _ used _ _ _ hword hallows hextends hrest =>
        cases word <;> cases hword
        cases hextends with
        | @offset _ _ count hoffset =>
            -- Behind OFFSET comes the end, since the statement has its LIMIT.
            obtain ⟨rest, ending, limit', rfl, hending, ⟨rfl, rfl⟩ | ⟨hnone, -⟩, rfl⟩ :=
              following_offset_iff.mp hrest
            · exact ⟨used, ending, some count, rfl, hending, .inr ⟨count, hoffset, rfl⟩, rfl⟩
            · cases hnone
  · rintro ⟨rest, ending, offset', rfl, hending, ⟨rfl, rfl⟩ | ⟨count, hoffset, rfl⟩, rfl⟩
    · exact .finish hending
    · exact .clause (show following .limit .OFFSET = some .offset from rfl) rfl (.offset hoffset)
        (.finish hending)

theorem following_orderBy_iff {names : List Ident} :
    Following .orderBy ⟨fields, table, joins, filter, groupBy, some names, none, none⟩ symbols
        after ↔
      ∃ counts ending limit offset, symbols = counts ++ [ending] ∧
        ending.token.isTerminal = true ∧ Counts counts limit offset ∧
        after = ⟨fields, table, joins, filter, groupBy, some names, limit, offset⟩ := by
  constructor
  · intro hfollowing
    cases hfollowing with
    | finish hending => exact ⟨[], _, none, none, rfl, hending, .nothing, rfl⟩
    | @clause _ word _ _ used _ _ _ hword hallows hextends hrest =>
        -- The keyword table leaves LIMIT and OFFSET.
        cases word <;> cases hword
        · cases hextends with
          | @limit _ _ value hlimit =>
              obtain ⟨rest, ending, offset', rfl, hending, hoffset, rfl⟩ :=
                following_ordered_limit_iff.mp hrest
              refine ⟨used ++ rest, ending, some value, offset', (List.append_assoc ..).symm,
                hending, ?_, rfl⟩
              rcases hoffset with ⟨rfl, rfl⟩ | ⟨count, hoffset, rfl⟩
              · rw [List.append_nil]
                exact .limit hlimit
              · exact .limitOffset hlimit hoffset
        · cases hextends with
          | @offset _ _ count hoffset =>
              obtain ⟨rest, ending, limit', rfl, hending, hlimit, rfl⟩ :=
                following_offset_iff.mp hrest
              refine ⟨used ++ rest, ending, limit', some count, (List.append_assoc ..).symm,
                hending, ?_, rfl⟩
              rcases hlimit with ⟨rfl, rfl⟩ | ⟨-, value, hlimit, rfl⟩
              · rw [List.append_nil]
                exact .offset hoffset
              · exact .offsetLimit hoffset hlimit
  · rintro ⟨counts, ending, limit, offset, rfl, hending, hcounts, rfl⟩
    have hlimit : following .orderBy .LIMIT = some .limit := rfl
    have hoffset : following .orderBy .OFFSET = some .offset := rfl
    cases hcounts with
    | nothing => exact .finish hending
    | limit h => exact .clause hlimit rfl (.limit h) (.finish hending)
    | offset h => exact .clause hoffset rfl (.offset h) (.finish hending)
    | limitOffset h h' =>
        rw [List.append_assoc]
        apply Following.clause hlimit rfl (.limit h)
        exact following_ordered_limit_iff.mpr
          ⟨_, ending, _, rfl, hending, .inr ⟨_, h', rfl⟩, rfl⟩
    | offsetLimit h h' =>
        rw [List.append_assoc]
        apply Following.clause hoffset rfl (.offset h)
        exact following_offset_iff.mpr
          ⟨_, ending, _, rfl, hending, .inr ⟨rfl, _, h', rfl⟩, rfl⟩

/-- What may follow a GROUP BY clause. -/
theorem following_groupBy_iff :
    Following .groupBy ⟨fields, table, joins, filter, groupBy, none, none, none⟩ symbols after ↔
      ∃ tail ending orderBy limit offset, symbols = tail ++ [ending] ∧
        ending.token.isTerminal = true ∧ Tail tail orderBy limit offset ∧
        after = ⟨fields, table, joins, filter, groupBy, orderBy, limit, offset⟩ := by
  constructor
  · intro hfollowing
    cases hfollowing with
    | finish hending => exact ⟨[], _, none, none, none, rfl, hending, .nothing, rfl⟩
    | @clause _ word _ _ used _ _ _ hword hallows hextends hrest =>
        cases word <;> cases hword
        · cases hextends with
          | @orderBy _ _ names horder =>
              obtain ⟨counts, ending, limit, offset, rfl, hending, hcounts, rfl⟩ :=
                following_orderBy_iff.mp hrest
              exact ⟨used ++ counts, ending, some names, limit, offset,
                (List.append_assoc ..).symm, hending,
                tail_iff.mpr (.inr (.inr ⟨used, names, counts, rfl, horder, hcounts, rfl⟩)), rfl⟩
        · cases hextends with
          | @limit _ _ value hlimit =>
              obtain ⟨ending, rfl, hending, rfl⟩ := (following_limit_iff rfl).mp hrest
              exact ⟨used, ending, none, some value, none, rfl, hending, .limit hlimit, rfl⟩
        · -- There is no ORDER BY clause that OFFSET could belong to.
          cases hallows
  · rintro ⟨tail, ending, orderBy, limit, offset, rfl, hending, htail, rfl⟩
    rcases tail_iff.mp htail with ⟨rfl, rfl, rfl, rfl⟩ | ⟨value, hlimit, rfl, rfl, rfl⟩ |
      ⟨order, names, counts, rfl, horder, hcounts, rfl⟩
    · exact .finish hending
    · exact .clause (show following .groupBy .LIMIT = some .limit from rfl) rfl (.limit hlimit)
        (.finish hending)
    · rw [List.append_assoc]
      refine .clause (show following .groupBy .ORDER = some .orderBy from rfl) rfl
        (.orderBy horder) ?_
      exact following_orderBy_iff.mpr ⟨counts, ending, limit, offset, rfl, hending, hcounts, rfl⟩

/-- What may follow a WHERE clause: what may follow a GROUP BY clause, with such
a clause in front or not. -/
theorem following_filter_iff :
    Following .filter ⟨fields, table, joins, filter, none, none, none, none⟩ symbols after ↔
      ∃ grouping rest groupBy, symbols = grouping ++ rest ∧ Optional Grouping grouping groupBy ∧
        Following .groupBy ⟨fields, table, joins, filter, groupBy, none, none, none⟩ rest
          after := by
  constructor
  · intro hfollowing
    cases hfollowing with
    | finish hending => exact ⟨[], _, none, rfl, .absent, .finish hending⟩
    | @clause _ word _ _ used _ rest _ hword hallows hextends hrest =>
        cases word <;> cases hword
        · cases hextends with
          | groupBy hgroup => exact ⟨used, rest, _, rfl, .present hgroup, hrest⟩
        -- The other clauses may follow GROUP BY as well, so there is none in front of them.
        all_goals refine ⟨[], used ++ rest, none, rfl, .absent, ?_⟩
        · exact .clause (show following .groupBy .ORDER = some .orderBy from rfl) hallows hextends
            hrest
        · exact .clause (show following .groupBy .LIMIT = some .limit from rfl) hallows hextends
            hrest
        · exact .clause (show following .groupBy .OFFSET = some .offset from rfl) hallows hextends
            hrest
  · rintro ⟨grouping, rest, groupBy, rfl, hgrouping, hrest⟩
    cases hgrouping with
    | absent =>
        refine hrest.of_part fun word position hword hallows => ?_
        cases word <;> cases hword <;> rfl
    | present hgroup =>
        exact .clause (show following .filter .GROUP = some .groupBy from rfl) rfl
          (.groupBy hgroup) hrest

/-- What may follow a relation: what may follow a WHERE clause, with joins and
such a clause in front or not. -/
theorem exists_of_following_table {joins : List Join} {symbols : List Symbol}
    (h : Following .table ⟨fields, table, joins, none, none, none, none, none⟩ symbols after) :
    ∃ joining filtering rest more joins' filter, symbols = joining ++ (filtering ++ rest) ∧
      Joins joining more ∧ joins' = joins ++ more ∧ Optional Where filtering filter ∧
      Following .filter ⟨fields, table, joins', filter, none, none, none, none⟩ rest after := by
  have hnil : joins = joins ++ [] := (List.append_nil joins).symm
  cases h with
  | finish hending =>
      exact ⟨[], [], _, [], joins, none, rfl, .none, hnil, .absent, .finish hending⟩
  | @clause _ word position _ used between rest _ hword hallows hextends hrest =>
      rcases leads_cases ⟨.table, word, hword⟩ with rfl | rfl | rfl | rfl | rfl | rfl
      · cases hextends with
        | @join _ _ join hjoin =>
            -- A join leads back to the same place, with fewer symbols ahead.
            have hshorter : rest.length < (used ++ rest).length := by
              obtain ⟨first, others, other, rfl, -, -⟩ := exists_of_joining hjoin
              simp only [List.length_append, List.length_cons]
              omega
            obtain ⟨joining, filtering, rest, more, joins', filter, rfl, hjoins, rfl, hfilter,
              hrest⟩ := exists_of_following_table hrest
            exact ⟨used ++ joining, filtering, rest, join :: more, _, filter,
              (List.append_assoc ..).symm, .more hjoin hjoins, List.append_assoc .., hfilter, hrest⟩
      · cases hextends with
        | @filter _ _ condition hfilter =>
            exact ⟨[], used, rest, [], joins, some condition, rfl, .none, hnil, .present hfilter,
              hrest⟩
      all_goals refine ⟨[], [], used ++ rest, [], joins, none, rfl, .none, hnil, .absent, ?_⟩
      · have hword : following .filter .GROUP = some .groupBy := rfl
        exact .clause hword hallows hextends hrest
      · have hword : following .filter .ORDER = some .orderBy := rfl
        exact .clause hword hallows hextends hrest
      · have hword : following .filter .LIMIT = some .limit := rfl
        exact .clause hword hallows hextends hrest
      · cases hallows
termination_by symbols.length

theorem following_table_of_optional {filtering rest : List Symbol}
    (hfilter : Optional Where filtering filter)
    (hrest : Following .filter ⟨fields, table, joins, filter, none, none, none, none⟩ rest after) :
    Following .table ⟨fields, table, joins, none, none, none, none, none⟩ (filtering ++ rest)
      after := by
  cases hfilter with
  | absent =>
      refine hrest.of_part fun word position hword hallows => ?_
      cases word <;> cases hword
      all_goals first | rfl | cases hallows
  | present hfilter =>
      exact .clause (show following .table .WHERE = some .filter from rfl) rfl (.filter hfilter)
        hrest

theorem following_table_of_joins {joining rest : List Symbol} {more : List Join}
    (hjoins : Joins joining more)
    (hrest : Following .table ⟨fields, table, joins ++ more, none, none, none, none, none⟩ rest
      after) :
    Following .table ⟨fields, table, joins, none, none, none, none, none⟩ (joining ++ rest)
      after := by
  induction hjoins generalizing joins with
  | none => rwa [List.append_nil] at hrest
  | @more used join others more hjoin _ ih =>
      obtain ⟨first, others, word, hfirst, hsymbol, hword⟩ := exists_of_joining hjoin
      rw [List.append_assoc]
      refine .clause (following_of_mem_opens (show following .table .JOIN = some .join from rfl)
        hword) rfl (.join hjoin) (ih ?_)
      rwa [List.append_assoc, List.singleton_append]

/-! ## Whole statements -/

theorem statementPhrase_iff (symbols : List Symbol) (statement : Select) :
    statementPhrase {} symbols () statement ↔ Statement symbols statement := by
  constructor
  · rintro ⟨front, back, _, between, rfl, ⟨selecting, fields, source, table, rfl, hfields, htable,
      rfl⟩, hfollowing⟩
    obtain ⟨joining, filtering, rest, joins, _, filter, rfl, hjoins, rfl, hfilter, hrest⟩ :=
      exists_of_following_table hfollowing
    obtain ⟨grouping, rest, groupBy, rfl, hgrouping, hrest⟩ := following_filter_iff.mp hrest
    obtain ⟨tail, ending, orderBy, limit, offset, rfl, hending, htail, rfl⟩ :=
      following_groupBy_iff.mp hrest
    have hstatement := Statement.intro hfields htable hjoins hfilter hgrouping htail hending
    simpa only [List.append_assoc, List.nil_append] using hstatement
  · rintro ⟨hfields, htable, hjoins, hfilter, hgrouping, htail, hending⟩
    simp only [List.append_assoc]
    -- The select list and the relation are the opening, all the rest follows it.
    rw [← List.append_assoc]
    refine ⟨_, _, (), _, rfl, ⟨_, _, _, _, rfl, hfields, htable, rfl⟩, ?_⟩
    refine following_table_of_joins hjoins (following_table_of_optional hfilter ?_)
    refine following_filter_iff.mpr ⟨_, _, _, rfl, hgrouping, ?_⟩
    exact following_groupBy_iff.mpr ⟨_, _, _, _, _, rfl, hending, htail, rfl⟩

end SelectPlan.Parser
