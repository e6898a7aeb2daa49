import SelectPlan.Proofs.Grammar.Placement

/-!
# What is complete of a statement

`Completed` says which statement is complete after symbols that start a text: the fields
of a select list one by one, then the relation and each clause as a whole, but for the
lists of GROUP BY and ORDER BY, which are there and empty while they are read.  The
symbols leave no choice in it (`Completed.unique`).

## Strategy

A clause and a longer one that goes on with the keyword of a clause are never both
derived, since one run of a parser would read both (`Reads.not_longer`).  So the clauses
in front of an unfinished one are cut in one way only (`Passing.unique`), and so is the
start of a statement.
-/

namespace SelectPlan

open SelectPlan.Parser

namespace Grammar

/-- The symbols start what is derived, and are not all of it. -/
def Unfinished {α : Type} (Derives : List Symbol → α → Prop) (symbols : List Symbol) : Prop :=
  (∃ more value, Derives (symbols ++ more) value) ∧ ∀ value, ¬ Derives symbols value

/-- What a clause leaves of a statement if it ends unfinished after these symbols. -/
inductive Interrupted : List Symbol → Select → Select → Prop
  | between {statement} : Interrupted [] statement statement
  | join {symbols statement} : Unfinished Joining symbols →
      Interrupted symbols statement statement
  | filter {symbols statement} : Unfinished Where symbols →
      Interrupted symbols statement statement
  | group {symbols statement} : Keywords [.GROUP] symbols → statement.groupBy = none →
      Interrupted symbols statement statement
  | groupList {lead list statement} : Keywords [.GROUP, .BY] lead →
      Unfinished (Listed Name) list → statement.groupBy = none →
      Interrupted (lead ++ list) statement { statement with groupBy := some [] }
  | order {symbols statement} : Keywords [.ORDER] symbols → statement.orderBy = none →
      Interrupted symbols statement statement
  | orderList {lead list statement} : Keywords [.ORDER, .BY] lead →
      Unfinished (Listed Name) list → statement.orderBy = none →
      Interrupted (lead ++ list) statement { statement with orderBy := some [] }
  | limit {symbols statement} : Unfinished Limiting symbols → statement.limit = none →
      Interrupted symbols statement statement
  | offset {symbols statement} : Unfinished Skipping symbols → statement.offset = none →
      Interrupted symbols statement statement

/-- The statement that is complete after these symbols, which start a text: nothing, a
select list or the part of it that has been read, or a whole statement and a clause that
is unfinished. -/
inductive Completed : List Symbol → Select → Prop
  | start : Completed [] {}
  | select {lead} : Keywords [.SELECT] lead → Completed lead {}
  | comma {selecting fields} {comma : Symbol} : Selecting selecting fields →
      comma.token = .comma → Completed (selecting ++ [comma]) { fields }
  | source {selecting fields source} : Selecting selecting fields → Unfinished Source source →
      Completed (selecting ++ source) { fields }
  | clauses {front rest complete statement} : Statement (front ++ [Symbol.ending]) complete →
      Interrupted rest complete statement → Completed (front ++ rest) statement

end Grammar

open Grammar

namespace Parser

/-! ## Readings of the same symbols -/

section Readings

variable {α : Type} {parser : Parser Listing α} {used used' rest rest' : List Symbol}
  {next next' : Symbol} {before after after' : Select} {result result' : α}

/-- Two readings from the start of the same symbols leave one statement, and one symbol
ahead. -/
theorem Reads.unique (h : Reads parser used [next] before result after)
    (h' : Reads parser used' [next'] before result' after')
    (hsame : used ++ next :: rest = used' ++ next' :: rest') : next = next' ∧ after = after' := by
  have hwhole : used ++ ([next] ++ rest) = used' ++ ([next'] ++ rest') := hsame
  obtain ⟨hafter, feed, hoffers, hoffers'⟩ := h.same_run h' hwhole
  rw [List.singleton_append, List.map_cons] at hoffers hoffers'
  have hlexeme := (LawfulFeed.scan_eq hoffers).symm.trans (LawfulFeed.scan_eq hoffers')
  exact ⟨congrArg Lexeme.symbol hlexeme, hafter⟩

/-- What is read in front of a symbol is not read together with it. -/
theorem Reads.not_longer {more : List Symbol} (h : Reads parser used [next] before result after)
    (hnext : next ≠ Symbol.ending) :
    ¬ Reads parser (used ++ next :: more) [Symbol.ending] before result' after' := by
  intro h'
  have hsame : used ++ next :: (more ++ [Symbol.ending]) =
      (used ++ next :: more) ++ Symbol.ending :: [] := by simp
  exact hnext (h.unique h' hsame).1

end Readings

/-! ## Clauses of the same symbols -/

variable {position position' : Position} {before after between between' : Select}
  {used used' rest rest' : List Symbol}

/-- The first of the symbols, if there is one, is a keyword that starts a clause. -/
def OpensClause (symbols : List Symbol) : Prop :=
  ∀ symbol ∈ symbols.head?, ∃ word position, symbol.token = .keyword word ∧ word ∈ opens position

theorem opensClause_nil : OpensClause [] := by
  simp [OpensClause]

theorem OpensClause.of_cons {symbol : Symbol} (h : OpensClause (symbol :: rest)) :
    OpensClause (symbol :: rest') :=
  h

/-- A symbol that goes on with no predicate and no list. -/
def Behind (symbol : Symbol) : Prop :=
  endsPredicate symbol.token ∧ endsList symbol.token

theorem behind_ending : Behind Symbol.ending :=
  ⟨rfl, rfl⟩

theorem OpensClause.behind {symbol : Symbol} (h : OpensClause (symbol :: rest)) :
    Behind symbol ∧ symbol ≠ Symbol.ending := by
  obtain ⟨word, position, hsymbol, hword⟩ := h symbol rfl
  refine ⟨⟨?_, ?_⟩, ?_⟩
  · rw [hsymbol]
    cases word <;> first | rfl | (cases position <;> simp [opens] at hword)
  · rw [hsymbol]
    rfl
  · rintro rfl
    cases hsymbol

/-- Where clauses follow, the symbols are cut behind what is read in one way only. -/
theorem Reads.cut_unique {parser : Parser Listing Unit}
    (h : ∀ next, Behind next → Reads parser used [next] before () between)
    (h' : ∀ next, Behind next → Reads parser used' [next] before () between')
    (hrest : OpensClause rest) (hrest' : OpensClause rest')
    (hsame : used ++ rest = used' ++ rest') : used = used' ∧ between = between' := by
  have hused : used = used' := by
    rcases List.append_eq_append_iff.mp hsame with ⟨others, rfl, rfl⟩ | ⟨others, rfl, rfl⟩
    · cases others with
      | nil => exact (List.append_nil used).symm
      | cons symbol others =>
          obtain ⟨hbehind, hne⟩ := hrest.behind
          exact absurd (h' _ behind_ending) ((h _ hbehind).not_longer hne)
    · cases others with
      | nil => exact List.append_nil used'
      | cons symbol others =>
          obtain ⟨hbehind, hne⟩ := hrest'.behind
          exact absurd (h _ behind_ending) ((h' _ hbehind).not_longer hne)
  subst hused
  have hboth : used ++ Symbol.ending :: [] = used ++ [Symbol.ending] := rfl
  exact ⟨rfl, ((h _ behind_ending).unique (h' _ behind_ending) hboth).2⟩

theorem reads_behind (h : Extends position before used between) (next : Symbol)
    (hnext : Behind next) :
    Reads (clause position : Parser Listing Unit) used [next] before () between :=
  reads_clause_of_ends h hnext.1 hnext.2

theorem Extends.opensClause (h : Extends position before used after) : OpensClause used := by
  obtain ⟨symbol, others, word, rfl, hsymbol, hword⟩ := h.exists_cons
  intro first hfirst
  obtain rfl := Option.some.inj hfirst
  exact ⟨word, position, hsymbol, hword⟩

/-- Clauses that start with the same symbol are clauses of one position. -/
theorem Extends.position_eq {symbol : Symbol} (h : Extends position before (symbol :: rest) between)
    (h' : Extends position' after (symbol :: rest') between') : position = position' := by
  obtain ⟨_, _, word, hcons, hsymbol, hword⟩ := h.exists_cons
  obtain ⟨_, _, word', hcons', hsymbol', hword'⟩ := h'.exists_cons
  rw [← (List.cons.inj hcons).1] at hsymbol
  rw [← (List.cons.inj hcons').1] at hsymbol'
  obtain rfl : word = word' := Token.keyword.inj (hsymbol.symm.trans hsymbol')
  exact position_eq_of_mem_opens hword hword'

/-- A clause does not go on with the keyword of another one. -/
theorem Extends.not_longer {symbol : Symbol} (h : Extends position before used between)
    (hrest : OpensClause (symbol :: rest)) :
    ¬ Extends position before (used ++ symbol :: rest) between' := by
  intro h'
  obtain ⟨hbehind, hne⟩ := hrest.behind
  exact (reads_behind h symbol hbehind).not_longer hne (reads_behind h' _ behind_ending)

/-! ## Clauses that are unfinished -/

/-- The phrase can be completed after these symbols, and is not all there. -/
def Pending {α : Type} (phrase : Phrase α) (before : Select) (used : List Symbol) : Prop :=
  (∃ more result after, phrase before (used ++ more) result after) ∧
    ∀ result after, ¬ phrase before used result after

theorem pending_iff {α β : Type} {phrase : Phrase α} {Derives : List Symbol → β → Prop}
    (h : ∀ symbols, (∃ result after, phrase before symbols result after) ↔
      ∃ value, Derives symbols value) : Pending phrase before used ↔ Unfinished Derives used := by
  constructor
  · rintro ⟨⟨more, result, after, hderived⟩, hnot⟩
    refine ⟨⟨more, (h _).mp ⟨result, after, hderived⟩⟩, fun value hall => ?_⟩
    obtain ⟨result, after, hderived⟩ := (h _).mpr ⟨value, hall⟩
    exact hnot result after hderived
  · rintro ⟨⟨more, value, hderived⟩, hnot⟩
    refine ⟨⟨more, (h _).mpr ⟨value, hderived⟩⟩, fun result after hall => ?_⟩
    obtain ⟨value, hderived⟩ := (h _).mp ⟨result, after, hall⟩
    exact hnot value hderived

theorem pending_join : Pending (clausePhrase .join) before used ↔ Unfinished Joining used := by
  refine pending_iff fun symbols => ⟨?_, fun ⟨_, hjoin⟩ => ⟨(), _, .join hjoin⟩⟩
  rintro ⟨_, _, h⟩
  cases h with
  | join hjoin => exact ⟨_, hjoin⟩

theorem pending_filter : Pending (clausePhrase .filter) before used ↔ Unfinished Where used := by
  refine pending_iff fun symbols => ⟨?_, fun ⟨_, hfilter⟩ => ⟨(), _, .filter hfilter⟩⟩
  rintro ⟨_, _, h⟩
  cases h with
  | filter hfilter => exact ⟨_, hfilter⟩

theorem pending_groupBy :
    Pending (clausePhrase .groupBy) before used ↔ Unfinished Grouping used := by
  refine pending_iff fun symbols => ⟨?_, fun ⟨_, hgroup⟩ => ⟨(), _, .groupBy hgroup⟩⟩
  rintro ⟨_, _, h⟩
  cases h with
  | groupBy hgroup => exact ⟨_, hgroup⟩

theorem pending_orderBy :
    Pending (clausePhrase .orderBy) before used ↔ Unfinished Ordering used := by
  refine pending_iff fun symbols => ⟨?_, fun ⟨_, horder⟩ => ⟨(), _, .orderBy horder⟩⟩
  rintro ⟨_, _, h⟩
  cases h with
  | orderBy horder => exact ⟨_, horder⟩

theorem pending_limit : Pending (clausePhrase .limit) before used ↔ Unfinished Limiting used := by
  refine pending_iff fun symbols => ⟨?_, fun ⟨_, hlimit⟩ => ⟨(), _, .limit hlimit⟩⟩
  rintro ⟨_, _, h⟩
  cases h with
  | limit hlimit => exact ⟨_, hlimit⟩

theorem pending_offset : Pending (clausePhrase .offset) before used ↔ Unfinished Skipping used := by
  refine pending_iff fun symbols => ⟨?_, fun ⟨_, hoffset⟩ => ⟨(), _, .offset hoffset⟩⟩
  rintro ⟨_, _, h⟩
  cases h with
  | offset hoffset => exact ⟨_, hoffset⟩

end Parser

namespace Grammar

variable {position : Position} {before between complete statement statement' : Select}
  {symbols used rest : List Symbol}

/-- A list clause is not all there after its first keyword. -/
theorem unfinished_keyword {word : Keyword} (h : Keywords [word] symbols) :
    Unfinished (Clause [word, .BY] (Listed Name)) symbols ∧ ¬ 1 < symbols.length := by
  obtain ⟨symbol, rfl, hsymbol⟩ := keywords_singleton.mp h
  refine ⟨⟨⟨[⟨.keyword .BY, "BY"⟩, ⟨.ident, "x"⟩], [⟨"x"⟩], ?_⟩, ?_⟩, by simp⟩
  · have hlead : Keywords [word, .BY] [symbol, ⟨.keyword .BY, "BY"⟩] := by
      simp [Keywords, hsymbol]
    have hclause : Clause [word, .BY] (Listed Name)
        ([symbol, ⟨.keyword .BY, "BY"⟩] ++ [⟨.ident, "x"⟩]) [⟨"x"⟩] :=
      .intro hlead (.last (.word "x"))
    exact hclause
  · intro names hclause
    generalize hsymbols : [symbol] = symbols at hclause
    obtain ⟨hlead, -⟩ := hclause
    have hlength := congrArg List.length hlead
    have htotal := congrArg List.length hsymbols
    simp only [List.length_map, List.length_append, List.length_cons, List.length_nil] at *
    omega

/-- The names of a list decide whether its clause is all there. -/
theorem unfinished_list {word : Keyword} {lead list : List Symbol} (h : Keywords [word, .BY] lead)
    (hlist : Unfinished (Listed Name) list) :
    Unfinished (Clause [word, .BY] (Listed Name)) (lead ++ list) ∧ 1 < (lead ++ list).length := by
  have hkeywords : ∀ {lead : List Symbol}, Keywords [word, .BY] lead → lead.length = 2 := by
    intro lead hlead
    simpa using congrArg List.length hlead
  obtain ⟨⟨more, names, hnames⟩, hnot⟩ := hlist
  refine ⟨⟨⟨more, names, ?_⟩, ?_⟩, ?_⟩
  · rw [List.append_assoc]
    exact .intro h hnames
  · intro names hclause
    generalize hsymbols : lead ++ list = symbols at hclause
    obtain ⟨hlead, hnames⟩ := hclause
    obtain ⟨-, rfl⟩ := List.append_inj hsymbols ((hkeywords h).trans (hkeywords hlead).symm)
    exact hnot _ hnames
  · rw [List.length_append, hkeywords h]
    omega

/-- The statement while the list of a clause is read. -/
def begun : Position → Select → Select
  | .groupBy, statement => { statement with groupBy := some [] }
  | .orderBy, statement => { statement with orderBy := some [] }
  | _, statement => statement

/-- A clause that breaks off is pending, and what it leaves depends on its keywords only. -/
theorem Interrupted.cases (h : Interrupted symbols complete statement) :
    symbols = [] ∧ statement = complete ∨ ∃ position,
      Pending (clausePhrase position) complete symbols ∧
      statement = if 1 < symbols.length then begun position complete else complete := by
  cases h with
  | between => exact .inl ⟨rfl, rfl⟩
  | join hjoin => exact .inr ⟨.join, pending_join.mpr hjoin, (ite_self _).symm⟩
  | filter hfilter => exact .inr ⟨.filter, pending_filter.mpr hfilter, (ite_self _).symm⟩
  | group hlead _ =>
      obtain ⟨hgroup, hlength⟩ := unfinished_keyword hlead
      exact .inr ⟨.groupBy, pending_groupBy.mpr hgroup, (if_neg hlength).symm⟩
  | groupList hlead hlist _ =>
      obtain ⟨hgroup, hlength⟩ := unfinished_list hlead hlist
      exact .inr ⟨.groupBy, pending_groupBy.mpr hgroup, (if_pos hlength).symm⟩
  | order hlead _ =>
      obtain ⟨horder, hlength⟩ := unfinished_keyword hlead
      exact .inr ⟨.orderBy, pending_orderBy.mpr horder, (if_neg hlength).symm⟩
  | orderList hlead hlist _ =>
      obtain ⟨horder, hlength⟩ := unfinished_list hlead hlist
      exact .inr ⟨.orderBy, pending_orderBy.mpr horder, (if_pos hlength).symm⟩
  | limit hlimit _ => exact .inr ⟨.limit, pending_limit.mpr hlimit, (ite_self _).symm⟩
  | offset hoffset _ => exact .inr ⟨.offset, pending_offset.mpr hoffset, (ite_self _).symm⟩

theorem Interrupted.opensClause (h : Interrupted symbols complete statement) :
    OpensClause symbols := by
  rcases h.cases with ⟨rfl, -⟩ | ⟨position, ⟨⟨more, _, after, hextends⟩, -⟩, -⟩
  · exact opensClause_nil
  · cases symbols with
    | nil => exact opensClause_nil
    | cons symbol rest => exact (Extends.opensClause hextends).of_cons

/-- A clause that breaks off does not start with one that is all there. -/
theorem Interrupted.not_extends (h : Interrupted (used ++ rest) before statement)
    (hrest : OpensClause rest) : ¬ Extends position before used between := by
  intro hextends
  obtain ⟨symbol, others, word, rfl, -, -⟩ := hextends.exists_cons
  rcases h.cases with ⟨hnil, -⟩ | ⟨position', ⟨⟨more, _, after, hlonger⟩, hnot⟩, -⟩
  · cases hnil
  · rw [List.append_assoc] at hlonger
    obtain rfl := hextends.position_eq hlonger
    cases rest with
    | nil =>
        rw [List.append_nil] at hnot
        exact hnot () _ hextends
    | cons symbol rest => exact hextends.not_longer hrest.of_cons hlonger

/-- What a clause that breaks off leaves is determined by its symbols. -/
theorem Interrupted.unique (h : Interrupted symbols complete statement)
    (h' : Interrupted symbols complete statement') : statement = statement' := by
  cases symbols with
  | nil =>
      have hnil : ∀ {statement}, Interrupted [] complete statement → statement = complete := by
        intro statement h
        rcases h.cases with ⟨-, rfl⟩ | ⟨_, -, rfl⟩ <;> rfl
      exact (hnil h).trans (hnil h').symm
  | cons symbol rest =>
      obtain ⟨hnil, -⟩ | ⟨position, ⟨⟨more, _, _, hextends⟩, -⟩, rfl⟩ := h.cases
      · cases hnil
      obtain ⟨hnil, -⟩ | ⟨position', ⟨⟨more', _, _, hextends'⟩, -⟩, rfl⟩ := h'.cases
      · cases hnil
      -- The first keyword says which clause it is, and that says what is left.
      obtain rfl := Extends.position_eq hextends hextends'
      rfl

end Grammar

namespace Parser

/-! ## Whole clauses and one that is unfinished -/

variable {part last last' : Part}
  {before between between' complete complete' statement statement' : Select}
  {symbols used rest rest' : List Symbol}

theorem Passing.opensClause (h : Passing part before used last complete)
    (hrest : OpensClause rest) : OpensClause (used ++ rest) := by
  cases h with
  | here => exact hrest
  | clause hword _ hextends _ =>
      obtain ⟨symbol, others, word, rfl, -, -⟩ := hextends.exists_cons
      exact hextends.opensClause.of_cons

/-- The clauses in front of one that breaks off are determined by the symbols, and so is
what it leaves. -/
theorem Passing.unique {passed passed' : List Symbol} (h : Passing part before passed last complete)
    (h' : Passing part before passed' last' complete')
    (hrest : Interrupted rest complete statement) (hrest' : Interrupted rest' complete' statement')
    (hsame : passed ++ rest = passed' ++ rest') : statement = statement' := by
  -- Clause by clause: a whole clause is never one that breaks off, and equal keywords cut off
  -- equal clauses.
  induction h generalizing passed' with
  | here =>
      cases h' with
      | here =>
          rw [List.nil_append, List.nil_append] at hsame
          exact hrest.unique (hsame ▸ hrest')
      | clause hword _ hextends hpassing =>
          rw [List.nil_append, List.append_assoc] at hsame
          exact absurd hextends
            ((hsame ▸ hrest).not_extends (hpassing.opensClause hrest'.opensClause))
  | clause hword _ hextends hpassing ih =>
      rw [List.append_assoc] at hsame
      cases h' with
      | here =>
          rw [List.nil_append] at hsame
          exact absurd hextends
            ((hsame ▸ hrest').not_extends (hpassing.opensClause hrest.opensClause))
      | clause hword' _ hextends' hpassing' =>
          rw [List.append_assoc] at hsame
          obtain ⟨symbol, others, _, rfl, -, -⟩ := hextends.exists_cons
          obtain ⟨symbol', others', _, rfl, -, -⟩ := hextends'.exists_cons
          obtain rfl := (List.cons.inj hsame).1
          obtain rfl := hextends.position_eq hextends'
          obtain ⟨hused, rfl⟩ := Reads.cut_unique (reads_behind hextends) (reads_behind hextends')
            (hpassing.opensClause hrest.opensClause)
            (hpassing'.opensClause hrest'.opensClause) hsame
          rw [hused] at hsame
          exact ih hpassing' hrest (List.append_cancel_left hsame)

/-! ## Whole statements -/

/-- What follows a part of a statement up to its end are whole clauses. -/
theorem exists_passing_of_following {front : List Symbol} {ending : Symbol}
    (h : Following part before (front ++ [ending]) complete) :
    ∃ last, Passing part before front last complete := by
  generalize hsymbols : front ++ [ending] = symbols at h
  induction h generalizing front with
  | @finish part before _ _ =>
      obtain rfl : front = [] := by simpa using congrArg List.length hsymbols
      exact ⟨part, .here⟩
  | @clause part word position before used between rest after hword hallows hextends hrest ih =>
      rcases List.eq_nil_or_concat rest with rfl | ⟨others, last, rfl⟩
      · obtain ⟨_, _, hnil, -⟩ := hrest.exists_cons
        cases hnil
      · rw [List.concat_eq_append] at hsymbols ih
        rw [← List.append_assoc] at hsymbols
        obtain ⟨rfl, hlast⟩ := List.append_inj' hsymbols rfl
        obtain ⟨part', hpassing⟩ := ih (congrArg (others ++ ·) hlast)
        exact ⟨part', .clause hword hallows hextends hpassing⟩

/-- The start of a statement does not go on once it is all there. -/
theorem opening_not_longer {symbol : Symbol} {result result' : Unit}
    (h : openingPhrase before used result between) (hne : symbol ≠ Symbol.ending) :
    ¬ openingPhrase before (used ++ symbol :: rest) result' between' := by
  intro h'
  exact (parses_opening (σ := Listing)).complete h symbol trivial |>.not_longer hne
    (parses_opening.complete h' Symbol.ending trivial)

/-- The symbols end within the start of a statement. -/
def WithinOpening (symbols : List Symbol) : Prop :=
  ∃ next more between, next ≠ Symbol.ending ∧ openingPhrase {} (symbols ++ next :: more) () between

theorem withinOpening_of_split {selecting source more : List Symbol} {fields : List Ident}
    {table : Ident} {next : Symbol} (hselecting : Selecting selecting fields)
    (hsource : Source source table) (hsplit : selecting ++ source = symbols ++ next :: more) :
    WithinOpening symbols := by
  have hopening : openingPhrase {} (symbols ++ next :: more) ()
      { fields, table := some (.ident table) } :=
    ⟨_, _, _, _, hsplit.symm, hselecting, hsource, rfl⟩
  refine ⟨next, more, _, ?_, hopening⟩
  rintro rfl
  exact absurd (over_opening hopening Symbol.ending (by simp)).1.2 (by decide)

/-- Where clauses follow the start of a statement, the symbols do not end within it. -/
theorem WithinOpening.not_opened {opened : List Symbol} {result : Unit}
    (h : WithinOpening (opened ++ rest)) (hrest : OpensClause rest) :
    ¬ openingPhrase {} opened result between := by
  intro hopening
  obtain ⟨next, more, longer, hne, hlonger⟩ := h
  rw [List.append_assoc] at hlonger
  cases rest with
  | nil => exact opening_not_longer hopening hne hlonger
  | cons symbol rest => exact opening_not_longer hopening hrest.behind.2 hlonger

end Parser

namespace Grammar

variable {statement statement' : Select} {symbols : List Symbol}

theorem Listed.append {α : Type} {Item : List Symbol → α → Prop} {symbols more : List Symbol}
    {items : List α} {item : α} {comma : Symbol} (h : Listed Item symbols items)
    (hcomma : comma.token = .comma) (hmore : Item more item) :
    Listed Item (symbols ++ comma :: more) (items ++ [item]) := by
  induction h with
  | last hlast => exact .more hlast hcomma (.last hmore)
  | more hfirst hcomma' _ ih =>
      rw [List.append_assoc, List.cons_append]
      exact .more hfirst hcomma' ih

/-- The name in FROM is the last of its symbols. -/
theorem names_of_source {source more : List Symbol} {next : Symbol} {table : Ident}
    (h : Source (source ++ next :: more) table) : source.filterMap Symbol.name? = [] := by
  generalize hsymbols : source ++ next :: more = symbols at h
  obtain ⟨hlead, ⟨text⟩⟩ := h
  obtain ⟨others, last, hlast⟩ : ∃ others last, next :: more = others ++ [last] := by
    simpa using List.eq_nil_or_concat (next :: more)
  rw [hlast, ← List.append_assoc] at hsymbols
  obtain ⟨hfront, -⟩ := List.append_inj' hsymbols rfl
  have hnames := hlead.names_eq
  rw [← hfront, List.filterMap_append] at hnames
  exact (List.append_eq_nil_iff.mp hnames).1

/-- What is complete is broken off in the start of a statement, with the fields that have
been read, or in a clause or between two. -/
theorem Completed.cases (h : Completed symbols statement) :
    WithinOpening symbols ∧ statement = { fields := symbols.filterMap Symbol.name? } ∨
    ∃ opened between passed last complete rest, symbols = opened ++ (passed ++ rest) ∧
      openingPhrase {} opened () between ∧ Passing .table between passed last complete ∧
      Interrupted rest complete statement := by
  have hfields : ∀ {symbols fields}, Selecting symbols fields →
      symbols.filterMap Symbol.name? = fields := fun hselecting =>
    hselecting.names_eq fun _ hlisted => hlisted.names_eq Field.names_eq
  -- A field and a relation behind it complete the start of a statement.
  have hfield : Field [⟨.ident, "x"⟩] ⟨"x"⟩ := .name (.word "x")
  obtain ⟨relation, table, hrelation⟩ : ∃ relation table, Source relation table :=
    ⟨_, _, .intro (keywords_singleton.mpr ⟨⟨.keyword .FROM, "FROM"⟩, rfl, rfl⟩) (.word "x")⟩
  cases h with
  | start =>
      have hselect : Keywords [.SELECT] [⟨.keyword .SELECT, "SELECT"⟩] :=
        keywords_singleton.mpr ⟨_, rfl, rfl⟩
      exact .inl ⟨withinOpening_of_split (.intro hselect (.last hfield)) hrelation rfl, rfl⟩
  | select hlead =>
      refine .inl ⟨withinOpening_of_split (.intro hlead (.last hfield)) hrelation
        (List.append_assoc symbols [_] relation), ?_⟩
      rw [hlead.names_eq]
  | @comma selecting fields comma hselecting hcomma =>
      have hnone : Symbol.name? comma = none := by rw [Symbol.name?, hcomma]
      refine .inl ⟨?_, by simp [hfields hselecting, hnone]⟩
      obtain @⟨lead, list, _, hlead, hlisted⟩ := hselecting
      have hsplit : (lead ++ (list ++ comma :: [⟨.ident, "x"⟩])) ++ relation =
          ((lead ++ list) ++ [comma]) ++ ⟨.ident, "x"⟩ :: relation := by simp
      exact withinOpening_of_split (.intro hlead (hlisted.append hcomma hfield)) hrelation hsplit
  | @source selecting fields source hselecting hsource =>
      obtain ⟨⟨more, table, hderived⟩, hnot⟩ := hsource
      cases more with
      | nil => exact absurd (List.append_nil source ▸ hderived) (hnot table)
      | cons next more =>
          refine .inl ⟨withinOpening_of_split hselecting hderived (List.append_assoc ..).symm, ?_⟩
          rw [List.filterMap_append, hfields hselecting, names_of_source hderived, List.append_nil]
  | @clauses front rest complete _ hstatement hinterrupted =>
      obtain ⟨opened, followed, _, between, hsplit, hopening, hfollowing⟩ :=
        (statementPhrase_iff _ _).mpr hstatement
      rcases List.eq_nil_or_concat followed with rfl | ⟨passed, ending, rfl⟩
      · obtain ⟨_, _, hnil, -⟩ := Following.exists_cons hfollowing
        cases hnil
      rw [List.concat_eq_append] at hsplit hfollowing
      rw [← List.append_assoc] at hsplit
      obtain ⟨rfl, -⟩ := List.append_inj' hsplit rfl
      obtain ⟨last, hpassing⟩ := exists_passing_of_following hfollowing
      exact .inr ⟨opened, between, passed, last, complete, rest, List.append_assoc .., hopening,
        hpassing, hinterrupted⟩

/-- The symbols determine the statement that is complete. -/
theorem Completed.unique (h : Completed symbols statement) (h' : Completed symbols statement') :
    statement = statement' := by
  rcases h.cases with ⟨hwithin, rfl⟩ |
    ⟨opened, between, passed, last, complete, rest, rfl, hopening, hpassing, hrest⟩
  · rcases h'.cases with ⟨-, rfl⟩ |
      ⟨opened, between, passed, last, complete, rest, rfl, hopening, hpassing, hrest⟩
    · rfl
    · exact absurd hopening (hwithin.not_opened (hpassing.opensClause hrest.opensClause))
  · rcases h'.cases with ⟨hwithin, -⟩ |
      ⟨opened', between', passed', last', complete', rest', hsame, hopening', hpassing', hrest'⟩
    · exact absurd hopening (hwithin.not_opened (hpassing.opensClause hrest.opensClause))
    · obtain ⟨rfl, rfl⟩ := Reads.cut_unique
        (fun next _ => parses_opening.complete hopening next trivial)
        (fun next _ => parses_opening.complete hopening' next trivial)
        (hpassing.opensClause hrest.opensClause) (hpassing'.opensClause hrest'.opensClause) hsame
      exact hpassing.unique hpassing' hrest hrest' (List.append_cancel_left hsame)

end Grammar

end SelectPlan
