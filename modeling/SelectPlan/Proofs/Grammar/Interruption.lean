import SelectPlan.Proofs.Grammar.Completed
import SelectPlan.Proofs.Grammar.FirstFault
import SelectPlan.Proofs.Parser.Halting
import SelectPlan.Proofs.Rendering.RoundTrip

/-!
# What is read of a faulty text

A text that is no statement leaves the statement that was complete in front of its fault.
`Grammar.Completed` says which one that is, by the symbols in front of the fault alone.

## Strategy

Each clause halts where it is unfinished: it could be completed there, and it is not all
there.  The first half is the fate of its parser; the second holds since a clause that is
all there would have been read, unless the rejected symbol goes on with it, and then the
longer clause would have been read (`Parses.not_derives`).  The places where clauses halt
are put together along the run (`haltsAt_proceed`).
-/

namespace SelectPlan

open SelectPlan.Parser

/-- The symbols of a text can be written again, but for its end and what is illegal in
it. -/
theorem Written.writable {symbols : List Symbol} (h : Written symbols) {symbol : Symbol}
    (hmem : symbol ∈ symbols) (hend : symbol.token ≠ .eof) (hillegal : symbol.token ≠ .illegal) :
    symbol.Writable :=
  ⟨h symbol hmem hend hillegal, hillegal⟩

namespace Grammar

/-! ## Lists and predicates that go on -/

theorem Predicate.exists_append {symbols more : List Symbol} {expr : Expr} {criterion : Criterion}
    {connective : Symbol} {op : BinaryOp} (h : Predicate symbols expr)
    (hconnective : Connective connective.token op) (hmore : Comparing more criterion) :
    ∃ longer, Predicate (symbols ++ connective :: more) longer := by
  induction h with
  | last hlast => exact ⟨_, .more hlast hconnective (.last hmore)⟩
  | more hfirst hconnective' _ ih =>
      obtain ⟨longer, hlonger⟩ := ih
      rw [List.append_assoc, List.cons_append]
      exact ⟨_, .more hfirst hconnective' hlonger⟩

end Grammar

open Grammar

namespace Parser

/-! ## A phrase that halts is unfinished -/

section Unfinished

variable {α : Type} {stops : Token → Prop} {parser : Parser Pushback α} {phrase : Phrase α}
  {before : Select} {feed : Pushback} {passed rest : List Lexeme} {bad : Lexeme} {fault : Fault}
  {after : Select}

/-- A phrase that is all there is read, if what is ahead may follow it. -/
theorem Parses.not_derives_of_stops (hparses : Parses stops parser phrase)
    (hstops : stops bad.token) (hoffers : LawfulFeed.Offers feed (passed ++ bad :: rest))
    (hrejects : Rejects parser (passed.map Lexeme.symbol) bad.symbol before fault after)
    (result : α) (final : Select) : ¬ phrase before (passed.map Lexeme.symbol) result final := by
  intro hderived
  obtain ⟨_, hok, -⟩ := hparses.complete hderived bad.symbol hstops feed passed (bad :: rest) rfl
    (List.prefix_append [_] _) hoffers
  obtain ⟨_, hfail⟩ := hrejects.run_eq hoffers
  cases hok.symm.trans hfail

/-- A phrase that goes on behind the rejected symbol is read as well, in a text that is
written for it. -/
theorem Parses.not_derives_cons (hparses : Parses stops parser phrase) (hstops : stops .eof)
    {used more : List Symbol} {symbol : Symbol}
    (hrejects : Rejects parser used symbol before fault after)
    (hwritable : ∀ other ∈ used ++ symbol :: more, other.Writable) (result : α)
    (final : Select) : ¬ phrase before (used ++ symbol :: more) result final := by
  intro hderived
  obtain ⟨text, htext⟩ := exists_tokenize_of_writable hwritable
  have hoffers := offers_ofText text
  obtain ⟨whole, ending, others, hsplit, hwhole, hending, -⟩ := exists_lexemes_of_split htext
  rw [hsplit] at hoffers
  obtain ⟨_, hok, -⟩ := hparses.complete hderived Symbol.ending hstops _ whole (ending :: others)
    hwhole (by rw [List.map_cons, hending]; exact List.prefix_append [_] _) hoffers
  obtain ⟨front, lexeme, behind, rfl, rfl, rfl, -⟩ := exists_lexemes_of_split hwhole
  rw [List.append_assoc, List.cons_append] at hoffers
  obtain ⟨_, hfail⟩ := hrejects.run_eq hoffers
  cases hok.symm.trans hfail

/-- A phrase is not all there where it is rejected, if it can go on with whatever may not
follow it. -/
theorem Parses.not_derives (hparses : Parses stops parser phrase)
    (hstops : stops .eof ∧ stops .illegal)
    (hgrows : ∀ used result final (next : Symbol), phrase before used result final →
      ¬ stops next.token → Viable phrase before (used ++ [next]))
    (hoffers : LawfulFeed.Offers feed (passed ++ bad :: rest))
    (hwritten : Written ((passed ++ bad :: rest).map Lexeme.symbol))
    (hinner : ∀ symbol ∈ passed.map Lexeme.symbol, symbol.Inner)
    (hrejects : Rejects parser (passed.map Lexeme.symbol) bad.symbol before fault after)
    (result : α) (final : Select) : ¬ phrase before (passed.map Lexeme.symbol) result final := by
  intro hderived
  -- If the rejected symbol may follow, the phrase would have been read; if not, the phrase
  -- could go on with it.
  by_cases hbad : stops bad.symbol.token
  · exact hparses.not_derives_of_stops hbad hoffers hrejects result final hderived
  · obtain ⟨more, result', final', hmore, hlonger⟩ := hgrows _ _ _ bad.symbol hderived hbad
    rw [List.append_assoc, List.singleton_append] at hlonger
    refine hparses.not_derives_cons hstops.1 hrejects ?_ result' final' hlonger
    rw [List.map_append, List.map_cons] at hwritten
    refine List.forall_mem_append.mpr ⟨fun symbol hmem => ?_, List.forall_mem_cons.mpr ⟨?_, hmore⟩⟩
    · obtain ⟨hillegal, hterminal⟩ := hinner symbol hmem
      refine hwritten.left.writable hmem (fun hend => ?_) hillegal
      rw [hend] at hterminal
      cases hterminal
    · refine hwritten.right.writable List.mem_cons_self ?_ ?_
      · exact fun hend => hbad (hend ▸ hstops.1)
      · exact fun hillegal => hbad (hillegal ▸ hstops.2)

/-- A parser halts where its phrase is pending. -/
theorem Parses.haltsAt {lexemes : List Lexeme} (hparses : Parses stops parser phrase)
    (left : Select → Select) (before : Select) (hstops : stops .eof ∧ stops .illegal)
    (hgrows : ∀ used result final (next : Symbol), phrase before used result final →
      ¬ stops next.token → Viable phrase before (used ++ [next]))
    (hended : Ended (lexemes.map Lexeme.symbol)) (hoffers : LawfulFeed.Offers feed lexemes)
    (hwritten : Written (lexemes.map Lexeme.symbol))
    (hleft : ∀ error after, parser ⟨feed, before⟩ = (.error error, after) →
      after.statement = left before) :
    HaltsAt parser phrase
      (fun before used after => Pending phrase before used ∧ after = left before) before feed
      lexemes := by
  refine (hparses.fate before _ hended).halts hoffers ?_
  rintro passed bad rest fault error feed' after rfl hinner ⟨more, result, final, -, hderived⟩
    hrejects hrun
  exact ⟨⟨⟨more, result, final, hderived⟩,
    hparses.not_derives hstops hgrows hoffers hwritten hinner hrejects⟩, hleft _ _ hrun⟩

/-- A parser that any token may follow halts where its phrase is pending. -/
theorem Parses.haltsAt_of_anyToken {lexemes : List Lexeme}
    (hparses : Parses anyToken parser phrase) (hunchanged : Unchanged parser)
    (hended : Ended (lexemes.map Lexeme.symbol)) (hoffers : LawfulFeed.Offers feed lexemes) :
    HaltsAt parser phrase (fun before used after => Pending phrase before used ∧ after = before)
      before feed lexemes := by
  refine (hparses.fate before _ hended).halts hoffers ?_
  rintro passed bad rest fault error feed' after rfl - ⟨more, result, final, -, hderived⟩ hrejects
    hrun
  exact ⟨⟨⟨more, result, final, hderived⟩, hparses.not_derives_of_stops trivial hoffers hrejects⟩,
    hunchanged _ _ _ hrun⟩

/-- Where a phrase of single symbols is pending, nothing of it is there. -/
theorem Pending.eq_nil {used : List Symbol} (h : Pending phrase before used)
    (hsingle : ∀ used result after, phrase before used result after → used.length = 1) :
    used = [] := by
  obtain ⟨⟨more, result, after, hderived⟩, hnot⟩ := h
  have hlength := hsingle _ _ _ hderived
  rw [List.length_append] at hlength
  rcases Nat.eq_zero_or_pos more.length with hmore | hmore
  · rw [List.length_eq_zero_iff.mp hmore, List.append_nil] at hderived
    exact absurd hderived (hnot result after)
  · exact List.length_eq_zero_iff.mp (by omega)

end Unfinished

/-! ## Clauses -/

/-- A predicate goes on with `AND` and `OR`, and any other clause ends where it is all
there. -/
theorem grows_wholeClause {position : Position} (h : position.Whole) {before : Select}
    {used : List Symbol} {final : Select} {next : Symbol}
    (hderived : Extends position before used final) (hnext : ¬ endsClause position next.token) :
    Viable (clausePhrase position) before (used ++ [next]) := by
  rcases h with rfl | rfl | rfl | rfl
  · exact absurd trivial hnext
  · cases hderived with
    | filter hfilter =>
        obtain ⟨hlead, hpredicate⟩ := hfilter
        obtain ⟨op, hop⟩ := Option.ne_none_iff_exists'.mp hnext
        obtain ⟨more, criterion, _, hmore, hcomparing, -⟩ :=
          (parses_criterion (σ := Pushback)).viable before
        obtain ⟨longer, hlonger⟩ :=
          hpredicate.exists_append (connectiveForm_eq_some.mp hop) hcomparing
        refine ⟨more, (), { before with filter := some longer }, hmore, .filter ?_⟩
        rw [List.append_assoc, List.append_assoc, List.singleton_append]
        exact .intro hlead hlonger
  · exact absurd trivial hnext
  · exact absurd trivial hnext

/-- What a pending clause leaves, if it joins the statement as a whole. -/
theorem interrupted_of_pending {position : Position} (h : position.Whole) {before : Select}
    (hallows : allows position before = true) {used : List Symbol}
    (hpending : Pending (clausePhrase position) before used) : Interrupted used before before := by
  rcases h with rfl | rfl | rfl | rfl
  · exact .join (pending_join.mp hpending)
  · exact .filter (pending_filter.mp hpending)
  · exact .limit (pending_limit.mp hpending) (Option.isNone_iff_eq_none.mp hallows)
  · exact .offset (pending_offset.mp hpending)
      (Option.isNone_iff_eq_none.mp (Bool.and_eq_true_iff.mp hallows).2)

variable {feed : Pushback} {lexemes : List Lexeme} {before : Select}

theorem haltsAt_wholeClause {position : Position} (h : position.Whole)
    (hallows : allows position before = true) (hended : Ended (lexemes.map Lexeme.symbol))
    (hoffers : LawfulFeed.Offers feed lexemes) (hwritten : Written (lexemes.map Lexeme.symbol)) :
    HaltsAt (clause position) (clausePhrase position)
      (fun before used after => Interrupted used before after) before feed lexemes := by
  have hends : endsClause position .eof ∧ endsClause position .illegal := by
    cases position <;> exact ⟨by trivial, by trivial⟩
  have hhalts := (parses_wholeClause (σ := Pushback) h).haltsAt id before hends
    (fun _ _ _ _ => grows_wholeClause h) hended hoffers hwritten
    fun _ _ hrun => unchanged_wholeClause h _ _ _ hrun
  refine hhalts.imp ?_
  rintro used _ ⟨hpending, rfl⟩
  exact interrupted_of_pending h hallows hpending

/-- The pair of keywords in front of a list is broken off between the two. -/
theorem haltsAt_keywordBy {word : Keyword} (hword : (Token.keyword word).wantsBy = true)
    {first second : Lexeme} {rest : List Lexeme} (hfirst : first.token = .keyword word)
    (hoffers : LawfulFeed.Offers feed (first :: second :: rest)) :
    HaltsAt (keywordBy word) (Phrase.still fun used (_ : Unit) => Keywords [word, .BY] used)
      (fun before used after => Keywords [word] used ∧ after = before) before feed
      (first :: second :: rest) := by
  intro error after hrun
  by_cases hsecond : second.token = .keyword .BY
  · have hwords : Keywords [word, .BY] [first.symbol, second.symbol] :=
      List.cons_eq_cons.mpr ⟨hfirst, List.cons_eq_cons.mpr ⟨hsecond, rfl⟩⟩
    obtain ⟨_, hok, -⟩ := reads_keywordBy hwords [] before feed [first, second] rest rfl
      List.nil_prefix hoffers
    cases hok.symm.trans hrun
  · have hrejects : Rejects (keywordBy word : Parser Pushback Unit) ([first].map Lexeme.symbol)
        second.symbol before _ before := rejects_keywordBy hword hfirst hsecond before
    obtain ⟨_, hfail⟩ := hrejects.run_eq hoffers
    cases hfail.symm.trans hrun
    exact .intro [first] second rest _ rfl (List.forall_mem_singleton.mpr (inner_of_keyword hfirst))
      (viable_keywordBy hfirst before) hrejects ⟨keywords_singleton.mpr ⟨_, rfl, hfirst⟩, rfl⟩

/-- The names of a list clause are broken off where they are unfinished; the statement has
been made ready for them. -/
theorem haltsAt_names {change : Select → Select} {set : List Ident → Select → Select}
    (hended : Ended (lexemes.map Lexeme.symbol)) (hoffers : LawfulFeed.Offers feed lexemes)
    (hwritten : Written (lexemes.map Lexeme.symbol)) :
    HaltsAt (do update change; let names ← nameList; update (set names)) (namesPhrase change set)
      (fun before used after => Unfinished (Listed Name) used ∧ after = change before) before feed
      lexemes := by
  have hgrows : ∀ used (result : Unit) final (next : Symbol),
      namesPhrase change set before used result final → ¬ endsList next.token →
        Viable (namesPhrase change set) before (used ++ [next]) := by
    rintro used _ _ next ⟨names, hlisted, rfl⟩ hnext
    obtain ⟨link, hcomma⟩ := Option.ne_none_iff_exists'.mp hnext
    have hlonger : Listed Name (used ++ [next] ++ [⟨.ident, "x"⟩]) (names ++ [⟨"x"⟩]) := by
      rw [List.append_assoc]
      exact hlisted.append (commaForm_eq_some.mp hcomma) (.word "x")
    exact ⟨_, (), _, List.forall_mem_singleton.mpr writable_name, _, hlonger, rfl⟩
  refine ((parses_names (σ := Pushback) change set).haltsAt change before ⟨rfl, rfl⟩ hgrows
    hended hoffers hwritten fun error after hrun => ?_).imp ?_
  · exact keeps_nameList.bind_unchanged (fun _ => unchanged_update _) ⟨feed, change before⟩ _ _ hrun
  · rintro used _ ⟨⟨⟨more, _, _, names, hlisted, -⟩, hnot⟩, rfl⟩
    exact ⟨⟨⟨more, names, hlisted⟩, fun names hall => hnot () _ ⟨names, hall, rfl⟩⟩, rfl⟩

theorem haltsAt_listClause {word : Keyword} (hword : (Token.keyword word).wantsBy = true)
    {change : Select → Select} {set : List Ident → Select → Select} {first : Lexeme}
    {rest : List Lexeme} (hfirst : first.token = .keyword word)
    (hended : Ended ((first :: rest).map Lexeme.symbol))
    (hoffers : LawfulFeed.Offers feed (first :: rest))
    (hwritten : Written ((first :: rest).map Lexeme.symbol)) :
    HaltsAt (do keywordBy word; update change; let names ← nameList; update (set names))
      (setting [word, .BY] (Listed Name) fun names => set names ∘ change)
      (fun before used after => Keywords [word] used ∧ after = before ∨
        ∃ lead list, used = lead ++ list ∧ Keywords [word, .BY] lead ∧
          Unfinished (Listed Name) list ∧ after = change before) before feed (first :: rest) := by
  obtain ⟨symbol, _, hcons⟩ := (hended.tail (inner_of_keyword hfirst).2).exists_cons
  obtain ⟨second, rest, rfl, -, -⟩ := List.map_eq_cons_iff.mp hcons
  refine HaltsAt.congr (HaltsAt.imp (HaltsAt.bind
    (fun _ before used after => Unfinished (Listed Name) used ∧ after = change before)
    (fate_keywordBy hword hfirst hended before) hoffers
    (haltsAt_keywordBy hword hfirst hoffers) (fun _ => (parses_names (σ := Pushback) _ _).viable)
    ?_) ?_) (keywords_andThen_names word change set)
  · intro front lexeme rest' _ between feed' hsplit hfront _ hoffers'
    rw [hsplit, List.map_append] at hended hwritten
    exact haltsAt_names (hended.of_append hfront) hoffers' hwritten.right
  · rintro used after (hlead | ⟨lead, list, _, between, rfl, ⟨hlead, rfl⟩, hlist, rfl⟩)
    · exact .inl hlead
    · exact .inr ⟨lead, list, rfl, hlead, hlist, rfl⟩

/-- A clause whose keyword is ahead and that is allowed halts where it is unfinished. -/
theorem haltsAt_clause {position : Position} {word : Keyword} (hword : word ∈ opens position)
    (hallows : allows position before = true) {first : Lexeme} {rest : List Lexeme}
    (hfirst : first.token = .keyword word) (hended : Ended ((first :: rest).map Lexeme.symbol))
    (hoffers : LawfulFeed.Offers feed (first :: rest))
    (hwritten : Written ((first :: rest).map Lexeme.symbol)) :
    HaltsAt (clause position) (clausePhrase position)
      (fun before used after => Interrupted used before after) before feed (first :: rest) := by
  cases position
  case join => exact haltsAt_wholeClause (.inl rfl) hallows hended hoffers hwritten
  case filter => exact haltsAt_wholeClause (.inr (.inl rfl)) hallows hended hoffers hwritten
  case limit => exact haltsAt_wholeClause (.inr (.inr (.inl rfl))) hallows hended hoffers hwritten
  case offset => exact haltsAt_wholeClause (.inr (.inr (.inr rfl))) hallows hended hoffers hwritten
  case groupBy =>
    obtain rfl : word = .GROUP := by simpa [opens] using hword
    have hnone := Option.isNone_iff_eq_none.mp hallows
    refine ((haltsAt_listClause rfl hfirst hended hoffers hwritten).imp ?_).congr setting_group_iff
    rintro used after (⟨hlead, rfl⟩ | ⟨lead, list, rfl, hlead, hlist, rfl⟩)
    · exact .group hlead hnone
    · exact .groupList hlead hlist hnone
  case orderBy =>
    obtain rfl : word = .ORDER := by simpa [opens] using hword
    have hnone := Option.isNone_iff_eq_none.mp hallows
    refine ((haltsAt_listClause rfl hfirst hended hoffers hwritten).imp ?_).congr setting_order_iff
    rintro used after (⟨hlead, rfl⟩ | ⟨lead, list, rfl, hlead, hlist, rfl⟩)
    · exact .order hlead hnone
    · exact .orderList hlead hlist hnone
  all_goals exact absurd hword (by simp [opens])

/-! ## The clauses in turn -/

/-- What comes after a part of a statement is broken off between clauses or in one of
them. -/
def brokenAfter (part : Part) (before : Select) (used : List Symbol) (after : Select) : Prop :=
  ∃ front rest complete, used = front ++ rest ∧
    Following part before (front ++ [Symbol.ending]) complete ∧ Interrupted rest complete after

/-- A keyword that leads to an allowed clause leaves it to the clause where to halt. -/
theorem HaltsAt.of_run {part : Part} {word : Keyword} {position : Position}
    (hword : following part word = some position) {first : Lexeme} {rest : List Lexeme}
    (hfirst : first.token = .keyword word) (hallows : allows position before = true)
    (hoffers : LawfulFeed.Offers feed (first :: rest))
    (h : HaltsAt (clause position >>= fun _ => proceed (partOf position))
      ((clausePhrase position).andThen fun _ => followingPhrase (partOf position))
      (brokenIn (clausePhrase position) (fun before used after => Interrupted used before after)
        fun _ => brokenAfter (partOf position)) before (Feed.unscan (Feed.scan feed).2)
      (first :: rest)) :
    HaltsAt (proceed part) (followingPhrase part) (brokenAfter part) before feed
      (first :: rest) := by
  intro error after hrun
  have hposition : positionAfter part first.token = some position := by
    rw [hfirst]
    exact hword
  -- The run looks at the keyword, puts it back and starts over in the clause.
  rw [proceed, bind_apply, goOn_apply, LawfulFeed.scan_eq hoffers, hposition, Option.elim_some]
    at hrun
  change run position ⟨Feed.unscan (Feed.scan feed).2, before⟩ = _ at hrun
  rw [run_eq_clause ⟨part, word, hword⟩ hallows] at hrun
  obtain ⟨passed, bad, others, fault, hsplit, hinner, ⟨more, _, final, hmore, front, back, _,
    between, hcompleted, hextends, hfollowing⟩, hrejects, hbroken⟩ := h error after hrun
  refine .intro passed bad others fault hsplit hinner ⟨more, (), final, hmore, ?_⟩ ?_ ?_
  · rw [hcompleted]
    exact .clause hword hallows hextends hfollowing
  · have hnext : positionAfter part first.symbol.token = some position := hposition
    refine rejects_proceed_of_run hnext ?_
      (hrejects.congr fun feed => run_eq_clause ⟨part, word, hword⟩ hallows feed)
    have hmap := congrArg (List.map Lexeme.symbol) hsplit
    rw [List.map_cons, List.map_append, List.map_cons] at hmap
    exact singleton_prefix_of_split hmap
  · rcases hbroken with hclause | ⟨front, back, _, between, hused, hextends, rest', hback, complete,
      rfl, hfollowing, hinterrupted⟩
    · exact ⟨[], _, before, rfl, .finish rfl, hclause⟩
    · refine ⟨front ++ rest', hback, complete, ?_, ?_, hinterrupted⟩
      · rw [hused, List.append_assoc]
      · rw [List.append_assoc]
        exact .clause hword hallows hextends hfollowing

/-- What comes after a part of a statement halts between clauses or in one of them. -/
theorem haltsAt_proceed (part : Part) (before : Select) (feed : Pushback) (lexemes : List Lexeme)
    (hended : Ended (lexemes.map Lexeme.symbol)) (hoffers : LawfulFeed.Offers feed lexemes)
    (hwritten : Written (lexemes.map Lexeme.symbol)) :
    HaltsAt (proceed part) (followingPhrase part) (brokenAfter part) before feed lexemes := by
  obtain ⟨symbol, others, hcons⟩ := hended.exists_cons
  obtain ⟨first, rest, rfl, -, -⟩ := List.map_eq_cons_iff.mp hcons
  -- Nothing is read and nothing is changed if it halts at the first lexeme.
  have hfirst : ∀ {fault}, Rejects (proceed part : Parser Pushback Unit)
      (([] : List Lexeme).map Lexeme.symbol) first.symbol before fault before →
      HaltsAt (proceed part) (followingPhrase part) (brokenAfter part) before feed
        (first :: rest) := by
    intro fault hrejects error after hrun
    obtain ⟨_, hfail⟩ := hrejects.run_eq hoffers
    cases hfail.symm.trans hrun
    exact .intro [] first rest fault rfl (by simp) (viable_following part before) hrejects
      ⟨[], [], before, rfl, .finish rfl, .between⟩
  cases hposition : positionAfter part first.token with
  | none => exact hfirst ((rejects_goOn hposition before).bind goTo)
  | some position =>
      rcases positionAfter_cases hposition with ⟨hterminal, rfl⟩ | ⟨word, htoken, hword⟩
      · have hnext : positionAfter part first.symbol.token = some .finish := hposition
        have hending : first.symbol.token.isTerminal = true := hterminal
        obtain ⟨_, hok, -⟩ := reads_proceed_of_run hnext List.prefix_rfl
          (reads_finish hending [] before) feed [first] rest rfl List.nil_prefix hoffers
        exact haltsAt_of_ok hok
      · cases hallows : allows position before with
        | false =>
            obtain ⟨fault, hrejects⟩ :=
              rejects_run (σ := Pushback) ⟨part, word, hword⟩ hallows first.symbol
            exact hfirst (rejects_proceed_of_run hposition List.prefix_rfl hrejects)
        | true =>
            have hagain := LawfulFeed.offers_unscan hoffers
            refine .of_run hword htoken hallows hoffers ?_
            refine .bind (fun _ => brokenAfter (partOf position))
              (fate_clause (mem_opens hword) htoken hended before) hagain
              (haltsAt_clause (mem_opens hword) hallows htoken hended hagain hwritten)
              (fun _ between => viable_following (partOf position) between) ?_
            intro front lexeme rest' _ between feed' hsplit hinner hextends hoffers'
            -- The clause took its keyword at least, so what is left is shorter.
            have hshorter : (lexeme :: rest').length < (first :: rest).length := by
              obtain ⟨symbol, symbols, other, hfront, -, -⟩ := Extends.exists_cons hextends
              obtain ⟨head, tail, rfl, -, -⟩ := List.map_eq_cons_iff.mp hfront
              rw [hsplit]
              simp only [List.length_append, List.length_cons]
              omega
            rw [hsplit, List.map_append] at hended hwritten
            exact haltsAt_proceed (partOf position) between feed' (lexeme :: rest')
              (hended.of_append hinner) hoffers' hwritten.right
termination_by lexemes.length

/-! ## The start of a statement -/

/-- A field is there or nothing of it is. -/
theorem haltsAt_field (before : Select) (feed : Pushback) (lexemes : List Lexeme)
    (hended : Ended (lexemes.map Lexeme.symbol)) (hoffers : LawfulFeed.Offers feed lexemes) :
    HaltsAt field fieldPhrase (fun before used after => used = [] ∧ after = before) before feed
      lexemes := by
  have hunchanged : Unchanged (field : Parser Pushback Unit) :=
    (keeps_take _).bind_unchanged fun _ => unchanged_update _
  refine (parses_field.haltsAt_of_anyToken hunchanged hended hoffers).imp ?_
  rintro used after ⟨hpending, rfl⟩
  refine ⟨hpending.eq_nil ?_, rfl⟩
  rintro symbols _ _ ⟨name, hfield, -⟩
  rcases hfield with ⟨⟨text⟩⟩ | hasterisk <;> rfl

/-- A select list is broken off at its start or behind a comma, and a list that is all there
is broken off where `FROM` and a name should follow.  The fields that were read stay. -/
inductive BrokenFields (before : Select) : List Symbol → Select → Prop
  | start : BrokenFields before [] before
  | comma {list comma names} : Listed Field list names → comma.token = .comma →
      BrokenFields before (list ++ [comma]) { before with fields := before.fields ++ names }
  | source {list source names} : Listed Field list names → Unfinished Source source →
      BrokenFields before (list ++ source) { before with fields := before.fields ++ names }

theorem fields_of_brokenChain {used : List Symbol} {after : Select}
    (h : BrokenChain fieldPhrase (fun before used after => used = [] ∧ after = before) commaForm
      before used after) : BrokenFields before used after := by
  induction h with
  | first hfirst =>
      obtain ⟨rfl, rfl⟩ := hfirst
      exact .start
  | @later before used _ between symbol link rest after hfield hcomma _ ih =>
      obtain ⟨name, hname, rfl⟩ := hfield
      have hsymbol := commaForm_eq_some.mp hcomma
      cases ih with
      | start => exact .comma (.last hname) hsymbol
      | comma hlist hlast =>
          simpa only [List.append_assoc, List.cons_append, List.nil_append] using
            @BrokenFields.comma before _ _ _ (.more hname hsymbol hlist) hlast
      | source hlist hsource =>
          simpa only [List.append_assoc, List.cons_append, List.nil_append] using
            @BrokenFields.source before _ _ _ (.more hname hsymbol hlist) hsource

theorem haltsAt_selectList (hended : Ended (lexemes.map Lexeme.symbol))
    (hoffers : LawfulFeed.Offers feed lexemes) :
    HaltsAt selectList fieldsPhrase BrokenFields before feed lexemes := by
  have hchain := haltsAt_chain eats_field parses_field comma_inner haltsAt_field before feed
    lexemes hended hoffers
  exact ((hchain.map fun _ => rfl).imp fun _ _ => fields_of_brokenChain).congr chained_fields_iff

theorem haltsAt_source (hended : Ended (lexemes.map Lexeme.symbol))
    (hoffers : LawfulFeed.Offers feed lexemes) :
    HaltsAt
      (do keyword .FROM; let name ← tableName; update fun statement =>
        { statement with table := some (.ident name) }) sourcePhrase
      (fun before used after => Unfinished Source used ∧ after = before) before feed lexemes := by
  have hunchanged : Unchanged (do keyword .FROM; let name ← tableName; update fun statement =>
      { statement with table := some (.ident name) } : Parser Pushback Unit) :=
    (keeps_keyword _).bind_unchanged fun _ => (keeps_take _).bind_unchanged fun _ =>
      unchanged_update _
  refine (parses_source.haltsAt_of_anyToken hunchanged hended hoffers).imp ?_
  rintro used _ ⟨⟨⟨more, _, _, table, hsource, -⟩, hnot⟩, rfl⟩
  exact ⟨⟨⟨more, table, hsource⟩, fun table hall => hnot () _ ⟨table, hall, rfl⟩⟩, rfl⟩

theorem haltsAt_fields (hended : Ended (lexemes.map Lexeme.symbol))
    (hoffers : LawfulFeed.Offers feed lexemes) :
    HaltsAt
      (do selectList; keyword .FROM; let name ← tableName; update fun statement =>
        { statement with table := some (.ident name) })
      (fieldsPhrase.andThen fun _ => sourcePhrase) BrokenFields before feed lexemes := by
  refine HaltsAt.imp (HaltsAt.bind
    (fun _ before used after => Unfinished Source used ∧ after = before)
    (parses_selectList.fate before _ hended) hoffers (haltsAt_selectList hended hoffers)
    (fun _ => (parses_source (σ := Pushback)).viable) ?_) ?_
  · intro front lexeme rest _ between feed' hsplit hinner _ hoffers'
    rw [hsplit, List.map_append] at hended
    exact haltsAt_source (hended.of_append hinner) hoffers'
  · rintro used after (hlist | ⟨list, source, _, _, rfl, ⟨names, hlist, rfl⟩, hsource, rfl⟩)
    · exact hlist
    · exact .source hlist hsource

/-- In front of its first clause a statement halts with the fields that were read. -/
theorem haltsAt_opening (hended : Ended (lexemes.map Lexeme.symbol))
    (hoffers : LawfulFeed.Offers feed lexemes) :
    HaltsAt opening openingPhrase (fun _ used after => Completed used after) {} feed lexemes := by
  have hkeyword : Parses anyToken (keyword .SELECT : Parser Pushback Unit)
      (Phrase.still fun used _ => Keywords [.SELECT] used) := parses_keyword rfl
  have hlist := fun between => ((parses_selectList (σ := Pushback)).viable between).andThen_left
    fun _ => (parses_source (σ := Pushback)).viable
  refine HaltsAt.congr (HaltsAt.imp (HaltsAt.bind (fun _ => BrokenFields)
    (hkeyword.fate _ _ hended) hoffers
    (hkeyword.haltsAt_of_anyToken (keeps_keyword _).unchanged hended hoffers)
    (fun _ => hlist) ?_) ?_) openingPhrase_iff
  · intro front lexeme rest _ between feed' hsplit hinner _ hoffers'
    rw [hsplit, List.map_append] at hended
    exact haltsAt_fields (hended.of_append hinner) hoffers'
  · rintro used after (⟨hpending, rfl⟩ | ⟨lead, back, _, _, rfl, ⟨hlead, rfl⟩, hback⟩)
    · obtain rfl : used = [] := by
        refine hpending.eq_nil ?_
        rintro symbols _ _ ⟨hwords, -⟩
        obtain ⟨symbol, rfl, -⟩ := keywords_singleton.mp hwords
        rfl
      exact .start
    · cases hback with
      | start =>
          rw [List.append_nil]
          exact .select hlead
      | comma hfields hcomma =>
          rw [← List.append_assoc]
          exact .comma (.intro hlead hfields) hcomma
      | source hfields hsource =>
          rw [← List.append_assoc]
          exact .source (.intro hlead hfields) hsource

/-! ## Whole statements -/

theorem haltsAt_run (hended : Ended (lexemes.map Lexeme.symbol))
    (hoffers : LawfulFeed.Offers feed lexemes) (hwritten : Written (lexemes.map Lexeme.symbol)) :
    HaltsAt (run .start) statementPhrase (fun _ used after => Completed used after) {} feed
      lexemes := by
  rw [run_start_eq]
  refine HaltsAt.imp (HaltsAt.bind (fun _ => brokenAfter .table)
    (parses_opening.fate _ _ hended) hoffers (haltsAt_opening hended hoffers)
    (fun _ => viable_following .table) ?_) ?_
  · intro front lexeme rest _ between feed' hsplit hinner _ hoffers'
    rw [hsplit, List.map_append] at hended hwritten
    exact haltsAt_proceed .table between feed' _ (hended.of_append hinner) hoffers' hwritten.right
  · rintro used after (hopening | ⟨front, _, _, between, rfl, hopening, front', rest, complete, rfl,
      hfollowing, hinterrupted⟩)
    · exact hopening
    · rw [← List.append_assoc]
      refine .clauses ((statementPhrase_iff _ _).mp ?_) hinterrupted
      rw [List.append_assoc]
      exact ⟨front, _, (), between, rfl, hopening, hfollowing⟩

end Parser

/-! ## What is left of a statement reads again -/

/-- The statement without lists of names that hold none. -/
def Select.dropEmpty (statement : Select) : Select :=
  { statement with
    groupBy := statement.groupBy.filter fun names => names ≠ []
    orderBy := statement.orderBy.filter fun names => names ≠ [] }

theorem Select.WellFormed.dropEmpty_eq {statement : Select} (h : statement.WellFormed) :
    statement.dropEmpty = statement := by
  have hkept : ∀ clause : Option (List Ident), (∀ names ∈ clause, WellFormedNames names) →
      clause.filter (fun names => names ≠ []) = clause := by
    intro clause hclause
    cases clause with
    | none => rfl
    | some names => simp [(hclause names rfl).1]
  rw [dropEmpty, hkept _ h.groupBy, hkept _ h.orderBy]

namespace Grammar

/-- A clause that breaks off adds at most a list that is empty. -/
theorem Interrupted.dropEmpty_eq {symbols : List Symbol} {complete statement : Select}
    (h : Interrupted symbols complete statement) (hcomplete : complete.WellFormed) :
    statement.dropEmpty = complete := by
  have hsame := hcomplete.dropEmpty_eq
  cases h with
  | groupList hlead hlist hnone =>
      calc Select.dropEmpty { complete with groupBy := some [] } = complete.dropEmpty := by
            rw [Select.dropEmpty, Select.dropEmpty, hnone]
            rfl
        _ = complete := hsame
  | orderList hlead hlist hnone =>
      calc Select.dropEmpty { complete with orderBy := some [] } = complete.dropEmpty := by
            rw [Select.dropEmpty, Select.dropEmpty, hnone]
            rfl
        _ = complete := hsame
  | _ => exact hsame

/-- A statement that has its relation is written by its text, but for an empty list. -/
theorem Completed.parse_render {symbols : List Symbol} {statement : Select}
    (h : Completed symbols statement) (hwritten : Written symbols)
    (htable : statement.table.isSome = true) :
    Select.parse statement.dropEmpty.render = .ok statement.dropEmpty := by
  cases h with
  | @clauses front rest complete _ hstatement hinterrupted =>
      have hcomplete : complete.WellFormed := by
        refine hstatement.wellFormed fun symbol hmem hend hillegal => ?_
        rcases List.mem_append.mp hmem with hfront | hending
        · exact hwritten.left symbol hfront hend hillegal
        · exact absurd (congrArg Symbol.token (List.mem_singleton.mp hending)) hend
      rw [hinterrupted.dropEmpty_eq hcomplete]
      exact SelectPlan.parse_render hcomplete
  | _ => cases htable

end Grammar

/-- A text that is no statement leaves what is complete in front of its fault.  The fault
is at the first lexeme that no accepted text has after those in front of it, and these
say what is complete and nothing else is; once the relation is, it is written by its own
text, without a list that is empty. -/
theorem parsePartial_completed (text : String) (error : ParseError)
    (h : Select.parse text = .error error) :
    ∃ passed bad rest, Scanner.tokenize text = passed ++ bad :: rest ∧
      error.span = blame passed bad ∧
      (∃ other statement, Select.parse other = .ok statement ∧
        passed.map Lexeme.symbol <+: (Scanner.tokenize other).map Lexeme.symbol) ∧
      (∀ other statement, Select.parse other = .ok statement →
        ¬ (passed ++ [bad]).map Lexeme.symbol <+: (Scanner.tokenize other).map Lexeme.symbol) ∧
      (∀ statement, Completed (passed.map Lexeme.symbol) statement ↔
        statement = (Select.parsePartial text).1) ∧
      ((Select.parsePartial text).1.table.isSome = true →
        Select.parse (Select.parsePartial text).1.dropEmpty.render =
          .ok (Select.parsePartial text).1.dropEmpty) := by
  have hwritten : Written ((Scanner.tokenize text).map Lexeme.symbol) := by
    rw [Scanner.map_symbol_tokenize]
    exact written_symbols text.toList
  rcases hrun : run .start (startOf text) with ⟨error' | _, after⟩
  · obtain ⟨passed, bad, rest, fault, htokens, hinner, hviable, hrejects, hcompleted⟩ :=
      haltsAt_run (Scanner.ended_symbols text) (offers_ofText text) hwritten error' after hrun
    have herror : error = ⟨fault, blame passed bad⟩ := by
      rw [parse_of_rejects htokens rfl rfl hrejects] at h
      exact (Except.error.inj h).symm
    have hpartial : (Select.parsePartial text).1 = after.statement := by
      rw [parsePartial_of_run hrun]
    rw [htokens, List.map_append] at hwritten
    refine ⟨passed, bad, rest, htokens, by rw [herror], exists_accepted_of_viable htokens
      (fun lexeme hmem => hinner _ (List.mem_map_of_mem hmem)) hviable, ?_, ?_, ?_⟩
    · intro other statement haccepted hprefix
      obtain ⟨passed', bad', rest', -, hrejected⟩ := parse_of_prefix hrejects hprefix
      cases haccepted.symm.trans hrejected
    · rw [hpartial]
      exact fun statement => ⟨fun hother => hother.unique hcompleted, fun h => h ▸ hcompleted⟩
    · rw [hpartial]
      exact hcompleted.parse_render hwritten.left
  · rw [parse_of_run_ok hrun] at h
    cases h

/-- A list of GROUP BY that breaks off at a keyword stays empty, and the condition in front
of it is kept. -/
theorem parsePartial_completed_group :
    Select.parse "SELECT a FROM t WHERE a = 1 GROUP BY b, LIMIT 2" =
        .error ⟨.unexpected "LIMIT" .field, ⟨40, 45⟩⟩ ∧
      ∃ passed bad rest, Scanner.tokenize "SELECT a FROM t WHERE a = 1 GROUP BY b, LIMIT 2" =
          passed ++ bad :: rest ∧
        Completed (passed.map Lexeme.symbol)
          { fields := [⟨"a"⟩], table := some (.ident ⟨"t"⟩),
            filter := some (.binary (.ident ⟨"a"⟩) (.compare .eq) (.literal ⟨.int, "1"⟩)),
            groupBy := some [] } ∧
        Select.parse "SELECT a FROM t WHERE a = 1" =
          .ok { fields := [⟨"a"⟩], table := some (.ident ⟨"t"⟩),
                filter := some (.binary (.ident ⟨"a"⟩) (.compare .eq)
                  (.literal ⟨.int, "1"⟩)) } := by
  have hparse : Select.parsePartial "SELECT a FROM t WHERE a = 1 GROUP BY b, LIMIT 2" =
      ({ fields := [⟨"a"⟩], table := some (.ident ⟨"t"⟩),
         filter := some (.binary (.ident ⟨"a"⟩) (.compare .eq) (.literal ⟨.int, "1"⟩)),
         groupBy := some [] }, .error ⟨.unexpected "LIMIT" .field, ⟨40, 45⟩⟩) := by
    decide +kernel
  have herror : Select.parse "SELECT a FROM t WHERE a = 1 GROUP BY b, LIMIT 2" =
      .error ⟨.unexpected "LIMIT" .field, ⟨40, 45⟩⟩ := by
    rw [Select.parse, hparse]
    rfl
  obtain ⟨passed, bad, rest, htokens, -, -, -, hcompleted, hrender⟩ :=
    parsePartial_completed _ _ herror
  rw [hparse] at hcompleted hrender
  exact ⟨herror, passed, bad, rest, htokens, (hcompleted _).mpr rfl, hrender rfl⟩

end SelectPlan
