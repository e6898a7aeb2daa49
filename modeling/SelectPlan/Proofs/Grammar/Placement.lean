import SelectPlan.Proofs.Grammar.Parse
import SelectPlan.Proofs.Text.Cuts

/-!
# Where count clauses stand

A keyword LIMIT or OFFSET in a statement is the head of its own clause: no other
production has one.  So whatever a statement goes on with, the symbols in front of such a
keyword are the opening and whole clauses (`Placed.exists_due`), and a parser that has
them in front of it passes them and is then at the clause (`Due.run_eq`).

* `Over words symbols`: the symbols are inside of a statement, and the keywords among
  them are some of `words`.
* `Passing`: whole clauses, as `Following` derives them, up to a part that they end.
* `Due`: the symbols in front of a count clause, and what they say.
-/

namespace SelectPlan

open SelectPlan.Parser

/-! ## The keywords of each production -/

namespace Grammar

variable {α : Type} {words lead : List Keyword} {symbols : List Symbol}

/-- Symbols inside of a statement, with these keywords at most. -/
def Over (words : List Keyword) (symbols : List Symbol) : Prop :=
  ∀ symbol ∈ symbols, symbol.Inner ∧ ∀ word, symbol.token = .keyword word → word ∈ words

theorem Over.append {more : List Symbol} (h : Over words symbols) (hmore : Over words more) :
    Over words (symbols ++ more) :=
  List.forall_mem_append.mpr ⟨h, hmore⟩

theorem over_singleton {symbol : Symbol} {token : Token} (h : symbol.token = token)
    (hillegal : token ≠ .illegal) (hterminal : token.isTerminal = false)
    (hword : ∀ word, token ≠ .keyword word) : Over words [symbol] := by
  subst h
  exact List.forall_mem_singleton.mpr ⟨⟨hillegal, hterminal⟩, fun word h => absurd h (hword word)⟩

theorem Keywords.over (h : Keywords lead symbols) (hlead : lead ⊆ words) : Over words symbols := by
  intro symbol hmem
  have htoken : symbol.token ∈ lead.map Token.keyword := h ▸ List.mem_map_of_mem hmem
  obtain ⟨word, hword, hsymbol⟩ := List.mem_map.mp htoken
  refine ⟨inner_of_keyword hsymbol.symm, fun other hother => ?_⟩
  obtain rfl : word = other := Token.keyword.inj (hsymbol.trans hother)
  exact hlead hword

theorem Name.over {name : Ident} (h : Name symbols name) : Over words symbols := by
  cases h with
  | word text => exact over_singleton rfl (by simp) rfl (by simp)

theorem Field.over {name : Ident} (h : Field symbols name) : Over words symbols := by
  cases h with
  | name hname => exact hname.over
  | all hasterisk => exact over_singleton hasterisk (by simp) rfl (by simp)

theorem Listed.over {Item : List Symbol → α → Prop} {items : List α}
    (hitem : ∀ {symbols item}, Item symbols item → Over words symbols)
    (h : Listed Item symbols items) : Over words symbols := by
  induction h with
  | last hlast => exact hitem hlast
  | more hfirst hcomma _ ih =>
      rw [List.append_cons]
      exact ((hitem hfirst).append (over_singleton hcomma (by simp) rfl (by simp))).append ih

theorem Clause.over {Body : List Symbol → α → Prop} {value : α} (hlead : lead ⊆ words)
    (hbody : ∀ {symbols}, Body symbols value → Over words symbols)
    (h : Clause lead Body symbols value) : Over words symbols := by
  obtain ⟨hwords, hvalue⟩ := h
  exact (hwords.over hlead).append (hbody hvalue)

theorem Operand.over {expr : Expr} (h : Operand symbols expr) : Over words symbols := by
  cases h with
  | name hname => exact hname.over
  | literal kind text => exact over_singleton rfl (by simp) rfl (by simp)

theorem Comparing.over {criterion : Criterion} (h : Comparing symbols criterion) :
    Over words symbols := by
  obtain ⟨hleft, hsymbol, hright⟩ := h
  rw [List.append_cons]
  exact (hleft.over.append (over_singleton hsymbol (by simp) rfl (by simp))).append hright.over

theorem Connective.over {symbol : Symbol} {op : BinaryOp} (h : Connective symbol.token op)
    (hwords : [.AND, .OR] ⊆ words) : Over words [symbol] := by
  generalize htoken : symbol.token = token at h
  cases h with
  | and =>
      have hword : Keywords [.AND] [symbol] := by simp [Keywords, htoken]
      exact hword.over (by simp_all)
  | or =>
      have hword : Keywords [.OR] [symbol] := by simp [Keywords, htoken]
      exact hword.over (by simp_all)

theorem Predicate.over {expr : Expr} (h : Predicate symbols expr) (hwords : [.AND, .OR] ⊆ words) :
    Over words symbols := by
  induction h with
  | last hcomparing => exact hcomparing.over
  | more hcomparing hconnective _ ih =>
      rw [List.append_cons]
      exact (hcomparing.over.append (hconnective.over hwords)).append ih

theorem Count.over {value : Nat} (h : Count symbols value) : Over words symbols := by
  cases h with
  | intro hvalue => exact over_singleton rfl (by simp) rfl (by simp)

theorem JoinWords.subset {kind : JoinKind} (h : JoinWords lead kind) :
    lead ⊆ [.JOIN, .INNER, .LEFT, .RIGHT, .FULL, .OUTER, .ON] := by
  cases h with
  | plain => decide
  | inner => decide
  | side hside => cases hside <;> decide
  | outer hside => cases hside <;> decide

theorem Joining.over {join : Join} (h : Joining symbols join) :
    Over [.JOIN, .INNER, .LEFT, .RIGHT, .FULL, .OUTER, .ON] symbols := by
  obtain ⟨hwords, hlead, hcondition⟩ := h
  exact (hlead.over hwords.subset fun hname => hname.over).append
    (hcondition.over (by decide) fun hcomparing => hcomparing.over)

end Grammar

/-! ## Count clauses -/

namespace CountClause

/-- The keyword of a count clause. -/
def keyword : CountClause → Keyword
  | limit => .LIMIT
  | offset => .OFFSET

/-- The position at which a count clause is read. -/
def position : CountClause → Position
  | limit => .limit
  | offset => .offset

end CountClause

/-- The count that a statement gives in a clause. -/
def Select.count (statement : Select) : CountClause → Option Nat
  | .limit => statement.limit
  | .offset => statement.offset

/-- Gives a count in a clause. -/
def Select.withCount (clause : CountClause) (value : Nat) (statement : Select) : Select :=
  match clause with
  | .limit => { statement with limit := some value }
  | .offset => { statement with offset := some value }

theorem Select.count_withCount (clause : CountClause) (value : Nat) (statement : Select) :
    (statement.withCount clause value).count clause = some value := by
  cases clause <;> rfl

/-- The keyword of a count clause may stand behind these symbols: some statement has its
clause there. -/
def Grammar.Placed (clause : CountClause) (passed : List Symbol) : Prop :=
  ∃ keyword more statement, keyword.token = .keyword clause.keyword ∧
    Grammar.Statement (passed ++ keyword :: more) statement

namespace Parser

open Grammar

/-- The keywords that the clause of a position is written with. -/
def lexicon : Position → List Keyword
  | .join => [.JOIN, .INNER, .LEFT, .RIGHT, .FULL, .OUTER, .ON]
  | .filter => [.WHERE, .AND, .OR]
  | .groupBy => [.GROUP, .BY]
  | .orderBy => [.ORDER, .BY]
  | .limit => [.LIMIT]
  | .offset => [.OFFSET]
  | _ => []

/-- Only its own clause is written with the keyword of a count clause. -/
theorem position_eq_of_mem_lexicon {clause : CountClause} {position : Position}
    (h : clause.keyword ∈ lexicon position) : position = clause.position := by
  cases clause <;> cases position <;> first | rfl | exact absurd h (by decide)

theorem Extends.over {position : Position} {before after : Select} {symbols : List Symbol}
    (h : Extends position before symbols after) : Over (lexicon position) symbols := by
  cases h with
  | join hjoin => exact hjoin.over
  | filter hfilter => exact hfilter.over (by decide) fun hpredicate => hpredicate.over (by decide)
  | groupBy hgroup =>
      exact hgroup.over (by decide) fun hnames => hnames.over fun hname => hname.over
  | orderBy horder =>
      exact horder.over (by decide) fun hnames => hnames.over fun hname => hname.over
  | limit hlimit => exact hlimit.over (by decide) fun hcount => hcount.over
  | offset hoffset => exact hoffset.over (by decide) fun hcount => hcount.over

theorem over_opening {before after : Select} {used : List Symbol}
    (h : openingPhrase before used () after) : Over [.SELECT, .FROM] used := by
  obtain ⟨selecting, fields, source, table, rfl, hfields, hsource, -⟩ := h
  exact (hfields.over (by decide) fun hlisted => hlisted.over fun hfield => hfield.over).append
    (hsource.over (by decide) fun hname => hname.over)

/-- A count clause as the grammar has it. -/
theorem extends_count_iff {clause : CountClause} {before after : Select} {symbols : List Symbol} :
    Extends clause.position before symbols after ↔
      ∃ value, Clause [clause.keyword] Count symbols value ∧
        after = before.withCount clause value := by
  constructor
  · intro h
    cases clause with
    | limit =>
        cases h with
        | limit hlimit => exact ⟨_, hlimit, rfl⟩
    | offset =>
        cases h with
        | offset hoffset => exact ⟨_, hoffset, rfl⟩
  · rintro ⟨value, hcount, rfl⟩
    cases clause with
    | limit => exact .limit hcount
    | offset => exact .offset hcount

/-- A count clause is its keyword and an operand, so the keyword is the first of its
symbols. -/
theorem eq_nil_of_count {clause : CountClause} {passed more : List Symbol} {keyword : Symbol}
    {value : Nat} (h : Clause [clause.keyword] Count (passed ++ keyword :: more) value)
    (hkeyword : keyword.token = .keyword clause.keyword) : passed = [] := by
  generalize hsymbols : passed ++ keyword :: more = symbols at h
  obtain ⟨hlead, ⟨-⟩⟩ := h
  obtain ⟨first, rfl, -⟩ := keywords_singleton.mp hlead
  -- Only the second symbol is left for the keyword, and that one is a literal.
  cases passed with
  | nil => rfl
  | cons head others =>
      rw [List.cons_append, List.singleton_append] at hsymbols
      cases others with
      | nil =>
          obtain rfl := (List.cons.inj (List.cons.inj hsymbols).2).1
          cases hkeyword
      | cons next others => exact absurd (congrArg List.length hsymbols) (by simp)

/-! ## Clauses that are passed -/

/-- Whole clauses after a part of a statement, up to a part that they end. -/
inductive Passing : Part → Select → List Symbol → Part → Select → Prop
  | here {part statement} : Passing part statement [] part statement
  | clause {part word position before symbols between rest last after} :
      following part word = some position → allows position before = true →
      Extends position before symbols between →
      Passing (partOf position) between rest last after →
      Passing part before (symbols ++ rest) last after

variable {part last : Part} {before after middle : Select} {passed : List Symbol}

/-- In front of the keyword of a count clause stand whole clauses. -/
theorem Following.exists_passing {clause : CountClause} {symbols : List Symbol}
    (h : Following part before symbols after) {more : List Symbol} {keyword : Symbol}
    (hsymbols : symbols = passed ++ keyword :: more)
    (hkeyword : keyword.token = .keyword clause.keyword) :
    ∃ last middle, Passing part before passed last middle ∧
      following last clause.keyword = some clause.position ∧
      allows clause.position middle = true := by
  induction h generalizing passed with
  | @finish part before ending hending =>
      have hmem : keyword ∈ [ending] := by simp [hsymbols]
      obtain rfl := List.mem_singleton.mp hmem
      rw [hkeyword] at hending
      cases hending
  | @clause part word position before used between rest after hword hallows hextends _ ih =>
      rcases split_append hsymbols with ⟨others, hused⟩ | ⟨others, rfl, hrest⟩
      · -- The keyword is in this clause, so the clause is the one it belongs to.
        have hmem : keyword ∈ used := by simp [hused]
        obtain rfl := position_eq_of_mem_lexicon ((hextends.over keyword hmem).2 _ hkeyword)
        obtain ⟨value, hcount, -⟩ := extends_count_iff.mp hextends
        obtain rfl := eq_nil_of_count (hused ▸ hcount) hkeyword
        obtain ⟨first, tail, other, hcons, hfirst, hother⟩ := hextends.exists_cons
        rw [hused, List.nil_append] at hcons
        obtain rfl := (List.cons.inj hcons).1
        obtain rfl : clause.keyword = other := Token.keyword.inj (hkeyword.symm.trans hfirst)
        exact ⟨part, before, .here, following_of_mem_opens hword hother, hallows⟩
      · obtain ⟨last, middle, hpassing, hlast⟩ := ih hrest
        exact ⟨last, middle, .clause hword hallows hextends hpassing, hlast⟩

/-- What may follow the last clause may follow all of them. -/
theorem Passing.following {rest : List Symbol} (h : Passing part before passed last middle)
    (hrest : Following last middle rest after) : Following part before (passed ++ rest) after := by
  induction h with
  | here => exact hrest
  | clause hword hallows hextends _ ih =>
      rw [List.append_assoc]
      exact .clause hword hallows hextends (ih hrest)

theorem Passing.inner (h : Passing part before passed last middle) :
    ∀ symbol ∈ passed, symbol.Inner := by
  induction h with
  | here => simp
  | clause hword _ hextends _ ih =>
      exact List.forall_mem_append.mpr ⟨fun symbol hmem => (hextends.over symbol hmem).1, ih⟩

/-- The first of these symbols, or else what stands behind them, leads on. -/
theorem Passing.exists_head (h : Passing part before passed last middle) (next : Symbol)
    (hnext : positionAfter last next.token ≠ none) :
    ∃ head rest, passed ++ [next] = head :: rest ∧ positionAfter part head.token ≠ none := by
  cases h with
  | here => exact ⟨next, [], rfl, hnext⟩
  | clause hword _ hextends _ =>
      obtain ⟨first, others, other, rfl, hfirst, hother⟩ := hextends.exists_cons
      refine ⟨first, _, rfl, ?_⟩
      rw [hfirst, positionAfter, following_of_mem_opens hword hother]
      simp

variable {σ : Type} [Feed σ] [LawfulFeed σ]

/-- A parser passes a clause that is read. -/
theorem proceed_of_extends {position : Position} {word : Keyword} {used : List Lexeme}
    (hword : Parser.following part word = some position) (hallows : allows position before = true)
    (hextends : Extends position before (used.map Lexeme.symbol) middle) {next : Lexeme}
    (hnext : follows position next.token) {rest : List Lexeme} {feed : σ}
    (hoffers : LawfulFeed.Offers feed (used ++ next :: rest)) :
    ∃ feed', LawfulFeed.Offers feed' (next :: rest) ∧
      proceed part ⟨feed, before⟩ = proceed (partOf position) ⟨feed', middle⟩ := by
  obtain ⟨first, others, other, hused, hfirst, hother⟩ := hextends.exists_cons
  obtain ⟨lead, tail, rfl, rfl, -⟩ := List.map_eq_cons_iff.mp hused
  rw [List.cons_append] at hoffers
  have hposition : positionAfter part (Feed.scan feed).1.token = some position := by
    rw [LawfulFeed.scan_eq hoffers, show lead.token = .keyword other from hfirst]
    exact following_of_mem_opens hword hother
  have hahead : [next.symbol] <+: (next :: rest).map Lexeme.symbol := by simp
  have hfollows : follows position next.symbol.token := hnext
  obtain ⟨feed', hrun, hoffers'⟩ :=
    reads_clause hextends hfollows (Feed.unscan (Feed.scan feed).2) _ _ rfl hahead
      (LawfulFeed.offers_unscan hoffers)
  refine ⟨feed', hoffers', ?_⟩
  rw [proceed, bind_apply, goOn_apply, hposition]
  show run position _ = _
  rw [run_eq_clause ⟨part, word, hword⟩ hallows, bind_apply, hrun]

/-- A parser passes whole clauses. -/
theorem Passing.proceed_eq (h : Passing part before passed last middle) {next : Lexeme}
    (hnext : positionAfter last next.token ≠ none) {lexemes rest : List Lexeme}
    (hlexemes : lexemes.map Lexeme.symbol = passed) {feed : σ}
    (hoffers : LawfulFeed.Offers feed (lexemes ++ next :: rest)) :
    ∃ feed', LawfulFeed.Offers feed' (next :: rest) ∧
      proceed part ⟨feed, before⟩ = proceed last ⟨feed', middle⟩ := by
  induction h generalizing lexemes feed with
  | here =>
      obtain rfl := List.map_eq_nil_iff.mp hlexemes
      exact ⟨feed, hoffers, rfl⟩
  | clause hword hallows hextends hpassing ih =>
      obtain ⟨used, others, rfl, rfl, hothers⟩ := List.map_eq_append_iff.mp hlexemes
      obtain ⟨head, tail, hhead, hleads⟩ := hpassing.exists_head next.symbol hnext
      -- What ends the clause is the head of the next one, or else the lexeme behind them all.
      obtain ⟨lead, coming, hcoming, rfl⟩ :
          ∃ lead coming, others ++ next :: rest = lead :: coming ∧ lead.symbol = head := by
        cases others with
        | nil =>
            subst hothers
            exact ⟨next, rest, rfl, (List.cons.inj hhead).1⟩
        | cons lead others =>
            subst hothers
            exact ⟨lead, _, rfl, (List.cons.inj hhead).1⟩
      rw [List.append_assoc, hcoming] at hoffers
      obtain ⟨feed', hoffers', hfirst⟩ := proceed_of_extends hword hallows hextends hleads hoffers
      rw [← hcoming] at hoffers'
      obtain ⟨feed'', hoffers'', hrest⟩ := ih hnext hothers hoffers'
      exact ⟨feed'', hoffers'', hfirst.trans hrest⟩

/-! ## In front of a count clause -/

/-- Symbols in front of a count clause, and what they say. -/
inductive Due (clause : CountClause) : List Symbol → Select → Prop
  | intro {opened between passed last middle} : openingPhrase {} opened () between →
      Passing .table between passed last middle →
      following last clause.keyword = some clause.position →
      allows clause.position middle = true → Due clause (opened ++ passed) middle

variable {clause : CountClause}

theorem Due.inner (h : Due clause passed middle) : ∀ symbol ∈ passed, symbol.Inner := by
  obtain ⟨hopening, hpassing, -, -⟩ := h
  exact List.forall_mem_append.mpr
    ⟨fun symbol hmem => (over_opening hopening symbol hmem).1, hpassing.inner⟩

/-- The statement is complete with a count. -/
theorem Due.statement (h : Due clause passed middle) {count : List Symbol} {value : Nat}
    (hcount : Clause [clause.keyword] Count count value) {ending : Symbol}
    (hending : ending.token.isTerminal = true) :
    Statement (passed ++ (count ++ [ending])) (middle.withCount clause value) := by
  obtain ⟨hopening, hpassing, hlast, hallows⟩ := h
  have hrest := Following.clause hlast hallows (extends_count_iff.mpr ⟨value, hcount, rfl⟩)
    (.finish hending)
  rw [List.append_assoc]
  exact (statementPhrase_iff _ _).mp ⟨_, _, (), _, rfl, hopening, hpassing.following hrest⟩

/-- A parser that has these symbols and a count clause in front of it comes to the clause. -/
theorem Due.run_eq (h : Due clause passed middle) {keyword : Lexeme}
    (hkeyword : keyword.token = .keyword clause.keyword) {lexemes rest : List Lexeme}
    (hlexemes : lexemes.map Lexeme.symbol = passed) {feed : σ}
    (hoffers : LawfulFeed.Offers feed (lexemes ++ keyword :: rest)) :
    ∃ feed', LawfulFeed.Offers feed' (keyword :: rest) ∧
      run .start ⟨feed, {}⟩ = run clause.position ⟨feed', middle⟩ := by
  obtain @⟨opened, between, passed, last, middle, hopening, hpassing, hlast, hallows⟩ := h
  obtain ⟨front, back, rfl, rfl, hback⟩ := List.map_eq_append_iff.mp hlexemes
  have hposition : positionAfter last keyword.token = some clause.position := by
    rw [hkeyword]
    exact hlast
  have hleads : positionAfter last keyword.token ≠ none := by simp [hposition]
  obtain ⟨head, tail, hhead, -⟩ := hpassing.exists_head keyword.symbol hleads
  have hahead : [head] <+: (back ++ keyword :: rest).map Lexeme.symbol := by
    rw [List.map_append, hback, List.map_cons, List.append_cons, hhead]
    simp
  rw [List.append_assoc] at hoffers
  -- First the opening is read, then whole clauses are passed, and then the keyword leads on.
  obtain ⟨feed₁, hrun, hoffers₁⟩ :=
    parses_opening.complete hopening head trivial feed front _ rfl hahead hoffers
  obtain ⟨feed₂, hoffers₂, hproceed⟩ := hpassing.proceed_eq hleads hback hoffers₁
  refine ⟨_, LawfulFeed.offers_unscan hoffers₂, ?_⟩
  rw [run_start_eq, bind_apply, hrun]
  dsimp only
  rw [hproceed, proceed, bind_apply, goOn_apply, LawfulFeed.scan_eq hoffers₂, hposition]
  rfl

/-- What becomes of a count clause: the parser goes on with the count in the statement, or
stops at the operand. -/
theorem Due.run_count (h : Due clause passed middle) {keyword operand : Lexeme}
    (hkeyword : keyword.token = .keyword clause.keyword) {lexemes rest : List Lexeme}
    (hlexemes : lexemes.map Lexeme.symbol = passed) {feed : σ}
    (hoffers : LawfulFeed.Offers feed (lexemes ++ keyword :: operand :: rest)) :
    ∃ feed', run .start ⟨feed, {}⟩ =
      match countForm clause operand with
      | .ok value => proceed (partOf clause.position) ⟨feed', middle.withCount clause value⟩
      | .error fault => (.error ⟨fault, operand.span⟩, ⟨feed', middle⟩) := by
  obtain ⟨feed', hoffers', hrun⟩ := h.run_eq hkeyword hlexemes hoffers
  obtain @⟨_, _, _, last, _, _, _, hlast, hallows⟩ := h
  refine ⟨(Feed.scan (Feed.scan feed').2).2, ?_⟩
  have hclause : (Parser.clause clause.position : Parser σ Unit) =
      Parser.keyword clause.keyword >>= fun _ => count clause >>= fun value =>
        update (Select.withCount clause value) := by
    cases clause <;> rfl
  have hform : keywordForm clause.keyword (Feed.scan feed').1 = .ok () := by
    rw [LawfulFeed.scan_eq hoffers', keywordForm_eq_ok]
    exact hkeyword
  have hoperand : (Feed.scan (Feed.scan feed').2).1 = operand :=
    LawfulFeed.scan_eq (LawfulFeed.offers_scan hoffers')
  rw [hrun, run_eq_clause ⟨_, _, hlast⟩ hallows, hclause, bind_assoc, bind_apply, Parser.keyword,
    take_apply, hform]
  dsimp only
  rw [bind_assoc, bind_apply, count, take_apply, hoperand]
  cases countForm clause operand <;> rfl

end Parser

/-- In front of the keyword of a count clause stand the opening and whole clauses, whatever
comes after it. -/
theorem Grammar.Placed.exists_due {clause : CountClause} {passed : List Symbol}
    (h : Grammar.Placed clause passed) : ∃ middle, Due clause passed middle := by
  obtain ⟨keyword, more, statement, hkeyword, hstatement⟩ := h
  obtain ⟨opened, symbols, _, between, hsplit, hopening, hfollowing⟩ :=
    (statementPhrase_iff _ _).mpr hstatement
  rcases split_append hsplit.symm with ⟨others, hopened⟩ | ⟨others, rfl, hrest⟩
  · have hmem : keyword ∈ opened := by simp [hopened]
    have hword := (over_opening hopening keyword hmem).2 _ hkeyword
    cases clause <;> exact absurd hword (by decide)
  · obtain ⟨last, middle, hpassing, hlast, hallows⟩ := hfollowing.exists_passing hrest hkeyword
    exact ⟨middle, .intro hopening hpassing hlast hallows⟩

end SelectPlan
