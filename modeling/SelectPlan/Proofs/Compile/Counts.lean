import SelectPlan.Compile
import SelectPlan.Proofs.Grammar.FirstFault
import SelectPlan.Proofs.Grammar.Placement
import SelectPlan.Proofs.Parser.Keeps
import SelectPlan.Proofs.Planner.CheckOrder
import SelectPlan.Proofs.Scanner.LexicalGrammar

/-!
# Counts, from digits to plans

The operand of a LIMIT or OFFSET clause goes through five hands: the scanner calls it an
integer or, where 64 bits do not hold it, a decimal; the parser takes the sign off or
rejects it; the statement keeps the count, prints it, and hands it to the planner.  Its
value stays what the digits say all the way, and what has no such value is rejected with
the error of the hand that saw it (`counts_exact`).

## Strategy

The parser comes to the operand whatever stands behind it (`Due.run_count`), and there
the value alone decides (`countForm_of_integer`).  A count that was read stays, since a
clause is not read twice (`keeps_run`).
-/

namespace SelectPlan

open SelectPlan.Parser

/-! ## The value of an integer text -/

namespace Number

variable {text : List Char} {value : Int}

theorem Integer.unique {value' : Int} (h : Integer text value) (h' : Integer text value') :
    value = value' :=
  Option.some.inj (h.integer?_eq.symm.trans h'.integer?_eq)

/-- An integer text starts like a number. -/
theorem Integer.exists_head (h : Integer text value) :
    ∃ first rest, text = first :: rest ∧ (first.isDigit = true ∨ first = '+' ∨ first = '-') := by
  cases h with
  | unsigned hdigits =>
      obtain ⟨first, rest, rfl⟩ := List.exists_cons_of_ne_nil hdigits.1
      exact ⟨first, rest, rfl, .inl (hdigits.2 first (List.mem_cons_self ..))⟩
  | plus hdigits => exact ⟨'+', _, rfl, .inr (.inl rfl)⟩
  | minus hdigits => exact ⟨'-', _, rfl, .inr (.inr rfl)⟩

/-- An integer text is a decimal text without a point. -/
theorem Integer.decimal (h : Integer text value) : Decimal text := by
  cases h with
  | unsigned hdigits => exact ⟨[], text, [], by simp, .inl rfl, .whole hdigits, .inl rfl⟩
  | @plus digits hdigits =>
      exact ⟨['+'], digits, [], by simp, .inr (.inl rfl), .whole hdigits, .inl rfl⟩
  | @minus digits hdigits =>
      exact ⟨['-'], digits, [], by simp, .inr (.inr rfl), .whole hdigits, .inl rfl⟩

theorem Integer.fits_iff (h : Integer text value) :
    Fits text ↔ -2 ^ 63 ≤ value ∧ value ≤ 2 ^ 63 - 1 := by
  constructor
  · rintro ⟨value', hvalue', hbounds⟩
    exact h.unique hvalue' ▸ hbounds
  · exact fun hbounds => ⟨value, h, hbounds⟩

/-- An integer that 64 bits do not hold is a decimal. -/
theorem Integer.class_of_not_fits (h : Integer text value) (hfits : ¬ Fits text) :
    Class text (.literal .float) :=
  .float hfits h.decimal

theorem int?_eq_some_iff :
    int? text = some value ↔ Integer text value ∧ -2 ^ 63 ≤ value ∧ value ≤ 2 ^ 63 - 1 := by
  rw [int?, Option.filter_eq_some_iff, integer?_eq_some_iff, Bool.and_eq_true, decide_eq_true_eq,
    decide_eq_true_eq]
  rfl

/-- A natural number is printed as the digits that have its value. -/
theorem integer_toString (count : Nat) : Integer (toString count).toList count := by
  have hdigits : SomeDigits (toString count).toList := digits_toString count
  have hvalue : magnitude (toString count).toList = count := by
    rw [← digitsValue_eq_magnitude, digitsValue_toString]
  have hinteger := Integer.unsigned hdigits
  rwa [hvalue] at hinteger

end Number

/-! ## The operand -/

section Operand

variable {lexeme : Lexeme} {value : Int}

/-- A lexeme of a text that writes an integer is classed as a number. -/
theorem token_of_integer {text : String} (hmem : lexeme ∈ Scanner.tokenize text)
    (h : Number.Integer lexeme.text.toList value) :
    Number.Class lexeme.text.toList lexeme.token := by
  have hsymbol : lexeme.symbol ∈ Scanner.symbols text.toList := by
    rw [← Scanner.map_symbol_tokenize]
    exact List.mem_map_of_mem hmem
  obtain ⟨first, rest, htext, hfirst⟩ := h.exists_head
  have hend : lexeme.symbol ≠ Symbol.ending := by
    intro hend
    rw [show lexeme.text = "" from congrArg Symbol.text hend] at htext
    cases htext
  obtain ⟨head, tail, -, hreading⟩ := Scanner.exists_reading_of_mem_symbols hsymbol hend
  have htoken : lexeme.token = (readLexeme head tail).token := congrArg Symbol.token hreading
  have hwhole : lexeme.text.toList = (readLexeme head tail).text := by
    rw [show lexeme.text = _ from congrArg Symbol.text hreading, String.toList_ofList]
  obtain ⟨more, name, htake⟩ := readLexeme_eq_take head tail
  -- The first character is the one by which the scanner chose the class.
  have hhead : head = first := by
    rw [hwhole, htake] at htext
    exact (List.cons.inj htext).1
  rw [hhead, readLexeme_of_number hfirst] at htoken hwhole
  rw [htoken, hwhole]
  exact Number.class_numberToken _

/-- The value of an integer decides what becomes of it as an operand. -/
theorem countForm_of_integer (clause : CountClause)
    (hclass : Number.Class lexeme.text.toList lexeme.token)
    (h : Number.Integer lexeme.text.toList value) :
    countForm clause lexeme =
      if value < -2 ^ 63 ∨ 2 ^ 63 - 1 < value then
        .error (.unexpected lexeme.text (.count clause))
      else if value < 0 then .error (.unexpected lexeme.text .nonnegative)
      else .ok value.toNat := by
  by_cases hfits : Number.Fits lexeme.text.toList
  · -- An integer that fits is scanned as one; only its sign is left to judge.
    have hbounds := h.fits_iff.mp hfits
    have htoken := hclass.unique (.int hfits)
    rw [if_neg (by omega), countForm, htoken]
    dsimp only
    rw [Number.int?_eq_some_iff.mpr ⟨h, hbounds⟩]
    dsimp only
    by_cases hvalue : 0 ≤ value
    · rw [if_pos hvalue, if_neg (by omega)]
    · rw [if_neg hvalue, if_pos (by omega), unexpected]
  · -- One that does not fit is scanned as another kind of number.
    have hbounds := mt h.fits_iff.mpr hfits
    have htoken := hclass.unique (h.class_of_not_fits hfits)
    rw [if_pos (by omega), countForm, htoken]
    rfl

end Operand

/-! ## A count stays -/

/-- A count that the statement before gives in a clause, the statement after gives too. -/
def CountKept (clause : CountClause) (before after : Select) : Prop :=
  ∀ value, before.count clause = some value → after.count clause = some value

/-- The statements differ in the count of one clause at most. -/
def Counted (clause : CountClause) (before after : Select) : Prop :=
  after = before ∨ ∃ value, after = before.withCount clause value

section Kept

variable {clause other : CountClause} {before after : Select}

instance : Std.Refl (CountKept clause) :=
  ⟨fun _ _ h => h⟩

instance : IsTrans Select (CountKept clause) :=
  ⟨fun _ _ _ h h' value hvalue => h' value (h value hvalue)⟩

instance : Std.Refl (Counted clause) :=
  ⟨fun _ => .inl rfl⟩

instance : IsTrans Select (Counted clause) := by
  refine ⟨fun first second third h h' => ?_⟩
  rcases h with rfl | ⟨value, rfl⟩
  · exact h'
  · rcases h' with rfl | ⟨value', rfl⟩
    · exact .inr ⟨value, rfl⟩
    · exact .inr ⟨value', by cases clause <;> rfl⟩

theorem countKept_of_eq (hlimit : after.limit = before.limit)
    (hoffset : after.offset = before.offset) : CountKept clause before after := by
  intro value hvalue
  cases clause with
  | limit => exact hlimit.trans hvalue
  | offset => exact hoffset.trans hvalue

/-- Where there is no count yet, none is lost. -/
theorem Counted.countKept (h : Counted other before after) (hnone : before.count other = none) :
    CountKept clause before after := by
  rcases h with rfl | ⟨value, rfl⟩
  · exact refl after
  intro kept hkept
  -- A count that was set is another one than `clause` asks for, as there was none yet.
  cases clause <;> cases other
  case limit.limit | offset.offset => exact absurd (hnone.symm.trans hkept) (by simp)
  case limit.offset | offset.limit => exact hkept

end Kept

namespace Parser

variable {σ : Type} [Feed σ] {clause : CountClause}

/-- A count clause changes its own count only. -/
theorem keeps_count (part : Part) :
    Keeps (Counted clause)
      (keyword clause.keyword >>= fun _ => count clause >>= fun value =>
        update (Select.withCount clause value) >>= fun _ => goOn part :
        Parser σ (Option Position)) :=
  (keeps_keyword _).bind fun _ => (keeps_take _).bind fun value =>
    (keeps_update fun _ => .inr ⟨value, rfl⟩).bind fun _ => keeps_goOn part

/-- A second LIMIT is forbidden before anything is read of it. -/
theorem keeps_readLimit : Keeps (CountKept clause) (readLimit : Parser σ (Option Position)) := by
  -- Alone this is not enough: a count may change where there was one. So the guard is looked
  -- at.
  have hcounted : Keeps (Counted .limit) (readLimit : Parser σ (Option Position)) :=
    keeps_statement.bind fun _ => (keeps_forbid _ _).bind fun _ => keeps_count .limit
  intro progress
  cases hlimit : progress.statement.limit with
  | none => exact (hcounted progress).countKept hlimit
  | some value =>
      have hsome : progress.statement.limit.isSome = true := by rw [hlimit]; rfl
      rw [readLimit, bind_apply]
      dsimp only [statement]
      rw [hsome]
      exact refl progress.statement

/-- So is a second OFFSET. -/
theorem keeps_readOffset : Keeps (CountKept clause) (readOffset : Parser σ (Option Position)) := by
  have hcounted : Keeps (Counted .offset) (readOffset : Parser σ (Option Position)) :=
    keeps_statement.bind fun _ => (keeps_forbid _ _).bind fun _ => (keeps_forbid _ _).bind fun _ =>
      keeps_count .offset
  intro progress
  cases hoffset : progress.statement.offset with
  | none => exact (hcounted progress).countKept hoffset
  | some value =>
      have hsome : progress.statement.offset.isSome = true := by rw [hoffset]; rfl
      rw [readOffset, bind_apply]
      dsimp only [statement]
      rw [hsome]
      cases progress.statement.orderBy.isNone <;> exact refl progress.statement

theorem keeps_selectList : Keeps (CountKept clause) (selectList : Parser σ Unit) := by
  have hfield : Keeps (CountKept clause) (field : Parser σ Unit) :=
    (keeps_take _).bind fun _ => keeps_update fun _ => countKept_of_eq rfl rfl
  exact (keeps_chain eats_field (steady_take? _) hfield (keeps_take? _)).bind fun _ => keeps_pure _

/-- No step changes a count that was read. -/
theorem keeps_step (position : Position) :
    Keeps (CountKept clause) (step position : Parser σ (Option Position)) := by
  have hready : ∀ {change : Select → Select}, (∀ statement, (change statement).limit =
      statement.limit ∧ (change statement).offset = statement.offset) →
      Keeps (CountKept clause) (update change : Parser σ Unit) :=
    fun h => keeps_update fun statement => countKept_of_eq (h statement).1 (h statement).2
  have hset : ∀ {change : Select → Select} (part : Part), (∀ statement, (change statement).limit =
      statement.limit ∧ (change statement).offset = statement.offset) →
      Keeps (CountKept clause) (do update change; goOn part : Parser σ (Option Position)) :=
    fun part h => (hready h).bind fun _ => keeps_goOn part
  cases position with
  | start => exact (keeps_keyword _).bind fun _ => keeps_pure _
  | selectList => exact keeps_selectList.bind fun _ => keeps_pure _
  | source =>
      exact (keeps_keyword _).bind fun _ => (keeps_take _).bind fun _ =>
        hset .table fun _ => ⟨rfl, rfl⟩
  | join =>
      exact keeps_joinKind.bind fun _ => (keeps_take _).bind fun _ =>
        (keeps_keyword _).bind fun _ => keeps_criterion.bind fun _ =>
          hset .table fun _ => ⟨rfl, rfl⟩
  | filter =>
      exact (keeps_keyword _).bind fun _ => keeps_predicate.bind fun _ =>
        hset .filter fun _ => ⟨rfl, rfl⟩
  | groupBy | orderBy =>
      refine keeps_statement.bind fun _ => (keeps_forbid _ _).bind fun _ =>
        (keeps_keywordBy _).bind fun _ => Keeps.bind (hready ?_) fun _ => keeps_pure _
      exact fun _ => ⟨rfl, rfl⟩
  | groupList => exact keeps_nameList.bind fun _ => hset .groupBy fun _ => ⟨rfl, rfl⟩
  | orderList => exact keeps_nameList.bind fun _ => hset .orderBy fun _ => ⟨rfl, rfl⟩
  | limit => exact keeps_readLimit
  | offset => exact keeps_readOffset
  | finish =>
      refine keeps_scan.bind fun lexeme => ?_
      split
      · exact keeps_pure _
      · exact keeps_fail _ _

/-- No run changes a count that was read. -/
theorem keeps_run (position : Position) :
    Keeps (CountKept clause) (run position : Parser σ Unit) := by
  intro progress
  have hfirst : CountKept clause progress.statement (step position progress).2.statement :=
    keeps_step position progress
  fun_induction run position progress with
  | case1 position progress error after hstep => rwa [hstep] at hfirst
  | case2 position progress after hstep => rwa [hstep] at hfirst
  | case3 position progress next after hstep ih =>
      rw [hstep] at hfirst
      exact Trans.trans hfirst (ih (keeps_step next after))

theorem keeps_proceed (part : Part) : Keeps (CountKept clause) (proceed part : Parser σ Unit) := by
  refine (keeps_goOn part).bind fun next => ?_
  cases next with
  | none => exact keeps_pure ()
  | some position => exact keeps_run position

end Parser

/-! ## Counts in print and in plans -/

namespace Select

variable {statement : Select} {clause : CountClause} {value : Nat}

/-- The statement as far as it is printed ahead of a count clause, and the other clauses
behind it: OFFSET comes ahead of LIMIT. -/
def upTo (statement : Select) : CountClause → Select
  | .limit => { statement with limit := none }
  | .offset => { statement with limit := none, offset := none }

/-- What is printed behind a count clause. -/
def renderBehind (statement : Select) : CountClause → String
  | .limit => ""
  | .offset => renderClause "LIMIT" toString statement.limit

theorem render_of_count (h : statement.count clause = some value) :
    statement.render = (statement.upTo clause).render ++
      (" " ++ clause.keyword.spelling ++ " " ++ toString value) ++
        statement.renderBehind clause := by
  cases clause with
  | limit =>
      have hlimit : statement.limit = some value := h
      rw [render, render, hlimit, renderBehind, renderClause]
      simp only [upTo, renderClause, String.append_empty]
      rfl
  | offset =>
      have hoffset : statement.offset = some value := h
      rw [render, render, hoffset, renderBehind]
      simp only [upTo, renderClause, String.append_empty]
      rfl

end Select

/-- The count of an operator that carries out a count clause. -/
def Plan.count? : CountClause → Plan → Option Nat
  | .limit, .limit count _ => some count
  | .offset, .offset count _ => some count
  | _, _ => none

/-- An operator on top of a plan adds what it counts itself. -/
theorem counts_layer {α : Type} (counts : Plan → Option Nat) {operator : α → Plan → Plan}
    (hchain : ∀ content input, (operator content input).chain =
      operator content input :: input.chain) (content? : Option α) (input : Plan) :
    (Planner.layer operator content? input).chain.filterMap counts =
      content?.toList.filterMap (fun content => counts (operator content input)) ++
        input.chain.filterMap counts := by
  cases content? with
  | none => rfl
  | some content =>
      rw [Planner.layer, hchain, Option.toList_some, ← List.singleton_append,
        List.filterMap_append]
      rfl

/-- A plan counts what the statement counts. -/
theorem counts_build (clause : CountClause) (statement : Select) (relation : Relation) :
    (Planner.build statement relation).chain.filterMap (Plan.count? clause) =
      (statement.count clause).toList := by
  have hbeneath : ∀ input, input = Planner.layer .filter statement.filter
      (.tableScan relation.name) → input.chain.filterMap (Plan.count? clause) = [] := by
    rintro _ rfl
    rw [counts_layer _ fun _ _ => rfl]
    cases statement.filter <;> cases clause <;> rfl
  unfold Planner.build
  rw [counts_layer _ fun _ _ => rfl, counts_layer _ fun _ _ => rfl, counts_layer _ fun _ _ => rfl,
    Plan.chain, List.filterMap_cons, hbeneath _ rfl]
  cases clause with
  | limit => simp [Plan.count?, Select.count]
  | offset => cases statement.limit <;> simp [Plan.count?, Select.count]

/-- The plan of a text counts what its statement counts. -/
theorem counts_compile {config : PlannerConfig} {catalog : Catalog} {text : String} {plan : Plan}
    (clause : CountClause) (h : compile config catalog text = .ok plan) :
    plan.chain.filterMap (Plan.count? clause) =
      ((Select.parsePartial text).1.count clause).toList := by
  rw [compile, Select.parse] at h
  rcases hpartial : Select.parsePartial text with ⟨statement, _ | _⟩ <;> rw [hpartial] at h
  · cases h
  · obtain ⟨relation, -, hbuild⟩ := Planner.exists_of_bind_eq_ok h
    cases hbuild
    exact counts_build clause statement relation

/-! ## Counts that are accepted -/

/-- A count that a clause adds to a statement is the value of the clause's operand. -/
theorem exists_operand_of_extends {clause : CountClause} {position : Position}
    {before after : Select} {symbols : List Symbol} {value : Nat}
    (h : Extends position before symbols after) (hafter : after.count clause = some value) :
    before.count clause = some value ∨
      Grammar.Clause [clause.keyword] Grammar.Count symbols value := by
  by_cases hposition : position = clause.position
  · subst hposition
    obtain ⟨count, hcount, rfl⟩ := extends_count_iff.mp h
    rw [Select.count_withCount, Option.some_inj] at hafter
    exact .inr (hafter ▸ hcount)
  · left
    cases h <;> cases clause <;> first | exact hafter | exact absurd rfl hposition

/-- A count of a statement stands among its symbols, behind the keyword of its clause. -/
theorem exists_operand_of_following {clause : CountClause} {part : Part} {before after : Select}
    {symbols : List Symbol} {value : Nat} (h : Following part before symbols after)
    (hafter : after.count clause = some value) :
    before.count clause = some value ∨ ∃ passed count rest, symbols = passed ++ (count ++ rest) ∧
      Grammar.Clause [clause.keyword] Grammar.Count count value := by
  induction h with
  | finish => exact .inl hafter
  | @clause part word position before used between rest after hword hallows hextends _ ih =>
      rcases ih hafter with hbetween | ⟨passed, count, more, rfl, hcount⟩
      · rcases exists_operand_of_extends hextends hbetween with hbefore | hcount
        · exact .inl hbefore
        · exact .inr ⟨[], used, rest, rfl, hcount⟩
      · exact .inr ⟨used ++ passed, count, more, (List.append_assoc ..).symm, hcount⟩

/-- A count of an accepted text is written in it. -/
theorem exists_operand_of_parse {text : String} {statement : Select} {clause : CountClause}
    {value : Nat} (hparse : Select.parse text = .ok statement)
    (hcount : statement.count clause = some value) :
    ∃ passed keyword operand rest, Scanner.tokenize text = passed ++ keyword :: operand :: rest ∧
      keyword.token = .keyword clause.keyword ∧
      Grammar.Placed clause (passed.map Lexeme.symbol) ∧
      Number.Integer operand.text.toList value ∧ (value : Int) ≤ 2 ^ 63 - 1 := by
  obtain ⟨front, back, htokens, hstatement⟩ := statement_of_parse hparse
  obtain ⟨opened, symbols, _, between, hsplit, hopening, hfollowing⟩ :=
    (statementPhrase_iff _ _).mpr hstatement
  -- The opening sets no count, so the count comes from a clause behind it.
  have hnone : between.count clause = none := by
    obtain ⟨-, -, -, -, -, -, -, rfl⟩ := hopening
    cases clause <;> rfl
  rcases exists_operand_of_following hfollowing hcount with hsome | ⟨passed, used, rest, rfl, hused⟩
  · rw [hnone] at hsome
    cases hsome
  obtain ⟨hlead, @⟨digits, _, hvalue⟩⟩ := hused
  obtain ⟨word, rfl, hword⟩ := keywords_singleton.mp hlead
  have hsymbols : (Scanner.tokenize text).map Lexeme.symbol = (opened ++ passed) ++
      word :: ⟨.literal .int, digits⟩ :: (rest ++ back.map Lexeme.symbol) := by
    rw [htokens, List.map_append, hsplit]
    simp
  obtain ⟨front', keyword, _, htokens', hfront', rfl, hbehind⟩ := exists_lexemes_of_split hsymbols
  obtain ⟨operand, others, rfl, hoperand, -⟩ := List.map_eq_cons_iff.mp hbehind
  obtain ⟨hinteger, -, hle⟩ := Number.int?_eq_some_iff.mp hvalue
  refine ⟨front', keyword, operand, others, htokens', hword, ?_, ?_, hle⟩
  · rw [hsplit] at hstatement
    rw [hfront']
    exact ⟨keyword.symbol, _, statement, hword, by simpa using hstatement⟩
  · rw [show operand.text = _ from congrArg Symbol.text hoperand]
    exact hinteger

/-! ## The operand decides -/

section Placed

variable {clause : CountClause} {text : String} {passed rest : List Lexeme}
  {keyword operand : Lexeme} {value : Int}

/-- An operand that is no count is the fault of the text, whatever comes after it. -/
theorem parse_of_countForm_error {fault : Fault}
    (htokens : Scanner.tokenize text = passed ++ keyword :: operand :: rest)
    (hkeyword : keyword.token = .keyword clause.keyword)
    (hplaced : Grammar.Placed clause (passed.map Lexeme.symbol))
    (hform : countForm clause operand = .error fault) :
    Select.parse text = .error ⟨fault, operand.span⟩ := by
  obtain ⟨middle, hdue⟩ := hplaced.exists_due
  obtain ⟨feed, hrun⟩ := hdue.run_count hkeyword rfl (htokens ▸ offers_ofText text)
  rw [hform] at hrun
  exact parse_of_run_error hrun

/-- A count is kept, whatever comes after it. -/
theorem count_of_countForm_ok {count : Nat}
    (htokens : Scanner.tokenize text = passed ++ keyword :: operand :: rest)
    (hkeyword : keyword.token = .keyword clause.keyword)
    (hplaced : Grammar.Placed clause (passed.map Lexeme.symbol))
    (hform : countForm clause operand = .ok count) :
    (Select.parsePartial text).1.count clause = some count := by
  obtain ⟨middle, hdue⟩ := hplaced.exists_due
  obtain ⟨feed, hrun⟩ := hdue.run_count hkeyword rfl (htokens ▸ offers_ofText text)
  rw [hform] at hrun
  have hkept := keeps_proceed (partOf clause.position) ⟨feed, middle.withCount clause count⟩ count
    (middle.count_withCount clause count)
  have hsame : run .start (startOf text) = proceed (partOf clause.position)
      ⟨feed, middle.withCount clause count⟩ := hrun
  rwa [← hsame] at hkept

/-- A count in place can be completed to an accepted text. -/
theorem exists_accepted_of_count {count : Nat}
    (htokens : Scanner.tokenize text = passed ++ keyword :: operand :: rest)
    (hkeyword : keyword.token = .keyword clause.keyword)
    (hplaced : Grammar.Placed clause (passed.map Lexeme.symbol))
    (hform : countForm clause operand = .ok count) :
    ∃ other statement, Select.parse other = .ok statement ∧
      (passed ++ [keyword, operand]).map Lexeme.symbol <+:
        (Scanner.tokenize other).map Lexeme.symbol := by
  obtain ⟨middle, hdue⟩ := hplaced.exists_due
  obtain ⟨hliteral, hvalue⟩ := countForm_eq_ok.mp hform
  have hinner : operand.symbol.Inner := by
    rw [Symbol.Inner, show operand.symbol.token = .literal .int from hliteral]
    exact ⟨by simp, rfl⟩
  have hcount : Grammar.Clause [clause.keyword] Grammar.Count
      ([keyword.symbol] ++ [operand.symbol]) count := by
    have hoperand : operand.symbol = ⟨.literal .int, operand.text⟩ := by
      rw [Lexeme.symbol, hliteral]
    rw [hoperand]
    exact .intro (keywords_singleton.mpr ⟨_, rfl, hkeyword⟩) (.intro hvalue)
  let ending : Symbol := ⟨.semicolon, ";"⟩
  have hending : ending.token.isTerminal = true := rfl
  have hstatement := hdue.statement hcount hending
  have hsplit : Scanner.tokenize text = passed ++ [keyword, operand] ++ rest := by
    simpa using htokens
  refine exists_accepted_of_viable hsplit ?_
    ⟨[ending], (), middle.withCount clause count, ?_, (statementPhrase_iff _ _).mpr ?_⟩
  · intro lexeme hmem
    rcases List.mem_append.mp hmem with hmem | hmem
    · exact hdue.inner _ (List.mem_map_of_mem hmem)
    · simp only [List.mem_cons, List.not_mem_nil, or_false] at hmem
      rcases hmem with rfl | rfl
      · exact inner_of_keyword hkeyword
      · exact hinner
  · exact List.forall_mem_singleton.mpr ⟨spelled_semicolon, by simp [ending]⟩
  · simpa using hstatement

/-- Only counts are accepted. -/
theorem bounds_of_accepted {other : String} {statement : Select}
    (hkeyword : keyword.token = .keyword clause.keyword)
    (hplaced : Grammar.Placed clause (passed.map Lexeme.symbol))
    (hvalue : Number.Integer operand.text.toList value)
    (hparse : Select.parse other = .ok statement)
    (hstarts : (passed ++ [keyword, operand]).map Lexeme.symbol <+:
      (Scanner.tokenize other).map Lexeme.symbol) : 0 ≤ value ∧ value ≤ 2 ^ 63 - 1 := by
  obtain ⟨more, hmore⟩ := hstarts
  rw [List.map_append, List.append_assoc] at hmore
  obtain ⟨passed', keyword', _, htokens, hpassed, hsame, hbehind⟩ :=
    exists_lexemes_of_split hmore.symm
  obtain ⟨operand', others, rfl, hsame', -⟩ := List.map_eq_cons_iff.mp hbehind
  have hkeyword' : keyword'.token = .keyword clause.keyword :=
    (congrArg Symbol.token hsame).trans hkeyword
  have hvalue' : Number.Integer operand'.text.toList value := by
    rwa [show operand'.text = operand.text from congrArg Symbol.text hsame']
  have hmem : operand' ∈ Scanner.tokenize other := by simp [htokens]
  have hform := countForm_of_integer clause (token_of_integer hmem hvalue') hvalue'
  -- In the accepted text the same operand stands in its place, so it would be rejected there as
  -- well.
  have hrejects : ∀ fault, countForm clause operand' = .error fault →
      Select.parse other = .error ⟨fault, operand'.span⟩ :=
    fun fault => parse_of_countForm_error htokens hkeyword' (hpassed ▸ hplaced)
  by_contra hbounds
  by_cases hrange : value < -2 ^ 63 ∨ 2 ^ 63 - 1 < value
  · rw [if_pos hrange] at hform
    rw [hrejects _ hform] at hparse
    cases hparse
  · rw [if_neg hrange, if_pos (by omega)] at hform
    rw [hrejects _ hform] at hparse
    cases hparse

end Placed

/-- The operand of a count clause in its place is judged by its value alone, however many
digits it has.  From 0 to the largest integer of 64 bits it is accepted, and the
statement, its text and its plan have that value; a smaller one that 64 bits hold is
rejected as negative, and any other as no integer.  So a count of an accepted text is the
value of the digits behind its keyword. -/
theorem counts_exact :
    (∀ clause text passed keyword operand rest value,
      Scanner.tokenize text = passed ++ keyword :: operand :: rest →
      keyword.token = .keyword clause.keyword →
      Grammar.Placed clause (passed.map Lexeme.symbol) →
      Number.Integer operand.text.toList value →
      ((∃ other statement, Select.parse other = .ok statement ∧
          (passed ++ [keyword, operand]).map Lexeme.symbol <+:
            (Scanner.tokenize other).map Lexeme.symbol) ↔ 0 ≤ value ∧ value ≤ 2 ^ 63 - 1) ∧
      (0 ≤ value → value ≤ 2 ^ 63 - 1 → ∃ count : Nat, (count : Int) = value ∧
        ∀ statement outcome, Select.parsePartial text = (statement, outcome) →
          statement.count clause = some count ∧
          statement.render = (statement.upTo clause).render ++
            (" " ++ clause.keyword.spelling ++ " " ++ toString count) ++
              statement.renderBehind clause ∧
          Number.Integer (toString count).toList value ∧
          ∀ config catalog plan, compile config catalog text = .ok plan →
            plan.chain.filterMap (Plan.count? clause) = [count]) ∧
      (-2 ^ 63 ≤ value → value < 0 → ∃ error, Select.parse text = .error error ∧
        error.message = "found \"" ++ operand.text ++ "\", " ++ "expected nonnegative INT" ∧
        error.span = operand.span) ∧
      (value < -2 ^ 63 ∨ 2 ^ 63 - 1 < value → ∃ error, Select.parse text = .error error ∧
        error.message = "found \"" ++ operand.text ++ "\", " ++
          ("expected INT " ++ clause.name ++ " value") ∧
        error.span = operand.span)) ∧
    ∀ text statement clause count, Select.parse text = .ok statement →
      statement.count clause = some count →
      ∃ passed keyword operand rest, Scanner.tokenize text = passed ++ keyword :: operand :: rest ∧
        keyword.token = .keyword clause.keyword ∧
        Grammar.Placed clause (passed.map Lexeme.symbol) ∧
        Number.Integer operand.text.toList count ∧ (count : Int) ≤ 2 ^ 63 - 1 := by
  refine ⟨fun clause text passed keyword operand rest value htokens hkeyword hplaced hvalue => ?_,
    fun text statement clause count => exists_operand_of_parse⟩
  have hmem : operand ∈ Scanner.tokenize text := by simp [htokens]
  have hform := countForm_of_integer clause (token_of_integer hmem hvalue) hvalue
  have hcount : 0 ≤ value → value ≤ 2 ^ 63 - 1 → countForm clause operand = .ok value.toNat := by
    intro hnonneg hle
    rw [hform, if_neg (by omega), if_neg (by omega)]
  refine ⟨⟨?_, ?_⟩, ?_, ?_, ?_⟩
  · rintro ⟨other, statement, hparse, hstarts⟩
    exact bounds_of_accepted hkeyword hplaced hvalue hparse hstarts
  · rintro ⟨hnonneg, hle⟩
    exact exists_accepted_of_count htokens hkeyword hplaced (hcount hnonneg hle)
  · intro hnonneg hle
    refine ⟨value.toNat, Int.toNat_of_nonneg hnonneg, ?_⟩
    intro statement outcome hpartial
    have hstored := count_of_countForm_ok htokens hkeyword hplaced (hcount hnonneg hle)
    rw [hpartial] at hstored
    have hprinted := Number.integer_toString value.toNat
    rw [Int.toNat_of_nonneg hnonneg] at hprinted
    refine ⟨hstored, Select.render_of_count hstored, hprinted, ?_⟩
    intro config catalog plan hcompile
    rw [counts_compile clause hcompile, hpartial, hstored]
    rfl
  · intro hge hneg
    rw [if_neg (by omega), if_pos hneg] at hform
    exact ⟨_, parse_of_countForm_error htokens hkeyword hplaced hform, rfl, rfl⟩
  · intro hrange
    rw [if_pos hrange] at hform
    exact ⟨_, parse_of_countForm_error htokens hkeyword hplaced hform, rfl, rfl⟩

/-- A sign and leading zeros do not matter; `-1` and 2 ^ 63 are rejected, each in its own
way. -/
theorem counts_exact_limit :
    (∃ count : Nat, (count : Int) = 7 ∧
      (Select.parsePartial "SELECT a FROM t LIMIT +007").1.limit = some count) ∧
    (∃ error, Select.parse "SELECT a FROM t LIMIT -1" = .error error ∧
      error.message = "found \"-1\", expected nonnegative INT") ∧
    (∃ error, Select.parse "SELECT a FROM t LIMIT 9223372036854775808" = .error error ∧
      error.message = "found \"9223372036854775808\", expected INT limit value") ∧
    ∃ passed keyword operand rest,
      Scanner.tokenize "SELECT a FROM t LIMIT -0" = passed ++ keyword :: operand :: rest ∧
        Number.Integer operand.text.toList 0 := by
  let passed : List Lexeme := [⟨.keyword .SELECT, "SELECT", ⟨0, 6⟩⟩, ⟨.ident, "a", ⟨7, 8⟩⟩,
    ⟨.keyword .FROM, "FROM", ⟨9, 13⟩⟩, ⟨.ident, "t", ⟨14, 15⟩⟩]
  let keyword : Lexeme := ⟨.keyword .LIMIT, "LIMIT", ⟨16, 21⟩⟩
  have hplaced : Grammar.Placed .limit (passed.map Lexeme.symbol) := by
    have hfields : Grammar.Selecting
        ([⟨.keyword .SELECT, "SELECT"⟩] ++ [⟨.ident, "a"⟩]) [⟨"a"⟩] :=
      .intro (keywords_singleton.mpr ⟨_, rfl, rfl⟩) (.last (.name (.word "a")))
    have htable : Grammar.Source ([⟨.keyword .FROM, "FROM"⟩] ++ [⟨.ident, "t"⟩]) ⟨"t"⟩ :=
      .intro (keywords_singleton.mpr ⟨_, rfl, rfl⟩) (.word "t")
    have hlimit : Grammar.Limiting ([keyword.symbol] ++ [⟨.literal .int, "0"⟩]) 0 :=
      .intro (keywords_singleton.mpr ⟨_, rfl, rfl⟩) (.intro (by decide))
    have hstatement := Grammar.Statement.intro hfields htable .none .absent .absent
      (.limit hlimit) (show Symbol.ending.token.isTerminal = true from rfl)
    exact ⟨keyword.symbol, _, _, rfl, hstatement⟩
  refine ⟨?_, ?_, ?_, ?_⟩
  · obtain ⟨-, haccepted, -, -⟩ := counts_exact.1 .limit "SELECT a FROM t LIMIT +007" passed keyword
      ⟨.literal .int, "+007", ⟨22, 26⟩⟩ [⟨.eof, "", ⟨26, 26⟩⟩] 7 (by decide +kernel) rfl hplaced
      ((Number.integer?_eq_some_iff _ _).mp (by decide +kernel))
    obtain ⟨count, hcount, hall⟩ := haccepted (by decide) (by decide)
    exact ⟨count, hcount, (hall _ _ rfl).1⟩
  · obtain ⟨-, -, hnegative, -⟩ := counts_exact.1 .limit "SELECT a FROM t LIMIT -1" passed keyword
      ⟨.literal .int, "-1", ⟨22, 24⟩⟩ [⟨.eof, "", ⟨24, 24⟩⟩] (-1) (by decide +kernel) rfl hplaced
      ((Number.integer?_eq_some_iff _ _).mp (by decide +kernel))
    obtain ⟨error, herror, hmessage, -⟩ := hnegative (by decide) (by decide)
    exact ⟨error, herror, hmessage⟩
  · obtain ⟨-, -, -, hlarge⟩ := counts_exact.1 .limit
      "SELECT a FROM t LIMIT 9223372036854775808" passed keyword
      ⟨.literal .float, "9223372036854775808", ⟨22, 41⟩⟩ [⟨.eof, "", ⟨41, 41⟩⟩]
      9223372036854775808 (by decide +kernel) rfl hplaced
      ((Number.integer?_eq_some_iff _ _).mp (by decide +kernel))
    obtain ⟨error, herror, hmessage, -⟩ := hlarge (by decide)
    exact ⟨error, herror, hmessage⟩
  · obtain ⟨passed, keyword, operand, rest, htokens, -, -, hinteger, -⟩ :=
      counts_exact.2 "SELECT a FROM t LIMIT -0"
        { fields := [⟨"a"⟩], table := some (.ident ⟨"t"⟩), limit := some 0 } .limit 0
        (by decide +kernel) rfl
    exact ⟨passed, keyword, operand, rest, htokens, hinteger⟩

end SelectPlan
