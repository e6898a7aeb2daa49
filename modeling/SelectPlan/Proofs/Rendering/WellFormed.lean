import SelectPlan.Proofs.Grammar.Basic
import SelectPlan.Proofs.Scanner.Spelling

/-!
# Well-formed statements

The statements that texts can write: no part that the grammar requires is
missing, and every name and literal is a lexeme of its own.  A statement that is
derived from the symbols of a text is well formed (`Grammar.Statement.wellFormed`).
-/

namespace SelectPlan

/-! ## Well-formed parts -/

/-- The name is a word. -/
def Ident.WellFormed (name : Ident) : Prop :=
  IsWord name.name.toList

/-- At least one name, and nothing but words. -/
def WellFormedNames (names : List Ident) : Prop :=
  names ≠ [] ∧ ∀ name ∈ names, name.WellFormed

/-- A word, or a literal whose text is one lexeme of its kind with nothing around
it. -/
inductive Expr.IsOperand : Expr → Prop
  | name {name : Ident} : name.WellFormed → IsOperand (.ident name)
  | literal {kind text} : (⟨.literal kind, text⟩ : Symbol).Spelled →
      IsOperand (.literal ⟨kind, text⟩)

/-- A comparison of two operands. -/
structure Criterion.WellFormed (criterion : Criterion) : Prop where
  left : criterion.left.IsOperand
  op : ∃ comparison, criterion.op = .compare comparison
  right : criterion.right.IsOperand

/-- Comparisons joined by `AND` and `OR`, nested to the right. -/
inductive Expr.IsPredicate : Expr → Prop
  | last {criterion : Criterion} : criterion.WellFormed → IsPredicate criterion.toExpr
  | more {criterion : Criterion} {op rest} : criterion.WellFormed → op = .and ∨ op = .or →
      IsPredicate rest → IsPredicate (.binary criterion.toExpr op rest)

/-- A join of a word on a comparison. -/
structure Join.WellFormed (join : Join) : Prop where
  table : ∃ name, join.table = .ident name ∧ name.WellFormed
  criterion : join.criterion.WellFormed

/-- A statement that a text can write. -/
structure Select.WellFormed (statement : Select) : Prop where
  fields_ne : statement.fields ≠ []
  fields : ∀ field ∈ statement.fields, field = .star ∨ field.WellFormed
  table : ∃ name, statement.table = some (.ident name) ∧ name.WellFormed
  joins : ∀ join ∈ statement.joins, join.WellFormed
  filter : ∀ predicate ∈ statement.filter, predicate.IsPredicate
  groupBy : ∀ names ∈ statement.groupBy, WellFormedNames names
  orderBy : ∀ names ∈ statement.orderBy, WellFormedNames names
  limit : ∀ value ∈ statement.limit, (value : Int) ≤ Number.maxInt
  offset : ∀ value ∈ statement.offset, (value : Int) ≤ Number.maxInt
  ordered : statement.offset.isSome → statement.orderBy.isSome

/-! ## What is derived from a text is well formed -/

/-- The symbols are spelled as those of a text are. -/
def Written (symbols : List Symbol) : Prop :=
  ∀ symbol ∈ symbols, symbol.token ≠ .eof → symbol.token ≠ .illegal → symbol.Spelled

theorem written_symbols (text : List Char) : Written (Scanner.symbols text) :=
  fun _ hmem hend hillegal => Scanner.spelled_of_mem_symbols hmem hend hillegal

theorem Written.left {front back : List Symbol} (h : Written (front ++ back)) : Written front :=
  fun symbol hmem => h symbol (List.mem_append_left _ hmem)

theorem Written.right {front back : List Symbol} (h : Written (front ++ back)) : Written back :=
  fun symbol hmem => h symbol (List.mem_append_right _ hmem)

theorem Written.tail {symbol : Symbol} {rest : List Symbol} (h : Written (symbol :: rest)) :
    Written rest :=
  fun other hmem => h other (List.mem_cons_of_mem _ hmem)

namespace Grammar

theorem Name.wellFormed {symbols : List Symbol} {name : Ident} (h : Name symbols name)
    (hwritten : Written symbols) : name.WellFormed := by
  cases h with
  | word text =>
      exact (spelled_name_iff text).mp (hwritten _ (List.mem_singleton_self _) (by simp) (by simp))

theorem Field.wellFormed {symbols : List Symbol} {field : Ident} (h : Field symbols field)
    (hwritten : Written symbols) : field = .star ∨ field.WellFormed := by
  cases h with
  | name hname => exact .inr (hname.wellFormed hwritten)
  | all hasterisk => exact .inl rfl

theorem Listed.wellFormed {Item : List Symbol → Ident → Prop} {Good : Ident → Prop}
    (hitem : ∀ symbols name, Item symbols name → Written symbols → Good name)
    {symbols : List Symbol} {names : List Ident} (h : Listed Item symbols names)
    (hwritten : Written symbols) : names ≠ [] ∧ ∀ name ∈ names, Good name := by
  induction h with
  | last hlast => exact ⟨by simp, by simpa using hitem _ _ hlast hwritten⟩
  | more hfirst hcomma _ ih =>
      refine ⟨by simp, List.forall_mem_cons.mpr ⟨hitem _ _ hfirst hwritten.left, ?_⟩⟩
      exact (ih hwritten.right.tail).2

theorem Clause.body {α : Type} {words : List Keyword} {Body : List Symbol → α → Prop}
    {symbols : List Symbol} {value : α} (h : Clause words Body symbols value)
    (hwritten : Written symbols) : ∃ body, Body body value ∧ Written body := by
  obtain ⟨hlead, hbody⟩ := h
  exact ⟨_, hbody, hwritten.right⟩

theorem Operand.wellFormed {symbols : List Symbol} {expr : Expr} (h : Operand symbols expr)
    (hwritten : Written symbols) : expr.IsOperand := by
  cases h with
  | name hname => exact .name (hname.wellFormed hwritten)
  | literal kind text =>
      exact .literal (hwritten _ (List.mem_singleton_self _) (by simp) (by simp))

theorem Comparing.wellFormed {symbols : List Symbol} {criterion : Criterion}
    (h : Comparing symbols criterion) (hwritten : Written symbols) : criterion.WellFormed := by
  obtain ⟨hleft, hsymbol, hright⟩ := h
  exact ⟨hleft.wellFormed hwritten.left, ⟨_, rfl⟩, hright.wellFormed hwritten.right.tail⟩

theorem Connective.op_cases {token : Token} {op : BinaryOp} (h : Connective token op) :
    op = .and ∨ op = .or := by
  cases h <;> simp

theorem Predicate.wellFormed {symbols : List Symbol} {expr : Expr} (h : Predicate symbols expr)
    (hwritten : Written symbols) : expr.IsPredicate := by
  induction h with
  | last hcomparing => exact .last (hcomparing.wellFormed hwritten)
  | more hcomparing hconnective _ ih =>
      exact .more (hcomparing.wellFormed hwritten.left) hconnective.op_cases
        (ih hwritten.right.tail)

theorem Joining.wellFormed {symbols : List Symbol} {join : Join} (h : Joining symbols join)
    (hwritten : Written symbols) : join.WellFormed := by
  obtain ⟨hwords, htable, hcondition⟩ := h
  obtain ⟨_, hname, hwritten₁⟩ := htable.body hwritten.left
  obtain ⟨_, hcomparing, hwritten₂⟩ := hcondition.body hwritten.right
  exact ⟨⟨_, rfl, hname.wellFormed hwritten₁⟩, hcomparing.wellFormed hwritten₂⟩

theorem Joins.wellFormed {symbols : List Symbol} {joins : List Join} (h : Joins symbols joins)
    (hwritten : Written symbols) : ∀ join ∈ joins, join.WellFormed := by
  induction h with
  | none => simp
  | more hjoin _ ih =>
      exact List.forall_mem_cons.mpr ⟨hjoin.wellFormed hwritten.left, ih hwritten.right⟩

theorem Count.le_maxInt {symbols : List Symbol} {value : Nat} (h : Count symbols value) :
    (value : Int) ≤ Number.maxInt := by
  cases h with
  | intro hvalue =>
      rw [Number.int?, Option.filter_eq_some_iff] at hvalue
      simpa using (Bool.and_eq_true_iff.mp hvalue.2).2

theorem Listed.wellFormedNames {symbols : List Symbol} {names : List Ident}
    (h : Listed Name symbols names) (hwritten : Written symbols) : WellFormedNames names :=
  h.wellFormed (fun _ _ hname => hname.wellFormed) hwritten

theorem Clause.le_maxInt {words : List Keyword} {symbols : List Symbol} {value : Nat}
    (h : Clause words Count symbols value) : (value : Int) ≤ Number.maxInt := by
  obtain ⟨-, hcount⟩ := h
  exact hcount.le_maxInt

theorem Clause.wellFormedNames {words : List Keyword} {symbols : List Symbol} {names : List Ident}
    (h : Clause words (Listed Name) symbols names) (hwritten : Written symbols) :
    WellFormedNames names := by
  obtain ⟨_, hlisted, hwritten⟩ := h.body hwritten
  exact hlisted.wellFormedNames hwritten

theorem Tail.wellFormed {symbols : List Symbol} {orderBy : Option (List Ident)}
    {limit offset : Option Nat} (h : Tail symbols orderBy limit offset)
    (hwritten : Written symbols) :
    (∀ names ∈ orderBy, WellFormedNames names) ∧
      (∀ value ∈ limit, (value : Int) ≤ Number.maxInt) ∧
      (∀ value ∈ offset, (value : Int) ≤ Number.maxInt) ∧
      (offset.isSome → orderBy.isSome) := by
  cases h with
  | nothing => simp
  | limit hlimit => simpa using hlimit.le_maxInt
  | order horder => simpa using horder.wellFormedNames hwritten
  | orderLimit horder hlimit =>
      simpa using ⟨horder.wellFormedNames hwritten.left, hlimit.le_maxInt⟩
  | orderOffset horder hoffset =>
      simpa using ⟨horder.wellFormedNames hwritten.left, hoffset.le_maxInt⟩
  | orderLimitOffset horder hlimit hoffset =>
      simpa using ⟨horder.wellFormedNames hwritten.left.left, hlimit.le_maxInt, hoffset.le_maxInt⟩
  | orderOffsetLimit horder hoffset hlimit =>
      simpa using ⟨horder.wellFormedNames hwritten.left.left, hlimit.le_maxInt, hoffset.le_maxInt⟩

/-- What is derived from the symbols of a text is well formed. -/
theorem Statement.wellFormed {symbols : List Symbol} {statement : Select}
    (h : Statement symbols statement) (hwritten : Written symbols) : statement.WellFormed := by
  obtain ⟨hfields, htable, hjoins, hfilter, hgrouping, htail, hending⟩ := h
  have htail := htail.wellFormed hwritten.left.right
  have hgrouping' := hwritten.left.left.right
  have hfilter' := hwritten.left.left.left.right
  obtain ⟨_, hlisted, hlisted'⟩ := hfields.body hwritten.left.left.left.left.left.left
  obtain ⟨_, hname, hname'⟩ := htable.body hwritten.left.left.left.left.left.right
  obtain ⟨hne, hall⟩ := hlisted.wellFormed (fun _ _ hfield => hfield.wellFormed) hlisted'
  refine ⟨hne, hall, ⟨_, rfl, hname.wellFormed hname'⟩,
    hjoins.wellFormed hwritten.left.left.left.left.right, ?_, ?_, htail.1, htail.2.1, htail.2.2.1,
    htail.2.2.2⟩
  · intro predicate hmem
    cases hfilter with
    | absent => cases hmem
    | present hwhere =>
        obtain ⟨_, hpredicate, hwritten'⟩ := hwhere.body hfilter'
        rw [Option.mem_some_iff] at hmem
        exact hmem ▸ hpredicate.wellFormed hwritten'
  · intro names hmem
    cases hgrouping with
    | absent => cases hmem
    | present hgroup =>
        rw [Option.mem_some_iff] at hmem
        exact hmem ▸ hgroup.wellFormedNames hgrouping'

end Grammar

end SelectPlan
