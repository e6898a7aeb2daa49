import SelectPlan.Number
import SelectPlan.Select
import SelectPlan.Proofs.Scanner.Symbols

/-!
# The grammar of statements

Which symbols derive which part of a statement.  Each production is a relation
between a list of symbols and the tree it stands for; nothing here reads, looks
ahead or fails.

* `SELECT field (, field)* FROM name join*`
* `[WHERE predicate] [GROUP BY name (, name)*] tail`
* the end of the text or `;`

A keyword is a keyword in whatever cases it is written, so the productions ask
for its token only.
-/

namespace SelectPlan.Grammar

variable {α : Type}

/-! ## Words and lists -/

/-- The symbols are these keywords. -/
def Keywords (words : List Keyword) (symbols : List Symbol) : Prop :=
  symbols.map Symbol.token = words.map Token.keyword

/-- `IDENT` -/
inductive Name : List Symbol → Ident → Prop
  | word (text : String) : Name [⟨.ident, text⟩] ⟨text⟩

/-- `IDENT | *` -/
inductive Field : List Symbol → Ident → Prop
  | name {symbols name} : Name symbols name → Field symbols name
  | all {symbol : Symbol} : symbol.token = .asterisk → Field [symbol] .star

/-- `item (, item)*` -/
inductive Listed (Item : List Symbol → α → Prop) : List Symbol → List α → Prop
  | last {symbols item} : Item symbols item → Listed Item symbols [item]
  | more {symbols item comma rest items} : Item symbols item → comma.token = .comma →
      Listed Item rest items → Listed Item (symbols ++ comma :: rest) (item :: items)

/-- A clause: the keywords that introduce it and what it says. -/
inductive Clause (words : List Keyword) (Body : List Symbol → α → Prop) : List Symbol → α → Prop
  | intro {lead body value} : Keywords words lead → Body body value →
      Clause words Body (lead ++ body) value

/-- A clause that may be missing. -/
inductive Optional (Present : List Symbol → α → Prop) : List Symbol → Option α → Prop
  | absent : Optional Present [] none
  | present {symbols value} : Present symbols value → Optional Present symbols (some value)

/-! ## Predicates -/

/-- `IDENT | INT | FLOAT | STRING` -/
inductive Operand : List Symbol → Expr → Prop
  | name {symbols name} : Name symbols name → Operand symbols (.ident name)
  | literal (kind : LiteralKind) (text : String) :
      Operand [⟨.literal kind, text⟩] (.literal ⟨kind, text⟩)

/-- `operand (= | <> | < | <= | > | >=) operand` -/
inductive Comparing : List Symbol → Criterion → Prop
  | intro {front left symbol comparison back right} : Operand front left →
      symbol.token = .comparison comparison → Operand back right →
      Comparing (front ++ symbol :: back) ⟨left, .compare comparison, right⟩

/-- `AND | OR` -/
inductive Connective : Token → BinaryOp → Prop
  | and : Connective (.keyword .AND) .and
  | or : Connective (.keyword .OR) .or

/-- `comparison | comparison (AND | OR) predicate` -/
inductive Predicate : List Symbol → Expr → Prop
  | last {symbols criterion} : Comparing symbols criterion → Predicate symbols criterion.toExpr
  | more {symbols criterion connective op rest predicate} : Comparing symbols criterion →
      Connective connective.token op → Predicate rest predicate →
      Predicate (symbols ++ connective :: rest) (.binary criterion.toExpr op predicate)

/-! ## Joins -/

/-- `LEFT | RIGHT | FULL` -/
inductive Side : Keyword → JoinKind → Prop
  | left : Side .LEFT .leftOuter
  | right : Side .RIGHT .rightOuter
  | full : Side .FULL .fullOuter

/-- `[INNER] JOIN | side [OUTER] JOIN` -/
inductive JoinWords : List Keyword → JoinKind → Prop
  | plain : JoinWords [.JOIN] .inner
  | inner : JoinWords [.INNER, .JOIN] .inner
  | side {side kind} : Side side kind → JoinWords [side, .JOIN] kind
  | outer {side kind} : Side side kind → JoinWords [side, .OUTER, .JOIN] kind

/-- `joinWords name ON comparison` -/
inductive Joining : List Symbol → Join → Prop
  | intro {words kind lead table condition criterion} : JoinWords words kind →
      Clause words Name lead table → Clause [.ON] Comparing condition criterion →
      Joining (lead ++ condition) ⟨kind, .ident table, criterion⟩

/-- `joining*` -/
inductive Joins : List Symbol → List Join → Prop
  | none : Joins [] []
  | more {symbols join rest joins} : Joining symbols join → Joins rest joins →
      Joins (symbols ++ rest) (join :: joins)

/-! ## Statements -/

/-- An `INT` whose value is not negative. -/
inductive Count : List Symbol → Nat → Prop
  | intro {text value} : Number.int? text.toList = some (Int.ofNat value) →
      Count [⟨.literal .int, text⟩] value

/-- `SELECT field (, field)*` -/
abbrev Selecting : List Symbol → List Ident → Prop := Clause [.SELECT] (Listed Field)

/-- `FROM name` -/
abbrev Source : List Symbol → Ident → Prop := Clause [.FROM] Name

/-- `WHERE predicate` -/
abbrev Where : List Symbol → Expr → Prop := Clause [.WHERE] Predicate

/-- `GROUP BY name (, name)*` -/
abbrev Grouping : List Symbol → List Ident → Prop := Clause [.GROUP, .BY] (Listed Name)

/-- `ORDER BY name (, name)*` -/
abbrev Ordering : List Symbol → List Ident → Prop := Clause [.ORDER, .BY] (Listed Name)

/-- `LIMIT count` -/
abbrev Limiting : List Symbol → Nat → Prop := Clause [.LIMIT] Count

/-- `OFFSET count` -/
abbrev Skipping : List Symbol → Nat → Prop := Clause [.OFFSET] Count

/-- What may come last: names to order by, and counts in front of which OFFSET
needs those names. -/
inductive Tail : List Symbol → Option (List Ident) → Option Nat → Option Nat → Prop
  | nothing : Tail [] none none none
  | limit {symbols value} : Limiting symbols value → Tail symbols none (some value) none
  | order {symbols names} : Ordering symbols names → Tail symbols (some names) none none
  | orderLimit {order names limit value} : Ordering order names → Limiting limit value →
      Tail (order ++ limit) (some names) (some value) none
  | orderOffset {order names offset count} : Ordering order names → Skipping offset count →
      Tail (order ++ offset) (some names) none (some count)
  | orderLimitOffset {order names limit value offset count} : Ordering order names →
      Limiting limit value → Skipping offset count →
      Tail (order ++ limit ++ offset) (some names) (some value) (some count)
  | orderOffsetLimit {order names offset count limit value} : Ordering order names →
      Skipping offset count → Limiting limit value →
      Tail (order ++ offset ++ limit) (some names) (some value) (some count)

/-- A statement with the end of the text or the `;` after it. -/
inductive Statement : List Symbol → Select → Prop
  | intro {selecting fields source table joining joins filtering filter grouping groupBy tail
      orderBy limit offset ending} : Selecting selecting fields → Source source table →
      Joins joining joins → Optional Where filtering filter → Optional Grouping grouping groupBy →
      Tail tail orderBy limit offset → ending.token.isTerminal = true →
      Statement (selecting ++ source ++ joining ++ filtering ++ grouping ++ tail ++ [ending])
        ⟨fields, some (.ident table), joins, filter, groupBy, orderBy, limit, offset⟩

end SelectPlan.Grammar
