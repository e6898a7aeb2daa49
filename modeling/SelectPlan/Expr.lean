import SelectPlan.Ident
import SelectPlan.Token

/-!
# Expressions

Expression trees, their text, and the walk over their nodes.  `visit` runs an
action on each node in turn, a node before its children and left before right;
`nodes` lists the nodes in that order.
-/

namespace SelectPlan

/-- A literal value as it is written, quotation marks included. -/
structure Literal where
  kind : LiteralKind
  text : String
  deriving DecidableEq, Repr

/-- Operators between two expressions: comparisons and logical connectives. -/
inductive BinaryOp
  | compare (comparison : Comparison)
  | and
  | or
  deriving DecidableEq, Repr

/-- Operators in front of one expression. -/
inductive UnaryOp
  | not
  | negate
  deriving DecidableEq, Repr

/-- Expressions.  Statements read from text hold neither unary operators nor
aliases; trees built by other means may. -/
inductive Expr
  | ident (ident : Ident)
  | literal (literal : Literal)
  | unary (op : UnaryOp) (operand : Expr)
  | binary (left : Expr) (op : BinaryOp) (right : Expr)
  | aliased (expr : Expr) (name : Ident)
  deriving DecidableEq, Repr

/-- The operator as it is written. -/
def BinaryOp.spelling : BinaryOp → String
  | compare comparison => comparison.spelling
  | and => "AND"
  | or => "OR"

/-- The operator as it is written. -/
def UnaryOp.spelling : UnaryOp → String
  | not => "NOT"
  | negate => "-"

namespace Expr

/-- The text of an expression.  There are no parentheses, and a negation stands
directly before its operand. -/
def render : Expr → String
  | ident name => name.name
  | literal value => value.text
  | unary .not operand => "NOT " ++ operand.render
  | unary .negate operand => "-" ++ operand.render
  | binary left op right => left.render ++ " " ++ op.spelling ++ " " ++ right.render
  | aliased expr name => expr.render ++ " AS " ++ name.name

/-- The name that an expression consists of, if it is a bare name. -/
def ident? : Expr → Option Ident
  | ident name => some name
  | _ => none

/-- Runs an action on every node, a node before its children and left before
right.  An action that fails ends the walk. -/
def visit {m : Type → Type} [Monad m] (action : Expr → m Unit) : Expr → m Unit
  | e@(ident _) => action e
  | e@(literal _) => action e
  | e@(unary _ operand) => do
    action e
    operand.visit action
  | e@(binary left _ right) => do
    action e
    left.visit action
    right.visit action
  | e@(aliased expr _) => do
    action e
    expr.visit action

/-- The nodes of an expression, a node before its children and left before
right. -/
def nodes : Expr → List Expr
  | e@(ident _) => [e]
  | e@(literal _) => [e]
  | e@(unary _ operand) => e :: operand.nodes
  | e@(binary left _ right) => e :: (left.nodes ++ right.nodes)
  | e@(aliased expr _) => e :: expr.nodes

end Expr

end SelectPlan
