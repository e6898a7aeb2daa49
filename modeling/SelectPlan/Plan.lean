import SelectPlan.Select

/-!
# Logical plans

A plan is a chain of operators that ends in the scan of a relation, the operator
that gives the result first.  It is shown as a tree, one operator to a line, or
as an outline on one line.
-/

namespace SelectPlan

/-- Logical plans. -/
inductive Plan
  | tableScan (relation : String)
  | projection (columns : List Ident) (input : Plan)
  | sort (keys : List String) (input : Plan)
  | nestedLoop (kind : JoinKind) (input : Plan)
  | limit (count : Nat) (input : Plan)
  | offset (count : Nat) (input : Plan)
  | filter (predicate : Expr) (input : Plan)
  deriving DecidableEq, Repr

namespace Plan

/-- The name of the outermost operator. -/
def name : Plan → String
  | tableScan _ => "TableScan"
  | projection .. => "Projection"
  | sort .. => "Sort"
  | nestedLoop .. => "NestedLoop"
  | limit .. => "Limit"
  | offset .. => "Offset"
  | filter .. => "Filter"

/-- What the outermost operator does, as its header shows it. -/
def detail : Plan → String
  | tableScan relation => relation
  | projection columns _ => Select.renderList columns
  | sort keys _ => String.intercalate ", " keys
  | nestedLoop kind _ => kind.spelling
  | limit count _ => toString count
  | offset count _ => toString count
  | filter predicate _ => predicate.render

/-- The outermost operator as it is shown. -/
def header (plan : Plan) : String :=
  plan.name ++ "(" ++ plan.detail ++ ")"

/-- What the outermost operator reads from. -/
def input? : Plan → Option Plan
  | tableScan _ => none
  | projection _ input | sort _ input | nestedLoop _ input | limit _ input | offset _ input
  | filter _ input => some input

/-- The plan, its input, the input of that, down to the scan. -/
def chain : Plan → List Plan
  | plan@(tableScan _) => [plan]
  | plan@(projection _ input) | plan@(sort _ input) | plan@(nestedLoop _ input)
  | plan@(limit _ input) | plan@(offset _ input) | plan@(filter _ input) => plan :: input.chain

/-- The number of operators. -/
def depth (plan : Plan) : Nat :=
  plan.chain.length

/-- The operators on one line. -/
def outline (plan : Plan) : String :=
  String.intercalate " -> " (plan.chain.map header)

/-- A line of the tree: the operator at some depth, two blanks to the right for
each operator above it. -/
def line (depth : Nat) (plan : Plan) : String :=
  String.ofList (List.replicate (2 * depth) ' ') ++ plan.header

/-- The operators as a tree, one to a line. -/
def render (plan : Plan) : String :=
  String.intercalate "\n" (plan.chain.mapIdx line)

end Plan

end SelectPlan
