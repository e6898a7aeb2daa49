import SelectPlan.Parser.Statement
import SelectPlan.Planner

/-!
# From text to plan
-/

namespace SelectPlan

/-- The plan of a statement's text. -/
def compile (config : PlannerConfig) (catalog : Catalog) (text : String) : Except Error Plan :=
  match Select.parse text with
  | .ok statement => Planner.plan config catalog statement
  | .error error => .error (.malformed error.offset error.message)

end SelectPlan
