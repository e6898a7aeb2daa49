import SelectPlan.Compile
import SelectPlan.Proofs.Planner.CheckOrder
import SelectPlan.Proofs.Rendering.RoundTrip

/-!
# The errors of a text

The planner is ready for statements that no text writes: without fields, over
something that is not a name, with an alias in a predicate.  What is parsed from a
text is well formed, so none of the checks against such statements can fail, and
five errors are left (`compile_error_cases`).  Four of them name a part of the
statement; all of them can be answered by another wording of it.
-/

namespace SelectPlan

open Planner

variable {config : PlannerConfig} {catalog : Catalog} {statement : Select} {error : Error}

/-! ## Nodes of predicates -/

theorem Expr.IsOperand.nodes_eq {operand : Expr} (h : operand.IsOperand) :
    operand.nodes = [operand] := by
  cases h <;> rfl

theorem Expr.IsOperand.ne_aliased {operand : Expr} (h : operand.IsOperand) (expr : Expr)
    (name : Ident) : operand ≠ .aliased expr name := by
  cases h <;> simp

theorem Criterion.WellFormed.ne_aliased {criterion : Criterion} (h : criterion.WellFormed)
    {node : Expr} (hmem : node ∈ criterion.toExpr.nodes) (expr : Expr) (name : Ident) :
    node ≠ .aliased expr name := by
  rw [Criterion.toExpr, Expr.nodes, h.left.nodes_eq, h.right.nodes_eq] at hmem
  simp only [List.cons_append, List.nil_append, List.mem_cons, List.not_mem_nil, or_false] at hmem
  rcases hmem with rfl | rfl | rfl
  · simp
  · exact h.left.ne_aliased expr name
  · exact h.right.ne_aliased expr name

/-- The predicate of a text has no alias among its nodes. -/
theorem Expr.IsPredicate.ne_aliased {predicate : Expr} (h : predicate.IsPredicate) {node : Expr}
    (hmem : node ∈ predicate.nodes) (expr : Expr) (name : Ident) : node ≠ .aliased expr name := by
  induction h with
  | last hcriterion => exact hcriterion.ne_aliased hmem expr name
  | more hcriterion _ _ ih =>
      rw [Expr.nodes, List.mem_cons, List.mem_append] at hmem
      rcases hmem with rfl | hmem | hmem
      · simp
      · exact hcriterion.ne_aliased hmem expr name
      · exact ih hmem

/-! ## What is left to fail -/

/-- An error about a part of the statement, which the error names. -/
inductive Blames (catalog : Catalog) (statement : Select) : Error → Prop
  | counts (horder : statement.orderBy ≠ none) (hoffset : statement.offset ≠ none)
      (hlimit : statement.limit = none) : Blames catalog statement .offsetWithoutLimit
  | relation {name : String} (hname : catalog.relation? name = none)
      (hnamed : statement.table = some (.ident ⟨name⟩) ∨
        ∃ join ∈ statement.joins, join.table = .ident ⟨name⟩) :
      Blames catalog statement (.noSuchRelation name)
  | column {field : Ident} (hfield : field ∈ statement.fields) :
      Blames catalog statement (.noSuchColumn field.name)
  | predicate {predicate : Expr} {name : String} (hfilter : statement.filter = some predicate)
      (hnode : .ident ⟨name⟩ ∈ predicate.nodes) :
      Blames catalog statement (.unknownPredicateColumn name)

/-- A check that fails on a well-formed statement blames a part of it: the checks
for what no text writes pass. -/
theorem Planner.Fails.blames {check : Check} (h : Fails config catalog statement check error)
    (hmem : check ∈ checks statement) (hstatement : statement.WellFormed) :
    Blames catalog statement error := by
  -- Alias nodes, an empty projection and a source that is no name are nothing that the parser
  -- makes.
  cases h with
  | counts hoffset hlimit =>
      have horder := hstatement.ordered (Option.isSome_iff_ne_none.mpr hoffset)
      exact .counts (Option.isSome_iff_ne_none.mp horder) hoffset hlimit
  | projection hfields => exact absurd hfields hstatement.fields_ne
  | source htable =>
      obtain ⟨name, hname, -⟩ := hstatement.table
      exact absurd hname (htable name.name)
  | relation htable hname =>
      exact .relation (Catalog.relation?_eq_none_iff.mpr hname) (.inl htable)
  | field _ _ => exact .column (mem_checks_field.mp hmem)
  | joinSource _ _ htable =>
      obtain ⟨name, hname, -⟩ := (hstatement.joins _ (mem_checks_join.mp hmem)).table
      exact absurd hname (htable name.name)
  | joinRelation _ _ htable hname =>
      exact .relation (Catalog.relation?_eq_none_iff.mpr hname)
        (.inr ⟨_, mem_checks_join.mp hmem, htable⟩)
  | «alias» =>
      obtain ⟨predicate, hfilter, hnode⟩ := mem_checks_node.mp hmem
      exact absurd rfl ((hstatement.filter predicate hfilter).ne_aliased hnode _ _)
  | column _ =>
      obtain ⟨predicate, hfilter, hnode⟩ := mem_checks_node.mp hmem
      exact .predicate hfilter hnode

theorem Blames.recoverable (h : Blames catalog statement error) : error.recoverable = true := by
  cases h <;> rfl

theorem Blames.exitCode (h : Blames catalog statement error) : error.exitCode = 1 := by
  cases h <;> rfl

/-- A text that has no plan is malformed, or a part of its statement is to blame:
OFFSET without LIMIT, which stands with ORDER BY, the name of a relation in FROM or
a join, a field, or a name in the predicate.  No other error comes out of a text,
and each of these can be recovered from. -/
theorem compile_error_cases (config : PlannerConfig) (catalog : Catalog) (text : String)
    (error : Error) (h : compile config catalog text = .error error) :
    ((∃ fault, Select.parse text = .error fault ∧
        error = .malformed fault.offset fault.message) ∨
      ∃ statement, Select.parse text = .ok statement ∧ Blames catalog statement error) ∧
    error.recoverable = true ∧ error.exitCode = 1 := by
  cases hparse : Select.parse text with
  | error fault =>
      rw [compile, hparse] at h
      cases h
      exact ⟨.inl ⟨fault, rfl, rfl⟩, rfl, rfl⟩
  | ok statement =>
      rw [compile, hparse] at h
      have hfirst := judges_plan.eq_error_iff.mp h
      obtain ⟨check, hmem, hfails⟩ := hfirst.exists_fails
      have hblames := hfails.blames hmem (wellFormed_of_parse hparse)
      exact ⟨.inr ⟨statement, rfl, hblames⟩, hblames.recoverable, hblames.exitCode⟩

/-- The relation of a join is missed only for the names of a predicate. -/
theorem compile_error_cases_join :
    compile ⟨.relation⟩ (.ofList [{ name := "t", columns := .ofList [{ name := "a" }] }])
        "SELECT a FROM t JOIN u ON a = b WHERE a = 1" = .error (.noSuchRelation "u") ∧
      (∃ statement,
        Select.parse "SELECT a FROM t JOIN u ON a = b WHERE a = 1" = .ok statement ∧
        Blames (.ofList [{ name := "t", columns := .ofList [{ name := "a" }] }]) statement
          (.noSuchRelation "u")) ∧
      (Error.noSuchRelation "u").exitCode = 1 := by
  have hcompile : compile ⟨.relation⟩
      (.ofList [{ name := "t", columns := .ofList [{ name := "a" }] }])
      "SELECT a FROM t JOIN u ON a = b WHERE a = 1" = .error (.noSuchRelation "u") := by
    decide +kernel
  obtain ⟨⟨fault, -, hmalformed⟩ | hblames, -, hcode⟩ := compile_error_cases _ _ _ _ hcompile
  · cases hmalformed
  · exact ⟨hcompile, hblames, hcode⟩

end SelectPlan
