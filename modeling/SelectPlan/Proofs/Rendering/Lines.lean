import SelectPlan.Proofs.Rendering.Explanation
import SelectPlan.Proofs.Scanner.LexicalGrammar

/-!
# The lines of an explanation

The tree shows one operator to a line, as long as what it shows has no lines of its
own.  Of all that can stand in the plan of a text only a string literal may hold a
line feed, for a string is kept as it is written and goes on to the next quotation
mark.  So the lines of a tree are those of its operators just if no string of its
predicates has a line feed, and otherwise there are as many more of them as there
are line feeds in the strings (`lines_of_compile`).

## Strategy

Line feeds are counted.  A count is a sum over the parts of what is shown, and every
part but a string counts zero: names are words, numbers are digits with a few marks
(`NumberForm.chars`), and what the headers add is known.
-/

namespace SelectPlan

open Text Number

/-! ## Lines and line feeds -/

namespace Text

/-- The pieces of a text before, between and after its line feeds. -/
def lines (text : String) : List String :=
  (text.toList.splitOn '\n').map String.ofList

/-- How many line feeds a text has. -/
def lineFeeds (text : String) : Nat :=
  text.toList.count '\n'

@[simp] theorem lineFeeds_append (first second : String) :
    lineFeeds (first ++ second) = lineFeeds first + lineFeeds second := by
  simp [lineFeeds]

theorem lineFeeds_eq_zero_iff (text : String) : lineFeeds text = 0 ↔ '\n' ∉ text.toList :=
  List.count_eq_zero

/-- A text has one line more than line feeds. -/
theorem length_lines (text : String) : (lines text).length = lineFeeds text + 1 := by
  rw [lines, List.length_map, lineFeeds]
  induction text.toList with
  | nil => rfl
  | cons c rest ih =>
      rw [List.splitOn_cons_eq_if_modifyHead, List.count_cons]
      split
      · rw [List.length_cons, ih]
      · rw [List.length_modifyHead, ih, Nat.add_zero]

theorem toList_intercalate_lineFeed (texts : List String) :
    (String.intercalate "\n" texts).toList = ['\n'].intercalate (texts.map String.toList) := by
  rw [String.toList_intercalate]
  rfl

/-- Texts without line feeds, with a line feed between any two, are the lines of
that. -/
theorem lines_intercalate {texts : List String} (hne : texts ≠ [])
    (h : ∀ text ∈ texts, lineFeeds text = 0) :
    lines (String.intercalate "\n" texts) = texts := by
  have hfree : ∀ line ∈ texts.map String.toList, '\n' ∉ line := by
    intro line hmem
    obtain ⟨text, htext, rfl⟩ := List.mem_map.mp hmem
    exact (lineFeeds_eq_zero_iff text).mp (h text htext)
  rw [lines, toList_intercalate_lineFeed, List.splitOn_intercalate '\n' hfree (by simpa using hne),
    List.map_map]
  simp

theorem lineFeeds_intercalate (first : String) (rest : List String) :
    lineFeeds (String.intercalate "\n" (first :: rest)) =
      ((first :: rest).map lineFeeds).sum + rest.length := by
  induction rest generalizing first with
  | nil => simp
  | cons next others ih =>
      have hfeed : lineFeeds "\n" = 1 := rfl
      calc lineFeeds (String.intercalate "\n" (first :: next :: others))
        _ = lineFeeds first + 1 + (((next :: others).map lineFeeds).sum + others.length) := by
            rw [String.intercalate_cons_cons, lineFeeds_append, lineFeeds_append, hfeed, ih next]
        _ = (lineFeeds first + ((next :: others).map lineFeeds).sum) + (others.length + 1) := by
            omega
        _ = ((first :: next :: others).map lineFeeds).sum + (next :: others).length := rfl

end Text

/-! ## The strings in a plan -/

/-- The string literals of an expression, as they are written. -/
def Expr.strings (expr : Expr) : List String :=
  expr.nodes.filterMap fun
    | .literal ⟨.string, text⟩ => some text
    | _ => none

/-- The string literals of the predicates of a plan. -/
def Plan.strings (plan : Plan) : List String :=
  plan.chain.flatMap fun
    | .filter predicate _ => predicate.strings
    | _ => []

/-- A word has no line feed. -/
theorem IsWord.lineFeeds_eq_zero {text : String} (h : IsWord text.toList) : lineFeeds text = 0 :=
  (lineFeeds_eq_zero_iff text).mpr (h.notMem (by decide) (by decide))

theorem lineFeeds_number {kind : LiteralKind} {text : String}
    (h : (⟨.literal kind, text⟩ : Symbol).Spelled) (hkind : kind ≠ .string) :
    lineFeeds text = 0 := by
  obtain ⟨first, rest, htext, -, hread⟩ := h.exists_readLexeme
  have hform := (((readLexeme_eq_iff first rest _).mp hread).number_of_literal rfl hkind).1
  rw [lineFeeds_eq_zero_iff, htext]
  intro hmem
  rcases hform.chars _ hmem with hdigit | hmark
  · exact absurd hdigit (by decide)
  · exact absurd hmark (by decide)

/-! ## Line feeds in what is shown -/

theorem Expr.IsOperand.lineFeeds_render {expr : Expr} (h : expr.IsOperand) :
    lineFeeds expr.render = (expr.strings.map lineFeeds).sum := by
  cases h with
  | name hname => exact IsWord.lineFeeds_eq_zero hname
  | @literal kind text hspelled =>
      cases kind with
      | string => simp [Expr.render, Expr.strings, Expr.nodes]
      | int => exact lineFeeds_number hspelled (by decide)
      | float => exact lineFeeds_number hspelled (by decide)

theorem lineFeeds_spelling (op : BinaryOp) : lineFeeds op.spelling = 0 := by
  cases op with
  | compare comparison => cases comparison <;> rfl
  | and => rfl
  | or => rfl

/-- An operator between two expressions adds no line feed. -/
theorem lineFeeds_binary {left right : Expr} (op : BinaryOp)
    (hleft : lineFeeds left.render = (left.strings.map lineFeeds).sum)
    (hright : lineFeeds right.render = (right.strings.map lineFeeds).sum) :
    lineFeeds (Expr.binary left op right).render =
      ((Expr.binary left op right).strings.map lineFeeds).sum := by
  have hblank : lineFeeds " " = 0 := rfl
  have hstrings : (Expr.binary left op right).strings = left.strings ++ right.strings := by
    rw [Expr.strings, Expr.nodes, List.filterMap_cons, List.filterMap_append]
    rfl
  rw [hstrings, List.map_append, List.sum_append, Expr.render, lineFeeds_append, lineFeeds_append,
    lineFeeds_append, lineFeeds_append, lineFeeds_spelling, hblank, hleft, hright]
  omega

theorem Expr.IsPredicate.lineFeeds_render {expr : Expr} (h : expr.IsPredicate) :
    lineFeeds expr.render = (expr.strings.map lineFeeds).sum := by
  induction h with
  | last hcriterion =>
      exact lineFeeds_binary _ hcriterion.left.lineFeeds_render hcriterion.right.lineFeeds_render
  | more hcriterion hop _ ih =>
      refine lineFeeds_binary _ ?_ ih
      exact lineFeeds_binary _ hcriterion.left.lineFeeds_render hcriterion.right.lineFeeds_render

namespace Plan

/-- What the header adds to the detail, and what the depth puts in front of it, has
no line feed. -/
theorem lineFeeds_line (depth : Nat) (plan : Plan) :
    lineFeeds (plan.line depth) = lineFeeds plan.detail := by
  have hname : lineFeeds plan.name = 0 :=
    (lineFeeds_eq_zero_iff _).mpr (by cases plan <;> simp [name])
  have hopening : lineFeeds "(" = 0 := rfl
  have hclosing : lineFeeds ")" = 0 := rfl
  have hindent : lineFeeds (String.ofList (List.replicate (2 * depth) ' ')) = 0 := by
    simp [lineFeeds, List.count_replicate]
  rw [line, header, lineFeeds_append, lineFeeds_append, lineFeeds_append, lineFeeds_append, hname,
    hopening, hclosing, hindent]
  omega

theorem map_lineFeeds_mapIdx_line (plans : List Plan) :
    (plans.mapIdx line).map lineFeeds = plans.map fun plan => lineFeeds plan.detail := by
  refine List.ext_getElem (by simp) fun index _ _ => ?_
  simp [lineFeeds_line]

/-- Names and counts have no line feed, so those of the operators are those of the
strings. -/
theorem Legible.sum_lineFeeds_detail {plan : Plan} (h : plan.Legible) :
    (plan.chain.map fun operator => lineFeeds operator.detail).sum =
      (plan.strings.map lineFeeds).sum := by
  -- What names and counts are written with is known to be no line feed.
  have hlist : ∀ {names : List Ident}, (∀ name ∈ names, name = .star ∨ name.WellFormed) →
      lineFeeds (Select.renderList names) = 0 := fun hnames =>
    (lineFeeds_eq_zero_iff _).mpr (notMem_renderList hnames (by decide) (by decide))
  have hcount : ∀ count : Nat, lineFeeds (toString count) = 0 := fun count =>
    (lineFeeds_eq_zero_iff _).mpr (notMem_toString count rfl)
  induction h with
  | tableScan hrelation => simp [chain, strings, detail, hrelation.lineFeeds_eq_zero]
  | @filter predicate relation hpredicate hrelation =>
      have hscan :
          (Plan.filter predicate (Plan.tableScan relation)).strings = predicate.strings := by
        simp [strings, chain]
      rw [hscan, ← hpredicate.lineFeeds_render]
      simp [chain, detail, hrelation.lineFeeds_eq_zero]
  | @projection columns input _ hcolumns _ ih =>
      rw [chain, List.map_cons, List.sum_cons, ih, detail, hlist hcolumns, Nat.zero_add]
      rfl
  | @sort names input hnames _ ih =>
      have hkeys : lineFeeds (Select.renderList names) = 0 :=
        hlist fun name hmem => .inr (hnames.2 name hmem)
      rw [chain, List.map_cons, List.sum_cons, ih]
      change lineFeeds (Select.renderList names) + _ = _
      rw [hkeys, Nat.zero_add]
      rfl
  | limit _ ih =>
      rw [chain, List.map_cons, List.sum_cons, ih, detail, hcount, Nat.zero_add]
      rfl
  | offset _ ih =>
      rw [chain, List.map_cons, List.sum_cons, ih, detail, hcount, Nat.zero_add]
      rfl

theorem Legible.lineFeeds_render {plan : Plan} (h : plan.Legible) :
    lineFeeds plan.render + 1 = plan.depth + (plan.strings.map lineFeeds).sum := by
  have hsum := h.sum_lineFeeds_detail
  rw [← map_lineFeeds_mapIdx_line, chain_eq_cons, List.mapIdx_cons] at hsum
  rw [render, depth, chain_eq_cons, List.mapIdx_cons, lineFeeds_intercalate, hsum,
    List.length_mapIdx, List.length_cons]
  omega

end Plan

/-- The tree of a text's plan has as many lines as the plan has operators, and one
more for each line feed in a string of its predicate.  So its lines are those of the
operators, each behind two blanks for every operator above it, just if no such
string has a line feed. -/
theorem lines_of_compile (config : PlannerConfig) (catalog : Catalog) (text : String) (plan : Plan)
    (h : compile config catalog text = .ok plan) :
    (lines plan.render).length = plan.depth + (plan.strings.map lineFeeds).sum ∧
      (lines plan.render = plan.chain.mapIdx Plan.line ↔
        ∀ literal ∈ plan.strings, '\n' ∉ literal.toList) := by
  have hlegible := Plan.legible_of_compile h
  have hlength : (lines plan.render).length = plan.depth + (plan.strings.map lineFeeds).sum := by
    rw [length_lines, hlegible.lineFeeds_render]
  have hfree : (plan.strings.map lineFeeds).sum = 0 ↔
      ∀ literal ∈ plan.strings, '\n' ∉ literal.toList := by
    simp only [List.sum_eq_zero_iff_forall_eq_nat, List.forall_mem_map, lineFeeds_eq_zero_iff]
  refine ⟨hlength, ?_⟩
  rw [← hfree]
  constructor
  · intro hlines
    rw [hlines, List.length_mapIdx] at hlength
    exact Nat.left_eq_add.mp hlength
  · intro hzero
    -- Without line feeds in them, the lines that were joined are those that are found.
    have hnone : ∀ line ∈ plan.chain.mapIdx Plan.line, lineFeeds line = 0 := by
      rw [← hlegible.sum_lineFeeds_detail, ← Plan.map_lineFeeds_mapIdx_line] at hzero
      simpa only [List.sum_eq_zero_iff_forall_eq_nat, List.forall_mem_map] using hzero
    refine lines_intercalate ?_ hnone
    rw [Plan.chain_eq_cons]
    simp

/-- A string of two lines is shown on two lines, so this tree of three operators has
four. -/
theorem lines_of_compile_broken :
    ∃ plan : Plan,
      compile ⟨.catalog⟩ (.ofList [{ name := "t", columns := .ofList [{ name := "a" }] }])
          "SELECT a FROM t WHERE a = 'x\ny'" = .ok plan ∧
        plan.depth = 3 ∧ (lines plan.render).length = 4 ∧
        lines plan.render ≠ plan.chain.mapIdx Plan.line := by
  have hcompile : compile ⟨.catalog⟩
      (.ofList [{ name := "t", columns := .ofList [{ name := "a" }] }])
      "SELECT a FROM t WHERE a = 'x\ny'" =
      .ok (.projection [⟨"a"⟩] (.filter (.binary (.ident ⟨"a"⟩) (.compare .eq)
        (.literal ⟨.string, "'x\ny'"⟩)) (.tableScan "t"))) := by
    decide +kernel
  obtain ⟨hlength, hlines⟩ := lines_of_compile _ _ _ _ hcompile
  refine ⟨_, hcompile, rfl, hlength, fun heq => ?_⟩
  exact hlines.mp heq "'x\ny'" (by decide) (by decide)

/-- So it does not hold of every plan of a text that its tree has one line for each
operator. -/
theorem not_one_line_per_operator :
    ¬ ∀ (config : PlannerConfig) (catalog : Catalog) (text : String) (plan : Plan),
      compile config catalog text = .ok plan →
        (lines plan.render).length = plan.depth ∧
          lines plan.render = plan.chain.mapIdx Plan.line := by
  intro hall
  let plan : Plan := .projection [⟨"a"⟩] (.filter (.binary (.ident ⟨"a"⟩) (.compare .eq)
    (.literal ⟨.string, "'x\ny'"⟩)) (.tableScan "t"))
  have hcompile : compile ⟨.catalog⟩
      (.ofList [{ name := "t", columns := .ofList [{ name := "a" }] }])
      "SELECT a FROM t WHERE a = 'x\ny'" = .ok plan := by
    decide +kernel
  have hlines : (lines plan.render).length = 4 := by decide +kernel
  have hdepth : plan.depth = 3 := rfl
  have hsame := (hall _ _ _ plan hcompile).1
  rw [hlines, hdepth] at hsame
  exact absurd hsame (by decide)

end SelectPlan
