import SelectPlan.Compile
import SelectPlan.Proofs.Planner.CheckOrder
import SelectPlan.Proofs.Rendering.RoundTrip
import SelectPlan.Proofs.Text.Cuts

/-!
# What an explanation tells

Neither way to show a plan escapes anything, and a string in a predicate may hold
whatever the rest of the plan is shown with: line feeds and indentation, arrows,
parentheses, whole operators.  Still the plan of a text can be told from how it is
shown (`explanation_injective`).

## Strategy

* Both ways put the headers one after the other, with something in front of each
  that depends on its depth alone (`laid`).
* The plan of a text is `Legible`: its operators are about words and counts, but
  for a predicate, and that stands directly on the scan.
* A header without a predicate ends at its first `)`.  Behind the predicate there
  is just the scan, so the last `(` is the one of the scan, whatever the predicate
  holds.
* What two headers say is the same if it is spelled the same: lists of names and
  predicates are read back from their texts (`parse_render`).
-/

namespace SelectPlan

open Text

variable {mark : Char}

/-! ## Characters that words and lists of words are without -/

theorem IsWord.notMem {text : List Char} (h : IsWord text) (hword : isWordChar mark = false)
    (hdot : mark ≠ '.') : mark ∉ text := by
  intro hmem
  rcases h.chars mark hmem with hchar | rfl
  · rw [hword] at hchar
    cases hchar
  · exact hdot rfl

/-- A list of names holds the characters of words, dots, asterisks, and what stands
between the names. -/
theorem notMem_renderList {names : List Ident}
    (h : ∀ name ∈ names, name = .star ∨ name.WellFormed) (hword : isWordChar mark = false)
    (hmark : mark ∉ ['.', '*', ',', ' ']) : mark ∉ (Select.renderList names).toList := by
  simp only [List.mem_cons, List.not_mem_nil, or_false, not_or] at hmark
  obtain ⟨hdot, hstar, hcomma, hblank⟩ := hmark
  have hname : ∀ name ∈ names, mark ∉ name.name.toList := by
    intro name hmem
    rcases h name hmem with rfl | hname
    · simpa [Ident.star] using hstar
    · exact IsWord.notMem hname hword hdot
  induction names with
  | nil => simp [Select.renderList]
  | cons name rest ih =>
      rw [List.forall_mem_cons] at h hname
      cases rest with
      | nil => simpa [Select.renderList] using hname.1
      | cons next others =>
          have hrest := ih h.2 hname.2
          rw [Select.renderList_cons_cons]
          simp [hname.1, hrest, hcomma, hblank]

theorem notMem_toString (count : Nat) (hdigit : mark.isDigit = false) :
    mark ∉ (toString count).toList := by
  intro hmem
  have := (digits_toString count).2 _ hmem
  simp [hdigit] at this

/-! ## What is spelled the same -/

/-- Well-formed statements are told apart by their texts. -/
theorem Select.WellFormed.eq_of_render_eq {statement statement' : Select}
    (h : statement.WellFormed) (h' : statement'.WellFormed)
    (heq : statement.render = statement'.render) : statement = statement' := by
  have hparse := parse_render h
  rw [heq, parse_render h'] at hparse
  exact (Except.ok.inj hparse).symm

/-- A statement with these fields and this predicate. -/
def Select.about (fields : List Ident) (filter : Option Expr) : Select :=
  { fields := fields, table := some (.ident ⟨"t"⟩), filter := filter }

theorem Select.wellFormed_about {fields : List Ident} {filter : Option Expr} (hne : fields ≠ [])
    (hfields : ∀ field ∈ fields, field = .star ∨ field.WellFormed)
    (hfilter : ∀ predicate ∈ filter, predicate.IsPredicate) :
    (about fields filter).WellFormed where
  fields_ne := hne
  fields := hfields
  table := ⟨⟨"t"⟩, rfl, (spelled_name_iff "t").mp
    (Symbol.spelled_of_readLexeme 't' [] rfl (by decide) (by decide))⟩
  joins := by simp [about]
  filter := hfilter
  groupBy := by simp [about]
  orderBy := by simp [about]
  limit := by simp [about]
  offset := by simp [about]
  ordered := by simp [about]

theorem eq_of_toString_eq {count count' : Nat} (heq : toString count = toString count') :
    count = count' := by
  rw [← digitsValue_toString count, heq, digitsValue_toString]

/-- Lists that a select list may be are told apart by their texts. -/
theorem eq_of_renderList_eq {names names' : List Ident}
    (hne : names ≠ []) (h : ∀ name ∈ names, name = .star ∨ name.WellFormed)
    (hne' : names' ≠ []) (h' : ∀ name ∈ names', name = .star ∨ name.WellFormed)
    (heq : Select.renderList names = Select.renderList names') : names = names' := by
  have hrender : (Select.about names none).render = (Select.about names' none).render := by
    simp only [Select.about, Select.render, heq]
    rfl
  have hstatement := (Select.wellFormed_about hne h (by simp)).eq_of_render_eq
    (Select.wellFormed_about hne' h' (by simp)) hrender
  exact congrArg Select.fields hstatement

/-- Predicates are told apart by their texts. -/
theorem Expr.IsPredicate.eq_of_render_eq {predicate predicate' : Expr} (h : predicate.IsPredicate)
    (h' : predicate'.IsPredicate) (heq : predicate.render = predicate'.render) :
    predicate = predicate' := by
  have hwellFormed : ∀ predicate : Expr, predicate.IsPredicate →
      (Select.about [.star] (some predicate)).WellFormed :=
    fun predicate h => Select.wellFormed_about (by simp) (by simp) (by simpa using h)
  have hrender : (Select.about [.star] (some predicate)).render =
      (Select.about [.star] (some predicate')).render := by
    simp only [Select.about, Select.render, Select.renderClause, heq]
    rfl
  have hstatement := (hwellFormed predicate h).eq_of_render_eq (hwellFormed predicate' h') hrender
  exact Option.some.inj (congrArg Select.filter hstatement)

/-! ## Headers one after the other -/

namespace Plan

/-- The headers of operators, each behind what its depth puts in front of it. -/
def laid (lead : Nat → List Char) : List Plan → List Char
  | [] => []
  | plan :: rest => lead 0 ++ plan.header.toList ++ laid (fun depth => lead (depth + 1)) rest

/-- What the outermost operator reads from, laid out one step deeper. -/
def beneath (lead : Nat → List Char) (plan : Plan) : List Char :=
  laid (fun depth => lead (depth + 1)) (plan.input?.elim [] chain)

theorem chain_eq_cons (plan : Plan) : plan.chain = plan :: plan.input?.elim [] chain := by
  cases plan <;> rfl

theorem toList_intercalate_mapIdx (separator : String) (indent : Nat → List Char) (plan : Plan)
    (rest : List Plan) :
    (String.intercalate separator ((plan :: rest).mapIdx fun depth plan =>
        String.ofList (indent depth) ++ plan.header)).toList =
      indent 0 ++ plan.header.toList ++
        laid (fun depth => separator.toList ++ indent (depth + 1)) rest := by
  induction rest generalizing plan indent with
  | nil => simp [laid]
  | cons next others ih =>
      have hrest := ih (fun depth => indent (depth + 1)) next
      rw [List.mapIdx_cons] at hrest
      rw [List.mapIdx_cons, List.mapIdx_cons, String.intercalate_cons_cons, String.toList_append,
        String.toList_append, hrest, laid]
      simp

/-- The tree: a line feed and two blanks for each operator above. -/
def treeLead : Nat → List Char
  | 0 => []
  | depth + 1 => "\n".toList ++ List.replicate (2 * (depth + 1)) ' '

/-- The outline: an arrow. -/
def outlineLead : Nat → List Char
  | 0 => []
  | _ + 1 => " -> ".toList

theorem toList_render (plan : Plan) : plan.render.toList = laid treeLead plan.chain := by
  rw [chain_eq_cons, render, chain_eq_cons]
  exact toList_intercalate_mapIdx "\n" (fun depth => List.replicate (2 * depth) ' ') plan _

theorem toList_outline (plan : Plan) : plan.outline.toList = laid outlineLead plan.chain := by
  have hmap : plan.chain.map header =
      plan.chain.mapIdx fun _ plan => String.ofList [] ++ plan.header :=
    List.ext_getElem (by simp) (by simp)
  rw [outline, hmap, chain_eq_cons]
  exact toList_intercalate_mapIdx " -> " (fun _ => []) plan _

/-! ## Plans of texts -/

/-- The operators are about words and counts; a predicate stands on the scan. -/
inductive Legible : Plan → Prop
  | tableScan {relation} : IsWord relation.toList → Legible (.tableScan relation)
  | filter {predicate relation} : predicate.IsPredicate → IsWord relation.toList →
      Legible (.filter predicate (.tableScan relation))
  | projection {columns input} : columns ≠ [] →
      (∀ column ∈ columns, column = .star ∨ column.WellFormed) → Legible input →
      Legible (.projection columns input)
  | sort {names : List Ident} {input} : WellFormedNames names → Legible input →
      Legible (.sort (names.map Ident.name) input)
  | limit {count input} : Legible input → Legible (.limit count input)
  | offset {count input} : Legible input → Legible (.offset count input)

theorem legible_layer {α : Type} (operator : α → Plan → Plan) {clause : Option α} {input : Plan}
    (hinput : input.Legible) (h : ∀ content ∈ clause, (operator content input).Legible) :
    (Planner.layer operator clause input).Legible := by
  cases clause with
  | none => exact hinput
  | some content => exact h content rfl

theorem legible_build {statement : Select} {relation : Relation} (h : statement.WellFormed)
    (hrelation : IsWord relation.name.toList) : (Planner.build statement relation).Legible := by
  have hscan := Legible.tableScan hrelation
  have hfilter := legible_layer .filter hscan fun predicate hmem =>
    .filter (h.filter predicate hmem) hrelation
  have hprojection := Legible.projection h.fields_ne h.fields hfilter
  have hsort : (Planner.layer .sort (statement.orderBy.map (·.map Ident.name))
      (.projection statement.fields
        (Planner.layer .filter statement.filter (.tableScan relation.name)))).Legible := by
    refine legible_layer .sort hprojection fun keys hmem => ?_
    obtain ⟨names, hnames, rfl⟩ := Option.map_eq_some_iff.mp hmem
    exact .sort (h.orderBy names hnames) hprojection
  have hoffset : (Planner.layer .offset statement.offset _).Legible :=
    legible_layer .offset hsort fun _ _ => .offset hsort
  exact legible_layer .limit hoffset fun _ _ => .limit hoffset

/-- The plan of a text is legible, whatever catalog it is planned against. -/
theorem legible_of_compile {config : PlannerConfig} {catalog : Catalog} {text : String}
    {plan : Plan} (h : compile config catalog text = .ok plan) : plan.Legible := by
  cases hparse : Select.parse text with
  | error fault =>
      rw [compile, hparse] at h
      cases h
  | ok statement =>
      rw [compile, hparse] at h
      have hwellFormed := wellFormed_of_parse hparse
      obtain ⟨relation, hvalidate, hbuild⟩ := Planner.exists_of_bind_eq_ok h
      -- Planning has found the relation that the statement names, and that name is a word.
      obtain ⟨name, htable, hname⟩ := hwellFormed.table
      obtain ⟨-, hsource⟩ := Planner.source_of_validate hvalidate
      rw [htable, Option.some_inj, Expr.ident.injEq] at hsource
      subst hsource
      cases hbuild
      exact legible_build hwellFormed hname

/-! ## Reading a layout back -/

theorem paren_notMem_name (plan : Plan) : '(' ∉ plan.name.toList := by
  cases plan <;> simp [name]

theorem laid_chain (lead : Nat → List Char) (plan : Plan) :
    laid lead plan.chain = lead 0 ++ (plan.name.toList ++ '(' ::
      (plan.detail.toList ++ ')' :: plan.beneath lead)) := by
  rw [chain_eq_cons, laid, header, beneath]
  simp

variable {lead : Nat → List Char} {plan plan' : Plan}

/-- The name of the outermost operator is told from the layout. -/
theorem name_eq_of_laid_eq (h : laid lead plan.chain = laid lead plan'.chain) :
    plan.name = plan'.name ∧ plan.detail.toList ++ ')' :: plan.beneath lead =
      plan'.detail.toList ++ ')' :: plan'.beneath lead := by
  rw [laid_chain, laid_chain, List.append_cancel_left_eq] at h
  obtain ⟨hname, hrest⟩ :=
    eq_of_cut_at_first plan.paren_notMem_name plan'.paren_notMem_name h
  exact ⟨String.toList_inj.mp hname, hrest⟩

/-- What the outermost operator does is told from the layout if it is written
without parentheses, and so is what stands beneath it. -/
theorem detail_eq_of_laid_eq (h : laid lead plan.chain = laid lead plan'.chain)
    (hdetail : ')' ∉ plan.detail.toList) (hdetail' : ')' ∉ plan'.detail.toList) :
    plan.detail = plan'.detail ∧ plan.beneath lead = plan'.beneath lead := by
  obtain ⟨hcut, hbeneath⟩ := eq_of_cut_at_first hdetail hdetail' (name_eq_of_laid_eq h).2
  exact ⟨String.toList_inj.mp hcut, hbeneath⟩

/-- A predicate on the scan is told from the layout whatever is written in it: the
last parenthesis that opens is the one of the scan. -/
theorem filter_eq_of_laid_eq {predicate predicate' : Expr} {relation relation' : String}
    (hrelation : IsWord relation.toList) (hrelation' : IsWord relation'.toList)
    (h : laid lead (filter predicate (tableScan relation)).chain =
      laid lead (filter predicate' (tableScan relation')).chain) :
    predicate.render = predicate'.render ∧ relation = relation' := by
  have hscan : ∀ predicate relation, beneath lead (filter predicate (tableScan relation)) =
      lead 1 ++ "TableScan".toList ++ '(' :: (relation.toList ++ [')']) := by
    intro predicate relation
    rw [beneath]
    exact (laid_chain _ (tableScan relation)).trans (by simp [name, detail, beneath, input?, laid])
  -- Behind the parenthesis of the scan stands a word, so no other one opens there.
  have hword : ∀ relation : String, IsWord relation.toList → '(' ∉ relation.toList ++ [')'] := by
    intro relation hrelation
    have hnotMem : '(' ∉ relation.toList := hrelation.notMem (by decide) (by decide)
    simpa using hnotMem
  have hrest := (name_eq_of_laid_eq h).2
  rw [hscan, hscan] at hrest
  have hlast : (predicate.render.toList ++ ')' :: (lead 1 ++ "TableScan".toList)) ++
        '(' :: (relation.toList ++ [')']) =
      (predicate'.render.toList ++ ')' :: (lead 1 ++ "TableScan".toList)) ++
        '(' :: (relation'.toList ++ [')']) := by
    simpa [detail] using hrest
  obtain ⟨hpredicate, hname⟩ := eq_of_cut_at_last (hword _ hrelation) (hword _ hrelation') hlast
  constructor
  · exact String.toList_inj.mp (List.append_cancel_right hpredicate)
  · exact String.toList_inj.mp (List.append_cancel_right hname)

/-- Legible plans are told apart by their layouts. -/
theorem Legible.eq_of_laid_eq (h : plan.Legible) (h' : plan'.Legible)
    (heq : laid lead plan.chain = laid lead plan'.chain) : plan = plan' := by
  have hstar : ∀ {names : List Ident}, WellFormedNames names →
      ∀ name ∈ names, name = .star ∨ name.WellFormed :=
    fun hnames name hmem => .inr (hnames.2 name hmem)
  -- The plans have the same outermost operator, since it is named.
  have hname := (name_eq_of_laid_eq heq).1
  -- The induction is on the first plan, and the lead changes with the depth.
  induction h generalizing plan' lead with
  | @tableScan relation hword =>
      cases h' with
      | @tableScan relation' hword' =>
          obtain ⟨hrelation, -⟩ : relation = relation' ∧ _ :=
            detail_eq_of_laid_eq heq (hword.notMem (by decide) (by decide))
              (hword'.notMem (by decide) (by decide))
          rw [hrelation]
      | _ => simp [name] at hname
  | filter hpredicate hword =>
      cases h' with
      | filter hpredicate' hword' =>
          obtain ⟨hrender, rfl⟩ := filter_eq_of_laid_eq hword hword' heq
          rw [hpredicate.eq_of_render_eq hpredicate' hrender]
      | _ => simp [name] at hname
  | projection hne hcolumns _ ih =>
      cases h' with
      | projection hne' hcolumns' hinput' =>
          obtain ⟨hdetail, hbeneath⟩ := detail_eq_of_laid_eq heq
            (notMem_renderList hcolumns (by decide) (by decide))
            (notMem_renderList hcolumns' (by decide) (by decide))
          rw [eq_of_renderList_eq hne hcolumns hne' hcolumns' hdetail,
            ih hinput' hbeneath (name_eq_of_laid_eq hbeneath).1]
      | _ => simp [name] at hname
  | sort hnames _ ih =>
      cases h' with
      | sort hnames' hinput' =>
          obtain ⟨hdetail, hbeneath⟩ := detail_eq_of_laid_eq heq
            (notMem_renderList (hstar hnames) (by decide) (by decide))
            (notMem_renderList (hstar hnames') (by decide) (by decide))
          rw [eq_of_renderList_eq hnames.1 (hstar hnames) hnames'.1 (hstar hnames') hdetail,
            ih hinput' hbeneath (name_eq_of_laid_eq hbeneath).1]
      | _ => simp [name] at hname
  | @limit count _ _ ih =>
      cases h' with
      | @limit count' _ hinput' =>
          obtain ⟨hdetail, hbeneath⟩ := detail_eq_of_laid_eq heq
            (notMem_toString count rfl) (notMem_toString count' rfl)
          rw [eq_of_toString_eq hdetail, ih hinput' hbeneath (name_eq_of_laid_eq hbeneath).1]
      | _ => simp [name] at hname
  | @offset count _ _ ih =>
      cases h' with
      | @offset count' _ hinput' =>
          obtain ⟨hdetail, hbeneath⟩ := detail_eq_of_laid_eq heq
            (notMem_toString count rfl) (notMem_toString count' rfl)
          rw [eq_of_toString_eq hdetail, ih hinput' hbeneath (name_eq_of_laid_eq hbeneath).1]
      | _ => simp [name] at hname

/-- Plans that no text has may be shown the same: here a column has a comma in its
name. -/
example : render (projection [⟨"a"⟩, ⟨"b"⟩] (tableScan "t")) =
    render (projection [⟨"a, b"⟩] (tableScan "t")) := by
  decide +kernel

end Plan

/-- Plans of texts that are shown the same are the same, as a tree and as an
outline, whatever the strings of the texts hold and whatever the catalogs and
scopes are. -/
theorem explanation_injective (config config' : PlannerConfig) (catalog catalog' : Catalog)
    (text text' : String) (plan plan' : Plan) (h : compile config catalog text = .ok plan)
    (h' : compile config' catalog' text' = .ok plan') :
    (plan.render = plan'.render → plan = plan') ∧
      (plan.outline = plan'.outline → plan = plan') := by
  have hlegible := Plan.legible_of_compile h
  have hlegible' := Plan.legible_of_compile h'
  -- Tree and outline are one layout with different leads.
  constructor
  · intro hrender
    apply hlegible.eq_of_laid_eq hlegible'
    calc Plan.laid Plan.treeLead plan.chain
      _ = plan.render.toList := plan.toList_render.symm
      _ = plan'.render.toList := congrArg String.toList hrender
      _ = Plan.laid Plan.treeLead plan'.chain := plan'.toList_render
  · intro houtline
    apply hlegible.eq_of_laid_eq hlegible'
    calc Plan.laid Plan.outlineLead plan.chain
      _ = plan.outline.toList := plan.toList_outline.symm
      _ = plan'.outline.toList := congrArg String.toList houtline
      _ = Plan.laid Plan.outlineLead plan'.chain := plan'.toList_outline

/-- Two strings that hold the end of a predicate and a scan, one as the tree shows
them and one as the outline does. -/
theorem explanation_injective_forged :
    ∃ plan plan' : Plan,
      compile ⟨.catalog⟩ (.ofList [{ name := "t", columns := .ofList [{ name := "a" }] }])
          "SELECT a FROM t WHERE a = ')\n    TableScan(t'" = .ok plan ∧
        compile ⟨.relation⟩ (.ofList [{ name := "t", columns := .ofList [{ name := "a" }] }])
          "SELECT a FROM t WHERE a = ') -> TableScan(t'" = .ok plan' ∧
        plan.render ≠ plan'.render ∧ plan.outline ≠ plan'.outline := by
  have hcompile : compile ⟨.catalog⟩
      (.ofList [{ name := "t", columns := .ofList [{ name := "a" }] }])
      "SELECT a FROM t WHERE a = ')\n    TableScan(t'" =
      .ok (.projection [⟨"a"⟩] (.filter (.binary (.ident ⟨"a"⟩) (.compare .eq)
        (.literal ⟨.string, "')\n    TableScan(t'"⟩)) (.tableScan "t"))) := by
    decide +kernel
  have hcompile' : compile ⟨.relation⟩
      (.ofList [{ name := "t", columns := .ofList [{ name := "a" }] }])
      "SELECT a FROM t WHERE a = ') -> TableScan(t'" =
      .ok (.projection [⟨"a"⟩] (.filter (.binary (.ident ⟨"a"⟩) (.compare .eq)
        (.literal ⟨.string, "') -> TableScan(t'"⟩)) (.tableScan "t"))) := by
    decide +kernel
  obtain ⟨htree, houtline⟩ := explanation_injective _ _ _ _ _ _ _ _ hcompile hcompile'
  refine ⟨_, _, hcompile, hcompile', fun heq => ?_, fun heq => ?_⟩
  · exact absurd (htree heq) (by decide)
  · exact absurd (houtline heq) (by decide)

end SelectPlan
