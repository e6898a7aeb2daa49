import SelectPlan.Planner
import SelectPlan.Proofs.Planner.Lookup

/-!
# The order of the checks

`checks` lists what is checked in a statement, in order, and `Fails` says for
each single check when it fails and with which error, without any regard to the
others.  This file proves that `plan` reports the failure that comes first in
the list, and builds a plan exactly if there is none.

## Strategy

`Judges` says that an outcome is right about a stretch of the list: an error is
the first failure in it, and a value means that all of it passes.  Stretches are
put together by `Judges.bind`, which is the only place where the order of checks
is argued about.  What remains is one lemma for each function of the planner;
those over lists and over the nodes of a predicate are inductions on them.
-/

namespace SelectPlan.Planner

variable {config : PlannerConfig} {catalog : Catalog} {statement : Select} {α β : Type}

/-! ## What is checked -/

/-- The single checks on a statement. -/
inductive Check
  | counts
  | projection
  | source
  | relation
  | field (field : Ident)
  | join (join : Join)
  | node (node : Expr)

/-- The checks on a statement, in their order. -/
def checks (statement : Select) : List Check :=
  [.counts, .projection, .source, .relation] ++
    (statement.fields.map .field ++
      (statement.joins.map .join ++ (statement.filter.toList.flatMap Expr.nodes).map .node))

theorem mem_checks_field {field : Ident} :
    Check.field field ∈ checks statement ↔ field ∈ statement.fields := by
  simp [checks]

theorem mem_checks_join {join : Join} :
    Check.join join ∈ checks statement ↔ join ∈ statement.joins := by
  simp [checks]

/-- A check is about a node of the predicate just if the predicate has that node. -/
theorem mem_checks_node {node : Expr} :
    Check.node node ∈ checks statement ↔
      ∃ predicate, statement.filter = some predicate ∧ node ∈ predicate.nodes := by
  simp [checks]

/-! ## When a check fails -/

/-- The relation of the catalog that the FROM clause names. -/
def Source (catalog : Catalog) (statement : Select) (relation : Relation) : Prop :=
  relation ∈ catalog.relations.items ∧ statement.table = some (.ident ⟨relation.name⟩)

theorem Source.unique {relation relation' : Relation} (h : Source catalog statement relation)
    (h' : Source catalog statement relation') : relation = relation' := by
  obtain ⟨hmem, htable⟩ := h
  obtain ⟨hmem', htable'⟩ := h'
  have hname : relation.name = relation'.name := by
    rw [htable, Option.some_inj, Expr.ident.injEq, Ident.mk.injEq] at htable'
    exact htable'
  exact Directory.eq_of_name_eq hmem hmem' hname

/-- A relation of the catalog that the FROM clause or a join names. -/
def InScope (catalog : Catalog) (statement : Select) (relation : Relation) : Prop :=
  relation ∈ catalog.relations.items ∧
    (statement.table = some (.ident ⟨relation.name⟩) ∨
      ∃ join ∈ statement.joins, join.table = .ident ⟨relation.name⟩)

/-- A field is `*`, a column of the relation, or one qualified by its name. -/
def Projects (relation : Relation) (field : Ident) : Prop :=
  field.name = "*" ∨ relation.Has field.name ∨
    ∃ column, Qualified field.name relation.name column ∧ relation.Has column

/-- A name of a predicate refers to a column.  Among the relations of the
statement, a name that is qualified by one of them refers to a column of that
one, and to nothing else. -/
def Resolves (config : PlannerConfig) (catalog : Catalog) (statement : Select) (name : String) :
    Prop :=
  match config.predicateScope with
  | .catalog => ∃ relation ∈ catalog.relations.items,
      relation.Has name ∨ ∃ column, Qualified name relation.name column ∧ relation.Has column
  | .relation =>
      (∃ relation column, InScope catalog statement relation ∧
        Qualified name relation.name column ∧ relation.Has column) ∨
      ((∀ relation column, InScope catalog statement relation →
          ¬ Qualified name relation.name column) ∧
        ∃ relation, InScope catalog statement relation ∧ relation.Has name)

/-- A check fails with an error. -/
inductive Fails (config : PlannerConfig) (catalog : Catalog) (statement : Select) :
    Check → Error → Prop
  | counts (hoffset : statement.offset ≠ none) (hlimit : statement.limit = none) :
      Fails config catalog statement .counts .offsetWithoutLimit
  | projection (hfields : statement.fields = []) :
      Fails config catalog statement .projection .emptyProjection
  | source (htable : ∀ name, statement.table ≠ some (.ident ⟨name⟩)) :
      Fails config catalog statement .source .invalidSource
  | relation {name : String} (htable : statement.table = some (.ident ⟨name⟩))
      (hname : ∀ relation ∈ catalog.relations.items, relation.name ≠ name) :
      Fails config catalog statement .relation (.noSuchRelation name)
  | field {relation : Relation} {field : Ident} (hsource : Source catalog statement relation)
      (hfield : ¬ Projects relation field) :
      Fails config catalog statement (.field field) (.noSuchColumn field.name)
  /-- Joins are looked at only for the names of a predicate. -/
  | joinSource {join : Join} (hfilter : statement.filter ≠ none)
      (hscope : config.predicateScope = .relation) (htable : ∀ name, join.table ≠ .ident ⟨name⟩) :
      Fails config catalog statement (.join join) .invalidSource
  | joinRelation {join : Join} {name : String} (hfilter : statement.filter ≠ none)
      (hscope : config.predicateScope = .relation) (htable : join.table = .ident ⟨name⟩)
      (hname : ∀ relation ∈ catalog.relations.items, relation.name ≠ name) :
      Fails config catalog statement (.join join) (.noSuchRelation name)
  | alias {expr : Expr} {name : Ident} :
      Fails config catalog statement (.node (.aliased expr name)) (.invalidExpression "predicate")
  | column {name : String} (hname : ¬ Resolves config catalog statement name) :
      Fails config catalog statement (.node (.ident ⟨name⟩)) (.unknownPredicateColumn name)

/-- A check that fails does so with one error. -/
theorem Fails.unique {check : Check} {error error' : Error}
    (h : Fails config catalog statement check error)
    (h' : Fails config catalog statement check error') : error = error' := by
  cases h with
  | relation htable =>
      cases h' with
      | relation htable' => cases htable.symm.trans htable'; rfl
  | joinSource _ _ htable =>
      cases h' with
      | joinSource => rfl
      | joinRelation _ _ htable' => exact absurd htable' (htable _)
  | joinRelation _ _ htable =>
      cases h' with
      | joinSource _ _ htable' => exact absurd htable (htable' _)
      | joinRelation _ _ htable' => cases htable.symm.trans htable'; rfl
  | _ => cases h'; rfl

/-! ## The first failure -/

/-- A check does not fail. -/
def Passes (fails : Check → Error → Prop) (check : Check) : Prop :=
  ∀ error, ¬ fails check error

/-- The error of the first check in a list that fails. -/
inductive FirstFailure (fails : Check → Error → Prop) : List Check → Error → Prop
  | here {check : Check} {rest : List Check} {error : Error} (h : fails check error) :
      FirstFailure fails (check :: rest) error
  | later {check : Check} {rest : List Check} {error : Error} (hpasses : Passes fails check)
      (hrest : FirstFailure fails rest error) : FirstFailure fails (check :: rest) error

variable {fails : Check → Error → Prop}

theorem FirstFailure.exists_fails {list : List Check} {error : Error}
    (h : FirstFailure fails list error) : ∃ check ∈ list, fails check error := by
  induction h with
  | here h => exact ⟨_, List.mem_cons_self, h⟩
  | later _ _ ih =>
      obtain ⟨check, hmem, hfails⟩ := ih
      exact ⟨check, List.mem_cons_of_mem _ hmem, hfails⟩

theorem FirstFailure.unique {list : List Check} {error error' : Error}
    (h : FirstFailure (Fails config catalog statement) list error)
    (h' : FirstFailure (Fails config catalog statement) list error') : error = error' := by
  induction h with
  | here h =>
      cases h' with
      | here h' => exact h.unique h'
      | later hpasses => exact absurd h (hpasses _)
  | later hpasses _ ih =>
      cases h' with
      | here h' => exact absurd h' (hpasses _)
      | later _ hrest => exact ih hrest

theorem FirstFailure.append_left {list : List Check} {error : Error}
    (h : FirstFailure fails list error) (others : List Check) :
    FirstFailure fails (list ++ others) error := by
  induction h with
  | here h => exact .here h
  | later hpasses _ ih => exact .later hpasses ih

theorem FirstFailure.append_right {list others : List Check} {error : Error}
    (hpasses : ∀ check ∈ list, Passes fails check) (h : FirstFailure fails others error) :
    FirstFailure fails (list ++ others) error := by
  induction list with
  | nil => exact h
  | cons check rest ih =>
      obtain ⟨hcheck, hrest⟩ := List.forall_mem_cons.mp hpasses
      exact .later hcheck (ih hrest)

/-! ## Outcomes that are right about a list of checks -/

/-- An error is the first failure in the list; a value means that the whole list
passes. -/
def Judges (fails : Check → Error → Prop) (list : List Check) : Except Error α → Prop
  | .ok _ => ∀ check ∈ list, Passes fails check
  | .error error => FirstFailure fails list error

theorem Judges.bind {list others : List Check} {first : Except Error α}
    {next : α → Except Error β} (hfirst : Judges fails list first)
    (hnext : ∀ value, first = .ok value → Judges fails others (next value)) :
    Judges fails (list ++ others) (first >>= next) := by
  cases first with
  | error error => exact FirstFailure.append_left hfirst others
  | ok value =>
      have hothers : Judges fails others (next value) := hnext value rfl
      change Judges fails (list ++ others) (next value)
      generalize next value = outcome at hothers ⊢
      cases outcome with
      | error error => exact FirstFailure.append_right hfirst hothers
      | ok result => exact List.forall_mem_append.mpr ⟨hfirst, hothers⟩

theorem Judges.ok {list : List Check} (hpasses : ∀ check ∈ list, Passes fails check) (value : α) :
    Judges fails list (.ok value) :=
  hpasses

/-- A value can be passed on in another form without a further check. -/
theorem Judges.map {list : List Check} {first : Except Error α} (h : Judges fails list first)
    (f : α → β) : Judges fails list (first >>= fun value => pure (f value)) := by
  cases first with
  | error error => exact h
  | ok value => exact h

/-- An outcome that is right about a list is an error just if there is a first
failure in it. -/
theorem Judges.eq_error_iff {list : List Check} {outcome : Except Error α} {error : Error}
    (h : Judges (Fails config catalog statement) list outcome) :
    outcome = .error error ↔ FirstFailure (Fails config catalog statement) list error := by
  constructor
  · rintro rfl
    exact h
  · intro hfirst
    cases outcome with
    | error other => rw [FirstFailure.unique h hfirst]
    | ok value =>
        obtain ⟨check, hmem, hfails⟩ := hfirst.exists_fails
        exact absurd hfails (h check hmem error)

theorem Judges.exists_ok_iff {list : List Check} {outcome : Except Error α}
    (h : Judges fails list outcome) :
    (∃ value, outcome = .ok value) ↔ ∀ check ∈ list, Passes fails check := by
  constructor
  · rintro ⟨value, rfl⟩
    exact h
  · intro hpasses
    cases outcome with
    | ok value => exact ⟨value, rfl⟩
    | error error =>
        obtain ⟨check, hmem, hfails⟩ := FirstFailure.exists_fails h
        exact absurd hfails (hpasses check hmem error)

theorem judges_require {check : Check} {condition : Bool} {error : Error}
    (hfails : condition = false → fails check error)
    (hpasses : condition = true → Passes fails check) :
    Judges fails [check] (require condition error) := by
  cases condition with
  | false => exact .here (hfails rfl)
  | true => exact List.forall_mem_singleton.mpr (hpasses rfl)

theorem judges_given {check : Check} {value? : Option α} {error : Error}
    (hfails : value? = none → fails check error)
    (hpasses : ∀ value, value? = some value → Passes fails check) :
    Judges fails [check] (given value? error) := by
  cases value? with
  | none => exact .here (hfails rfl)
  | some value => exact List.forall_mem_singleton.mpr (hpasses value rfl)

theorem exists_of_bind_eq_ok {first : Except Error α} {next : α → Except Error β} {result : β}
    (h : first >>= next = .ok result) : ∃ value, first = .ok value ∧ next value = .ok result := by
  cases first with
  | error error => cases h
  | ok value => exact ⟨value, rfl, h⟩

/-! ## Names of relations -/

/-- An expression is a bare name exactly if it is the node for that name. -/
theorem ident?_eq_some_iff {expr : Expr} {ident : Ident} :
    expr.ident? = some ident ↔ expr = .ident ident := by
  cases expr <;> simp [Expr.ident?]

theorem ident?_eq_none_iff {expr : Expr} :
    expr.ident? = none ↔ ∀ name, expr ≠ .ident ⟨name⟩ := by
  cases expr with
  | ident ident => simpa [Expr.ident?] using ⟨ident.name, rfl⟩
  | _ => simp [Expr.ident?]

theorem tableName?_eq_some_iff {name : String} :
    statement.tableName? = some name ↔ statement.table = some (.ident ⟨name⟩) := by
  simp only [Select.tableName?, Option.map_eq_some_iff, Option.bind_eq_some_iff,
    ident?_eq_some_iff]
  constructor
  · rintro ⟨ident, ⟨expr, htable, rfl⟩, rfl⟩
    exact htable
  · intro htable
    exact ⟨⟨name⟩, ⟨_, htable, rfl⟩, rfl⟩

theorem given_eq_ok_iff {value? : Option α} {error : Error} {value : α} :
    given value? error = .ok value ↔ value? = some value := by
  cases value? <;> simp [given]

theorem relation_eq_ok_iff {name : String} {found : Relation} :
    relation catalog name = .ok found ↔
      found ∈ catalog.relations.items ∧ found.name = name :=
  given_eq_ok_iff.trans Catalog.relation?_eq_some_iff

theorem source_of_relation {name : String} {found : Relation}
    (htable : statement.table = some (.ident ⟨name⟩)) (hfound : relation catalog name = .ok found) :
    Source catalog statement found := by
  obtain ⟨hmem, rfl⟩ := relation_eq_ok_iff.mp hfound
  exact ⟨hmem, htable⟩

theorem judges_source :
    Judges (Fails config catalog statement) [.source]
      (given statement.tableName? .invalidSource) := by
  apply judges_given
  · intro hnone
    apply Fails.source
    intro name htable
    rw [tableName?_eq_some_iff.mpr htable] at hnone
    cases hnone
  · intro name hname error hfails
    cases hfails with
    | source htable => exact htable name (tableName?_eq_some_iff.mp hname)

theorem judges_relation {name : String} (htable : statement.table = some (.ident ⟨name⟩)) :
    Judges (Fails config catalog statement) [.relation] (relation catalog name) := by
  apply judges_given
  · intro hnone
    exact .relation htable (Catalog.relation?_eq_none_iff.mp hnone)
  · intro found hfound error hfails
    obtain ⟨hmem, hname⟩ := Catalog.relation?_eq_some_iff.mp hfound
    cases hfails with
    | relation htable' hname' =>
        cases htable.symm.trans htable'
        exact hname' found hmem hname

/-! ## The select list -/

theorem projects_iff {relation : Relation} {field : Ident} :
    projects relation field = true ↔ Projects relation field := by
  cases hsides : field.qualified? with
  | none =>
      have hnone := (qualified?_eq_none_iff field).mp hsides
      simp [projects, Projects, hsides, Ident.isStar, Relation.hasColumn_iff, hnone]
  | some sides =>
      obtain ⟨qualifier, column⟩ := sides
      have hfield := (qualified?_eq_some_iff field qualifier column).mp hsides
      have hqualified : (qualifier = relation.name ∧ relation.Has column) ↔
          ∃ column, Qualified field.name relation.name column ∧ relation.Has column := by
        constructor
        · rintro ⟨rfl, hhas⟩
          exact ⟨column, hfield, hhas⟩
        · rintro ⟨column', hfield', hhas⟩
          obtain ⟨hqualifier, rfl⟩ := hfield.unique hfield'
          exact ⟨hqualifier, hhas⟩
      simp only [projects, Projects, hsides, Ident.isStar, Bool.or_eq_true, Bool.and_eq_true,
        decide_eq_true_eq, Relation.hasColumn_iff, hqualified, or_assoc]

theorem judges_checkFields {base : Relation} (hsource : Source catalog statement base)
    (fields : List Ident) :
    Judges (Fails config catalog statement) (fields.map .field) (checkFields base fields) := by
  induction fields with
  | nil => exact Judges.ok (by simp) ()
  | cons field rest ih =>
      have hfield : Judges (Fails config catalog statement) [.field field]
          (require (projects base field) (.noSuchColumn field.name)) := by
        apply judges_require
        · intro hfalse
          apply Fails.field hsource
          rw [← projects_iff, hfalse]
          simp
        · intro htrue error hfails
          cases hfails with
          | field hsource' hfield' =>
              cases hsource.unique hsource'
              exact hfield' (projects_iff.mp htrue)
      have hstep : checkFields base (field :: rest) =
          require (projects base field) (.noSuchColumn field.name) >>=
            fun _ => checkFields base rest := by
        rw [checkFields, require]
        cases projects base field <;> rfl
      rw [hstep]
      exact hfield.bind fun _ _ => ih

/-! ## The joins -/

/-- The relation that a join names. -/
def joinedRelation (catalog : Catalog) (join : Join) : Except Error Relation := do
  let name ← given join.table.ident? .invalidSource
  relation catalog name.name

theorem joinedRelation_of_none {join : Join} (hname : join.table.ident? = none) :
    joinedRelation catalog join = .error .invalidSource := by
  rw [joinedRelation, hname]
  rfl

theorem joinedRelation_of_some {join : Join} {name : Ident}
    (hname : join.table.ident? = some name) :
    joinedRelation catalog join = relation catalog name.name := by
  rw [joinedRelation, hname]
  rfl

theorem joinedRelation_eq_ok_iff {join : Join} {found : Relation} :
    joinedRelation catalog join = .ok found ↔
      found ∈ catalog.relations.items ∧ join.table = .ident ⟨found.name⟩ := by
  cases hname : join.table.ident? with
  | none =>
      rw [joinedRelation_of_none hname]
      simp [ident?_eq_none_iff.mp hname]
  | some name =>
      rw [joinedRelation_of_some hname, relation_eq_ok_iff, ident?_eq_some_iff.mp hname,
        Expr.ident.injEq]
      obtain ⟨name⟩ := name
      rw [Ident.mk.injEq, eq_comm (a := found.name)]

theorem judges_joinedRelation (hfilter : statement.filter ≠ none)
    (hscope : config.predicateScope = .relation) (join : Join) :
    Judges (Fails config catalog statement) [.join join] (joinedRelation catalog join) := by
  cases hname : join.table.ident? with
  | none =>
      rw [joinedRelation_of_none hname]
      exact .here (.joinSource hfilter hscope (ident?_eq_none_iff.mp hname))
  | some name =>
      have htable : join.table = .ident name := ident?_eq_some_iff.mp hname
      rw [joinedRelation_of_some hname]
      apply judges_given
      · intro hnone
        exact .joinRelation hfilter hscope htable (Catalog.relation?_eq_none_iff.mp hnone)
      · intro found hfound error hfails
        obtain ⟨hmem, hnamed⟩ := Catalog.relation?_eq_some_iff.mp hfound
        cases hfails with
        | joinSource _ _ htable' => exact htable' name.name htable
        | joinRelation _ _ htable' hname' =>
            cases htable.symm.trans htable'
            exact hname' found hmem hnamed

theorem joinedRelations_cons (catalog : Catalog) (join : Join) (rest : List Join) :
    joinedRelations catalog (join :: rest) =
      joinedRelation catalog join >>= fun first =>
        joinedRelations catalog rest >>= fun others => pure (first :: others) := by
  rw [joinedRelations, joinedRelation, bind_assoc]

theorem judges_joinedRelations (hfilter : statement.filter ≠ none)
    (hscope : config.predicateScope = .relation) (joins : List Join) :
    Judges (Fails config catalog statement) (joins.map .join) (joinedRelations catalog joins) := by
  induction joins with
  | nil => exact Judges.ok (by simp) []
  | cons join rest ih =>
      rw [joinedRelations_cons]
      exact (judges_joinedRelation hfilter hscope join).bind fun first _ => ih.map (first :: ·)

/-- The relations of joins are those of the catalog that the joins name. -/
theorem mem_joinedRelations {joins : List Join} {relations : List Relation}
    (h : joinedRelations catalog joins = .ok relations) {found : Relation} :
    found ∈ relations ↔
      found ∈ catalog.relations.items ∧ ∃ join ∈ joins, join.table = .ident ⟨found.name⟩ := by
  induction joins generalizing relations with
  | nil => cases h; simp
  | cons join rest ih =>
      rw [joinedRelations_cons] at h
      obtain ⟨first, hfirst, h⟩ := exists_of_bind_eq_ok h
      obtain ⟨others, hothers, h⟩ := exists_of_bind_eq_ok h
      cases h
      have hhead : found = first ↔
          found ∈ catalog.relations.items ∧ join.table = .ident ⟨found.name⟩ := by
        rw [← joinedRelation_eq_ok_iff, hfirst, Except.ok.injEq, eq_comm]
      rw [List.mem_cons, hhead, ih hothers, ← and_or_left]
      simp only [List.mem_cons, exists_eq_or_imp]

/-! ## The scope of the predicate -/

theorem resolves_relations_iff {relations : List Relation}
    (hscope : config.predicateScope = .relation)
    (hrelations : ∀ found, found ∈ relations ↔ InScope catalog statement found) (ident : Ident) :
    resolves (.relations relations) ident = true ↔
      Resolves config catalog statement ident.name := by
  have hbare : relations.any (·.hasColumn ident.name) = true ↔
      ∃ found, InScope catalog statement found ∧ found.Has ident.name := by
    simp only [List.any_eq_true, hrelations, Relation.hasColumn_iff]
  simp only [Resolves, hscope]
  cases hsides : ident.qualified? with
  | none =>
      have hnone := (qualified?_eq_none_iff ident).mp hsides
      simpa [resolves, hsides, hnone] using hbare
  | some sides =>
      obtain ⟨qualifier, column⟩ := sides
      have hname := (qualified?_eq_some_iff ident qualifier column).mp hsides
      cases hfind : relations.find? fun found => found.name = qualifier with
      -- The name can only be that of a column of `first`, whatever else is in scope.
      | some first =>
          have hfirst : first.name = qualifier := by simpa using List.find?_some hfind
          have hmem := (hrelations first).mp (List.mem_of_find?_eq_some hfind)
          simp only [resolves, hsides, hfind, Relation.hasColumn_iff]
          constructor
          · intro hhas
            exact .inl ⟨first, column, hmem, hfirst ▸ hname, hhas⟩
          · rintro (⟨found, column', hfound, hname', hhas⟩ | ⟨hnone, _⟩)
            · obtain ⟨hqualifier, rfl⟩ := hname.unique hname'
              have hsame : first = found :=
                Directory.eq_of_name_eq hmem.1 hfound.1 (hfirst.trans hqualifier)
              exact hsame ▸ hhas
            · exact absurd (hfirst ▸ hname) (hnone first column hmem)
      -- The part in front of the dot names nothing in scope, so the whole name counts.
      | none =>
          have hother : ∀ found column, InScope catalog statement found →
              ¬ Qualified ident.name found.name column := by
            intro found column' hfound hname'
            obtain ⟨hqualifier, _⟩ := hname.unique hname'
            have hne := List.find?_eq_none.mp hfind found ((hrelations found).mpr hfound)
            simp [hqualifier] at hne
          simp only [resolves, hsides, hfind]
          apply hbare.trans
          constructor
          · intro hhas
            exact .inr ⟨hother, hhas⟩
          · rintro (⟨found, column', hfound, hname', _⟩ | ⟨_, hhas⟩)
            · exact absurd hname' (hother found column' hfound)
            · exact hhas

/-- Names resolve in the scope of a statement as its catalog and relations say. -/
theorem resolves_iff {base : Relation} {scope : Scope} (hsource : Source catalog statement base)
    (h : scopeOf config catalog base statement.joins = .ok scope) (ident : Ident) :
    resolves scope ident = true ↔ Resolves config catalog statement ident.name := by
  cases hscope : config.predicateScope with
  | catalog =>
      simp only [scopeOf, hscope, Except.ok.injEq] at h
      simp only [← h, resolves, Resolves, hscope]
      exact Catalog.hasColumn_iff
  | relation =>
      simp only [scopeOf, hscope] at h
      obtain ⟨joined, hjoined, h⟩ := exists_of_bind_eq_ok h
      cases h
      apply resolves_relations_iff hscope
      intro found
      have hbase : found = base ↔ Source catalog statement found :=
        ⟨fun heq => heq ▸ hsource, fun hfound => hfound.unique hsource⟩
      rw [List.mem_cons, hbase, mem_joinedRelations hjoined, Source, InScope, ← and_or_left]

theorem judges_scopeOf (hfilter : statement.filter ≠ none) (base : Relation) :
    Judges (Fails config catalog statement) (statement.joins.map .join)
      (scopeOf config catalog base statement.joins) := by
  rw [scopeOf]
  cases hscope : config.predicateScope with
  | relation =>
      exact (judges_joinedRelations hfilter hscope statement.joins).map
        fun joined => Scope.relations (base :: joined)
  | catalog =>
      apply Judges.ok
      intro check hmem error hfails
      obtain ⟨join, _, rfl⟩ := List.mem_map.mp hmem
      cases hfails with
      | joinSource _ hscope' => cases hscope.symm.trans hscope'
      | joinRelation _ hscope' => cases hscope.symm.trans hscope'

/-! ## The predicate -/

/-- A walk over the nodes of an expression judges them all if its action judges
each. -/
theorem judges_visit {action : Expr → Except Error Unit}
    (haction : ∀ node, Judges fails [.node node] (action node)) (expr : Expr) :
    Judges fails (expr.nodes.map .node) (expr.visit action) := by
  induction expr with
  | ident name => exact haction _
  | literal value => exact haction _
  | unary op operand ih => exact (haction _).bind fun _ _ => ih
  | binary left op right ihleft ihright =>
      rw [Expr.nodes, List.map_cons, List.map_append]
      exact (haction _).bind fun _ _ => ihleft.bind fun _ _ => ihright
  | aliased expr name ih => exact (haction _).bind fun _ _ => ih

theorem judges_checkNode {scope : Scope}
    (hscope : ∀ ident, resolves scope ident = true ↔
      Resolves config catalog statement ident.name) (node : Expr) :
    Judges (Fails config catalog statement) [.node node] (checkNode scope node) := by
  cases node with
  | ident ident =>
      have hnode : Judges (Fails config catalog statement) [.node (.ident ident)]
          (require (resolves scope ident) (.unknownPredicateColumn ident.name)) := by
        apply judges_require
        · intro hfalse
          apply Fails.column
          rw [← hscope, hfalse]
          simp
        · intro htrue error hfails
          cases hfails with
          | column hname => exact hname ((hscope _).mp htrue)
      exact hnode
  | aliased expr name => exact .here .alias
  | _ =>
      apply Judges.ok
      intro check hmem error hfails
      rw [List.mem_singleton.mp hmem] at hfails
      cases hfails

theorem judges_checkFilter {base : Relation} (hsource : Source catalog statement base) :
    Judges (Fails config catalog statement)
      (statement.joins.map .join ++ (statement.filter.toList.flatMap Expr.nodes).map .node)
      (checkFilter config catalog base statement) := by
  rw [checkFilter]
  cases hfilter : statement.filter with
  | some predicate =>
      have hpresent : statement.filter ≠ none := by simp [hfilter]
      apply (judges_scopeOf hpresent base).bind
      intro scope hscope
      rw [Option.toList_some, List.flatMap_singleton]
      exact judges_visit (judges_checkNode (resolves_iff hsource hscope)) predicate
  -- Without a predicate no join is looked at, and none can fail.
  | none =>
      apply Judges.ok
      rw [Option.toList_none, List.flatMap_nil, List.map_nil, List.append_nil]
      intro check hmem error hfails
      obtain ⟨join, _, rfl⟩ := List.mem_map.mp hmem
      cases hfails with
      | joinSource hpresent => exact hpresent hfilter
      | joinRelation hpresent => exact hpresent hfilter

/-! ## The whole statement -/

theorem judges_counts :
    Judges (Fails config catalog statement) [.counts]
      (require (statement.offset.isNone || statement.limit.isSome) .offsetWithoutLimit) := by
  apply judges_require
  · intro hfalse
    simp only [Bool.or_eq_false_iff, Option.isNone_eq_false_iff, Option.isSome_eq_false_iff,
      Option.isNone_iff_eq_none] at hfalse
    exact .counts (Option.isSome_iff_ne_none.mp hfalse.1) hfalse.2
  · intro htrue error hfails
    cases hfails with
    | counts hoffset hlimit => simp [hlimit, hoffset] at htrue

theorem judges_projection :
    Judges (Fails config catalog statement) [.projection]
      (require (!statement.fields.isEmpty) .emptyProjection) := by
  apply judges_require
  · intro hfalse
    exact .projection (by simpa using hfalse)
  · intro htrue error hfails
    cases hfails with
    | projection hfields => simp [hfields] at htrue

theorem judges_validate :
    Judges (Fails config catalog statement) (checks statement)
      (validate config catalog statement) := by
  apply judges_counts.bind
  intro _ _
  apply judges_projection.bind
  intro _ _
  apply judges_source.bind
  intro name hname
  have htable := tableName?_eq_some_iff.mp (given_eq_ok_iff.mp hname)
  apply (judges_relation htable).bind
  intro base hbase
  have hsource : Source catalog statement base := source_of_relation htable hbase
  apply (judges_checkFields hsource statement.fields).bind
  intro _ _
  exact (judges_checkFilter hsource).map fun _ => base

/-- A statement that is found right comes with the relation of its FROM clause. -/
theorem source_of_validate {base : Relation} (h : validate config catalog statement = .ok base) :
    Source catalog statement base := by
  obtain ⟨_, _, h⟩ := exists_of_bind_eq_ok h
  obtain ⟨_, _, h⟩ := exists_of_bind_eq_ok h
  obtain ⟨name, hname, h⟩ := exists_of_bind_eq_ok h
  obtain ⟨found, hfound, h⟩ := exists_of_bind_eq_ok h
  obtain ⟨_, _, h⟩ := exists_of_bind_eq_ok h
  obtain ⟨_, _, h⟩ := exists_of_bind_eq_ok h
  cases h
  exact source_of_relation (tableName?_eq_some_iff.mp (given_eq_ok_iff.mp hname)) hfound

theorem judges_plan :
    Judges (Fails config catalog statement) (checks statement) (plan config catalog statement) :=
  judges_validate.map (build statement)

/-- Only the plan over the relation of the FROM clause is given. -/
theorem eq_build_of_plan {relation : Relation} {result : Plan}
    (hsource : Source catalog statement relation)
    (h : plan config catalog statement = .ok result) : result = build statement relation := by
  obtain ⟨base, hbase, hbuild⟩ := exists_of_bind_eq_ok h
  rw [hsource.unique (source_of_validate hbase)]
  exact (Except.ok.inj hbuild).symm

/-- Planning fails with the error of the first check that fails.  It gives a plan
exactly if no check fails, and the plan is the one over the relation of the FROM
clause. -/
theorem plan_exact (config : PlannerConfig) (catalog : Catalog) (statement : Select) :
    (∀ error, plan config catalog statement = .error error ↔
      FirstFailure (Fails config catalog statement) (checks statement) error) ∧
    (∀ result, plan config catalog statement = .ok result ↔
      (∀ check ∈ checks statement, Passes (Fails config catalog statement) check) ∧
        ∃ relation, Source catalog statement relation ∧ result = build statement relation) := by
  have hjudges := @judges_plan config catalog statement
  constructor
  · intro error
    exact hjudges.eq_error_iff
  · intro result
    constructor
    · intro hplan
      obtain ⟨base, hbase, -⟩ := exists_of_bind_eq_ok hplan
      have hsource := source_of_validate hbase
      have hpasses := hjudges.exists_ok_iff.mp ⟨result, hplan⟩
      exact ⟨hpasses, base, hsource, eq_build_of_plan hsource hplan⟩
    · rintro ⟨hpasses, relation, hsource, rfl⟩
      obtain ⟨result, hplan⟩ := hjudges.exists_ok_iff.mpr hpasses
      rw [hplan, eq_build_of_plan hsource hplan]

end SelectPlan.Planner
