import SelectPlan.Proofs.Planner.Hiding
import SelectPlan.Proofs.Planner.Widening

/-!
# What planning does not look at

The joins of a statement are not part of its plan, and no part of a catalog is but
the names in it.  So what is planned, and which error is reported, does not depend

* on the GROUP BY clause, and on the kinds and conditions of joins;
* on joins at all, where the names of the whole catalog may be used or there is no
  predicate;
* on the types and places of columns, and on those of relations.

## Strategy

Joins are read in one place, for the relations that a predicate may refer to:
`plan_congr` says that statements with the same such relations have the same
outcome.  For catalogs, those that list the same names grow to one another, so what
is planned is known to be the same; and the same checks fail on both, since a check
that fails after growth failed before (`Fails.of_growsTo`).
-/

namespace SelectPlan

/-- The names in a catalog: each relation with its columns. -/
def Catalog.names (catalog : Catalog) : List (String × List String) :=
  catalog.relations.items.map fun relation =>
    (relation.name, relation.columns.items.map Column.name)

/-- The statements have the same clauses but for GROUP BY and the joins. -/
structure Select.SameBesideJoins (statement other : Select) : Prop where
  fields : other.fields = statement.fields
  table : other.table = statement.table
  filter : other.filter = statement.filter
  orderBy : other.orderBy = statement.orderBy
  limit : other.limit = statement.limit
  offset : other.offset = statement.offset

namespace Planner

variable {config : PlannerConfig} {catalog other : Catalog} {statement statement' : Select}

/-! ## Joins -/

theorem build_congr (hsame : statement.SameBesideJoins statement') :
    build statement' = build statement := by
  funext relation
  rw [build, build, hsame.fields, hsame.filter, hsame.orderBy, hsame.limit, hsame.offset]

/-- Joins are read for the scope of the predicate only. -/
theorem plan_congr (hsame : statement.SameBesideJoins statement')
    (hscope : statement.filter ≠ none → ∀ base,
      scopeOf config catalog base statement'.joins = scopeOf config catalog base statement.joins) :
    plan config catalog statement' = plan config catalog statement := by
  have hfilter : ∀ base, checkFilter config catalog base statement' =
      checkFilter config catalog base statement := by
    intro base
    rw [checkFilter, checkFilter, hsame.filter]
    cases hpredicate : statement.filter with
    | none => rfl
    | some predicate =>
        have hpresent : statement.filter ≠ none := by simp [hpredicate]
        simp only [hscope hpresent base]
  have htable : statement'.tableName? = statement.tableName? := by
    rw [Select.tableName?, Select.tableName?, hsame.table]
  simp only [plan, validate, hsame.fields, hsame.limit, hsame.offset, htable, hfilter,
    build_congr hsame]

/-- Of a join, its table is read and nothing else. -/
theorem joinedRelations_congr {joins joins' : List Join}
    (h : joins'.map Join.table = joins.map Join.table) :
    joinedRelations catalog joins' = joinedRelations catalog joins := by
  induction joins generalizing joins' with
  | nil =>
      rw [List.map_nil, List.map_eq_nil_iff] at h
      rw [h]
  | cons join rest ih =>
      rw [List.map_cons] at h
      obtain ⟨join', rest', rfl, htable, hrest⟩ := List.map_eq_cons_iff.mp h
      rw [joinedRelations_cons, joinedRelations_cons, joinedRelation, joinedRelation, htable,
        ih hrest]

/-- Whatever the joins are, there is no more than one plan. -/
theorem result_eq_of_plan {result result' : Plan} (hsame : statement.SameBesideJoins statement')
    (hplan : plan config catalog statement = .ok result)
    (hplan' : plan config catalog statement' = .ok result') : result' = result := by
  obtain ⟨base, hsource, rfl⟩ := exists_source_of_plan hplan
  obtain ⟨base', hsource', rfl⟩ := exists_source_of_plan hplan'
  have hbase : Source catalog statement base' := ⟨hsource'.1, hsame.table ▸ hsource'.2⟩
  rw [build_congr hsame, hsource.unique hbase]

/-! ## Types and places -/

/-- A catalog that lists the same names has all relations with all their columns. -/
theorem growsTo_of_names_eq (h : other.names = catalog.names) : catalog.GrowsTo other := by
  intro relation hmem
  have hlisted : (relation.name, relation.columns.items.map Column.name) ∈ other.names := by
    rw [h]
    exact List.mem_map_of_mem hmem
  obtain ⟨wider, hwider, hnames⟩ := List.mem_map.mp hlisted
  rw [Prod.mk.injEq] at hnames
  refine ⟨wider, hwider, hnames.1, ?_⟩
  rintro name ⟨column, hcolumn, hname⟩
  have hcolumn' : name ∈ wider.columns.items.map Column.name := by
    rw [hnames.2, ← hname]
    exact List.mem_map_of_mem hcolumn
  exact List.mem_map.mp hcolumn'

/-- A check that fails on one of two catalogs that grow to one another fails on the
other, with the same error. -/
theorem Fails.of_growsTo {check : Check} {error : Error} (hgrows : catalog.GrowsTo other)
    (hback : other.GrowsTo catalog) (h : Fails config catalog statement check error) :
    Fails config other statement check error := by
  -- Growing back, the other catalog has no name that this one lacks.
  have hmissing : ∀ name, (∀ relation ∈ catalog.relations.items, relation.name ≠ name) →
      ∀ relation ∈ other.relations.items, relation.name ≠ name := by
    intro name hnone relation hrelation hname
    obtain ⟨back, hmem, hgrown⟩ := hback relation hrelation
    exact hnone back hmem (hgrown.1.trans hname)
  cases h with
  | counts hoffset hlimit => exact .counts hoffset hlimit
  | projection hfields => exact .projection hfields
  | source htable => exact .source htable
  | relation htable hname => exact .relation htable (hmissing _ hname)
  | @field relation field hsource hfield =>
      obtain ⟨wider, hwider, hgrown⟩ := hgrows relation hsource.1
      refine .field ⟨hwider, hgrown.1 ▸ hsource.2⟩ fun hprojects => hfield ?_
      -- The relation it grows back to is the one it came from.
      obtain ⟨back, hmem, hgrown'⟩ := hback wider hwider
      have hsame : back = relation :=
        Directory.eq_of_name_eq hmem hsource.1 (hgrown'.1.trans hgrown.1)
      exact hprojects.grows (hsame ▸ hgrown')
  | joinSource hfilter hscope htable => exact .joinSource hfilter hscope htable
  | joinRelation hfilter hscope htable hname =>
      exact .joinRelation hfilter hscope htable (hmissing _ hname)
  | «alias» => exact .«alias»
  | column hname =>
      refine .column fun hresolves => hname (hresolves.grows hback fun _ relation hin => ?_)
      obtain ⟨wider, hin', hgrown⟩ := hin.grows hgrows
      exact ⟨wider, hin', hgrown.1⟩

/-- Catalogs that list the same names have the same outcome. -/
theorem plan_eq_of_names_eq (h : other.names = catalog.names) (statement : Select) :
    plan config other statement = plan config catalog statement := by
  have hgrows : catalog.GrowsTo other := growsTo_of_names_eq h
  have hback : other.GrowsTo catalog := growsTo_of_names_eq h.symm
  cases hplan : plan config catalog statement with
  | ok result => exact plan_eq_of_growsTo hgrows hplan
  | error error =>
      -- Each grows to the other, so the same checks fail with the same errors.
      have hfails : Fails config catalog statement = Fails config other statement := by
        funext check error
        exact propext ⟨.of_growsTo hgrows hback, .of_growsTo hback hgrows⟩
      rw [judges_plan.eq_error_iff] at hplan ⊢
      exact hfails ▸ hplan

/-! ## Outcomes -/

/-- Planning has the same outcome, plan or error, for statements that differ in
GROUP BY and in the kinds and conditions of joins; for statements that differ in
their joins, in the scope of the catalog and where there is no predicate, and never
two plans; and for catalogs that differ in types and places. -/
theorem plan_independent :
    (∀ config catalog statement statement', statement.SameBesideJoins statement' →
      statement'.joins.map Join.table = statement.joins.map Join.table →
      plan config catalog statement' = plan config catalog statement) ∧
    (∀ config catalog statement statement', statement.SameBesideJoins statement' →
      (config.predicateScope = .catalog ∨ statement.filter = none →
        plan config catalog statement' = plan config catalog statement) ∧
      ∀ result result', plan config catalog statement = .ok result →
        plan config catalog statement' = .ok result' → result' = result) ∧
    ∀ config catalog other, other.names = catalog.names →
      (∀ statement, plan config other statement = plan config catalog statement) ∧
      ∀ text, compile config other text = compile config catalog text := by
  refine ⟨?_, ?_, ?_⟩
  · intro config catalog statement statement' hsame htables
    apply plan_congr hsame
    intro _ base
    rw [scopeOf, scopeOf, joinedRelations_congr htables]
  · intro config catalog statement statement' hsame
    refine ⟨?_, fun result result' => result_eq_of_plan hsame⟩
    rintro (hscope | hnone)
    · apply plan_congr hsame
      intro _ base
      rw [scopeOf, scopeOf, hscope]
    · exact plan_congr hsame fun hpresent => absurd hnone hpresent
  · intro config catalog other hnames
    refine ⟨plan_eq_of_names_eq hnames, fun text => ?_⟩
    rw [compile, compile]
    cases Select.parse text with
    | error fault => rfl
    | ok statement => exact plan_eq_of_names_eq hnames statement

/-- A predicate over a joined relation: the kind and condition of the join do not
matter, nor do a further join and the types of columns; without the join there is a
plan in the scope of the catalog alone. -/
theorem plan_independent_joined :
    let catalog := Catalog.ofList
      [{ name := "t", columns := .ofList [{ name := "a" }] },
       { name := "u", columns := .ofList [{ name := "b" }, { name := "c" }] }]
    let typed := Catalog.ofList
      [{ name := "u", columns := .ofList [{ name := "c", type := .real }, { name := "b" }] },
       { name := "t", location := some "disk",
         columns := .ofList [{ name := "a", type := .text }] }]
    let alone : Select :=
      { fields := [⟨"a"⟩], table := some (.ident ⟨"t"⟩), filter := some (.ident ⟨"u.b"⟩) }
    let joined : Select :=
      { alone with joins := [⟨.inner, .ident ⟨"u"⟩, ⟨.ident ⟨"a"⟩, .compare .eq, .ident ⟨"b"⟩⟩⟩] }
    let grouped : Select :=
      { alone with
        joins := [⟨.fullOuter, .ident ⟨"u"⟩, ⟨.ident ⟨"x"⟩, .compare .lt, .ident ⟨"y"⟩⟩⟩]
        groupBy := some [⟨"z"⟩] }
    let twice : Select := { alone with joins := joined.joins ++ grouped.joins }
    let result : Plan := .projection [⟨"a"⟩] (.filter (.ident ⟨"u.b"⟩) (.tableScan "t"))
    plan ⟨.relation⟩ catalog joined = .ok result ∧
      plan ⟨.relation⟩ catalog grouped = .ok result ∧
      (∃ other, plan ⟨.relation⟩ catalog twice = .ok other ∧ other = result) ∧
      plan ⟨.relation⟩ typed joined = .ok result ∧
      plan ⟨.catalog⟩ catalog alone = plan ⟨.catalog⟩ catalog joined ∧
      plan ⟨.relation⟩ catalog alone = .error (.unknownPredicateColumn "u.b") := by
  intro catalog typed alone joined grouped twice result
  obtain ⟨htables, hjoins, hcatalogs⟩ := plan_independent
  have hjoined : plan ⟨.relation⟩ catalog joined = .ok result := by decide +kernel
  have htwice : plan ⟨.relation⟩ catalog twice = .ok result := by decide +kernel
  have hgrouped : joined.SameBesideJoins grouped := ⟨rfl, rfl, rfl, rfl, rfl, rfl⟩
  have hfurther : joined.SameBesideJoins twice := ⟨rfl, rfl, rfl, rfl, rfl, rfl⟩
  have halone : joined.SameBesideJoins alone := ⟨rfl, rfl, rfl, rfl, rfl, rfl⟩
  refine ⟨hjoined, ?_, ?_, ?_, ?_, by decide +kernel⟩
  · rw [htables _ _ _ _ hgrouped rfl, hjoined]
  · exact ⟨_, htwice, (hjoins _ _ _ _ hfurther).2 _ _ hjoined htwice⟩
  · rw [(hcatalogs _ catalog typed (by decide +kernel)).1, hjoined]
  · exact (hjoins _ _ _ _ halone).1 (.inl rfl)

end Planner

end SelectPlan
