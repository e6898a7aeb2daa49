import SelectPlan.Compile
import SelectPlan.Proofs.Grammar.Parse
import SelectPlan.Proofs.Planner.CheckOrder

/-!
# Wider catalogs and wider scopes

A statement that is planned stays planned, with the same plan, when its catalog
grows or when its predicate may refer to more relations.

## Strategy

A plan depends on the catalog only through the name of the relation of the FROM
clause, so all that has to be shown is that no check begins to fail.  By cases
on `Fails` this comes down to two facts about the wider side: a relation that a
statement names there has its name from a relation of the narrow side
(`exists_base_of_source`, `exists_narrow_of_inScope`), and a name that resolved
still does.  Among the relations of a statement the second fact needs the first
one: a qualifier could otherwise begin to name a relation, and hide a column
that has the whole dotted name.
-/

namespace SelectPlan

/-! ## Growth -/

/-- A relation of the same name that has at least the columns of this one. -/
def Relation.GrowsTo (relation wider : Relation) : Prop :=
  wider.name = relation.name ∧ ∀ column, relation.Has column → wider.Has column

/-- Every relation of the catalog grows to one of the other. -/
def Catalog.GrowsTo (catalog larger : Catalog) : Prop :=
  ∀ relation ∈ catalog.relations.items, ∃ wider ∈ larger.relations.items, relation.GrowsTo wider

variable {config config' : PlannerConfig} {catalog larger : Catalog} {statement : Select}

theorem Relation.GrowsTo.refl (relation : Relation) : relation.GrowsTo relation :=
  ⟨rfl, fun _ hhas => hhas⟩

theorem Catalog.GrowsTo.refl (catalog : Catalog) : catalog.GrowsTo catalog :=
  fun relation hmem => ⟨relation, hmem, .refl relation⟩

theorem Relation.growsTo_addColumn (relation : Relation) (column : Column) :
    relation.GrowsTo (relation.addColumn column) := by
  refine ⟨rfl, ?_⟩
  rintro name ⟨old, hold, rfl⟩
  by_cases hname : old.name = column.name
  · exact ⟨column, Directory.mem_insert_iff.mpr (.inl rfl), hname.symm⟩
  · exact ⟨old, Directory.mem_insert_iff.mpr (.inr ⟨hold, hname⟩), rfl⟩

theorem Relation.growsTo_addColumns (relation : Relation) (columns : List Column) :
    relation.GrowsTo (columns.foldl Relation.addColumn relation) := by
  induction columns generalizing relation with
  | nil => exact .refl relation
  | cons column rest ih =>
      obtain ⟨hname, hhas⟩ := relation.growsTo_addColumn column
      obtain ⟨hname', hhas'⟩ := ih (relation.addColumn column)
      exact ⟨hname'.trans hname, fun name h => hhas' name (hhas name h)⟩

/-- A catalog grows by a relation that has a new name, or all the columns of the
one it replaces. -/
theorem Catalog.growsTo_add {relation : Relation}
    (h : ∀ old ∈ catalog.relations.items, old.name = relation.name → old.GrowsTo relation) :
    catalog.GrowsTo (catalog.add relation) := by
  intro old hold
  by_cases hname : old.name = relation.name
  · exact ⟨relation, Directory.mem_insert_iff.mpr (.inl rfl), h old hold hname⟩
  · exact ⟨old, Directory.mem_insert_iff.mpr (.inr ⟨hold, hname⟩), .refl old⟩

theorem Catalog.growsTo_add_new {relation : Relation} (h : catalog.relation? relation.name = none) :
    catalog.GrowsTo (catalog.add relation) :=
  growsTo_add fun old hold hname => absurd hname (relation?_eq_none_iff.mp h old hold)

theorem Catalog.growsTo_add_columns {relation : Relation}
    (hmem : relation ∈ catalog.relations.items) (columns : List Column) :
    catalog.GrowsTo (catalog.add (columns.foldl Relation.addColumn relation)) := by
  have hgrows := relation.growsTo_addColumns columns
  apply growsTo_add
  intro old hold hname
  have hsame : old = relation := Directory.eq_of_name_eq hold hmem (hname.trans hgrows.1)
  exact hsame ▸ hgrows

namespace Planner

/-! ## What the names of a statement refer to -/

theorem Projects.grows {relation wider : Relation} {field : Ident} (h : Projects relation field)
    (hgrows : relation.GrowsTo wider) : Projects wider field := by
  obtain ⟨hname, hcolumns⟩ := hgrows
  rcases h with hstar | hhas | ⟨column, hqualified, hhas⟩
  · exact .inl hstar
  · exact .inr (.inl (hcolumns _ hhas))
  · exact .inr (.inr ⟨column, hname ▸ hqualified, hcolumns _ hhas⟩)

theorem InScope.grows {relation : Relation} (h : InScope catalog statement relation)
    (hgrows : catalog.GrowsTo larger) :
    ∃ wider, InScope larger statement wider ∧ relation.GrowsTo wider := by
  obtain ⟨hmem, hnamed⟩ := h
  obtain ⟨wider, hwider, hgrown⟩ := hgrows relation hmem
  exact ⟨wider, ⟨hwider, hgrown.1 ▸ hnamed⟩, hgrown⟩

/-- The relation of the FROM clause has grown from one of the narrow catalog, as
that one was found there. -/
theorem exists_base_of_source {wider : Relation} (hgrows : catalog.GrowsTo larger)
    (hpasses : Passes (Fails config catalog statement) .relation)
    (hsource : Source larger statement wider) :
    ∃ base, Source catalog statement base ∧ base.GrowsTo wider := by
  obtain ⟨hmem, htable⟩ := hsource
  cases hfind : catalog.relation? wider.name with
  | none =>
      exact absurd (Fails.relation htable (Catalog.relation?_eq_none_iff.mp hfind)) (hpasses _)
  | some base =>
      obtain ⟨hbase, hname⟩ := Catalog.relation?_eq_some_iff.mp hfind
      obtain ⟨grown, hgrown, hfrom⟩ := hgrows base hbase
      -- Names are unique in a catalog, so it has grown into this relation.
      have hsame : grown = wider := Directory.eq_of_name_eq hgrown hmem (hfrom.1.trans hname)
      exact ⟨base, ⟨hbase, hname ▸ htable⟩, hsame ▸ hfrom⟩

/-- A relation of the statement has the name of one in the narrow catalog, as
all of them were found there. -/
theorem exists_narrow_of_inScope {wider : Relation}
    (hpasses : ∀ check ∈ checks statement, Passes (Fails config catalog statement) check)
    (hfilter : statement.filter ≠ none) (hscope : config.predicateScope = .relation)
    (hwider : InScope larger statement wider) :
    ∃ relation, InScope catalog statement relation ∧ relation.name = wider.name := by
  obtain ⟨-, hnamed⟩ := hwider
  cases hfind : catalog.relation? wider.name with
  | none =>
      have hmissing := Catalog.relation?_eq_none_iff.mp hfind
      -- A name that is missing would have failed in FROM or in a join.
      rcases hnamed with htable | ⟨join, hjoin, htable⟩
      · exact absurd (Fails.relation htable hmissing) (hpasses .relation (by simp [checks]) _)
      · exact absurd (Fails.joinRelation hfilter hscope htable hmissing)
          (hpasses (.join join) (mem_checks_join.mpr hjoin) _)
  | some relation =>
      obtain ⟨hmem, hname⟩ := Catalog.relation?_eq_some_iff.mp hfind
      exact ⟨relation, ⟨hmem, hname ▸ hnamed⟩, hname⟩

/-- Names that resolve do so in a larger catalog, if the statement names no
further relation there. -/
theorem Resolves.grows {name : String} (h : Resolves config catalog statement name)
    (hgrows : catalog.GrowsTo larger)
    (hnarrow : config.predicateScope = .relation → ∀ wider, InScope larger statement wider →
      ∃ relation, InScope catalog statement relation ∧ relation.name = wider.name) :
    Resolves config larger statement name := by
  cases hscope : config.predicateScope with
  | catalog =>
      simp only [Resolves, hscope] at h ⊢
      obtain ⟨relation, hmem, hrefers⟩ := h
      obtain ⟨wider, hwider, hname, hcolumns⟩ := hgrows relation hmem
      refine ⟨wider, hwider, ?_⟩
      rcases hrefers with hhas | ⟨column, hqualified, hhas⟩
      · exact .inl (hcolumns _ hhas)
      · exact .inr ⟨column, hname ▸ hqualified, hcolumns _ hhas⟩
  | relation =>
      simp only [Resolves, hscope] at h ⊢
      rcases h with ⟨relation, column, hin, hqualified, hhas⟩ | ⟨hother, relation, hin, hhas⟩
      · obtain ⟨wider, hwider, hname, hcolumns⟩ := hin.grows hgrows
        exact .inl ⟨wider, column, hwider, hname ▸ hqualified, hcolumns _ hhas⟩
      -- The whole name is that of a column, and its qualifier names nothing new.
      · obtain ⟨wider, hwider, _, hcolumns⟩ := hin.grows hgrows
        refine .inr ⟨?_, wider, hwider, hcolumns _ hhas⟩
        intro other column hin' hqualified
        obtain ⟨narrow, hin'', hname⟩ := hnarrow hscope other hin'
        exact hother narrow column hin'' (hname ▸ hqualified)

/-- A name that resolves among the relations of a statement resolves in the
whole catalog. -/
theorem Resolves.widens {name : String} (h : Resolves config catalog statement name)
    (hscope : config'.predicateScope = .catalog) : Resolves config' catalog statement name := by
  simp only [Resolves, hscope] at h ⊢
  cases hnarrow : config.predicateScope with
  | catalog => simpa only [hnarrow] using h
  | relation =>
      simp only [hnarrow] at h
      rcases h with ⟨relation, column, hin, hqualified, hhas⟩ | ⟨-, relation, hin, hhas⟩
      · exact ⟨relation, hin.1, .inr ⟨column, hqualified, hhas⟩⟩
      · exact ⟨relation, hin.1, .inl hhas⟩

/-! ## No check begins to fail -/

theorem filter_ne_none_of_mem_checks {node : Expr} (h : .node node ∈ checks statement) :
    statement.filter ≠ none := by
  obtain ⟨predicate, hfilter, -⟩ := mem_checks_node.mp h
  rw [hfilter]
  exact Option.some_ne_none predicate

/-- The checks pass on the wider side if every name of the predicate resolves
there that resolved on the narrow side. -/
theorem passes_of_wider (hgrows : catalog.GrowsTo larger)
    (hscope : config'.predicateScope = .relation → config.predicateScope = .relation)
    (hresolves : statement.filter ≠ none → ∀ name, Resolves config catalog statement name →
      Resolves config' larger statement name)
    (hpasses : ∀ check ∈ checks statement, Passes (Fails config catalog statement) check) :
    ∀ check ∈ checks statement, Passes (Fails config' larger statement) check := by
  intro check hmem error hfails
  -- A relation that is missing from the larger catalog was missing before.
  have hmissing : ∀ name, (∀ wider ∈ larger.relations.items, wider.name ≠ name) →
      ∀ relation ∈ catalog.relations.items, relation.name ≠ name := by
    intro name hnone relation hrelation hname
    obtain ⟨wider, hwider, hgrown⟩ := hgrows relation hrelation
    exact hnone wider hwider (hgrown.1.trans hname)
  cases hfails with
  | counts hoffset hlimit => exact hpasses _ hmem _ (.counts hoffset hlimit)
  | projection hfields => exact hpasses _ hmem _ (.projection hfields)
  | source htable => exact hpasses _ hmem _ (.source htable)
  | relation htable hname => exact hpasses _ hmem _ (.relation htable (hmissing _ hname))
  | field hsource hfield =>
      have hfound := hpasses .relation (by simp [checks])
      obtain ⟨base, hbase, hgrown⟩ := exists_base_of_source hgrows hfound hsource
      exact hpasses _ hmem _ (.field hbase fun hprojects => hfield (hprojects.grows hgrown))
  | joinSource hfilter hrelation htable =>
      exact hpasses _ hmem _ (.joinSource hfilter (hscope hrelation) htable)
  | joinRelation hfilter hrelation htable hname =>
      exact hpasses _ hmem _ (.joinRelation hfilter (hscope hrelation) htable (hmissing _ hname))
  | «alias» => exact hpasses _ hmem _ .«alias»
  | column hname =>
      have hfilter := filter_ne_none_of_mem_checks hmem
      exact hpasses _ hmem _ (.column fun hnarrow => hname (hresolves hfilter _ hnarrow))

/-- A plan of the narrow side is the plan of the wider side. -/
theorem plan_eq_of_wider {result : Plan} (hgrows : catalog.GrowsTo larger)
    (hscope : config'.predicateScope = .relation → config.predicateScope = .relation)
    (hresolves : (∀ check ∈ checks statement, Passes (Fails config catalog statement) check) →
      statement.filter ≠ none → ∀ name, Resolves config catalog statement name →
        Resolves config' larger statement name)
    (hplan : plan config catalog statement = .ok result) :
    plan config' larger statement = .ok result := by
  have hpasses := judges_plan.exists_ok_iff.mp ⟨result, hplan⟩
  have hwider := passes_of_wider hgrows hscope (hresolves hpasses) hpasses
  obtain ⟨result', hplan'⟩ := judges_plan.exists_ok_iff.mpr hwider
  -- Both plans are over the relation that the FROM clause names.
  obtain ⟨found, hfound, -⟩ := exists_of_bind_eq_ok hplan'
  have hsource : Source larger statement found := source_of_validate hfound
  obtain ⟨base, hbase, hgrown⟩ :=
    exists_base_of_source hgrows (hpasses .relation (by simp [checks])) hsource
  have hsame : build statement found = build statement base := by
    rw [build, build, hgrown.1]
  rw [hplan', eq_build_of_plan hsource hplan', eq_build_of_plan hbase hplan, hsame]

theorem plan_eq_of_growsTo {result : Plan} (hgrows : catalog.GrowsTo larger)
    (hplan : plan config catalog statement = .ok result) :
    plan config larger statement = .ok result := by
  apply plan_eq_of_wider hgrows id _ hplan
  intro hpasses hfilter name hresolves
  apply hresolves.grows hgrows
  intro hscope wider hwider
  exact exists_narrow_of_inScope hpasses hfilter hscope hwider

theorem plan_eq_of_scope {result : Plan} (hscope : config'.predicateScope = .catalog)
    (hplan : plan config catalog statement = .ok result) :
    plan config' catalog statement = .ok result := by
  apply plan_eq_of_wider (.refl catalog) _ _ hplan
  · intro hrelation
    cases hscope.symm.trans hrelation
  · intro _ _ name hresolves
    exact hresolves.widens hscope

/-! ## Larger catalogs -/

/-- Planning is monotone in the catalog: what is planned has the same plan in
every larger one, and in particular after a relation of a new name is registered
or columns are added to an existing one. -/
theorem plan_grows (config : PlannerConfig) (catalog : Catalog) (statement : Select) (result : Plan)
    (hplan : plan config catalog statement = .ok result) :
    (∀ larger, catalog.GrowsTo larger → plan config larger statement = .ok result) ∧
    (∀ relation, catalog.relation? relation.name = none →
      plan config (catalog.add relation) statement = .ok result) ∧
    (∀ relation ∈ catalog.relations.items, ∀ columns : List Column,
      plan config (catalog.add (columns.foldl Relation.addColumn relation)) statement =
        .ok result) := by
  refine ⟨?_, ?_, ?_⟩
  · intro larger hgrows
    exact plan_eq_of_growsTo hgrows hplan
  · intro relation hnew
    exact plan_eq_of_growsTo (Catalog.growsTo_add_new hnew) hplan
  · intro relation hmem columns
    exact plan_eq_of_growsTo (Catalog.growsTo_add_columns hmem columns) hplan

/-- A column with a dotted name keeps its meaning when a relation takes the part
in front of the dot as its name. -/
theorem plan_grows_dotted :
    let base : Relation := { name := "t", columns := .ofList [{ name := "u.a" }] }
    let other : Relation := { name := "u", columns := .ofList [{ name := "a" }] }
    let statement : Select :=
      { fields := [⟨"u.a"⟩]
        table := some (.ident ⟨"t"⟩)
        filter := some (.unary .not (.ident ⟨"u.a"⟩)) }
    let result : Plan :=
      .projection [⟨"u.a"⟩] (.filter (.unary .not (.ident ⟨"u.a"⟩)) (.tableScan "t"))
    plan ⟨.relation⟩ (.ofList [base]) statement = .ok result ∧
      plan ⟨.relation⟩ ((Catalog.ofList [base]).add other) statement = .ok result ∧
      plan ⟨.relation⟩ ((Catalog.ofList [base]).add (base.addColumn { name := "a" })) statement =
        .ok result := by
  intro base other statement result
  have hplan : plan ⟨.relation⟩ (.ofList [base]) statement = .ok result := by decide +kernel
  obtain ⟨-, hadd, hcolumns⟩ := plan_grows _ _ _ _ hplan
  exact ⟨hplan, hadd other (by decide +kernel),
    hcolumns base (by decide +kernel) [{ name := "a" }]⟩

/-! ## Wider scopes -/

/-- Relation scope is a narrowing of catalog scope: a statement that is planned
in it has the same plan in catalog scope, which is the scope by default. -/
theorem plan_widens (catalog : Catalog) :
    (∀ statement result, plan ⟨.relation⟩ catalog statement = .ok result →
      plan ⟨.catalog⟩ catalog statement = .ok result) ∧
    (∀ text result, compile ⟨.relation⟩ catalog text = .ok result →
      compile {} catalog text = .ok result) := by
  refine ⟨fun statement result => plan_eq_of_scope rfl, ?_⟩
  intro text result hcompile
  cases hparse : Select.parse text with
  | error fault =>
      rw [compile, hparse] at hcompile
      cases hcompile
  | ok statement =>
      rw [compile, hparse] at hcompile ⊢
      exact plan_eq_of_scope rfl hcompile

/-- A predicate over the relations of the statement is planned in both scopes;
one over another relation, in catalog scope alone. -/
theorem plan_widens_joined :
    let catalog := Catalog.ofList
      [{ name := "t", columns := .ofList [{ name := "a" }] },
       { name := "u.v", columns := .ofList [{ name := "b" }] }]
    let result : Plan :=
      .projection [⟨"a"⟩]
        (.filter (.binary (.ident ⟨"u.v.b"⟩) (.compare .eq) (.literal ⟨.int, "1"⟩))
          (.tableScan "t"))
    let joined := "SELECT a FROM t JOIN u.v ON a = b WHERE u.v.b = 1"
    let alone := "SELECT a FROM t WHERE u.v.b = 1"
    compile ⟨.relation⟩ catalog joined = .ok result ∧
      compile {} catalog joined = .ok result ∧
      compile ⟨.relation⟩ catalog alone = .error (.unknownPredicateColumn "u.v.b") ∧
      compile {} catalog alone = .ok result := by
  intro catalog result joined alone
  have hjoined : compile ⟨.relation⟩ catalog joined = .ok result := by decide +kernel
  exact ⟨hjoined, (plan_widens catalog).2 joined result hjoined, by decide +kernel,
    by decide +kernel⟩

end Planner

end SelectPlan
