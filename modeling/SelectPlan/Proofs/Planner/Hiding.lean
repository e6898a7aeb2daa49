import SelectPlan.Proofs.Grammar.Parse
import SelectPlan.Proofs.Planner.CheckOrder

/-!
# Hidden names

Among the relations of a statement, a name that one of them qualifies is looked up
in that relation and nowhere else.  If it has no such column the name is *hidden*
(`Hidden`), although the same name, dot included, may be that of a column.  Hidden
names are all that keeps two rules from holding without exception:

* what may be projected may also be filtered by (`plan_filtered`);
* a further join keeps a statement planned (`plan_joined`).

## Strategy

A name that refers to some column of the statement, under either reading, resolves
just if it is not hidden (`resolves_iff_not_hidden`).  Every other check on the
changed statement is one that the planned statement has passed, or is about a join
whose relation is there; so the nodes of the predicate are all that can fail.
-/

namespace SelectPlan

/-- The expression consists of literals, operators and the names of a list other
than `*`. -/
inductive Expr.IsOver (names : List Ident) : Expr → Prop
  | name {name : Ident} : name ∈ names → name ≠ .star → IsOver names (.ident name)
  | literal {value : Literal} : IsOver names (.literal value)
  | unary {op : UnaryOp} {operand : Expr} : IsOver names operand → IsOver names (.unary op operand)
  | binary {left right : Expr} {op : BinaryOp} : IsOver names left → IsOver names right →
      IsOver names (.binary left op right)

/-- No node of such an expression is an alias, and its names are in the list. -/
theorem Expr.IsOver.of_mem_nodes {names : List Ident} {expr node : Expr} (h : expr.IsOver names)
    (hmem : node ∈ expr.nodes) :
    (∀ inner label, node ≠ .aliased inner label) ∧
      ∀ name, node = .ident name → name ∈ names ∧ name ≠ .star := by
  induction h with
  | @name name hname hstar =>
      rw [List.mem_singleton.mp hmem]
      refine ⟨by simp, fun other hother => ?_⟩
      rw [← Expr.ident.inj hother]
      exact ⟨hname, hstar⟩
  | literal =>
      rw [List.mem_singleton.mp hmem]
      simp
  | unary _ ih =>
      rcases List.mem_cons.mp hmem with rfl | hmem
      · simp
      · exact ih hmem
  | binary _ _ ihleft ihright =>
      rcases List.mem_cons.mp hmem with rfl | hmem
      · simp
      · rcases List.mem_append.mp hmem with hmem | hmem
        · exact ihleft hmem
        · exact ihright hmem

/-- The name is that of a column, or of the relation and one of its columns. -/
def Relation.Refers (relation : Relation) (name : String) : Prop :=
  relation.Has name ∨ ∃ column, Qualified name relation.name column ∧ relation.Has column

/-- The relation qualifies the name and has no such column. -/
def Relation.Hides (relation : Relation) (name : String) : Prop :=
  ∃ column, Qualified name relation.name column ∧ ¬ relation.Has column

/-- The statement with this predicate, in place of any other. -/
def Select.filterBy (statement : Select) (predicate : Expr) : Select :=
  { statement with filter := some predicate }

/-- The statement with a further join. -/
def Select.addJoin (statement : Select) (join : Join) : Select :=
  { statement with joins := statement.joins ++ [join] }

namespace Planner

variable {config config' : PlannerConfig} {catalog : Catalog} {statement statement' : Select}

/-! ## Names that a relation of the statement hides -/

/-- A relation of the statement hides the name. -/
def Hidden (catalog : Catalog) (statement : Select) (name : String) : Prop :=
  ∃ relation, InScope catalog statement relation ∧ relation.Hides name

/-- What a relation of the statement has decides about the names that it
qualifies. -/
theorem resolves_iff_of_qualified {relation : Relation} {name column : String}
    (hscope : config.predicateScope = .relation) (hin : InScope catalog statement relation)
    (hname : Qualified name relation.name column) :
    Resolves config catalog statement name ↔ relation.Has column := by
  simp only [Resolves, hscope]
  constructor
  · rintro (⟨other, column', hin', hname', hhas⟩ | ⟨hnone, _⟩)
    · obtain ⟨hqualifier, rfl⟩ := hname.unique hname'
      rwa [Directory.eq_of_name_eq hin.1 hin'.1 hqualifier]
    · exact absurd hname (hnone relation column hin)
  · intro hhas
    exact .inl ⟨relation, column, hin, hname, hhas⟩

/-- Of the names that refer to a column of the statement, those that are not hidden
resolve. -/
theorem resolves_iff_not_hidden {relation : Relation} {name : String}
    (hscope : config.predicateScope = .relation) (hin : InScope catalog statement relation)
    (hrefers : relation.Refers name) :
    Resolves config catalog statement name ↔ ¬ Hidden catalog statement name := by
  constructor
  · rintro hresolves ⟨other, hother, column, hname, hmissing⟩
    exact hmissing ((resolves_iff_of_qualified hscope hother hname).mp hresolves)
  · intro hshown
    by_cases hqualified : ∃ other column, InScope catalog statement other ∧
        Qualified name other.name column
    · obtain ⟨other, column, hother, hname⟩ := hqualified
      rw [resolves_iff_of_qualified hscope hother hname]
      exact Classical.byContradiction fun hmissing =>
        hshown ⟨other, hother, column, hname, hmissing⟩
    -- No relation of the statement qualifies the name, so the whole of it counts.
    · have hnone : ∀ other column, InScope catalog statement other →
          ¬ Qualified name other.name column :=
        fun other column hother hname => hqualified ⟨other, column, hother, hname⟩
      rcases hrefers with hhas | ⟨column, hname, _⟩
      · simp only [Resolves, hscope]
        exact .inr ⟨hnone, relation, hin, hhas⟩
      · exact absurd hname (hnone relation column hin)

/-- A name that resolves among the relations of a statement refers to a column of
one of them. -/
theorem Resolves.exists_refers {name : String} (hscope : config.predicateScope = .relation)
    (h : Resolves config catalog statement name) :
    ∃ relation, InScope catalog statement relation ∧ relation.Refers name := by
  simp only [Resolves, hscope] at h
  rcases h with ⟨relation, column, hin, hname, hhas⟩ | ⟨_, relation, hin, hhas⟩
  · exact ⟨relation, hin, .inr ⟨column, hname, hhas⟩⟩
  · exact ⟨relation, hin, .inl hhas⟩

/-! ## What can fail on a changed statement -/

/-- The statements have the same select list, relation and counts. -/
structure SameOutside (statement statement' : Select) : Prop where
  fields : statement'.fields = statement.fields
  table : statement'.table = statement.table
  limit : statement'.limit = statement.limit
  offset : statement'.offset = statement.offset

/-- Every join names a relation of the catalog. -/
def JoinsFound (catalog : Catalog) (statement : Select) : Prop :=
  ∀ join ∈ statement.joins, ∃ relation ∈ catalog.relations.items,
    join.table = .ident ⟨relation.name⟩

/-- If the joins are found and there is no alias, then only a name of the predicate
can fail that did not fail before. -/
theorem Fails.exists_name {check : Check} {error : Error}
    (hpasses : ∀ check ∈ checks statement, Passes (Fails config catalog statement) check)
    (hsame : SameOutside statement statement')
    (hjoins : statement'.filter ≠ none → JoinsFound catalog statement')
    (halias : ∀ expr name, .node (.aliased expr name) ∉ checks statement')
    (hmem : check ∈ checks statement') (hfails : Fails config' catalog statement' check error) :
    ∃ name, .node (.ident ⟨name⟩) ∈ checks statement' ∧ error = .unknownPredicateColumn name ∧
      ¬ Resolves config' catalog statement' name := by
  -- Every other check is one of the old statement, or is ruled out by the joins or the alias.
  cases hfails with
  | counts hoffset hlimit =>
      rw [hsame.offset] at hoffset
      rw [hsame.limit] at hlimit
      exact absurd (.counts hoffset hlimit) (hpasses .counts (by simp [checks]) _)
  | projection hfields =>
      rw [hsame.fields] at hfields
      exact absurd (.projection hfields) (hpasses .projection (by simp [checks]) _)
  | source htable =>
      simp only [hsame.table] at htable
      exact absurd (.source htable) (hpasses .source (by simp [checks]) _)
  | relation htable hname =>
      rw [hsame.table] at htable
      exact absurd (.relation htable hname) (hpasses .relation (by simp [checks]) _)
  | @field relation field hsource hfield =>
      rw [Source, hsame.table] at hsource
      have hold : .field field ∈ checks statement := by
        simpa [checks, hsame.fields] using hmem
      exact absurd (.field hsource hfield) (hpasses _ hold _)
  | @joinSource join hfilter hscope htable =>
      have hjoin : join ∈ statement'.joins := by simpa [checks] using hmem
      obtain ⟨relation, -, hnamed⟩ := hjoins hfilter join hjoin
      exact absurd hnamed (htable relation.name)
  | @joinRelation join name hfilter hscope htable hname =>
      have hjoin : join ∈ statement'.joins := by simpa [checks] using hmem
      obtain ⟨relation, hrelation, hnamed⟩ := hjoins hfilter join hjoin
      rw [htable, Expr.ident.injEq, Ident.mk.injEq] at hnamed
      exact absurd hnamed.symm (hname relation hrelation)
  | «alias» => exact absurd hmem (halias _ _)
  | @column name hname => exact ⟨name, hmem, rfl, hname⟩

/-- A statement is planned over the relation that its FROM clause names. -/
theorem exists_source_of_plan {result : Plan} (hplan : plan config catalog statement = .ok result) :
    ∃ base, Source catalog statement base ∧ result = build statement base := by
  obtain ⟨base, hbase, -⟩ := exists_of_bind_eq_ok hplan
  have hsource := source_of_validate hbase
  exact ⟨base, hsource, eq_build_of_plan hsource hplan⟩

theorem plan_eq_build_iff {base : Relation} (hsource : Source catalog statement base) :
    plan config catalog statement = .ok (build statement base) ↔
      ∀ check ∈ checks statement, Passes (Fails config catalog statement) check := by
  rw [← judges_plan.exists_ok_iff]
  constructor
  · intro hplan
    exact ⟨_, hplan⟩
  · rintro ⟨result, hplan⟩
    rw [hplan, eq_build_of_plan hsource hplan]

/-! ## Filtering by what is projected -/

variable {predicate : Expr}

/-- The fields of a planned statement refer to columns of its relation. -/
theorem refers_of_field {base : Relation} {field : Ident}
    (hpasses : ∀ check ∈ checks statement, Passes (Fails config catalog statement) check)
    (hsource : Source catalog statement base) (hfield : field ∈ statement.fields)
    (hstar : field ≠ .star) : base.Refers field.name := by
  have hprojects : Projects base field := Classical.byContradiction fun hnot =>
    hpasses (.field field) (mem_checks_field.mpr hfield) _ (.field hsource hnot)
  rcases hprojects with hname | hrefers
  · obtain ⟨name⟩ := field
    exact absurd (congrArg Ident.mk hname) hstar
  · exact hrefers

theorem mem_checks_node_filterBy {node : Expr} :
    .node node ∈ checks (statement.filterBy predicate) ↔ node ∈ predicate.nodes := by
  simp [mem_checks_node, Select.filterBy]

/-- What is projected may be filtered by, wherever names of the whole catalog may
stand.  Among the relations of the statement this is so just if the predicate has no
hidden name, and a hidden name is what is reported otherwise. -/
theorem plan_filtered (config : PlannerConfig) (catalog : Catalog) (statement : Select)
    (predicate : Expr) (result : Plan) (hplan : plan config catalog statement = .ok result)
    (hjoins : JoinsFound catalog statement) (hover : predicate.IsOver statement.fields) :
    (∃ result, plan ⟨.catalog⟩ catalog (statement.filterBy predicate) = .ok result) ∧
    ((∃ result, plan ⟨.relation⟩ catalog (statement.filterBy predicate) = .ok result) ↔
      ∀ name, .ident ⟨name⟩ ∈ predicate.nodes → ¬ Hidden catalog statement name) ∧
    (∀ error, plan ⟨.relation⟩ catalog (statement.filterBy predicate) = .error error →
      ∃ name, .ident ⟨name⟩ ∈ predicate.nodes ∧ Hidden catalog statement name ∧
        error = .unknownPredicateColumn name) := by
  have hpasses := judges_plan.exists_ok_iff.mp ⟨result, hplan⟩
  obtain ⟨base, hsource, -⟩ := exists_source_of_plan hplan
  have hbase : InScope catalog statement base := ⟨hsource.1, .inl hsource.2⟩
  have hsame : SameOutside statement (statement.filterBy predicate) := ⟨rfl, rfl, rfl, rfl⟩
  have halias : ∀ expr name,
      .node (.aliased expr name) ∉ checks (statement.filterBy predicate) := by
    intro expr name hmem
    exact (hover.of_mem_nodes (mem_checks_node_filterBy.mp hmem)).1 expr name rfl
  have hrefers : ∀ name, .ident ⟨name⟩ ∈ predicate.nodes → base.Refers name := by
    intro name hnode
    obtain ⟨hfield, hstar⟩ := (hover.of_mem_nodes hnode).2 ⟨name⟩ rfl
    exact refers_of_field hpasses hsource hfield hstar
  -- So what fails is a name of the predicate, whatever the scope.
  have hname : ∀ {config' check error}, check ∈ checks (statement.filterBy predicate) →
      Fails config' catalog (statement.filterBy predicate) check error →
      ∃ name, .ident ⟨name⟩ ∈ predicate.nodes ∧ error = .unknownPredicateColumn name ∧
        ¬ Resolves config' catalog (statement.filterBy predicate) name := by
    intro config' check error hmem hfails
    obtain ⟨name, hnode, herror, hnot⟩ :=
      hfails.exists_name hpasses hsame (fun _ => hjoins) halias hmem
    exact ⟨name, mem_checks_node_filterBy.mp hnode, herror, hnot⟩
  -- In relation scope a name fails just if it is hidden.
  have hresolves : ∀ name, .ident ⟨name⟩ ∈ predicate.nodes →
      (Resolves ⟨.relation⟩ catalog (statement.filterBy predicate) name ↔
        ¬ Hidden catalog statement name) :=
    fun name hnode => resolves_iff_not_hidden rfl hbase (hrefers name hnode)
  refine ⟨?_, ?_, ?_⟩
  · -- In catalog scope the relation of the FROM clause suffices for every name.
    rw [judges_plan.exists_ok_iff]
    intro check hmem error hfails
    obtain ⟨name, hnode, -, hnot⟩ := hname hmem hfails
    exact hnot ⟨base, hsource.1, hrefers name hnode⟩
  · rw [judges_plan.exists_ok_iff]
    constructor
    · intro hpasses' name hnode hhidden
      refine hpasses' _ (mem_checks_node_filterBy.mpr hnode) _ (.column ?_)
      rw [hresolves name hnode]
      exact fun hshown => hshown hhidden
    · intro hshown check hmem error hfails
      obtain ⟨name, hnode, -, hnot⟩ := hname hmem hfails
      exact hnot ((hresolves name hnode).mpr (hshown name hnode))
  · intro error herror
    obtain ⟨check, hmem, hfails⟩ := (judges_plan.eq_error_iff.mp herror).exists_fails
    obtain ⟨name, hnode, rfl, hnot⟩ := hname hmem hfails
    rw [hresolves name hnode, Classical.not_not] at hnot
    exact ⟨name, hnode, hnot, rfl⟩

/-- Columns with a dotted name may be filtered by if the part in front of the dot is
no relation of the statement, or one that has the column. -/
theorem plan_filtered_dotted :
    let catalog := Catalog.ofList
      [{ name := "t", columns := .ofList [{ name := "a" }, { name := "x.y" }] },
       { name := "u", columns := .ofList [{ name := "b" }] }]
    let statement : Select :=
      { fields := [⟨"t.a"⟩, .star, ⟨"x.y"⟩]
        table := some (.ident ⟨"t"⟩)
        joins := [⟨.inner, .ident ⟨"u"⟩, ⟨.ident ⟨"t.a"⟩, .compare .eq, .ident ⟨"u.b"⟩⟩⟩] }
    let predicate : Expr :=
      .unary .not (.binary (.ident ⟨"t.a"⟩) .or (.binary (.ident ⟨"x.y"⟩) (.compare .lt)
        (.literal ⟨.int, "1"⟩)))
    (∃ result, plan ⟨.relation⟩ catalog statement = .ok result) ∧
      JoinsFound catalog statement ∧ predicate.IsOver statement.fields ∧
      (∃ result, plan ⟨.catalog⟩ catalog (statement.filterBy predicate) = .ok result) ∧
      ∀ name, .ident ⟨name⟩ ∈ predicate.nodes → ¬ Hidden catalog statement name := by
  intro catalog statement predicate
  have hplan : plan ⟨.relation⟩ catalog statement =
      .ok (.projection statement.fields (.tableScan "t")) := by
    decide +kernel
  have hfiltered : plan ⟨.relation⟩ catalog (statement.filterBy predicate) =
      .ok (.projection statement.fields (.filter predicate (.tableScan "t"))) := by
    decide +kernel
  have hjoins : JoinsFound catalog statement := by
    intro join hmem
    rw [List.mem_singleton.mp hmem]
    exact ⟨{ name := "u", columns := .ofList [{ name := "b" }] }, by decide +kernel, rfl⟩
  have hover : predicate.IsOver statement.fields :=
    .unary (.binary (.name (by decide) (by decide))
      (.binary (.name (by decide) (by decide)) .literal))
  obtain ⟨hcatalog, hrelation, -⟩ := plan_filtered _ _ _ _ _ hplan hjoins hover
  exact ⟨⟨_, hplan⟩, hjoins, hover, hcatalog, hrelation.mp ⟨_, hfiltered⟩⟩

/-- A column with a dotted name that the relation itself hides may be projected but
not filtered by. -/
theorem projected_is_hidden :
    let catalog := Catalog.ofList [{ name := "t", columns := .ofList [{ name := "t.a" }] }]
    let statement : Select := { fields := [⟨"t.a"⟩], table := some (.ident ⟨"t"⟩) }
    let predicate : Expr := .binary (.ident ⟨"t.a"⟩) (.compare .eq) (.literal ⟨.int, "1"⟩)
    (∃ result, plan ⟨.relation⟩ catalog statement = .ok result) ∧ statement.filter = none ∧
      JoinsFound catalog statement ∧ predicate.IsOver statement.fields ∧
      plan ⟨.relation⟩ catalog (statement.filterBy predicate) =
        .error (.unknownPredicateColumn "t.a") := by
  intro catalog statement predicate
  have hplan : plan ⟨.relation⟩ catalog statement =
      .ok (.projection statement.fields (.tableScan "t")) := by
    decide +kernel
  exact ⟨⟨_, hplan⟩, rfl, by simp [JoinsFound, statement],
    .binary (.name (by decide) (by decide)) .literal, by decide +kernel⟩

/-! ## A further join -/

variable {join : Join} {relation : Relation}

/-- The joins of a planned statement with a predicate are found. -/
theorem joinsFound_of_passes (hscope : config.predicateScope = .relation)
    (hpasses : ∀ check ∈ checks statement, Passes (Fails config catalog statement) check)
    (hfilter : statement.filter ≠ none) : JoinsFound catalog statement := by
  intro join hjoin
  have hchecked : Passes (Fails config catalog statement) (.join join) :=
    hpasses (.join join) (mem_checks_join.mpr hjoin)
  refine Classical.byContradiction fun hmissing => ?_
  -- A join names a relation that is missing, or it names none; both would have failed.
  by_cases htable : ∃ name, join.table = .ident ⟨name⟩
  · obtain ⟨name, htable⟩ := htable
    refine hchecked _ (.joinRelation hfilter hscope htable fun relation hmem hname => ?_)
    exact hmissing ⟨relation, hmem, hname ▸ htable⟩
  · exact hchecked _ (.joinSource hfilter hscope fun name hname => htable ⟨name, hname⟩)

theorem inScope_addJoin (hmem : relation ∈ catalog.relations.items)
    (htable : join.table = .ident ⟨relation.name⟩) {other : Relation} :
    InScope catalog (statement.addJoin join) other ↔
      InScope catalog statement other ∨ other = relation := by
  have hjoined : other ∈ catalog.relations.items ∧ join.table = .ident ⟨other.name⟩ ↔
      other = relation := by
    constructor
    · rintro ⟨hother, htable'⟩
      rw [htable, Expr.ident.injEq, Ident.mk.injEq] at htable'
      exact Directory.eq_of_name_eq hother hmem htable'.symm
    · rintro rfl
      exact ⟨hmem, htable⟩
  rw [← hjoined]
  simp only [InScope, Select.addJoin, List.mem_append, List.mem_singleton, or_and_right,
    exists_or, exists_eq_left, ← and_or_left, or_assoc]

theorem hidden_addJoin_iff (hmem : relation ∈ catalog.relations.items)
    (htable : join.table = .ident ⟨relation.name⟩) {name : String} :
    Hidden catalog (statement.addJoin join) name ↔
      Hidden catalog statement name ∨ relation.Hides name := by
  simp only [Hidden, inScope_addJoin hmem htable, or_and_right, exists_or, exists_eq_left]

theorem mem_checks_node_addJoin {node : Expr} :
    .node node ∈ checks (statement.addJoin join) ↔ .node node ∈ checks statement := by
  simp [mem_checks_node, Select.addJoin]

/-- A statement stays planned, with the same plan, when a relation is joined that
hides no name of its predicate; otherwise such a name is what is reported. -/
theorem plan_joined (catalog : Catalog) (statement : Select) (join : Join) (relation : Relation)
    (result : Plan) (hplan : plan ⟨.relation⟩ catalog statement = .ok result)
    (hmem : relation ∈ catalog.relations.items) (htable : join.table = .ident ⟨relation.name⟩) :
    (plan ⟨.relation⟩ catalog (statement.addJoin join) = .ok result ↔
      ∀ predicate ∈ statement.filter, ∀ name, .ident ⟨name⟩ ∈ predicate.nodes →
        ¬ relation.Hides name) ∧
    (∀ error, plan ⟨.relation⟩ catalog (statement.addJoin join) = .error error →
      ∃ predicate ∈ statement.filter, ∃ name, .ident ⟨name⟩ ∈ predicate.nodes ∧
        relation.Hides name ∧ error = .unknownPredicateColumn name) := by
  have hpasses := judges_plan.exists_ok_iff.mp ⟨result, hplan⟩
  obtain ⟨base, hsource, rfl⟩ := exists_source_of_plan hplan
  have hsame : SameOutside statement (statement.addJoin join) := ⟨rfl, rfl, rfl, rfl⟩
  have hjoins : statement.filter ≠ none → JoinsFound catalog (statement.addJoin join) := by
    intro hfilter other hother
    rcases List.mem_append.mp hother with hother | hother
    · exact joinsFound_of_passes rfl hpasses hfilter other hother
    · exact ⟨relation, hmem, List.mem_singleton.mp hother ▸ htable⟩
  have halias : ∀ expr name, .node (.aliased expr name) ∉ checks (statement.addJoin join) :=
    fun expr name hnode => hpasses _ (mem_checks_node_addJoin.mp hnode) _ .«alias»
  -- The names of the predicate resolved before, so only the new relation can hide them.
  have hresolves : ∀ name, .node (.ident ⟨name⟩) ∈ checks statement →
      (Resolves ⟨.relation⟩ catalog (statement.addJoin join) name ↔ ¬ relation.Hides name) := by
    intro name hnode
    have hold : Resolves ⟨.relation⟩ catalog statement name :=
      Classical.byContradiction fun hnot => hpasses _ hnode _ (.column hnot)
    obtain ⟨other, hin, hrefers⟩ := hold.exists_refers rfl
    have hshown := (resolves_iff_not_hidden rfl hin hrefers).mp hold
    have hin' := (inScope_addJoin hmem htable).mpr (.inl hin)
    rw [resolves_iff_not_hidden rfl hin' hrefers, hidden_addJoin_iff hmem htable, not_or,
      and_iff_right hshown]
  have hname : ∀ {check error}, check ∈ checks (statement.addJoin join) →
      Fails ⟨.relation⟩ catalog (statement.addJoin join) check error →
      ∃ name, .node (.ident ⟨name⟩) ∈ checks statement ∧ relation.Hides name ∧
        error = .unknownPredicateColumn name := by
    intro check error hcheck hfails
    obtain ⟨name, hnode, herror, hnot⟩ :=
      hfails.exists_name hpasses hsame hjoins halias hcheck
    have hnode := mem_checks_node_addJoin.mp hnode
    rw [hresolves name hnode, Classical.not_not] at hnot
    exact ⟨name, hnode, hnot, herror⟩
  constructor
  · have hbuild : build statement base = build (statement.addJoin join) base := rfl
    have hsource' : Source catalog (statement.addJoin join) base := hsource
    rw [hbuild, plan_eq_build_iff hsource']
    constructor
    · intro hpasses' predicate hfilter name hnode hhides
      have hnode : .node (.ident ⟨name⟩) ∈ checks statement :=
        mem_checks_node.mpr ⟨predicate, hfilter, hnode⟩
      refine hpasses' _ (mem_checks_node_addJoin.mpr hnode) _ (.column ?_)
      rw [hresolves name hnode]
      exact fun hshown => hshown hhides
    · intro hshown check hcheck error hfails
      obtain ⟨name, hnode, hhides, -⟩ := hname hcheck hfails
      obtain ⟨predicate, hfilter, hnode⟩ := mem_checks_node.mp hnode
      exact hshown predicate hfilter name hnode hhides
  · intro error herror
    obtain ⟨check, hcheck, hfails⟩ := (judges_plan.eq_error_iff.mp herror).exists_fails
    obtain ⟨name, hnode, hhides, rfl⟩ := hname hcheck hfails
    obtain ⟨predicate, hfilter, hnode⟩ := mem_checks_node.mp hnode
    exact ⟨predicate, hfilter, name, hnode, hhides, rfl⟩

/-- A join keeps the plan of a predicate over a dotted column of the relation that
was there, and over a column of the relation that is joined once more. -/
theorem plan_joined_dotted :
    let other : Relation := { name := "u", columns := .ofList [{ name := "a" }] }
    let catalog := Catalog.ofList
      [{ name := "t", columns := .ofList [{ name := "x.y" }, { name := "u.a" }] }, other]
    let statement : Select :=
      { fields := [⟨"x.y"⟩]
        table := some (.ident ⟨"t"⟩)
        filter := some (.binary (.ident ⟨"x.y"⟩) (.compare .eq) (.ident ⟨"u.a"⟩)) }
    let join : Join := ⟨.fullOuter, .ident ⟨"u"⟩, ⟨.ident ⟨"x.y"⟩, .compare .eq, .ident ⟨"a"⟩⟩⟩
    let result : Plan :=
      .projection [⟨"x.y"⟩] (.filter (.binary (.ident ⟨"x.y"⟩) (.compare .eq) (.ident ⟨"u.a"⟩))
        (.tableScan "t"))
    plan ⟨.relation⟩ catalog statement = .ok result ∧
      other ∈ catalog.relations.items ∧ join.table = .ident ⟨other.name⟩ ∧
      plan ⟨.relation⟩ catalog (statement.addJoin join) = .ok result ∧
      ¬ other.Hides "u.a" := by
  intro other catalog statement join result
  have hplan : plan ⟨.relation⟩ catalog statement = .ok result := by decide +kernel
  have hjoined : plan ⟨.relation⟩ catalog (statement.addJoin join) = .ok result := by
    decide +kernel
  have hmem : other ∈ catalog.relations.items := by decide +kernel
  have hshown := (plan_joined _ _ join other _ hplan hmem rfl).1.mp hjoined
  exact ⟨hplan, hmem, rfl, hjoined, hshown _ rfl "u.a" (by decide)⟩

/-- A relation that is joined takes over the names that it qualifies, also those it
has no column for. -/
theorem join_hides :
    let other : Relation := { name := "u", columns := .ofList [{ name := "b" }] }
    let catalog := Catalog.ofList [{ name := "t", columns := .ofList [{ name := "u.a" }] }, other]
    let statement : Select :=
      { fields := [⟨"u.a"⟩]
        table := some (.ident ⟨"t"⟩)
        filter := some (.binary (.ident ⟨"u.a"⟩) (.compare .eq) (.literal ⟨.int, "1"⟩)) }
    let join : Join := ⟨.inner, .ident ⟨"u"⟩, ⟨.ident ⟨"u.a"⟩, .compare .eq, .ident ⟨"b"⟩⟩⟩
    (∃ result, plan ⟨.relation⟩ catalog statement = .ok result) ∧
      other ∈ catalog.relations.items ∧ join.table = .ident ⟨other.name⟩ ∧
      plan ⟨.relation⟩ catalog (statement.addJoin join) =
        .error (.unknownPredicateColumn "u.a") := by
  intro other catalog statement join
  have hplan : plan ⟨.relation⟩ catalog statement =
      .ok (.projection [⟨"u.a"⟩]
        (.filter (.binary (.ident ⟨"u.a"⟩) (.compare .eq) (.literal ⟨.int, "1"⟩))
          (.tableScan "t"))) := by
    decide +kernel
  exact ⟨⟨_, hplan⟩, by decide +kernel, rfl, by decide +kernel⟩

end Planner

end SelectPlan
