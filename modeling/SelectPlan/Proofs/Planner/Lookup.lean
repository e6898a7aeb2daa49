import SelectPlan.Catalog.Basic

/-!
# Looking up names

What the lookups of catalogs find, said without the order in which they look: a
name has at most one dot that is its last (`qualified?_eq_some_iff`), and a
directory has at most one item of a name (`Directory.find?_eq_some_iff`).
-/

namespace SelectPlan

/-! ## Qualified names -/

/-- The name is a qualifier, a dot and a column without a dot. -/
def Qualified (name qualifier column : String) : Prop :=
  name.toList = qualifier.toList ++ '.' :: column.toList ∧ '.' ∉ column.toList

theorem splitLastDot_eq_none_iff (text : List Char) : splitLastDot text = none ↔ '.' ∉ text := by
  induction text with
  | nil => simp [splitLastDot]
  | cons c rest ih =>
      rw [splitLastDot]
      cases hrest : splitLastDot rest with
      | some sides =>
          have hdot : '.' ∈ rest := by
            rw [← Decidable.not_not (p := '.' ∈ rest), ← ih, hrest]
            simp
          simp [hdot]
      | none =>
          have hnot : '.' ∉ rest := ih.mp hrest
          by_cases hc : c = '.'
          · simp [hc]
          · simp [hc, hnot, Ne.symm hc]

theorem splitLastDot_append {back : List Char} (h : '.' ∉ back) (front : List Char) :
    splitLastDot (front ++ '.' :: back) = some (front, back) := by
  induction front with
  | nil => simp [splitLastDot, (splitLastDot_eq_none_iff back).mpr h]
  | cons c front ih => rw [List.cons_append, splitLastDot, ih]

theorem not_mem_of_splitLastDot {text front back : List Char}
    (h : splitLastDot text = some (front, back)) : '.' ∉ back := by
  induction text generalizing front with
  | nil => simp [splitLastDot] at h
  | cons c rest ih =>
      rw [splitLastDot] at h
      split at h
      · rename_i front' back' hrest
        rw [Option.some_inj, Prod.mk.injEq] at h
        exact h.2 ▸ ih (h.2 ▸ hrest)
      · rename_i hnone
        split at h
        · rw [Option.some_inj, Prod.mk.injEq] at h
          exact h.2 ▸ (splitLastDot_eq_none_iff rest).mp hnone
        · cases h

theorem qualified?_eq_some_iff (ident : Ident) (qualifier column : String) :
    ident.qualified? = some (qualifier, column) ↔ Qualified ident.name qualifier column := by
  rw [Ident.qualified?, Option.map_eq_some_iff]
  constructor
  · rintro ⟨⟨front, back⟩, hsplit, hsides⟩
    cases hsides
    rw [Qualified, String.toList_ofList, String.toList_ofList]
    exact ⟨append_of_splitLastDot hsplit, not_mem_of_splitLastDot hsplit⟩
  · rintro ⟨hname, hdot⟩
    refine ⟨(qualifier.toList, column.toList), ?_, by simp⟩
    rw [hname]
    exact splitLastDot_append hdot qualifier.toList

theorem qualified?_eq_none_iff (ident : Ident) :
    ident.qualified? = none ↔ ∀ qualifier column, ¬ Qualified ident.name qualifier column := by
  constructor
  · intro hnone qualifier column hqualified
    rw [(qualified?_eq_some_iff ident qualifier column).mpr hqualified] at hnone
    cases hnone
  · intro hnone
    cases hsides : ident.qualified? with
    | none => rfl
    | some sides =>
        exact absurd ((qualified?_eq_some_iff ident _ _).mp hsides) (hnone _ _)

/-- A name has one qualifier and one column at most. -/
theorem Qualified.unique {name qualifier column qualifier' column' : String}
    (h : Qualified name qualifier column) (h' : Qualified name qualifier' column') :
    qualifier = qualifier' ∧ column = column' := by
  have hsides := (qualified?_eq_some_iff ⟨name⟩ _ _).mpr h
  rw [(qualified?_eq_some_iff ⟨name⟩ _ _).mpr h', Option.some_inj, Prod.mk.injEq] at hsides
  exact ⟨hsides.1.symm, hsides.2.symm⟩

/-! ## Directories -/

namespace Directory

variable {α : Type} [Named α] {directory : Directory α}

/-- Items of one name are the same item. -/
theorem eq_of_name_eq {first second : α} (hfirst : first ∈ directory.items)
    (hsecond : second ∈ directory.items) (h : Named.name first = Named.name second) :
    first = second := by
  -- Of two items at different places, one has the smaller name.
  have hself : ∀ item ∈ directory.items, Named.name item = Named.name item → item = item :=
    fun _ _ _ => rfl
  have hbelow : ∀ first second : α, Named.name first < Named.name second →
      Named.name first = Named.name second → first = second := by
    intro first second hlt hname
    rw [hname] at hlt
    exact absurd hlt (String.lt_irrefl _)
  have habove : ∀ first second : α, Named.name second < Named.name first →
      Named.name first = Named.name second → first = second :=
    fun first second hlt hname => (hbelow second first hlt hname.symm).symm
  exact List.Pairwise.forall_of_forall_of_flip hself
    (directory.increasing.imp (hbelow _ _)) (directory.increasing.imp (habove _ _))
    hfirst hsecond h

theorem find?_eq_some_iff {name : String} {item : α} :
    directory.find? name = some item ↔ item ∈ directory.items ∧ Named.name item = name := by
  constructor
  · intro hfind
    exact ⟨List.mem_of_find?_eq_some hfind, by simpa using List.find?_some hfind⟩
  · rintro ⟨hmem, rfl⟩
    cases hfind : directory.find? (Named.name item) with
    | none =>
        have hnone := List.find?_eq_none.mp hfind item hmem
        simp at hnone
    | some found =>
        have hname : Named.name found = Named.name item := by simpa using List.find?_some hfind
        rw [eq_of_name_eq (List.mem_of_find?_eq_some hfind) hmem hname]

theorem find?_eq_none_iff {name : String} :
    directory.find? name = none ↔ ∀ item ∈ directory.items, Named.name item ≠ name := by
  simp [find?, List.find?_eq_none]

theorem contains_iff {name : String} :
    directory.contains name = true ↔ ∃ item ∈ directory.items, Named.name item = name := by
  simp [contains]

theorem mem_insertInto_iff {item other : α} {items : List α}
    (h : items.Pairwise fun first second => Named.name first < Named.name second) :
    other ∈ insertInto item items ↔
      other = item ∨ other ∈ items ∧ Named.name other ≠ Named.name item := by
  induction items with
  | nil => simp [insertInto]
  | cons head rest ih =>
      obtain ⟨hhead, hrest⟩ := List.pairwise_cons.mp h
      have hbehind : ∀ next ∈ rest, Named.name item ≤ Named.name head →
          Named.name next ≠ Named.name item :=
        fun next hnext hle heq => String.not_lt.mpr hle (heq ▸ hhead next hnext)
      rw [insertInto]
      split
      -- All the items have greater names, so none of them is replaced.
      · rename_i hlt
        have hothers : ∀ next ∈ head :: rest, Named.name next ≠ Named.name item := by
          refine List.forall_mem_cons.mpr ⟨fun heq => ?_, fun next hnext =>
            hbehind next hnext (String.not_lt.mp (String.lt_asymm hlt))⟩
          exact String.lt_irrefl _ (heq ▸ hlt)
        rw [List.mem_cons]
        exact or_congr_right ⟨fun hmem => ⟨hmem, hothers _ hmem⟩, And.left⟩
      · rename_i hnotlt
        split
        · rename_i hgt
          have hne : Named.name head ≠ Named.name item := fun heq =>
            String.lt_irrefl _ (heq ▸ hgt)
          rw [List.mem_cons, List.mem_cons, ih hrest]
          constructor
          · rintro (rfl | rfl | ⟨hmem, hname⟩)
            · exact .inr ⟨.inl rfl, hne⟩
            · exact .inl rfl
            · exact .inr ⟨.inr hmem, hname⟩
          · rintro (rfl | ⟨rfl | hmem, hname⟩)
            · exact .inr (.inl rfl)
            · exact .inl rfl
            · exact .inr (.inr ⟨hmem, hname⟩)
        -- The head has the name of the item, and no item behind it does.
        · rename_i hnotgt
          have hname : Named.name head = Named.name item :=
            String.le_antisymm (String.not_lt.mp hnotlt) (String.not_lt.mp hnotgt)
          rw [List.mem_cons, List.mem_cons]
          constructor
          · rintro (rfl | hmem)
            · exact .inl rfl
            · exact .inr ⟨.inr hmem, hbehind other hmem (hname ▸ String.le_refl _)⟩
          · rintro (rfl | ⟨rfl | hmem, hother⟩)
            · exact .inl rfl
            · exact absurd hname hother
            · exact .inr hmem

/-- What a directory holds after an item is filed: that item, and all of other
names. -/
theorem mem_insert_iff {item other : α} :
    other ∈ (directory.insert item).items ↔
      other = item ∨ other ∈ directory.items ∧ Named.name other ≠ Named.name item :=
  mem_insertInto_iff directory.increasing

end Directory

/-- The relation has a column of this name. -/
def Relation.Has (relation : Relation) (name : String) : Prop :=
  ∃ column ∈ relation.columns.items, column.name = name

theorem Relation.hasColumn_iff {relation : Relation} {name : String} :
    relation.hasColumn name = true ↔ relation.Has name :=
  Directory.contains_iff

namespace Catalog

theorem relation?_eq_some_iff {catalog : Catalog} {name : String} {relation : Relation} :
    catalog.relation? name = some relation ↔
      relation ∈ catalog.relations.items ∧ relation.name = name :=
  Directory.find?_eq_some_iff

theorem relation?_eq_none_iff {catalog : Catalog} {name : String} :
    catalog.relation? name = none ↔
      ∀ relation ∈ catalog.relations.items, relation.name ≠ name :=
  Directory.find?_eq_none_iff

/-- A name is that of a column, or of a relation and one of its columns. -/
theorem hasColumn_iff {catalog : Catalog} {name : String} :
    catalog.hasColumn name = true ↔ ∃ relation ∈ catalog.relations.items,
      relation.Has name ∨ ∃ column, Qualified name relation.name column ∧ relation.Has column := by
  have hbare : catalog.relations.items.any (·.hasColumn name) = true ↔
      ∃ relation ∈ catalog.relations.items, relation.Has name := by
    simp only [List.any_eq_true, Relation.hasColumn_iff]
  cases hsides : Ident.qualified? ⟨name⟩ with
  | none =>
      have hnone := (qualified?_eq_none_iff ⟨name⟩).mp hsides
      simp only [hasColumn, hsides, Bool.or_false, hbare, hnone, false_and, exists_false, or_false]
  | some sides =>
      obtain ⟨qualifier, column⟩ := sides
      have hname := (qualified?_eq_some_iff ⟨name⟩ qualifier column).mp hsides
      -- A name is split in one way only, so the relation asked is the one that qualifies it.
      have hqualified : (catalog.relation? qualifier).any (·.hasColumn column) = true ↔
          ∃ relation ∈ catalog.relations.items,
            ∃ column, Qualified name relation.name column ∧ relation.Has column := by
        simp only [Option.any_eq_true, relation?_eq_some_iff, Relation.hasColumn_iff]
        constructor
        · rintro ⟨relation, ⟨hmem, rfl⟩, hhas⟩
          exact ⟨relation, hmem, column, hname, hhas⟩
        · rintro ⟨relation, hmem, column', hname', hhas⟩
          obtain ⟨hqualifier, rfl⟩ := hname.unique hname'
          exact ⟨relation, ⟨hmem, hqualifier.symm⟩, hhas⟩
      simp only [hasColumn, hsides, Bool.or_eq_true, hbare, hqualified, and_or_left, exists_or]

end Catalog

end SelectPlan
