import Mathlib.Data.List.Dedup
import Mathlib.Data.List.Induction
import Mathlib.Data.List.Sort
import SelectPlan.Proofs.Catalog.Document
import SelectPlan.Proofs.Planner.Lookup

/-!
# The latest item of each name

A directory into which items are filed one after the other is determined by the
last item of each name (`Directory.find?_ofList`, `Directory.ext_find?`), and so is
an ordered map in which each item is stored under its own name
(`getElem?_keyedBy`).  The map lists its values as the directory does, each with
its name (`toList_keyedBy`).
-/

namespace SelectPlan

variable {α β : Type} [Named α] [Named β]

/-! ## The last item of a name -/

/-- The last of the items that have the name. -/
def latest (name : String) (items : List α) : Option α :=
  items.reverse.find? fun item => Named.name item = name

theorem latest_concat (name : String) (items : List α) (item : α) :
    latest name (items ++ [item]) =
      if Named.name item = name then some item else latest name items := by
  rw [latest, List.reverse_append, List.reverse_singleton, List.singleton_append, List.find?_cons]
  by_cases h : Named.name item = name <;> simp [h, latest]

theorem name_of_latest {name : String} {items : List α} {item : α}
    (h : latest name items = some item) : Named.name item = name := by
  simpa using List.find?_some h

theorem latest_isSome_iff (name : String) (items : List α) :
    (latest name items).isSome ↔ name ∈ items.map Named.name := by
  simp [latest]

/-- A change that keeps the names keeps which items are the last. -/
theorem latest_map (change : α → β) (h : ∀ item, Named.name (change item) = Named.name item)
    (name : String) (items : List α) :
    latest name (items.map change) = (latest name items).map change := by
  rw [latest, ← List.map_reverse, List.find?_map, latest]
  simp only [Function.comp_def, h]

/-! ## Directories -/

/-- Lists in increasing order of names are the same if they have the same members. -/
theorem eq_of_increasing {γ : Type} {name : γ → String} {items items' : List γ}
    (h : items.Pairwise fun first second => name first < name second)
    (h' : items'.Pairwise fun first second => name first < name second)
    (hmem : ∀ item, item ∈ items ↔ item ∈ items') : items = items' := by
  have _ : Std.Irrefl fun first second : γ => name first < name second :=
    ⟨fun _ => String.lt_irrefl _⟩
  have _ : Std.Antisymm fun first second : γ => name first < name second :=
    ⟨fun _ _ hlt hgt => absurd hgt (String.lt_asymm hlt)⟩
  exact h.eq_of_mem_iff h' hmem

namespace Directory

/-- Every item is found under its own name. -/
theorem find?_name {directory : Directory α} {item : α} (h : item ∈ directory.items) :
    directory.find? (Named.name item) = some item :=
  find?_eq_some_iff.mpr ⟨h, rfl⟩

theorem find?_insert (directory : Directory α) (item : α) (name : String) :
    (directory.insert item).find? name =
      if Named.name item = name then some item else directory.find? name := by
  ext found
  rw [find?_eq_some_iff, mem_insert_iff]
  split
  · rename_i hname
    constructor
    · rintro ⟨rfl | ⟨-, hother⟩, hfound⟩
      · rfl
      · exact absurd (hfound.trans hname.symm) hother
    · intro hitem
      cases hitem
      exact ⟨.inl rfl, hname⟩
  · rename_i hname
    rw [find?_eq_some_iff]
    constructor
    · rintro ⟨rfl | ⟨hmem, -⟩, hfound⟩
      · exact absurd hfound hname
      · exact ⟨hmem, hfound⟩
    · rintro ⟨hmem, hfound⟩
      exact ⟨.inr ⟨hmem, fun hsame => hname (hsame ▸ hfound)⟩, hfound⟩

theorem ofList_concat (items : List α) (item : α) :
    ofList (items ++ [item]) = (ofList items).insert item :=
  List.foldl_concat ..

/-- The last item of each name is found. -/
theorem find?_ofList (items : List α) (name : String) :
    (ofList items).find? name = latest name items := by
  induction items using List.reverseRecOn with
  | nil => rfl
  | append_singleton items item ih => rw [ofList_concat, find?_insert, ih, latest_concat]

/-- In a directory no item is behind another one of its name. -/
theorem latest_items (directory : Directory α) (name : String) :
    latest name directory.items = directory.find? name := by
  rw [← find?_ofList, ofList_items]

/-- Directories in which the same items are found are the same. -/
theorem ext_find? {directory directory' : Directory α}
    (h : ∀ name, directory.find? name = directory'.find? name) : directory = directory' := by
  have hmem : ∀ item, item ∈ directory.items ↔ item ∈ directory'.items := by
    intro item
    have hfound : directory.find? (Named.name item) = some item ↔ _ := find?_eq_some_iff
    rw [h, find?_eq_some_iff] at hfound
    simpa using hfound.symm
  have hitems : directory.items = directory'.items :=
    eq_of_increasing directory.increasing directory'.increasing hmem
  cases directory
  cases directory'
  simpa using hitems

/-- A change that keeps the names can be made before or after the items are filed. -/
theorem items_ofList_map (change : α → β) (h : ∀ item, Named.name (change item) = Named.name item)
    (items : List α) : (ofList (items.map change)).items = (ofList items).items.map change := by
  have hmapped : ((ofList items).items.map change).Pairwise fun first second =>
      Named.name first < Named.name second := by
    rw [List.pairwise_map]
    simpa only [h] using (ofList items).increasing
  refine eq_of_increasing (ofList (items.map change)).increasing hmapped fun changed => ?_
  have hfound : (ofList (items.map change)).find? (Named.name changed) = some changed ↔ _ :=
    find?_eq_some_iff
  rw [find?_ofList, latest_map change h, ← find?_ofList, Option.map_eq_some_iff] at hfound
  simp only [find?_eq_some_iff, and_true] at hfound
  rw [← hfound, List.mem_map]
  constructor
  · rintro ⟨item, ⟨hitem, -⟩, rfl⟩
    exact ⟨item, hitem, rfl⟩
  · rintro ⟨item, hitem, rfl⟩
    exact ⟨item, ⟨hitem, (h item).symm⟩, rfl⟩

theorem names_nodup (directory : Directory α) : (directory.items.map Named.name).Nodup := by
  rw [List.nodup_iff_pairwise_ne, List.pairwise_map]
  refine directory.increasing.imp fun {first second} hlt heq => ?_
  rw [heq] at hlt
  exact String.lt_irrefl _ hlt

/-- There are as many items as there are different names. -/
theorem length_items_ofList (items : List α) :
    (ofList items).items.length = (items.map Named.name).dedup.length := by
  have hmem : ∀ name, name ∈ (ofList items).items.map Named.name ↔
      name ∈ (items.map Named.name).dedup := by
    intro name
    rw [List.mem_dedup, ← latest_isSome_iff name items, ← find?_ofList, find?, List.find?_isSome]
    simp
  rw [← List.length_map Named.name]
  exact ((List.perm_ext_iff_of_nodup (names_nodup _) (List.nodup_dedup _)).mpr hmem).length_eq

end Directory

/-! ## Ordered maps -/

/-- Stores items in turn, each under its own name, over the one that was there. -/
def keyedBy (items : List α) : Std.ExtTreeMap String α :=
  items.foldl (fun map item => map.insert (Named.name item) item) ∅

theorem keyedBy_concat (items : List α) (item : α) :
    keyedBy (items ++ [item]) = (keyedBy items).insert (Named.name item) item :=
  List.foldl_concat ..

theorem getElem?_keyedBy (items : List α) (name : String) :
    (keyedBy items)[name]? = latest name items := by
  induction items using List.reverseRecOn with
  | nil => exact Std.ExtTreeMap.getElem?_empty
  | append_singleton items item ih =>
      rw [keyedBy_concat, Std.ExtTreeMap.getElem?_insert, ih, latest_concat]
      simp only [Std.LawfulEqCmp.compare_eq_iff_eq]

/-- Of the items that were stored, those that are left make up the map. -/
theorem keyedBy_items_ofList (items : List α) :
    keyedBy (Directory.ofList items).items = keyedBy items := by
  refine Std.ExtTreeMap.ext_getElem? fun name => ?_
  rw [getElem?_keyedBy, getElem?_keyedBy, Directory.latest_items, Directory.find?_ofList]

/-- What is stored under a name has that name. -/
theorem name_of_getElem?_keyedBy {items : List α} {name : String} {item : α}
    (h : (keyedBy items)[name]? = some item) : Named.name item = name :=
  name_of_latest (getElem?_keyedBy items name ▸ h)

/-- The map lists the items of the directory in the same order, each behind its
name. -/
theorem toList_keyedBy (items : List α) :
    (keyedBy items).toList =
      (Directory.ofList items).items.map fun item => (Named.name item, item) := by
  have hmem : ∀ entry, entry ∈ (keyedBy items).toList ↔
      entry ∈ (Directory.ofList items).items.map fun item => (Named.name item, item) := by
    rintro ⟨name, item⟩
    rw [Std.ExtTreeMap.mem_toList_iff_getElem?_eq_some, getElem?_keyedBy, ← Directory.find?_ofList,
      Directory.find?_eq_some_iff]
    simp
  have hkeyed : (keyedBy items).toList.Pairwise fun first second => first.1 < second.1 :=
    (keyedBy items).ordered_keys_toList.imp fun hlt => compareOfLessAndEq_eq_lt.mp hlt
  have hfiled : ((Directory.ofList items).items.map fun item =>
      (Named.name item, item)).Pairwise fun first second => first.1 < second.1 := by
    rw [List.pairwise_map]
    exact (Directory.ofList items).increasing
  exact eq_of_increasing hkeyed hfiled hmem

end SelectPlan
