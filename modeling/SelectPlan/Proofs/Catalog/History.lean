import SelectPlan.Proofs.Catalog.Draft
import SelectPlan.Shell.Session

/-!
# The history of a catalog

A catalog is filled, replaced and read in any order; relations are built, taken out of
it, renamed, extended and added again.  What it holds after all that is told by the
last relation of each name that was added since it was last replaced (`run_records`).

## Strategy

* `Store` lists what a way to keep relations and catalogs has to offer, and `run`
  carries out operations with any of them.  There are three: directories (`filed`),
  ordered maps from names (`mapped`), and a journal that forgets nothing (`journal`).
* If each thing that is offered has an image under another way (`Image`), so has each
  step, and so has each run (`Image.step`, `Image.run`).  Directories and maps are
  images of the journal.
* What a list of drafts tells of the catalog made of them holds for the journal of a
  run, and so for its images.
-/

namespace SelectPlan

open Json Text

/-! ## Runs of operations -/

namespace History

/-- A way to keep relations and catalogs: a relation without columns, with one more
column and with another name, a relation in a text; a catalog with one more relation,
the catalog of a list and of a text, and the relation of a name in a catalog. -/
structure Store (R C : Type) where
  blank : String → Option String → R
  addColumn : R → Column → R
  rename : R → String → R
  read? : String → Option R
  add : C → R → C
  collect : List R → C
  decode? : String → Option C
  relation? : C → String → Option R

/-- A catalog, and relations that are held in places outside of it. -/
structure State (R C : Type) where
  catalog : C
  held : Nat → R

/-- What is done to a catalog, and to relations on their way into it or out of it. -/
inductive Operation
  /-- A relation without columns is put in a place. -/
  | blank (place : Nat) (name : String) (location : Option String)
  /-- The relation in a place gets a column. -/
  | addColumn (place : Nat) (column : Column)
  /-- The relation in a place gets another name, and keeps its columns. -/
  | rename (place : Nat) (name : String)
  /-- The relation of a text is put in a place. -/
  | read (place : Nat) (text : String)
  /-- A copy of a relation of the catalog is put in a place. -/
  | take (place : Nat) (name : String)
  /-- A copy of what is in a place is added to the catalog. -/
  | add (place : Nat)
  /-- Copies of what is in some places replace the catalog. -/
  | collect (places : List Nat)
  /-- The catalog of a text replaces the catalog. -/
  | decode (text : String)

variable {R C R' C' : Type}

/-- Puts a relation in a place. -/
def State.hold (state : State R C) (place : Nat) (relation : R) : State R C :=
  { state with held := fun other => if other = place then relation else state.held other }

/-- The state with everything in it kept in another way. -/
def State.map (relation : R → R') (catalog : C → C') (state : State R C) : State R' C' :=
  ⟨catalog state.catalog, fun place => relation (state.held place)⟩

@[simp] theorem State.map_catalog (relation : R → R') (catalog : C → C') (state : State R C) :
    (state.map relation catalog).catalog = catalog state.catalog :=
  rfl

@[simp] theorem State.map_held (relation : R → R') (catalog : C → C') (state : State R C)
    (place : Nat) : (state.map relation catalog).held place = relation (state.held place) :=
  rfl

theorem State.map_hold (relation : R → R') (catalog : C → C') (state : State R C) (place : Nat)
    (content : R) :
    (state.hold place content).map relation catalog =
      (state.map relation catalog).hold place (relation content) := by
  rw [map, map, hold, hold]
  congr 1
  funext other
  split <;> simp [*]

namespace Store

/-- No relation is in the catalog, and every place has a relation without columns. -/
def start (store : Store R C) : State R C :=
  ⟨store.collect [], fun _ => store.blank "" none⟩

/-- Carries out an operation.  What is not found or not read leaves everything as it
was. -/
def step (store : Store R C) (state : State R C) : Operation → State R C
  | .blank place name location => state.hold place (store.blank name location)
  | .addColumn place column => state.hold place (store.addColumn (state.held place) column)
  | .rename place name => state.hold place (store.rename (state.held place) name)
  | .read place text => (store.read? text).elim state (state.hold place)
  | .take place name => (store.relation? state.catalog name).elim state (state.hold place)
  | .add place => { state with catalog := store.add state.catalog (state.held place) }
  | .collect places => { state with catalog := store.collect (places.map state.held) }
  | .decode text => { state with catalog := (store.decode? text).getD state.catalog }

/-- Carries out operations in turn. -/
def run (store : Store R C) (operations : List Operation) : State R C :=
  operations.foldl store.step store.start

/-- The second way to keep relations and catalogs is an image of the first. -/
structure Image (store : Store R C) (other : Store R' C') (relation : R → R') (catalog : C → C') :
    Prop where
  blank : ∀ name location, relation (store.blank name location) = other.blank name location
  addColumn : ∀ content column,
    relation (store.addColumn content column) = other.addColumn (relation content) column
  rename : ∀ content name,
    relation (store.rename content name) = other.rename (relation content) name
  read? : ∀ text, (store.read? text).map relation = other.read? text
  add : ∀ content added,
    catalog (store.add content added) = other.add (catalog content) (relation added)
  collect : ∀ list, catalog (store.collect list) = other.collect (list.map relation)
  decode? : ∀ text, (store.decode? text).map catalog = other.decode? text
  relation? : ∀ content name,
    (store.relation? content name).map relation = other.relation? (catalog content) name

variable {store : Store R C} {other : Store R' C'} {relation : R → R'} {catalog : C → C'}

theorem Image.step (h : Image store other relation catalog) (state : State R C)
    (operation : Operation) :
    (store.step state operation).map relation catalog =
      other.step (state.map relation catalog) operation := by
  cases operation with
  | blank place name location =>
      rw [Store.step, Store.step, State.map_hold, h.blank]
  | addColumn place column =>
      rw [Store.step, Store.step, State.map_hold, h.addColumn, State.map_held]
  | rename place name =>
      rw [Store.step, Store.step, State.map_hold, h.rename, State.map_held]
  | read place text =>
      rw [Store.step, Store.step, ← h.read?]
      cases store.read? text with
      | none => rfl
      | some content => exact State.map_hold ..
  | take place name =>
      rw [Store.step, Store.step, State.map_catalog, ← h.relation?]
      cases store.relation? state.catalog name with
      | none => rfl
      | some content => exact State.map_hold ..
  | add place =>
      rw [Store.step, Store.step, State.map_catalog, State.map_held, ← h.add]
      rfl
  | collect places =>
      rw [Store.step, Store.step, State.map, State.map, h.collect, List.map_map]
      rfl
  | decode text =>
      rw [Store.step, Store.step, State.map, State.map, ← h.decode?]
      cases store.decode? text <;> rfl

/-- The same operations lead to the image of what they lead to. -/
theorem Image.run (h : Image store other relation catalog) (operations : List Operation) :
    (store.run operations).map relation catalog = other.run operations := by
  have hstart : store.start.map relation catalog = other.start := by
    rw [start, start, State.map, h.collect]
    simp only [h.blank, List.map_nil]
  rw [Store.run, Store.run, ← hstart]
  generalize store.start = state
  induction operations generalizing state with
  | nil => rfl
  | cons operation rest ih => rw [List.foldl_cons, List.foldl_cons, ih, h.step]

end Store

/-! ## Three ways to keep relations and catalogs -/

/-- Relations and catalogs as they are kept in directories. -/
def filed : Store Relation Catalog where
  blank name location := { name := name, location := location }
  addColumn := Relation.addColumn
  rename relation name := { relation with name := name }
  read? := decode? Relation.ofJson?
  add := Catalog.add
  collect := Catalog.ofList
  decode? := decode? Catalog.ofJson?
  relation? := Catalog.relation?

/-- The journal: drafts in the order in which they were added to the catalog since
it was last replaced.  Nothing that was added is lost. -/
def journal : Store Draft (List Draft) where
  blank name location := { name := name, location := location }
  addColumn draft column := { draft with columns := draft.columns ++ [column] }
  rename draft name := { draft with name := name }
  read? := decode? Draft.ofJson?
  add drafts draft := drafts ++ [draft]
  collect drafts := drafts
  decode? := decode? Draft.listOfJson?
  relation? drafts name := latest name drafts

/-- Ordered maps, in which relations and columns are stored under names. -/
def mapped : Store MappedRelation (Std.ExtTreeMap String MappedRelation) where
  blank name location := ⟨name, location, ∅⟩
  addColumn relation column :=
    { relation with columns := relation.columns.insert column.name column }
  rename relation name := { relation with name := name }
  read? text := (decode? Draft.ofJson? text).map Draft.mapped
  add catalog relation := catalog.insert relation.name relation
  collect := keyedBy
  decode? text :=
    (decode? Draft.listOfJson? text).map fun drafts => keyedBy (drafts.map Draft.mapped)
  relation? catalog name := catalog[name]?

theorem map_decode? {α β : Type} {read? : Json → Option α} {change : α → β} (text : String) :
    (decode? read? text).map change = decode? (fun json => (read? json).map change) text := by
  rw [decode?, decode?, Option.map_bind]
  rfl

theorem journal_filed : Store.Image journal filed Draft.relation
    fun drafts => Catalog.ofList (drafts.map Draft.relation) where
  blank _ _ := rfl
  addColumn draft column := by
    simp only [journal, filed, Draft.relation, Relation.addColumn, Directory.ofList_concat]
  rename _ _ := rfl
  read? text := by
    simp only [journal, filed, map_decode?, Draft.map_relation_ofJson?]
  add drafts draft := by
    simp only [journal, filed, Catalog.add, Catalog.ofList, List.map_append, List.map_singleton,
      Directory.ofList_concat]
  collect _ := rfl
  decode? text := by
    simp only [journal, filed, map_decode?, Draft.map_ofList_listOfJson?]
  relation? drafts name := by
    simp only [journal, filed, Catalog.relation?, Catalog.ofList, Directory.find?_ofList]
    exact (Draft.latest_map_relation name drafts).symm

theorem journal_mapped : Store.Image journal mapped Draft.mapped
    fun drafts => keyedBy (drafts.map Draft.mapped) where
  blank _ _ := rfl
  addColumn draft column := by
    simp only [journal, mapped, Draft.mapped, keyedBy_concat]
    rfl
  rename _ _ := rfl
  read? _ := rfl
  add drafts draft := by
    simp only [journal, mapped, List.map_append, List.map_singleton, keyedBy_concat]
    rfl
  collect _ := rfl
  decode? _ := rfl
  relation? drafts name := by
    simp only [journal, mapped, getElem?_keyedBy]
    exact (Draft.latest_map_mapped name drafts).symm

/-! ## What the history tells -/

/-- After any operations, the catalog is what the relations tell that were added
since it was last replaced, and a relation that is held is what its columns tell.
Kept in maps, everything is stored under its own name.  Operations that add the same
last relation of each name lead to the same catalog, and so to the same answers,
listings and texts. -/
theorem run_records (operations : List Operation) :
    (filed.run operations).catalog.Records (journal.run operations).catalog ∧
    (∀ place, ((filed.run operations).held place).Records ((journal.run operations).held place)) ∧
    (filed.run operations).catalog.StoredIn (mapped.run operations).catalog ∧
    (∀ place, (mapped.run operations).held place = ((filed.run operations).held place).mapped) ∧
    ∀ operations', (∀ name,
        (latest name (journal.run operations).catalog).map Draft.relation =
          (latest name (journal.run operations').catalog).map Draft.relation) →
      (filed.run operations).catalog = (filed.run operations').catalog ∧
      (mapped.run operations).catalog = (mapped.run operations').catalog ∧
      (∀ name, (filed.run operations).catalog.hasColumn name =
        (filed.run operations').catalog.hasColumn name) ∧
      (filed.run operations).catalog.relations.items.map Shell.tableLine =
        (filed.run operations').catalog.relations.items.map Shell.tableLine ∧
      encode Catalog.toJson (filed.run operations).catalog =
        encode Catalog.toJson (filed.run operations').catalog := by
  -- The other two ways to keep relations are images of the journal.
  have hfiled := journal_filed.run
  have hmapped := journal_mapped.run
  refine ⟨?_, fun place => ?_, ?_, fun place => ?_, fun operations' hsame => ?_⟩
  · rw [← hfiled]
    exact Catalog.records_ofList _
  · rw [← hfiled]
    exact Draft.records_relation _
  · rw [← hfiled, ← hmapped]
    exact Catalog.storedIn_keyedBy _
  · rw [← hfiled, ← hmapped]
    exact (Draft.mapped_relation _).symm
  · -- A directory is what it answers, so equal last relations make equal directories.
    have hcatalog : (filed.run operations).catalog = (filed.run operations').catalog := by
      rw [← hfiled, ← hfiled, State.map_catalog, State.map_catalog]
      refine congrArg Catalog.mk (Directory.ext_find? fun name => ?_)
      rw [Directory.find?_ofList, Directory.find?_ofList, Draft.latest_map_relation,
        Draft.latest_map_relation, hsame]
    have hmap : (mapped.run operations).catalog = (mapped.run operations').catalog := by
      rw [← hmapped, ← hmapped, State.map_catalog, State.map_catalog]
      refine Std.ExtTreeMap.ext_getElem? fun name => ?_
      have hstored := (Catalog.storedIn_keyedBy (journal.run operations).catalog).relation? name
      have hstored' := (Catalog.storedIn_keyedBy (journal.run operations').catalog).relation? name
      rw [hstored, hstored', (Catalog.records_ofList _).relation?,
        (Catalog.records_ofList _).relation?, hsame]
    rw [hcatalog]
    exact ⟨rfl, hmap, fun _ => rfl, rfl, rfl⟩

/-- A relation without columns is replaced by another one that is renamed and
extended on its way back. -/
def putBack : List Operation :=
  [.blank 0 "u" none, .addColumn 0 { name := "b", type := .text }, .add 0, .blank 1 "t" none,
    .add 1, .take 2 "u", .rename 2 "t", .addColumn 2 { name := "a" }, .add 2]

/-- The same relations are built and replace a catalog of something else, the other
one first. -/
def collected : List Operation :=
  [.blank 0 "t" none, .addColumn 0 { name := "a" }, .addColumn 0 { name := "b", type := .text },
    .blank 1 "u" none, .addColumn 1 { name := "b" }, .addColumn 1 { name := "b", type := .text },
    .blank 2 "v" none, .add 2, .collect [0, 1]]

/-- Two relations come into a catalog on different ways and in different order. -/
theorem run_records_collected :
    (filed.run putBack).catalog = (filed.run collected).catalog ∧
      (filed.run collected).catalog.size = 2 := by
  have hputBack : (journal.run putBack).catalog =
      [{ name := "u", columns := [{ name := "b", type := .text }] }, { name := "t" },
        { name := "t", columns := [{ name := "b", type := .text }, { name := "a" }] }] := by
    decide
  have hcollected : (journal.run collected).catalog =
      [{ name := "t", columns := [{ name := "a" }, { name := "b", type := .text }] },
        { name := "u", columns := [{ name := "b" }, { name := "b", type := .text }] }] := by
    decide
  have hsame : ∀ name, (latest name (journal.run putBack).catalog).map Draft.relation =
      (latest name (journal.run collected).catalog).map Draft.relation := by
    intro name
    rw [hputBack, hcollected]
    by_cases ht : name = "t"
    · subst ht
      decide
    · by_cases hu : name = "u"
      · subst hu
        decide
      · simp [latest, Named.name, Ne.symm ht, Ne.symm hu]
  obtain ⟨-, -, -, -, hcatalog⟩ := run_records putBack
  refine ⟨(hcatalog collected hsame).1, ?_⟩
  rw [(run_records collected).1.size, hcollected]
  decide

end History

end SelectPlan
