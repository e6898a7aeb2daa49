/-!
# Directories of named items

A directory holds items under their own names, one to a name, in increasing
order of names.  Names are compared by code points, which is also the order of
their UTF-8 bytes.  The order is part of the type, so two directories with the
same items are equal.
-/

namespace SelectPlan

/-- Things that have a name. -/
class Named (α : Type) where
  name : α → String

/-- Items in strictly increasing order of their names. -/
structure Directory (α : Type) [Named α] where
  items : List α := []
  increasing : items.Pairwise fun first second => Named.name first < Named.name second := by
    simp
  deriving DecidableEq

namespace Directory

variable {α : Type} [Named α]

/-- Files an item before the first one of a greater name, in place of one of the
same name. -/
def insertInto (item : α) : List α → List α
  | [] => [item]
  | head :: rest =>
    if Named.name item < Named.name head then item :: head :: rest
    else if Named.name head < Named.name item then head :: insertInto item rest
    else item :: rest

theorem mem_of_mem_insertInto {item other : α} {items : List α}
    (h : other ∈ insertInto item items) : other = item ∨ other ∈ items := by
  induction items with
  | nil => simpa [insertInto] using h
  | cons head rest ih =>
      unfold insertInto at h
      split at h
      · simpa using h
      · split at h
        · rcases List.mem_cons.mp h with rfl | h
          · simp
          · rcases ih h with h | h <;> simp [h]
        · rcases List.mem_cons.mp h with rfl | h <;> simp_all

theorem pairwise_insertInto (item : α) {items : List α}
    (h : items.Pairwise fun first second => Named.name first < Named.name second) :
    (insertInto item items).Pairwise fun first second => Named.name first < Named.name second := by
  induction items with
  | nil => simp [insertInto]
  | cons head rest ih =>
      obtain ⟨hhead, hrest⟩ := List.pairwise_cons.mp h
      unfold insertInto
      split
      -- The item goes in front of `head`, and so in front of everything after it.
      · rename_i hlt
        refine List.pairwise_cons.mpr ⟨fun other hother => ?_, h⟩
        rcases List.mem_cons.mp hother with rfl | hother
        · exact hlt
        · exact String.lt_trans hlt (hhead other hother)
      · rename_i hnotlt
        split
        -- It goes further back; `head` stays below it and below all that was there.
        · rename_i hgt
          refine List.pairwise_cons.mpr ⟨fun other hother => ?_, ih hrest⟩
          rcases mem_of_mem_insertInto hother with rfl | hother
          · exact hgt
          · exact hhead other hother
        -- Neither name is below the other, so the item takes the place of `head`.
        · rename_i hnotgt
          have hname : Named.name item = Named.name head :=
            String.le_antisymm (String.not_lt.mp hnotgt) (String.not_lt.mp hnotlt)
          exact List.pairwise_cons.mpr ⟨fun other hother => hname ▸ hhead other hother, hrest⟩

/-- Files an item, in place of one of the same name. -/
def insert (directory : Directory α) (item : α) : Directory α :=
  ⟨insertInto item directory.items, pairwise_insertInto item directory.increasing⟩

/-- Files items in turn, so that the last of a name stays. -/
def ofList (items : List α) : Directory α :=
  items.foldl insert {}

/-- The item of a name. -/
def find? (directory : Directory α) (name : String) : Option α :=
  directory.items.find? fun item => Named.name item = name

/-- Whether there is an item of a name. -/
def contains (directory : Directory α) (name : String) : Bool :=
  directory.items.any fun item => Named.name item = name

end Directory

end SelectPlan
