/-!
# Names

A name may be qualified: the part after its last dot is then the column, and
everything before that dot the relation.  The name `*` stands for all columns.
-/

namespace SelectPlan

/-- A name as it is written, qualifier included. -/
structure Ident where
  name : String
  deriving DecidableEq, Repr

/-- The two sides of the last dot of a text. -/
def splitLastDot : List Char → Option (List Char × List Char)
  | [] => none
  | c :: rest =>
    match splitLastDot rest with
    | some (front, back) => some (c :: front, back)
    | none => if c = '.' then some ([], rest) else none

theorem append_of_splitLastDot {text front back : List Char}
    (h : splitLastDot text = some (front, back)) : text = front ++ '.' :: back := by
  induction text generalizing front back with
  | nil => simp [splitLastDot] at h
  | cons c rest ih =>
      rw [splitLastDot] at h
      split at h
      · rename_i front' back' hrest
        simp only [Option.some.injEq, Prod.mk.injEq] at h
        obtain ⟨rfl, rfl⟩ := h
        simp [ih hrest]
      · split at h
        · rename_i hdot
          simp only [Option.some.injEq, Prod.mk.injEq] at h
          obtain ⟨rfl, rfl⟩ := h
          simp [hdot]
        · simp at h

namespace Ident

/-- The name that stands for all columns. -/
def star : Ident := ⟨"*"⟩

/-- Whether a name stands for all columns. -/
def isStar (ident : Ident) : Bool :=
  ident.name = "*"

/-- The qualifier of a name and the column it qualifies, where it has a dot. -/
def qualified? (ident : Ident) : Option (String × String) :=
  (splitLastDot ident.name.toList).map fun (front, back) =>
    (String.ofList front, String.ofList back)

/-- The part of a name before its last dot. -/
def qualifier? (ident : Ident) : Option String :=
  ident.qualified?.map Prod.fst

/-- The part of a name after its last dot, or all of it. -/
def column (ident : Ident) : String :=
  match ident.qualified? with
  | some (_, column) => column
  | none => ident.name

/-- The text of a name that may be missing. -/
def renderOption : Option Ident → String
  | some ident => ident.name
  | none => "NULL"

end Ident

end SelectPlan
