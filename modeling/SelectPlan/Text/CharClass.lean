import SelectPlan.Text.Alphabetic
import SelectPlan.Text.Numeric

/-!
# Character classes

Letters, numerals and blanks are the Unicode properties `Alphabetic`, the number
categories and `White_Space`.  A class is a list of code point ranges in
increasing order, so a search may stop at the first range that starts too late.
-/

namespace SelectPlan.Text

/-- Whether a code point lies in one of the ranges, which are in increasing
order. -/
def inRanges (code : Nat) : List (Nat × Nat) → Bool
  | [] => false
  | (first, last) :: later => first ≤ code && (code ≤ last || inRanges code later)

theorem inRanges_cons {code first last : Nat} {later : List (Nat × Nat)} (hfirst : first ≤ code)
    (hlater : code ≤ last ∨ inRanges code later = true) :
    inRanges code ((first, last) :: later) = true := by
  simpa [inRanges, hfirst] using hlater

/-- The code points with the property `White_Space`. -/
def whiteSpace : List (Nat × Nat) :=
  [(0x9, 0xD), (0x20, 0x20), (0x85, 0x85), (0xA0, 0xA0), (0x1680, 0x1680), (0x2000, 0x200A),
   (0x2028, 0x2029), (0x202F, 0x202F), (0x205F, 0x205F), (0x3000, 0x3000)]

/-- Whether a character is alphabetic, and so may start a word. -/
def isLetter (c : Char) : Bool :=
  inRanges c.toNat alphabeticBasic || inRanges c.toNat alphabeticSupplementary

/-- Whether a character belongs to a number category. -/
def isNumeral (c : Char) : Bool :=
  inRanges c.toNat numeric

/-- Whether a character may stand inside a word; dots have a rule of their own. -/
def isWordChar (c : Char) : Bool :=
  isLetter c || isNumeral c || c = '_'

/-- Whether a character is white space. -/
def isBlank (c : Char) : Bool :=
  inRanges c.toNat whiteSpace

theorem isWordChar_of_isLetter {c : Char} (h : isLetter c = true) : isWordChar c = true := by
  simp [isWordChar, h]

theorem isNumeral_of_isDigit {c : Char} (h : c.isDigit = true) : isNumeral c = true := by
  have hcode : 0x30 ≤ c.toNat ∧ c.toNat ≤ 0x39 := by
    change (decide (c.val ≥ '0'.val) && decide (c.val ≤ '9'.val)) = true at h
    simpa [UInt32.le_iff_toNat_le] using h
  unfold isNumeral numeric
  exact inRanges_cons hcode.1 (.inl hcode.2)

/-! ## Trimming -/

/-- The text without the blanks at its end. -/
def trimEnd : List Char → List Char
  | [] => []
  | c :: rest =>
    match trimEnd rest with
    | [] => if isBlank c then [] else [c]
    | kept => c :: kept

/-- The text without the blanks at its two ends. -/
def trim (text : List Char) : List Char :=
  trimEnd (text.dropWhile isBlank)

end SelectPlan.Text
