import Mathlib.Data.List.Induction
import Mathlib.Data.List.TakeWhile
import Mathlib.Data.Nat.Digits.Defs
import SelectPlan.Proofs.Scanner.Spelling

/-!
# How numbers are written

The tests on number texts take a text apart from its front.  This file says what
they accept without taking anything apart:

* `Integer text value`: an optional sign and at least one digit, with the value
  that the digits have in base ten (`integer?_eq_some_iff`);
* `Decimal text`: an optional sign, digits on at least one side of an optional
  point, and an optional exponent with digits of its own (`isDecimal_iff`).

An integer counts as one only where 64 bits hold its value, and a text that is no
such integer is looked at as a decimal: `numberToken_eq_iff`.
-/

namespace SelectPlan

namespace Number

/-! ## Signs, digits and exponents -/

/-- A text of digits; it may be empty. -/
def Digits (text : List Char) : Prop :=
  ∀ c ∈ text, c.isDigit = true

/-- A text of at least one digit. -/
def SomeDigits (text : List Char) : Prop :=
  text ≠ [] ∧ Digits text

/-- A sign, or nothing. -/
def Sign (text : List Char) : Prop :=
  text = [] ∨ text = ['+'] ∨ text = ['-']

/-- An exponent: its mark, an optional sign, and a power of the given kind. -/
def Exponent (kind : List Char → Prop) (text : List Char) : Prop :=
  ∃ mark sign power,
    text = mark :: (sign ++ power) ∧ (mark = 'e' ∨ mark = 'E') ∧ Sign sign ∧ kind power

theorem SomeDigits.head {text : List Char} (h : SomeDigits text) (more : List Char) :
    ∀ c ∈ (text ++ more).head?, c.isDigit = true := by
  obtain ⟨first, rest, rfl⟩ := List.exists_cons_of_ne_nil h.1
  intro c hc
  obtain rfl : first = c := by simpa using hc
  exact h.2 first (List.mem_cons_self ..)

theorem isDigits_iff (text : List Char) : isDigits text = true ↔ SomeDigits text := by
  simp [isDigits, SomeDigits, Digits]

theorem isSign_iff (c : Char) : isSign c = true ↔ c = '+' ∨ c = '-' := by
  simp [isSign]

/-- Digits go as far as a run that no digit follows. -/
theorem takeWhile_isDigit {digits more : List Char} (hdigits : Digits digits)
    (hmore : ∀ c ∈ more.head?, c.isDigit = false) :
    (digits ++ more).takeWhile Char.isDigit = digits := by
  have hnone : more.takeWhile Char.isDigit = [] := by
    cases more with
    | nil => rfl
    | cons c rest => exact List.takeWhile_cons_of_neg (by simp [hmore c rfl])
  rw [List.takeWhile_append_of_pos hdigits, hnone, List.append_nil]

theorem dropWhile_isDigit {digits more : List Char} (hdigits : Digits digits)
    (hmore : ∀ c ∈ more.head?, c.isDigit = false) :
    (digits ++ more).dropWhile Char.isDigit = more := by
  rw [List.dropWhile_append_of_pos hdigits]
  cases more with
  | nil => rfl
  | cons c rest => exact List.dropWhile_cons_of_neg (by simp [hmore c rfl])

theorem digits_takeWhile (text : List Char) : Digits (text.takeWhile Char.isDigit) :=
  fun _ hc => List.mem_takeWhile_imp hc

/-- What stands after the digits of a text does not start with a digit. -/
theorem head_dropWhile_isDigit (text : List Char) :
    ∀ c ∈ (text.dropWhile Char.isDigit).head?, c.isDigit = false := by
  intro c hc
  have := List.head?_dropWhile_not Char.isDigit text
  rw [Option.mem_def.mp hc] at this
  simpa using this

theorem sign_take (text : List Char) : Sign (text.take (signLength text)) := by
  cases text with
  | nil => exact .inl rfl
  | cons c rest =>
      rw [signLength]
      split
      · rename_i hsign
        rcases (isSign_iff c).mp hsign with rfl | rfl
        · exact .inr (.inl rfl)
        · exact .inr (.inr rfl)
      · exact .inl rfl

theorem take_signLength_append_dropSign (text : List Char) :
    text.take (signLength text) ++ dropSign text = text :=
  List.take_append_drop _ _

/-- A sign is dropped where no second one follows it. -/
theorem dropSign_append {sign more : List Char} (hsign : Sign sign)
    (hmore : ∀ c ∈ more.head?, isSign c = false) : dropSign (sign ++ more) = more := by
  rcases hsign with rfl | rfl | rfl
  · rw [List.nil_append, dropSign, (signLength_eq_zero_iff more).mpr hmore, List.drop_zero]
  · rfl
  · rfl

theorem isExponent_iff (text : List Char) :
    isExponent text = true ↔ text = [] ∨ Exponent SomeDigits text := by
  cases text with
  | nil => simp [isExponent]
  | cons mark rest =>
      simp only [isExponent, Bool.and_eq_true, Bool.or_eq_true, decide_eq_true_eq, isDigits_iff,
        reduceCtorEq, false_or]
      constructor
      · rintro ⟨hmark, hpower⟩
        refine ⟨mark, rest.take (signLength rest), dropSign rest, ?_, hmark, sign_take rest, hpower⟩
        rw [take_signLength_append_dropSign]
      · rintro ⟨mark', sign, power, htext, hmark, hsign, hpower⟩
        obtain ⟨rfl, rfl⟩ := List.cons.inj htext
        have hhead : ∀ c ∈ power.head?, isSign c = false := by
          intro c hc
          rw [← List.append_nil power] at hc
          exact isSign_eq_false_of_isDigit (hpower.head [] c hc)
        rw [dropSign_append hsign hhead]
        exact ⟨hmark, hpower⟩

/-! ## Integers -/

/-- The value of a digit. -/
def digit (c : Char) : Nat :=
  c.toNat - '0'.toNat

/-- The value of digits in base ten, the last of them the ones. -/
def magnitude (digits : List Char) : Nat :=
  Nat.ofDigits 10 (digits.reverse.map digit)

/-- The texts of integers, with their exact values. -/
inductive Integer : List Char → Int → Prop
  | unsigned {digits : List Char} (some : SomeDigits digits) : Integer digits (magnitude digits)
  | plus {digits : List Char} (some : SomeDigits digits) :
      Integer ('+' :: digits) (magnitude digits)
  | minus {digits : List Char} (some : SomeDigits digits) :
      Integer ('-' :: digits) (-(magnitude digits : Int))

/-- A text writes an integer that a signed number of 64 bits holds. -/
def Fits (text : List Char) : Prop :=
  ∃ value, Integer text value ∧ -2 ^ 63 ≤ value ∧ value ≤ 2 ^ 63 - 1

theorem digitsValue_eq_magnitude (digits : List Char) : digitsValue digits = magnitude digits := by
  induction digits using List.reverseRecOn with
  | nil => rfl
  | append_singleton digits last ih =>
      calc digitsValue (digits ++ [last]) = 10 * digitsValue digits + digit last := by
            rw [digitsValue, List.foldl_append]
            rfl
        _ = digit last + 10 * magnitude digits := by rw [ih, Nat.add_comm]
        _ = magnitude (digits ++ [last]) := by
            rw [magnitude, magnitude, List.reverse_append, List.reverse_singleton,
              List.singleton_append, List.map_cons, Nat.ofDigits_cons]

/-- What has a value is a sign and digits. -/
theorem someDigits_of_integer? {text : List Char} {value : Int} (h : integer? text = some value) :
    SomeDigits (dropSign text) := by
  unfold integer? at h
  split at h
  · rename_i hdigits
    exact (isDigits_iff _).mp hdigits
  · cases h

theorem Integer.integer?_eq {text : List Char} {value : Int} (h : Integer text value) :
    integer? text = some value := by
  cases h with
  | unsigned hdigits =>
      have hhead : ∀ c ∈ text.head?, c.isDigit = true := by
        simpa using hdigits.head []
      have hdrop : dropSign text = text :=
        dropSign_append (.inl rfl) fun c hc => isSign_eq_false_of_isDigit (hhead c hc)
      have hminus : text.head? ≠ some '-' := fun hc => absurd (hhead '-' hc) (by decide)
      rw [integer?, hdrop, if_pos ((isDigits_iff _).mpr hdigits)]
      dsimp only
      rw [if_neg hminus, digitsValue_eq_magnitude]
  | @plus digits hdigits =>
      have hdrop : dropSign ('+' :: digits) = digits := rfl
      rw [integer?, hdrop, if_pos ((isDigits_iff _).mpr hdigits), digitsValue_eq_magnitude]
      rfl
  | @minus digits hdigits =>
      have hdrop : dropSign ('-' :: digits) = digits := rfl
      rw [integer?, hdrop, if_pos ((isDigits_iff _).mpr hdigits), digitsValue_eq_magnitude]
      rfl

theorem integer?_eq_some_iff (text : List Char) (value : Int) :
    integer? text = some value ↔ Integer text value := by
  refine ⟨fun h => ?_, Integer.integer?_eq⟩
  have hdigits := someDigits_of_integer? h
  -- The sign decides which integer the text writes; what it writes is its value.
  obtain ⟨value', hvalue'⟩ : ∃ value', Integer text value' := by
    have htext := take_signLength_append_dropSign text
    rcases sign_take text with hsign | hsign | hsign <;> rw [hsign] at htext <;> rw [← htext]
    · exact ⟨_, .unsigned hdigits⟩
    · exact ⟨_, .plus hdigits⟩
    · exact ⟨_, .minus hdigits⟩
  have hsame : some value' = some value := hvalue'.integer?_eq.symm.trans h
  exact Option.some.inj hsame ▸ hvalue'

theorem isSome_int?_iff (text : List Char) : (int? text).isSome = true ↔ Fits text := by
  simp only [int?, Option.isSome_filter, Option.any_eq_true, Bool.and_eq_true, decide_eq_true_eq,
    integer?_eq_some_iff, Fits]
  rfl

/-! ## Decimals -/

/-- The digits of a decimal with an optional point: on at least one side of it
there are some. -/
inductive Mantissa : List Char → Prop
  | whole {digits : List Char} (some : SomeDigits digits) : Mantissa digits
  | point {digits fraction : List Char} (some : SomeDigits digits) (behind : Digits fraction) :
      Mantissa (digits ++ '.' :: fraction)
  | fraction {fraction : List Char} (some : SomeDigits fraction) : Mantissa ('.' :: fraction)

/-- A sign, a mantissa and an exponent, the first and the last of them optional. -/
def Decimal (text : List Char) : Prop :=
  ∃ sign mantissa exponent, text = sign ++ (mantissa ++ exponent) ∧ Sign sign ∧
    Mantissa mantissa ∧ (exponent = [] ∨ Exponent SomeDigits exponent)

/-- An exponent, or none, does not start with a digit or a point. -/
theorem head_exponent {kind : List Char → Prop} {text : List Char} (h : Exponent kind text)
    (more : List Char) : ∀ c ∈ (text ++ more).head?, c.isDigit = false ∧ c ≠ '.' := by
  obtain ⟨mark, sign, power, rfl, hmark, -, -⟩ := h
  intro c hc
  obtain rfl : mark = c := by simpa using hc
  rcases hmark with rfl | rfl <;> decide

/-- The body of a decimal with a point, taken apart at the point. -/
theorem isDecimal_of_point {text digits rest : List Char}
    (hdrop : dropSign text = digits ++ '.' :: rest) (hdigits : Digits digits) :
    isDecimal text = (!(digits ++ rest.takeWhile Char.isDigit).isEmpty &&
      isExponent (rest.dropWhile Char.isDigit)) := by
  have hpoint : ∀ c ∈ ('.' :: rest).head?, c.isDigit = false := by
    intro c hc
    obtain rfl : '.' = c := by simpa using hc
    rfl
  simp only [isDecimal, hdrop, takeWhile_isDigit hdigits hpoint, dropWhile_isDigit hdigits hpoint]

/-- The body of a decimal without a point. -/
theorem isDecimal_of_no_point {text digits more : List Char}
    (hdrop : dropSign text = digits ++ more) (hdigits : Digits digits)
    (hmore : ∀ c ∈ more.head?, c.isDigit = false ∧ c ≠ '.') :
    isDecimal text = (!digits.isEmpty && isExponent more) := by
  have hstop : ∀ c ∈ more.head?, c.isDigit = false := fun c hc => (hmore c hc).1
  simp only [isDecimal, hdrop, takeWhile_isDigit hdigits hstop, dropWhile_isDigit hdigits hstop]
  split
  · exact absurd rfl (hmore '.' rfl).2
  · rfl

/-- A mantissa does not start with a sign. -/
theorem Mantissa.head {mantissa : List Char} (h : Mantissa mantissa) (more : List Char) :
    ∀ c ∈ (mantissa ++ more).head?, isSign c = false := by
  intro c hc
  cases h with
  | whole hdigits => exact isSign_eq_false_of_isDigit (hdigits.head _ c hc)
  | point hdigits hfraction =>
      rw [List.append_assoc] at hc
      exact isSign_eq_false_of_isDigit (hdigits.head _ c hc)
  | fraction hfraction =>
      obtain rfl : '.' = c := by simpa using hc
      rfl

theorem isDecimal_iff (text : List Char) : isDecimal text = true ↔ Decimal text := by
  constructor
  · intro h
    -- The sign, then digits, then a point or not: the two ways in which the check goes on.
    let digits := (dropSign text).takeWhile Char.isDigit
    let more := (dropSign text).dropWhile Char.isDigit
    have hdrop : dropSign text = digits ++ more := List.takeWhile_append_dropWhile.symm
    have hdigits : Digits digits := digits_takeWhile _
    have htext : text = text.take (signLength text) ++ (digits ++ more) := by
      rw [← hdrop, take_signLength_append_dropSign]
    by_cases hpoint : ∃ rest, more = '.' :: rest
    · obtain ⟨rest, hmore⟩ := hpoint
      rw [isDecimal_of_point (hmore ▸ hdrop) hdigits] at h
      rw [Bool.and_eq_true, Bool.not_eq_true', List.isEmpty_eq_false_iff, isExponent_iff] at h
      -- Without digits in front of the point there must be some behind it.
      have hmantissa : Mantissa (digits ++ '.' :: rest.takeWhile Char.isDigit) := by
        by_cases hnone : digits = []
        · rw [hnone] at h ⊢
          exact .fraction ⟨h.1, digits_takeWhile rest⟩
        · exact .point ⟨hnone, hdigits⟩ (digits_takeWhile rest)
      refine ⟨_, _, _, ?_, sign_take text, hmantissa, h.2⟩
      rw [List.append_assoc, List.cons_append, List.takeWhile_append_dropWhile, ← hmore]
      exact htext
    · have hhead : ∀ c ∈ more.head?, c.isDigit = false ∧ c ≠ '.' := by
        refine fun c hc => ⟨head_dropWhile_isDigit _ c hc, ?_⟩
        rintro rfl
        exact hpoint (List.head?_eq_some_iff.mp hc)
      rw [isDecimal_of_no_point hdrop hdigits hhead] at h
      rw [Bool.and_eq_true, Bool.not_eq_true', List.isEmpty_eq_false_iff, isExponent_iff] at h
      exact ⟨_, digits, more, htext, sign_take text, .whole ⟨h.1, hdigits⟩, h.2⟩
  · rintro ⟨sign, mantissa, exponent, rfl, hsign, hmantissa, hexponent⟩
    have hdrop := dropSign_append hsign (hmantissa.head exponent)
    have hhead : ∀ c ∈ exponent.head?, c.isDigit = false ∧ c ≠ '.' := by
      rcases hexponent with rfl | hexponent
      · simp
      · simpa using head_exponent hexponent []
    have hstop : ∀ c ∈ exponent.head?, c.isDigit = false := fun c hc => (hhead c hc).1
    have hend : isExponent exponent = true := (isExponent_iff exponent).mpr hexponent
    cases hmantissa with
    | whole hdigits =>
        rw [isDecimal_of_no_point hdrop hdigits.2 hhead, hend]
        simpa using hdigits.1
    | @point digits fraction hdigits hfraction =>
        rw [List.append_assoc, List.cons_append] at hdrop ⊢
        rw [isDecimal_of_point hdrop hdigits.2, dropWhile_isDigit hfraction hstop, hend]
        simp [hdigits.1]
    | @fraction fraction hfraction =>
        rw [List.cons_append] at hdrop ⊢
        have hpoint : dropSign _ = [] ++ '.' :: (fraction ++ exponent) := hdrop
        rw [isDecimal_of_point hpoint (by simp [Digits]),
          takeWhile_isDigit hfraction.2 hstop, dropWhile_isDigit hfraction.2 hstop, hend]
        simpa using hfraction.1

/-! ## Classes -/

/-- What a number text is: an integer of 64 bits, failing that a decimal, failing
that illegal. -/
inductive Class (text : List Char) : Token → Prop
  | int (fits : Fits text) : Class text (.literal .int)
  | float (fits : ¬ Fits text) (decimal : Decimal text) : Class text (.literal .float)
  | illegal (fits : ¬ Fits text) (decimal : ¬ Decimal text) : Class text .illegal

theorem class_numberToken (text : List Char) : Class text (numberToken text) := by
  unfold numberToken
  split
  · rename_i hint
    exact .int ((isSome_int?_iff text).mp hint)
  · rename_i hint
    rw [isSome_int?_iff] at hint
    split
    · rename_i hdecimal
      exact .float hint ((isDecimal_iff text).mp hdecimal)
    · rename_i hdecimal
      exact .illegal hint (mt (isDecimal_iff text).mpr hdecimal)

/-- A number text is in one class only. -/
theorem Class.unique {text : List Char} {token token' : Token} (h : Class text token)
    (h' : Class text token') : token = token' := by
  cases h <;> cases h' <;> first | rfl | contradiction

theorem numberToken_eq_iff (text : List Char) (token : Token) :
    numberToken text = token ↔ Class text token :=
  ⟨fun h => h ▸ class_numberToken text, (class_numberToken text).unique⟩

end Number

end SelectPlan
