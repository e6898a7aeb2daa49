import SelectPlan.Proofs.Text.Utf8

/-!
# The order of texts and of their bytes

Texts are compared by code points, one character after the other.  Their bytes are
in the same order (`encodeUtf8_lt_iff`): of two characters the one with the smaller
code point has the smaller bytes, and this shows in bytes that both of them have, so
that nothing behind them is looked at.
-/

namespace SelectPlan.Text

/-- Lists of bytes are compared by the numbers in front first. -/
theorem ofNat_cons_lt_iff {byte byte' : Nat} (h : byte < 0x100) (h' : byte' < 0x100)
    (rest rest' : List UInt8) :
    UInt8.ofNat byte :: rest < UInt8.ofNat byte' :: rest' ↔
      byte < byte' ∨ byte = byte' ∧ rest < rest' := by
  rw [List.cons_lt_cons_iff, UInt8.lt_iff_toNat_lt, ← UInt8.toNat_inj,
    UInt8.toNat_ofNat_of_lt' h, UInt8.toNat_ofNat_of_lt' h']

/-- Code points are compared by their digits of six bits, the highest one first. -/
theorem digits_lt_of_lt {code code' : Nat} (h : code < code') (hmax : code' < 0x200000) :
    code / 262144 % 8 < code' / 262144 % 8 ∨ code / 262144 % 8 = code' / 262144 % 8 ∧
      (code / 4096 % 64 < code' / 4096 % 64 ∨ code / 4096 % 64 = code' / 4096 % 64 ∧
        (code / 64 % 64 < code' / 64 % 64 ∨ code / 64 % 64 = code' / 64 % 64 ∧
          code % 64 < code' % 64)) := by
  have hsum : ∀ code : Nat, code < 0x200000 → code = 262144 * (code / 262144 % 8) +
      4096 * (code / 4096 % 64) + 64 * (code / 64 % 64) + code % 64 := by
    intro code hcode
    omega
  have hdigit : ∀ number : Nat, number % 64 < 64 := fun number => Nat.mod_lt number (by decide)
  have hthree := hdigit (code / 4096)
  have hthree' := hdigit (code' / 4096)
  have htwo := hdigit (code / 64)
  have htwo' := hdigit (code' / 64)
  have hone := hdigit code
  have hone' := hdigit code'
  have hcode := hsum code (by omega)
  have hcode' := hsum code' hmax
  -- From here on the digits are numbers of their own.
  generalize code / 262144 % 8 = four, code / 4096 % 64 = three, code / 64 % 64 = two,
    code % 64 = one at *
  generalize code' / 262144 % 8 = four', code' / 4096 % 64 = three', code' / 64 % 64 = two',
    code' % 64 = one' at *
  omega

/-- The bytes of a smaller character are smaller, whatever follows. -/
theorem encoding_append_lt {c c' : Char} (h : c < c') (rest rest' : List UInt8) :
    String.utf8EncodeChar c ++ rest < String.utf8EncodeChar c' ++ rest' := by
  have hlt : c.toNat < c'.toNat := h
  have hmax : c'.toNat < 0x110000 := by
    have hvalid : c'.toNat < 0xD800 ∨ 0xDFFF < c'.toNat ∧ c'.toNat < 0x110000 := c'.valid
    omega
  have hdigits := digits_lt_of_lt hlt (by omega)
  -- One case for each pair of lengths; the shorter one never starts with the larger byte.
  rcases encoding_cases c with ⟨hsize, hbytes⟩ | ⟨hsize, hbytes⟩ | ⟨hsize, hbytes⟩ |
      ⟨hsize, hbytes⟩ <;>
    rcases encoding_cases c' with ⟨hsize', hbytes'⟩ | ⟨hsize', hbytes'⟩ | ⟨hsize', hbytes'⟩ |
      ⟨hsize', hbytes'⟩ <;>
    simp (disch := omega) only [hbytes, hbytes', List.cons_append, List.nil_append,
      ofNat_cons_lt_iff] <;>
    omega

theorem encodeUtf8_lt_of_lt {text text' : List Char} (h : text < text') :
    encodeUtf8 text < encodeUtf8 text' := by
  induction h with
  | @nil c rest =>
      obtain ⟨byte, more, hbytes, -⟩ := firstPiece_of_encoding c
      rw [encodeUtf8_cons, hbytes]
      exact .nil
  | @rel c rest c' rest' hlt =>
      rw [encodeUtf8_cons, encodeUtf8_cons]
      exact encoding_append_lt hlt _ _
  | cons htail ih =>
      rw [encodeUtf8_cons, encodeUtf8_cons]
      exact List.append_left_lt ih

/-- Texts are in the order of their bytes. -/
theorem encodeUtf8_lt_iff {text text' : List Char} :
    encodeUtf8 text < encodeUtf8 text' ↔ text < text' := by
  refine ⟨fun h => ?_, encodeUtf8_lt_of_lt⟩
  rcases Std.lt_trichotomy text text' with hlt | rfl | hgt
  · exact hlt
  · exact absurd h (List.lt_irrefl _)
  · exact absurd h (List.lt_asymm (encodeUtf8_lt_of_lt hgt))

end SelectPlan.Text
