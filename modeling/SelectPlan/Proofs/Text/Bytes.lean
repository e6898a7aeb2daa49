import SelectPlan.Lexeme
import SelectPlan.Text.Utf8

/-!
# Texts as bytes

Offsets into a text count bytes, while lexemes are made of characters.  This file
says where the two agree: characters that stand behind a part of the text take the
bytes from the length of that part on (`extract_toByteArray`), the length of such a
part is a place between two characters (`isValid_byteLength`), and every byte
belongs to one character (`exists_char_at`).

A closing quotation mark may be searched among the bytes: none of the bytes of any
other character looks like one (`findIdx?_isQuoteByte`).
-/

namespace SelectPlan.Text

/-! ## Lengths and places -/

theorem length_encodeUtf8 (text : List Char) : (encodeUtf8 text).length = byteLength text := by
  induction text with
  | nil => rfl
  | cons c rest ih => simpa [encodeUtf8] using ih

theorem toByteArray_ofList (text : List Char) :
    (String.ofList text).toByteArray = (encodeUtf8 text).toByteArray := by
  rw [String.toByteArray_ofList, List.utf8Encode, encodeUtf8]

theorem utf8ByteSize_ofList (text : List Char) :
    (String.ofList text).utf8ByteSize = byteLength text := by
  rw [← String.size_toByteArray, toByteArray_ofList, List.size_toByteArray, length_encodeUtf8]

theorem utf8ByteSize_eq (text : String) : text.utf8ByteSize = byteLength text.toList := by
  rw [← utf8ByteSize_ofList, String.ofList_toList]

/-- The characters behind a part of a text are the bytes that follow it. -/
theorem extract_toByteArray {text : String} {front middle back : List Char}
    (h : text.toList = front ++ (middle ++ back)) :
    text.toByteArray.extract (byteLength front) (byteLength front + byteLength middle) =
      (String.ofList middle).toByteArray := by
  have htext : text = String.ofList front ++ (String.ofList middle ++ String.ofList back) := by
    rw [← String.ofList_append, ← String.ofList_append, ← h, String.ofList_toList]
  have hshift := @ByteArray.extract_append_size_add (String.ofList front).toByteArray
    ((String.ofList middle).toByteArray ++ (String.ofList back).toByteArray) 0
    (String.ofList middle).utf8ByteSize
  rw [htext, String.toByteArray_append, String.toByteArray_append, ← utf8ByteSize_ofList,
    ← utf8ByteSize_ofList]
  exact hshift.trans (ByteArray.extract_append_eq_left rfl)

/-- The length of the front of a text is a place between two of its characters. -/
theorem isValid_byteLength {text : String} {front back : List Char}
    (h : text.toList = front ++ back) : String.Pos.Raw.IsValid text ⟨byteLength front⟩ := by
  rw [String.Pos.Raw.isValid_iff_exists_append]
  refine ⟨String.ofList front, String.ofList back, ?_, ?_⟩
  · rw [← String.ofList_append, ← h, String.ofList_toList]
  · rw [String.rawEndPos, utf8ByteSize_ofList]

/-- The text has this character at this byte, which may be any byte of it. -/
def CharAt (text : List Char) (i : Nat) (c : Char) : Prop :=
  ∃ front back, text = front ++ c :: back ∧ byteLength front ≤ i ∧
    i < byteLength front + c.utf8Size

/-- A byte within a stretch of characters belongs to one of them. -/
theorem exists_char_at {text front middle back : List Char} {i : Nat}
    (htext : text = front ++ (middle ++ back)) (hfront : byteLength front ≤ i)
    (hmiddle : i < byteLength front + byteLength middle) : ∃ c ∈ middle, CharAt text i c := by
  induction middle generalizing front with
  | nil =>
      rw [byteLength_nil] at hmiddle
      omega
  | cons c rest ih =>
      by_cases hc : i < byteLength front + c.utf8Size
      · exact ⟨c, List.mem_cons_self, front, rest ++ back, htext, hfront, hc⟩
      · have hlength : byteLength (front ++ [c]) = byteLength front + c.utf8Size := by
          simp
        rw [byteLength_cons] at hmiddle
        have hshifted : text = (front ++ [c]) ++ (rest ++ back) := by simpa using htext
        obtain ⟨other, hmem, hother⟩ := ih hshifted (by omega) (by omega)
        exact ⟨other, List.mem_cons_of_mem _ hmem, hother⟩

/-! ## Quotation marks among the bytes -/

/-- A byte below `0x80` in the encoding of a character is all of it. -/
theorem eq_singleton_of_mem_utf8EncodeChar {c : Char} {byte : UInt8}
    (hmem : byte ∈ String.utf8EncodeChar c) (hbyte : byte.toNat < 0x80) :
    String.utf8EncodeChar c = [byte] ∧ c.toNat = byte.toNat := by
  have hcases : String.utf8EncodeChar c = [byte] ∧ byte = UInt8.ofNat c.toNat ∧ c.toNat ≤ 0x7f ∨
      0x80 ≤ byte.toNat := by
    unfold String.utf8EncodeChar at hmem ⊢
    dsimp only at hmem ⊢
    split at hmem
    · rename_i hascii
      have hbyte := List.mem_singleton.mp hmem
      exact .inl ⟨by rw [if_pos hascii, hbyte], hbyte, hascii⟩
    -- In the longer forms every byte has its highest bit set.
    · right
      split at hmem
      · simp only [List.mem_cons, List.not_mem_nil, or_false] at hmem
        rcases hmem with rfl | rfl <;> rw [UInt8.toNat_ofNat'] <;> omega
      · split at hmem <;> simp only [List.mem_cons, List.not_mem_nil, or_false] at hmem
        · rcases hmem with rfl | rfl | rfl <;> rw [UInt8.toNat_ofNat'] <;> omega
        · rcases hmem with rfl | rfl | rfl | rfl <;> rw [UInt8.toNat_ofNat'] <;> omega
  rcases hcases with ⟨hencode, hvalue, hascii⟩ | hhigh
  · refine ⟨hencode, ?_⟩
    rw [hvalue, UInt8.toNat_ofNat']
    omega
  · omega

/-- Whether a byte is that of one of the two quotation marks. -/
def isQuoteByte (byte : UInt8) : Bool :=
  byte = 0x27 || byte = 0x22

theorem toNat_lt_of_isQuoteByte {byte : UInt8} (h : isQuoteByte byte = true) :
    byte.toNat < 0x80 := by
  simp only [isQuoteByte, Bool.or_eq_true, decide_eq_true_eq] at h
  rcases h with rfl | rfl <;> decide

/-- The bytes of a character include one of a quotation mark just if the character
is that mark. -/
theorem any_isQuoteByte_utf8EncodeChar (c : Char) :
    (String.utf8EncodeChar c).any isQuoteByte = isQuote c := by
  rw [Bool.eq_iff_iff, List.any_eq_true]
  constructor
  · rintro ⟨byte, hmem, hbyte⟩
    -- A byte below 0x80 is a whole character.
    have hcode := (eq_singleton_of_mem_utf8EncodeChar hmem (toNat_lt_of_isQuoteByte hbyte)).2
    simp only [isQuoteByte, isQuote, Bool.or_eq_true, decide_eq_true_eq] at hbyte ⊢
    rcases hbyte with rfl | rfl
    · exact .inl (Char.toNat_inj.mp hcode)
    · exact .inr (Char.toNat_inj.mp hcode)
  · intro hquote
    simp only [isQuote, Bool.or_eq_true, decide_eq_true_eq] at hquote
    rcases hquote with rfl | rfl
    · exact ⟨0x27, by decide, by decide⟩
    · exact ⟨0x22, by decide, by decide⟩

/-- The first quotation mark among the bytes of a text is that among its
characters, and stands between two of them. -/
theorem findIdx?_isQuoteByte (text : List Char) :
    (encodeUtf8 text).findIdx? isQuoteByte =
      (text.findIdx? isQuote).map fun index => byteLength (text.take index) := by
  induction text with
  | nil => rfl
  | cons c rest ih =>
      have hc := any_isQuoteByte_utf8EncodeChar c
      rw [encodeUtf8, List.flatMap_cons, List.findIdx?_append, List.findIdx?_cons]
      cases hquote : isQuote c with
      | true =>
          rw [hquote, List.any_eq_true] at hc
          obtain ⟨byte, hmem, hbyte⟩ := hc
          have hcode := toNat_lt_of_isQuoteByte hbyte
          rw [(eq_singleton_of_mem_utf8EncodeChar hmem hcode).1]
          simp [hbyte]
      | false =>
          rw [hquote] at hc
          -- The character is none, and so no byte of it is; the search goes on behind all of
          -- them.
          have hnone : (String.utf8EncodeChar c).findIdx? isQuoteByte = none := by
            simpa using hc
          rw [hnone, ← encodeUtf8, ih]
          cases rest.findIdx? isQuote with
          | none => rfl
          | some index => simp [Nat.add_comm]

/-- A quotation mark that is found among the bytes behind a character stands between
two characters, and so does what follows it. -/
theorem isValid_of_findIdx?_isQuoteByte {text : String} {front back : List Char} {offset : Nat}
    (h : text.toList = front ++ back)
    (hoffset : (encodeUtf8 back).findIdx? isQuoteByte = some offset) :
    String.Pos.Raw.IsValid text ⟨byteLength front + offset⟩ ∧
      String.Pos.Raw.IsValid text ⟨byteLength front + offset + 1⟩ := by
  rw [findIdx?_isQuoteByte, Option.map_eq_some_iff] at hoffset
  obtain ⟨index, hindex, rfl⟩ := hoffset
  obtain ⟨hlt, hquote, -⟩ := List.findIdx?_eq_some_iff_getElem.mp hindex
  have hsize : back[index].utf8Size = 1 := by
    simp only [isQuote, Bool.or_eq_true, decide_eq_true_eq] at hquote
    rcases hquote with hc | hc <;> rw [hc] <;> rfl
  have hback : back = back.take index ++ (back[index] :: back.drop (index + 1)) := by
    rw [← List.drop_eq_getElem_cons hlt, List.take_append_drop]
  have hbefore : text.toList =
      (front ++ back.take index) ++ (back[index] :: back.drop (index + 1)) := by
    rw [List.append_assoc, ← hback, h]
  have hbehind : text.toList =
      (front ++ back.take index ++ [back[index]]) ++ back.drop (index + 1) := by
    rw [List.append_assoc (front ++ _), hbefore, List.singleton_append]
  have hvalid := isValid_byteLength hbehind
  rw [byteLength_append, byteLength_append, byteLength_cons, byteLength_nil, hsize] at hvalid
  refine ⟨?_, hvalid⟩
  rw [← byteLength_append]
  exact isValid_byteLength hbefore

end SelectPlan.Text
