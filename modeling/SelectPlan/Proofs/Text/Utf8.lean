import SelectPlan.Text.Utf8

/-!
# Reading what was encoded

The bytes of a text are read as that text again, by strict and by lossy reading
(`decodeUtf8?_encodeUtf8`, `decodeLossy_encodeUtf8`).  No other bytes are read as it:
strict reading gives back the bytes (`decodeUtf8?_eq_some_iff`), and so does lossy
reading as far as no U+FFFD is read (`decodeLossy_eq_append_iff`).

## Strategy

`encoding_cases` gives the bytes of a character in numbers, one form for each
length.  Its bytes are then read one by one: the first says how many there are
(`firstPiece_lead`), and each of the others adds six bits (`complete_cons`).  The way
back is the same table read from the first byte (`lead?_cases`), with the bytes that
complete the character taken apart again (`complete_succ_eq_some`).
-/

namespace SelectPlan.Text

/-! ## One character -/

/-- The bytes of a character, by its code point. -/
theorem encoding_cases (c : Char) :
    (c.toNat < 0x80 ∧ String.utf8EncodeChar c = [UInt8.ofNat c.toNat]) ∨
    ((0x80 ≤ c.toNat ∧ c.toNat < 0x800) ∧
      String.utf8EncodeChar c =
        [UInt8.ofNat (c.toNat / 64 % 0x20 + 0xC0), UInt8.ofNat (c.toNat % 0x40 + 0x80)]) ∨
    ((0x800 ≤ c.toNat ∧ c.toNat < 0x10000) ∧
      String.utf8EncodeChar c =
        [UInt8.ofNat (c.toNat / 4096 % 0x10 + 0xE0), UInt8.ofNat (c.toNat / 64 % 0x40 + 0x80),
          UInt8.ofNat (c.toNat % 0x40 + 0x80)]) ∨
    (0x10000 ≤ c.toNat ∧
      String.utf8EncodeChar c =
        [UInt8.ofNat (c.toNat / 262144 % 8 + 0xF0), UInt8.ofNat (c.toNat / 4096 % 0x40 + 0x80),
          UInt8.ofNat (c.toNat / 64 % 0x40 + 0x80), UInt8.ofNat (c.toNat % 0x40 + 0x80)]) := by
  have hcode : c.val.toNat = c.toNat := rfl
  rw [String.utf8EncodeChar, hcode]
  by_cases hone : c.toNat ≤ 0x7F
  · exact .inl ⟨by omega, if_pos hone⟩
  rw [if_neg hone]
  by_cases htwo : c.toNat ≤ 0x7FF
  · exact .inr (.inl ⟨by omega, if_pos htwo⟩)
  rw [if_neg htwo]
  by_cases hthree : c.toNat ≤ 0xFFFF
  · exact .inr (.inr (.inl ⟨by omega, if_pos hthree⟩))
  · exact .inr (.inr (.inr ⟨by omega, if_neg hthree⟩))

/-- A byte that says how many others there are hands over to them. -/
theorem firstPiece_lead {lead : Lead} {byte : Nat} (hbyte : 0x80 ≤ byte ∧ byte < 0x100)
    (hlead : lead? byte = some lead) (bytes : List UInt8) :
    firstPiece (UInt8.ofNat byte) bytes =
      complete lead.count lead.low lead.high lead.bits bytes := by
  rw [firstPiece, UInt8.toNat_ofNat_of_lt' hbyte.2, if_neg (by omega), hlead]

/-- A byte within its bounds adds its low six bits. -/
theorem complete_cons {count low high bits byte : Nat} (hbyte : byte < 0x100)
    (hbounds : low ≤ byte ∧ byte ≤ high) (bytes : List UInt8) :
    complete (count + 1) low high bits (UInt8.ofNat byte :: bytes) =
      complete count 0x80 0xBF (bits * 0x40 + byte % 0x40) bytes := by
  rw [complete, UInt8.toNat_ofNat_of_lt' hbyte, if_pos (by simpa using hbounds)]

theorem lead?_two {byte : Nat} (h : 0xC2 ≤ byte ∧ byte ≤ 0xDF) :
    lead? byte = some ⟨1, 0x80, 0xBF, byte % 0x20⟩ := by
  rw [lead?, if_pos (by simpa using h)]

theorem lead?_three {byte : Nat} (h : 0xE0 ≤ byte ∧ byte ≤ 0xEF) :
    lead? byte = some ⟨2, if byte = 0xE0 then 0xA0 else 0x80,
      if byte = 0xED then 0x9F else 0xBF, byte % 0x10⟩ := by
  simp only [lead?, Bool.and_eq_true, decide_eq_true_eq]
  rw [if_neg (by omega)]
  by_cases hfirst : byte = 0xE0
  · simp [hfirst]
  rw [if_neg hfirst]
  by_cases hsurrogate : byte = 0xED
  · simp [hsurrogate]
  rw [if_neg hsurrogate, if_pos (by omega), if_neg hfirst, if_neg hsurrogate]

theorem lead?_four {byte : Nat} (h : 0xF0 ≤ byte ∧ byte ≤ 0xF4) :
    lead? byte = some ⟨3, if byte = 0xF0 then 0x90 else 0x80,
      if byte = 0xF4 then 0x8F else 0xBF, byte % 0x8⟩ := by
  simp only [lead?, Bool.and_eq_true, decide_eq_true_eq]
  rw [if_neg (by omega), if_neg (by omega), if_neg (by omega), if_neg (by omega)]
  by_cases hfirst : byte = 0xF0
  · simp [hfirst]
  rw [if_neg hfirst]
  by_cases hlast : byte = 0xF4
  · simp [hlast]
  rw [if_pos (by omega), if_neg hfirst, if_neg hlast]

/-- The bytes of a character are read as that character, whatever follows them. -/
theorem firstPiece_of_encoding (c : Char) :
    ∃ byte more, String.utf8EncodeChar c = byte :: more ∧
      ∀ rest, firstPiece byte (more ++ rest) = (some c, rest) := by
  have hvalid : c.toNat < 0xD800 ∨ 0xDFFF < c.toNat ∧ c.toNat < 0x110000 := c.valid
  have hcode : ∀ code, code = c.toNat → (some (Char.ofNat code) : Option Char) = some c := by
    rintro _ rfl
    rw [Char.ofNat_toNat]
  rcases encoding_cases c with ⟨hsize, hbytes⟩ | ⟨hsize, hbytes⟩ | ⟨hsize, hbytes⟩ | ⟨hsize, hbytes⟩
  · refine ⟨_, _, hbytes, fun rest => ?_⟩
    rw [firstPiece, UInt8.toNat_ofNat_of_lt' (by change _ < 256; omega), if_pos hsize,
      List.nil_append, hcode _ rfl]
  · refine ⟨_, _, hbytes, fun rest => ?_⟩
    rw [firstPiece_lead (by omega) (lead?_two (by omega))]
    simp only [List.cons_append, List.nil_append]
    rw [complete_cons (by omega) (by omega), complete, hcode _ (by omega)]
  · refine ⟨_, _, hbytes, fun rest => ?_⟩
    rw [firstPiece_lead (by omega) (lead?_three (by omega))]
    simp only [List.cons_append, List.nil_append]
    -- The bounds of the second byte keep out short forms and surrogates.
    rw [complete_cons (by omega) (by constructor <;> split <;> omega),
      complete_cons (by omega) (by omega), complete, hcode _ (by omega)]
  · refine ⟨_, _, hbytes, fun rest => ?_⟩
    rw [firstPiece_lead (by omega) (lead?_four (by omega))]
    simp only [List.cons_append, List.nil_append]
    rw [complete_cons (by omega) (by constructor <;> split <;> omega),
      complete_cons (by omega) (by omega), complete_cons (by omega) (by omega), complete,
      hcode _ (by omega)]

/-! ## Texts -/

theorem encodeUtf8_cons (c : Char) (rest : List Char) :
    encodeUtf8 (c :: rest) = String.utf8EncodeChar c ++ encodeUtf8 rest :=
  List.flatMap_cons

theorem encodeUtf8_append (front back : List Char) :
    encodeUtf8 (front ++ back) = encodeUtf8 front ++ encodeUtf8 back :=
  List.flatMap_append

theorem encodeUtf8_ne_nil {text : String} (h : text ≠ "") : encodeUtf8 text.toList ≠ [] := by
  intro hnil
  refine h (String.toList_eq_nil_iff.mp (List.eq_nil_iff_forall_not_mem.mpr fun c hc => ?_))
  exact String.utf8EncodeChar_ne_nil (List.flatMap_eq_nil_iff.mp hnil c hc)

theorem pieces_nil : pieces [] = [] := by rw [pieces]

theorem pieces_encodeUtf8_append (text : List Char) (rest : List UInt8) :
    pieces (encodeUtf8 text ++ rest) = text.map some ++ pieces rest := by
  induction text with
  | nil => rfl
  | cons c text ih =>
      obtain ⟨byte, more, hbytes, hread⟩ := firstPiece_of_encoding c
      rw [encodeUtf8_cons, hbytes, List.append_assoc, List.cons_append, pieces, hread, ih]
      rfl

theorem pieces_encodeUtf8 (text : List Char) : pieces (encodeUtf8 text) = text.map some := by
  rw [← List.append_nil (encodeUtf8 text), pieces_encodeUtf8_append, pieces_nil, List.append_nil]

theorem decodeUtf8?_encodeUtf8 (text : List Char) : decodeUtf8? (encodeUtf8 text) = some text := by
  have hpure : text.mapM (fun c => (pure c : Option Char)) = pure (text.map id) :=
    List.mapM_pure
  rw [List.map_id] at hpure
  rw [decodeUtf8?, pieces_encodeUtf8, List.mapM_map]
  exact hpure

theorem decodeLossy_encodeUtf8 (text : List Char) : decodeLossy (encodeUtf8 text) = text := by
  rw [decodeLossy, pieces_encodeUtf8, List.map_map]
  exact List.map_id text

/-! ## Back to the bytes -/

/-- What a character that is still to be completed is read from. -/
theorem complete_succ_eq_some {count low high bits : Nat} {bytes rest : List UInt8} {c : Char}
    (h : complete (count + 1) low high bits bytes = (some c, rest)) :
    ∃ byte more, bytes = byte :: more ∧ (low ≤ byte.toNat ∧ byte.toNat ≤ high) ∧
      complete count 0x80 0xBF (bits * 0x40 + byte.toNat % 0x40) more = (some c, rest) := by
  cases bytes with
  | nil => simp [complete] at h
  | cons byte more =>
      rw [complete] at h
      split at h
      case isTrue hbounds => exact ⟨byte, more, rfl, by simpa using hbounds, h⟩
      case isFalse => simp at h

/-- A character of valid bits has them as its code point. -/
theorem toNat_of_ofNat {bits : Nat} {bytes rest : List UInt8} {c : Char}
    (h : (some (Char.ofNat bits), bytes) = (some c, rest)) (hvalid : bits.isValidChar) :
    c.toNat = bits ∧ bytes = rest := by
  obtain ⟨hc, rfl⟩ := Prod.mk.inj h
  obtain rfl := Option.some.inj hc
  refine ⟨?_, rfl⟩
  rw [Char.ofNat, dif_pos hvalid]
  rfl

/-- A byte that says how many others there are says two, three or four bytes in all. -/
theorem lead?_cases {byte : Nat} {lead : Lead} (h : lead? byte = some lead) :
    (0xC2 ≤ byte ∧ byte ≤ 0xDF) ∨ (0xE0 ≤ byte ∧ byte ≤ 0xEF) ∨ (0xF0 ≤ byte ∧ byte ≤ 0xF4) := by
  simp only [lead?, Bool.and_eq_true, decide_eq_true_eq] at h
  repeat' split at h
  all_goals first | omega | cases h

theorem ofNat_eq_of_toNat (byte : UInt8) {n : Nat} (h : n = byte.toNat) :
    UInt8.ofNat n = byte := by
  rw [h, UInt8.ofNat_toNat]

/-- Bytes that are read as a character are those of the character. -/
theorem eq_encoding_of_firstPiece {byte : UInt8} {bytes rest : List UInt8} {c : Char}
    (h : firstPiece byte bytes = (some c, rest)) :
    byte :: bytes = String.utf8EncodeChar c ++ rest := by
  have hbyte : byte.toNat < 256 := byte.toNat_lt
  rw [firstPiece] at h
  split at h
  case isTrue hsize =>
    obtain ⟨hcode, rfl⟩ := toNat_of_ofNat h (.inl (by omega))
    obtain ⟨-, hbytes⟩ := (encoding_cases c).resolve_right (by omega)
    rw [hbytes, ofNat_eq_of_toNat byte hcode, List.singleton_append]
  cases hlead : lead? byte.toNat with
  | none => simp [hlead] at h
  | some lead =>
      rw [hlead] at h
      rcases lead?_cases hlead with hrange | hrange | hrange
      · rw [lead?_two hrange] at hlead
        obtain rfl := Option.some.inj hlead
        obtain ⟨second, bytes, rfl, hsecond, h⟩ := complete_succ_eq_some h
        dsimp only at hsecond h
        obtain ⟨hcode, rfl⟩ := toNat_of_ofNat h (.inl (by omega))
        obtain ⟨-, hbytes⟩ := ((encoding_cases c).resolve_left (by omega)).resolve_right (by omega)
        rw [hbytes, ofNat_eq_of_toNat byte (by omega),
          ofNat_eq_of_toNat second (by omega)]
        rfl
      · rw [lead?_three hrange] at hlead
        obtain rfl := Option.some.inj hlead
        obtain ⟨second, bytes, rfl, hsecond, h⟩ := complete_succ_eq_some h
        obtain ⟨third, bytes, rfl, hthird, h⟩ := complete_succ_eq_some h
        dsimp only at hsecond hthird h
        -- The bounds of the second byte keep out short forms and surrogates.
        have hshort : byte.toNat = 0xE0 → 0xA0 ≤ second.toNat := by grind
        have hsurrogate : byte.toNat = 0xED → second.toNat ≤ 0x9F := by grind
        have hsecond : 0x80 ≤ second.toNat ∧ second.toNat ≤ 0xBF := by grind
        obtain ⟨hcode, rfl⟩ := toNat_of_ofNat h (by unfold Nat.isValidChar; omega)
        obtain ⟨-, hbytes⟩ := (((encoding_cases c).resolve_left (by omega)).resolve_left
          (by omega)).resolve_right (by omega)
        rw [hbytes, ofNat_eq_of_toNat byte (by omega),
          ofNat_eq_of_toNat second (by omega),
          ofNat_eq_of_toNat third (by omega)]
        rfl
      · rw [lead?_four hrange] at hlead
        obtain rfl := Option.some.inj hlead
        obtain ⟨second, bytes, rfl, hsecond, h⟩ := complete_succ_eq_some h
        obtain ⟨third, bytes, rfl, hthird, h⟩ := complete_succ_eq_some h
        obtain ⟨fourth, bytes, rfl, hfourth, h⟩ := complete_succ_eq_some h
        dsimp only at hsecond hthird hfourth h
        -- Here they keep out short forms and code points past the last one.
        have hshort : byte.toNat = 0xF0 → 0x90 ≤ second.toNat := by grind
        have hlast : byte.toNat = 0xF4 → second.toNat ≤ 0x8F := by grind
        have hsecond : 0x80 ≤ second.toNat ∧ second.toNat ≤ 0xBF := by grind
        obtain ⟨hcode, rfl⟩ := toNat_of_ofNat h (.inr (by omega))
        obtain ⟨-, hbytes⟩ := (((encoding_cases c).resolve_left (by omega)).resolve_left
          (by omega)).resolve_left (by omega)
        rw [hbytes, ofNat_eq_of_toNat byte (by omega),
          ofNat_eq_of_toNat second (by omega),
          ofNat_eq_of_toNat third (by omega),
          ofNat_eq_of_toNat fourth (by omega)]
        rfl

/-- Bytes whose pieces start with the characters of a text start with its bytes. -/
theorem eq_encodeUtf8_append_of_pieces {bytes : List UInt8} {text : List Char}
    {later : List (Option Char)} (h : pieces bytes = text.map some ++ later) :
    ∃ rest, bytes = encodeUtf8 text ++ rest ∧ pieces rest = later := by
  induction text generalizing bytes with
  | nil => exact ⟨bytes, rfl, h⟩
  | cons c text ih =>
      cases bytes with
      | nil => simp [pieces_nil] at h
      | cons byte bytes =>
          rw [pieces, List.map_cons, List.cons_append, List.cons.injEq] at h
          obtain ⟨hfirst, hlater⟩ := h
          obtain ⟨rest, hrest, hpieces⟩ := ih hlater
          refine ⟨rest, ?_, hpieces⟩
          rw [eq_encoding_of_firstPiece (Prod.ext hfirst hrest), encodeUtf8_cons,
            List.append_assoc]

theorem eq_nil_of_pieces {bytes : List UInt8} (h : pieces bytes = []) : bytes = [] := by
  cases bytes with
  | nil => rfl
  | cons byte bytes =>
      rw [pieces] at h
      cases h

theorem eq_map_some_of_mapM {found : List (Option Char)} {text : List Char}
    (h : found.mapM id = some text) : found = text.map some := by
  induction found generalizing text with
  | nil =>
      cases h
      rfl
  | cons first later ih =>
      obtain ⟨c, hfirst, rest, hlater, rfl⟩ :
          ∃ c, first = some c ∧ ∃ rest, later.mapM id = some rest ∧ c :: rest = text := by
        simpa [List.mapM_cons, Option.bind_eq_some_iff] using h
      rw [hfirst, ih hlater, List.map_cons]

/-- Bytes are read strictly just if they are those of a text. -/
theorem decodeUtf8?_eq_some_iff {bytes : List UInt8} {text : List Char} :
    decodeUtf8? bytes = some text ↔ bytes = encodeUtf8 text := by
  refine ⟨fun h => ?_, fun h => h ▸ decodeUtf8?_encodeUtf8 text⟩
  have hpieces : pieces bytes = text.map some ++ [] := by
    rw [List.append_nil, eq_map_some_of_mapM h]
  obtain ⟨rest, rfl, hrest⟩ := eq_encodeUtf8_append_of_pieces hpieces
  rw [eq_nil_of_pieces hrest, List.append_nil]

/-- The pieces that are read as a text without U+FFFD are its characters. -/
theorem eq_map_some_of_getD {found : List (Option Char)} {text : List Char}
    (h : found.map (fun piece => piece.getD '\uFFFD') = text) (hclean : '\uFFFD' ∉ text) :
    found = text.map some := by
  subst h
  rw [List.map_map]
  refine (List.map_id found).symm.trans (List.map_congr_left fun piece hpiece => ?_)
  cases piece with
  | none => exact absurd (List.mem_map_of_mem hpiece) hclean
  | some c => rfl

/-- A text without U+FFFD that bytes are read as is one that they hold. -/
theorem decodeLossy_eq_append_iff {bytes : List UInt8} {front back : List Char}
    (hclean : '\uFFFD' ∉ front) :
    decodeLossy bytes = front ++ back ↔
      ∃ rest, bytes = encodeUtf8 front ++ rest ∧ decodeLossy rest = back := by
  constructor
  · intro h
    obtain ⟨first, later, hpieces, hfront, rfl⟩ := List.map_eq_append_iff.mp h
    -- Without U+FFFD no piece of the front was replaced.
    rw [eq_map_some_of_getD hfront hclean] at hpieces
    obtain ⟨rest, rfl, hrest⟩ := eq_encodeUtf8_append_of_pieces hpieces
    exact ⟨rest, rfl, by rw [decodeLossy, hrest]⟩
  · rintro ⟨rest, rfl, rfl⟩
    rw [decodeLossy, pieces_encodeUtf8_append, List.map_append, List.map_map]
    exact congrArg (· ++ _) (List.map_id front)

end SelectPlan.Text
