/-!
# UTF-8

Text as bytes and back.  A byte sequence falls into pieces: well-formed
characters, and ill-formed parts of maximal length, which end before the first
byte that cannot continue them.  Strict reading refuses ill-formed parts, lossy
reading puts U+FFFD in place of each.
-/

namespace SelectPlan.Text

/-- The number of bytes a text takes. -/
def byteLength : List Char → Nat
  | [] => 0
  | c :: rest => c.utf8Size + byteLength rest

@[simp] theorem byteLength_nil : byteLength [] = 0 := rfl

@[simp] theorem byteLength_cons (c : Char) (rest : List Char) :
    byteLength (c :: rest) = c.utf8Size + byteLength rest := rfl

@[simp] theorem byteLength_append (front back : List Char) :
    byteLength (front ++ back) = byteLength front + byteLength back := by
  induction front with
  | nil => simp
  | cons c front ih => simp [ih, Nat.add_assoc]

/-- The bytes of a text. -/
def encodeUtf8 (text : List Char) : List UInt8 :=
  text.flatMap String.utf8EncodeChar

/-- What a byte that starts a character of several bytes says about the others:
how many there are, the bounds of the first of them, and the bits the starting
byte holds itself. -/
structure Lead where
  count : Nat
  low : Nat
  high : Nat
  bits : Nat
  deriving DecidableEq, Repr

/-- The reading of a byte that starts a character of several bytes.  The bounds
keep out surrogates, code points past U+10FFFF and forms longer than needed. -/
def lead? (byte : Nat) : Option Lead :=
  if 0xC2 ≤ byte && byte ≤ 0xDF then some ⟨1, 0x80, 0xBF, byte % 0x20⟩
  else if byte = 0xE0 then some ⟨2, 0xA0, 0xBF, byte % 0x10⟩
  else if byte = 0xED then some ⟨2, 0x80, 0x9F, byte % 0x10⟩
  else if 0xE1 ≤ byte && byte ≤ 0xEF then some ⟨2, 0x80, 0xBF, byte % 0x10⟩
  else if byte = 0xF0 then some ⟨3, 0x90, 0xBF, byte % 0x8⟩
  else if 0xF1 ≤ byte && byte ≤ 0xF3 then some ⟨3, 0x80, 0xBF, byte % 0x8⟩
  else if byte = 0xF4 then some ⟨3, 0x80, 0x8F, byte % 0x8⟩
  else none

/-- Reads the `count` bytes that complete a character, the first of them between
`low` and `high`.  The bits read so far are `bits`; a byte that does not fit is
left unread. -/
def complete : (count low high bits : Nat) → List UInt8 → Option Char × List UInt8
  | 0, _, _, bits, bytes => (some (Char.ofNat bits), bytes)
  | _ + 1, _, _, _, [] => (none, [])
  | count + 1, low, high, bits, byte :: bytes =>
    if low ≤ byte.toNat && byte.toNat ≤ high then
      complete count 0x80 0xBF (bits * 0x40 + byte.toNat % 0x40) bytes
    else (none, byte :: bytes)

/-- The first piece of a byte sequence, a character or `none` for an ill-formed
part, and the bytes after it. -/
def firstPiece (byte : UInt8) (bytes : List UInt8) : Option Char × List UInt8 :=
  if byte.toNat < 0x80 then (some (Char.ofNat byte.toNat), bytes)
  else
    match lead? byte.toNat with
    | none => (none, bytes)
    | some lead => complete lead.count lead.low lead.high lead.bits bytes

theorem complete_length_le (count low high bits : Nat) (bytes : List UInt8) :
    (complete count low high bits bytes).2.length ≤ bytes.length := by
  fun_induction complete count low high bits bytes with
  | case1 => simp
  | case2 => simp
  | case3 count low high bits byte bytes fits ih =>
      exact Nat.le_succ_of_le ih
  | case4 => simp

theorem firstPiece_length_le (byte : UInt8) (bytes : List UInt8) :
    (firstPiece byte bytes).2.length ≤ bytes.length := by
  unfold firstPiece
  split
  · simp
  · split
    · simp
    · exact complete_length_le ..

/-- The pieces of a byte sequence, `none` for each ill-formed part. -/
def pieces : List UInt8 → List (Option Char)
  | [] => []
  | byte :: bytes =>
    let piece := firstPiece byte bytes
    piece.1 :: pieces piece.2
termination_by bytes => bytes.length
decreasing_by exact Nat.lt_succ_of_le (firstPiece_length_le byte bytes)

/-- The text of a byte sequence that has no ill-formed part. -/
def decodeUtf8? (bytes : List UInt8) : Option (List Char) :=
  (pieces bytes).mapM id

/-- The text of any byte sequence, with U+FFFD for each ill-formed part. -/
def decodeLossy (bytes : List UInt8) : List Char :=
  (pieces bytes).map fun piece => piece.getD '\uFFFD'

end SelectPlan.Text
