/-!
# The strings of JSON

A JSON string is a sequence of pieces: characters, and UTF-16 code units that
are written as escapes `\uXXXX`.  It denotes a text only if every surrogate
among its units belongs to a pair; a string where one stands alone is well
formed all the same.
-/

namespace SelectPlan.Json

/-- A piece of a JSON string: a character, or a UTF-16 code unit. -/
inductive Piece
  | char (c : Char)
  | unit (code : Nat)
  deriving DecidableEq, Repr

/-- Whether a code unit is the first half of a pair. -/
def isHighSurrogate (code : Nat) : Bool :=
  0xD800 ≤ code && code ≤ 0xDBFF

/-- Whether a code unit is the second half of a pair. -/
def isLowSurrogate (code : Nat) : Bool :=
  0xDC00 ≤ code && code ≤ 0xDFFF

/-- The character of a pair of surrogates. -/
def pairedChar (high low : Nat) : Char :=
  Char.ofNat (0x10000 + (high - 0xD800) * 0x400 + (low - 0xDC00))

/-- The text that a string denotes. -/
def textOf? : List Piece → Option (List Char)
  | [] => some []
  | .char c :: rest => (textOf? rest).map (c :: ·)
  | .unit code :: rest =>
    if isHighSurrogate code then
      match rest with
      | .unit low :: later =>
        if isLowSurrogate low then (textOf? later).map (pairedChar code low :: ·) else none
      | _ => none
    else if isLowSurrogate code then none
    else (textOf? rest).map (Char.ofNat code :: ·)

/-! ## Reading -/

/-- The value of a hexadecimal digit of either case. -/
def hexDigit? (c : Char) : Option Nat :=
  if '0' ≤ c && c ≤ '9' then some (c.toNat - '0'.toNat)
  else if 'a' ≤ c && c ≤ 'f' then some (c.toNat - 'a'.toNat + 10)
  else if 'A' ≤ c && c ≤ 'F' then some (c.toNat - 'A'.toNat + 10)
  else none

/-- The code unit of four hexadecimal digits. -/
def codeUnit? (a b c d : Char) : Option Nat := do
  let a ← hexDigit? a
  let b ← hexDigit? b
  let c ← hexDigit? c
  let d ← hexDigit? d
  pure (((a * 16 + b) * 16 + c) * 16 + d)

/-- The characters with a short escape, each after the letter that stands for
it. -/
def shortEscapes : List (Char × Char) :=
  [('"', '"'), ('\\', '\\'), ('/', '/'), ('b', '\x08'), ('f', '\x0C'), ('n', '\n'), ('r', '\r'),
   ('t', '\t')]

/-- Reads the rest of a string up to its closing quotation mark, and gives the
text after that. -/
def readString : List Char → Option (List Piece × List Char)
  | [] => none
  | '"' :: rest => some ([], rest)
  | '\\' :: 'u' :: a :: b :: c :: d :: rest =>
    match codeUnit? a b c d with
    | some code => (readString rest).map fun (pieces, after) => (.unit code :: pieces, after)
    | none => none
  | '\\' :: letter :: rest =>
    match shortEscapes.lookup letter with
    | some c => (readString rest).map fun (pieces, after) => (.char c :: pieces, after)
    | none => none
  | c :: rest =>
    if c.toNat < 0x20 then none
    else (readString rest).map fun (pieces, after) => (.char c :: pieces, after)

theorem readString_length_le {text after : List Char} {pieces : List Piece}
    (h : readString text = some (pieces, after)) : after.length ≤ text.length := by
  fun_induction readString text generalizing pieces with
  | case1 => simp at h
  | case2 rest =>
      cases h
      simp
  | case3 a b c d rest code hcode ih =>
      obtain ⟨⟨pieces', after'⟩, hrest, heq⟩ := Option.map_eq_some_iff.mp h
      cases heq
      have := ih hrest
      simp only [List.length_cons]
      omega
  | case4 => simp at h
  | case5 letter rest hnot c hc ih =>
      obtain ⟨⟨pieces', after'⟩, hrest, heq⟩ := Option.map_eq_some_iff.mp h
      cases heq
      have := ih hrest
      simp only [List.length_cons]
      omega
  | case6 => simp at h
  | case7 => simp at h
  | case8 c rest hquote hunit hescape hcontrol ih =>
      obtain ⟨⟨pieces', after'⟩, hrest, heq⟩ := Option.map_eq_some_iff.mp h
      cases heq
      have := ih hrest
      simp only [List.length_cons]
      omega

/-! ## Writing -/

/-- The pieces that write a text: control characters without a short escape are
code units, and all others stand for themselves. -/
def piecesOf (text : List Char) : List Piece :=
  text.map fun c =>
    if c.toNat < 0x20 && !(shortEscapes.map Prod.snd).contains c then .unit c.toNat else .char c

/-- The digit of a value below sixteen, in lower case. -/
def hexDigit (value : Nat) : Char :=
  if value < 10 then Char.ofNat ('0'.toNat + value) else Char.ofNat ('a'.toNat + (value - 10))

/-- A piece as it is written.  A slash needs no escape. -/
def Piece.render : Piece → List Char
  | .char '"' => ['\\', '"']
  | .char '\\' => ['\\', '\\']
  | .char '\x08' => ['\\', 'b']
  | .char '\x0C' => ['\\', 'f']
  | .char '\n' => ['\\', 'n']
  | .char '\r' => ['\\', 'r']
  | .char '\t' => ['\\', 't']
  | .char c => [c]
  | .unit code =>
    ['\\', 'u', hexDigit (code / 0x1000 % 16), hexDigit (code / 0x100 % 16),
     hexDigit (code / 0x10 % 16), hexDigit (code % 16)]

/-- A string with its quotation marks. -/
def renderString (pieces : List Piece) : List Char :=
  '"' :: (pieces.flatMap Piece.render ++ ['"'])

end SelectPlan.Json
