import SelectPlan.Scanner

/-!
# Several statements in one text

A text is cut after each `;` lexeme; a semicolon inside a string does not count.
The pieces lose the blanks at their ends, and pieces without a statement are
dropped.

The cuts are made at the byte offsets that the spans of the lexemes hold.  A span
clamps its offsets, so in a longer text a cut may fall inside a character.  Then the
text is not split at all.
-/

namespace SelectPlan

open Text Scanner

/-- Where the `;` lexemes of a text end, as their spans have it.  The text stands behind
so many bytes. -/
def semicolonStops (position : Nat) (text : List Char) : List Nat :=
  ((drain ⟨text, position⟩).1.filter fun lexeme => lexeme.token = .semicolon).map
    fun lexeme => lexeme.span.stop

/-- What a text holds before a byte offset and from there on, or nothing if the offset is
inside a character or outside of the text.  The text stands behind so many bytes. -/
def cutAt? (position : Nat) : List Char → Nat → Option (List Char × List Char)
  | [], offset => if position = offset then some ([], []) else none
  | c :: rest, offset =>
    if position = offset then some ([], c :: rest)
    else (cutAt? (position + c.utf8Size) rest offset).map fun (front, back) => (c :: front, back)

/-- The text cut at one byte offset after the other. -/
def cutAll? (position : Nat) (text : List Char) : List Nat → Option (List (List Char))
  | [] => some [text]
  | stop :: stops => do
    let (front, back) ← cutAt? position text stop
    let cuts ← cutAll? stop back stops
    return front :: cuts

/-- The statements among the cuts of a text, without the blanks around them. -/
def statementsAmong (cuts : List (List Char)) : List (List Char) :=
  (cuts.map trim).filter fun piece => !piece.isEmpty && piece ≠ [';']

/-- The statements of a text, each with its semicolon, or nothing if the text cannot be
cut where its semicolons are said to end. -/
def splitStatements (text : String) : Option (List String) :=
  (cutAll? 0 text.toList (semicolonStops 0 text.toList)).map fun cuts =>
    (statementsAmong cuts).map String.ofList

end SelectPlan
