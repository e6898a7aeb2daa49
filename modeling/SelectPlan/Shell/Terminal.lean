import SelectPlan.Text.Utf8

/-!
# Terminals

A terminal keeps what a run has written: its output as bytes and its complaints
as text.  The output may have room for a limited number of bytes.  A write that
needs more than is left stores what fits and fails; so does every later write of
at least one byte.
-/

namespace SelectPlan.Shell

open Text

/-- What has been written, and how many more bytes the output takes; `none` is
no limit. -/
structure Terminal where
  output : List UInt8 := []
  room : Option Nat := none
  complaints : String := ""
  deriving DecidableEq, Repr

namespace Terminal

/-- Writes bytes to the output, and says whether all of them fit. -/
def writeBytes (terminal : Terminal) (bytes : List UInt8) : Bool × Terminal :=
  match terminal.room with
  | none => (true, { terminal with output := terminal.output ++ bytes })
  | some room =>
    (bytes.length ≤ room,
      { terminal with
        output := terminal.output ++ bytes.take room
        room := some (room - bytes.length) })

/-- Writes a text to the output, and says whether all of it fits. -/
def write (terminal : Terminal) (text : String) : Bool × Terminal :=
  terminal.writeBytes (encodeUtf8 text.toList)

/-- Writes a line to the output, and says whether all of it fits. -/
def writeLine (terminal : Terminal) (line : String) : Bool × Terminal :=
  terminal.write (line ++ "\n")

/-- Writes a complaint. -/
def complain (terminal : Terminal) (line : String) : Terminal :=
  { terminal with complaints := terminal.complaints ++ line ++ "\n" }

end Terminal

end SelectPlan.Shell
