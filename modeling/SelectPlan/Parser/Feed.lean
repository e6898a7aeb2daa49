import SelectPlan.Scanner

/-!
# Feeds of lexemes

A feed hands out lexemes one at a time and can take back the last one it handed
out.  Its size never grows while it is read, and a lexeme that is not the end of
the text makes it smaller; loops over lexemes end for that reason.

Two feeds are given: a scanner with room for one lexeme put back, which reads no
further ahead than it is asked to, and a list of lexemes with a place in it.
-/

namespace SelectPlan

/-- A source of lexemes that can take back the last one it handed out. -/
class Feed (σ : Type) where
  /-- The next lexeme, and the feed after it. -/
  scan : σ → Lexeme × σ
  /-- The feed that hands out the last lexeme again. -/
  unscan : σ → σ
  /-- A bound on the lexemes before the end of the text. -/
  size : σ → Nat
  size_scan_le : ∀ feed, size (scan feed).2 ≤ size feed
  size_scan_lt : ∀ feed, (scan feed).1.token ≠ .eof → size (scan feed).2 < size feed
  size_unscan_scan_le : ∀ feed, size (unscan (scan feed).2) ≤ size feed

/-! ## A scanner with one lexeme put back -/

/-- A scanner, the last lexeme it gave, and whether that lexeme is to be given
again. -/
structure Pushback where
  scanner : Scanner
  last : Lexeme := ⟨.eof, "", ⟨0, 0⟩⟩
  pending : Bool := false
  deriving DecidableEq, Repr

namespace Pushback

/-- The lexeme put back, or else the next one of the scanner. -/
def scan (feed : Pushback) : Lexeme × Pushback :=
  if feed.pending then (feed.last, { feed with pending := false })
  else
    let (lexeme, scanner) := feed.scanner.scan
    (lexeme, ⟨scanner, lexeme, false⟩)

/-- Puts the last lexeme back. -/
def unscan (feed : Pushback) : Pushback :=
  { feed with pending := true }

/-- The characters ahead, and one more for a lexeme put back. -/
def size (feed : Pushback) : Nat :=
  feed.scanner.ahead.length + if feed.pending && feed.last.token ≠ .eof then 1 else 0

theorem size_scan_le (feed : Pushback) : feed.scan.2.size ≤ feed.size := by
  have := feed.scanner.scan_ahead_le
  unfold scan size
  split
  · simp
  · simp only [Bool.false_and, Bool.false_eq_true, if_false]
    omega

theorem size_scan_lt (feed : Pushback) (h : feed.scan.1.token ≠ .eof) :
    feed.scan.2.size < feed.size := by
  unfold scan size at *
  split
  · rename_i hpending
    simp_all
  · rename_i hpending
    simp only [hpending, Bool.false_eq_true, if_false] at h
    have := feed.scanner.scan_ahead_lt h
    simp only [Bool.false_and, Bool.false_eq_true, if_false]
    omega

theorem size_unscan_scan_le (feed : Pushback) : feed.scan.2.unscan.size ≤ feed.size := by
  unfold scan unscan size
  split
  · simp_all
  · have hle := feed.scanner.scan_ahead_le
    by_cases h : feed.scanner.scan.1.token = .eof
    · simp only [h, ne_eq, not_true_eq_false, decide_false, Bool.and_false, Bool.false_eq_true,
        if_false]
      omega
    · have hlt := feed.scanner.scan_ahead_lt h
      simp only [ne_eq, h, not_false_eq_true, decide_true, Bool.and_true, if_true]
      omega

end Pushback

instance : Feed Pushback where
  scan := Pushback.scan
  unscan := Pushback.unscan
  size := Pushback.size
  size_scan_le := Pushback.size_scan_le
  size_scan_lt := Pushback.size_scan_lt
  size_unscan_scan_le := Pushback.size_unscan_scan_le

/-! ## A list with a place in it -/

/-- A list of lexemes at a place: those passed, the last one first, and those
ahead. -/
structure Listing where
  passed : List Lexeme := []
  ahead : List Lexeme
  deriving DecidableEq, Repr

namespace Listing

/-- The next lexeme of the list; past its end there is only the end of the
text. -/
def scan (feed : Listing) : Lexeme × Listing :=
  match feed.ahead with
  | lexeme :: ahead => (lexeme, ⟨lexeme :: feed.passed, ahead⟩)
  | [] =>
    let lexeme : Lexeme := ⟨.eof, "", ⟨0, 0⟩⟩
    (lexeme, ⟨lexeme :: feed.passed, []⟩)

/-- Moves back by one lexeme. -/
def unscan (feed : Listing) : Listing :=
  match feed.passed with
  | lexeme :: passed => ⟨passed, lexeme :: feed.ahead⟩
  | [] => feed

/-- The lexemes ahead that are not the end of the text. -/
def size (feed : Listing) : Nat :=
  feed.ahead.countP fun lexeme => lexeme.token ≠ .eof

theorem size_scan_le (feed : Listing) : feed.scan.2.size ≤ feed.size := by
  obtain ⟨passed, ahead⟩ := feed
  cases ahead <;> simp [scan, size, List.countP_cons]

theorem size_scan_lt (feed : Listing) (h : feed.scan.1.token ≠ .eof) :
    feed.scan.2.size < feed.size := by
  obtain ⟨passed, ahead⟩ := feed
  cases ahead with
  | nil => simp [scan] at h
  | cons lexeme ahead => simp_all [scan, size]

theorem size_unscan_scan_le (feed : Listing) : feed.scan.2.unscan.size ≤ feed.size := by
  obtain ⟨passed, ahead⟩ := feed
  cases ahead <;> simp [scan, unscan, size]

end Listing

instance : Feed Listing where
  scan := Listing.scan
  unscan := Listing.unscan
  size := Listing.size
  size_scan_le := Listing.size_scan_le
  size_scan_lt := Listing.size_scan_lt
  size_unscan_scan_le := Listing.size_unscan_scan_le

end SelectPlan
