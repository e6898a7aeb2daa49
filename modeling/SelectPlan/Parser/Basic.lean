import SelectPlan.Parser.Fault
import SelectPlan.Parser.Feed
import SelectPlan.Select

/-!
# Parsers

A parser reads lexemes from a feed, extends a statement and gives a result or
the first error.  The statement is kept when it fails, so that what has been
read of a faulty text is known.

A parser is *steady* if its success leaves the feed no larger, and it *eats* if
its success leaves the feed smaller.  Both compose, and `chain` repeats a parser
that eats.
-/

namespace SelectPlan

/-- The lexemes to be read and the statement read so far. -/
structure Progress (σ : Type) where
  feed : σ
  statement : Select := {}

/-- A parser over the feeds `σ` with results in `α`. -/
def Parser (σ α : Type) : Type :=
  Progress σ → Except ParseError α × Progress σ

namespace Parser

variable {σ α β : Type}

instance : Monad (Parser σ) where
  pure result := fun progress => (.ok result, progress)
  bind first next := fun progress =>
    match first progress with
    | (.ok result, after) => next result after
    | (.error error, after) => (.error error, after)

theorem bind_apply (first : Parser σ α) (next : α → Parser σ β) (progress : Progress σ) :
    (first >>= next) progress =
      match first progress with
      | (.ok result, after) => next result after
      | (.error error, after) => (.error error, after) := rfl

/-- Success of two parsers in turn is success of each. -/
theorem exists_of_bind_eq_ok {first : Parser σ α} {next : α → Parser σ β} {progress after}
    {result : β} (h : (first >>= next) progress = (.ok result, after)) :
    ∃ middle between, first progress = (.ok middle, between) ∧
      next middle between = (.ok result, after) := by
  rw [bind_apply] at h
  split at h
  · exact ⟨_, _, by assumption, h⟩
  · cases h

/-- Fails at a place in the text. -/
def fail (fault : Fault) (span : Span) : Parser σ α :=
  fun progress => (.error ⟨fault, span⟩, progress)

/-- The statement read so far. -/
def statement : Parser σ Select :=
  fun progress => (.ok progress.statement, progress)

/-- Changes the statement. -/
def update (change : Select → Select) : Parser σ Unit :=
  fun progress => (.ok (), { progress with statement := change progress.statement })

variable [Feed σ]

/-- The next lexeme. -/
def scan : Parser σ Lexeme :=
  fun progress =>
    let (lexeme, feed) := Feed.scan progress.feed
    (.ok lexeme, { progress with feed })

/-- Puts the last lexeme back. -/
def unscan : Parser σ Unit :=
  fun progress => (.ok (), { progress with feed := Feed.unscan progress.feed })

/-- The next lexeme, which stays to be read. -/
def peek : Parser σ Lexeme := do
  let lexeme ← scan
  unscan
  pure lexeme

/-- Reads a lexeme that must be of a certain form, and fails at it otherwise. -/
def take (form : Lexeme → Except Fault α) : Parser σ α := do
  let lexeme ← scan
  match form lexeme with
  | .ok result => pure result
  | .error fault => fail fault lexeme.span

/-- Reads a lexeme if it is of a certain form, and leaves it otherwise. -/
def take? (form : Token → Option α) : Parser σ (Option α) := do
  let lexeme ← scan
  match form lexeme.token with
  | some result => pure (some result)
  | none =>
    unscan
    pure none

theorem scan_apply (progress : Progress σ) :
    (scan : Parser σ Lexeme) progress =
      (.ok (Feed.scan progress.feed).1,
        { progress with feed := (Feed.scan progress.feed).2 }) := rfl

theorem peek_apply (progress : Progress σ) :
    (peek : Parser σ Lexeme) progress =
      (.ok (Feed.scan progress.feed).1,
        { progress with feed := Feed.unscan (Feed.scan progress.feed).2 }) := rfl

theorem take_apply (form : Lexeme → Except Fault α) (progress : Progress σ) :
    take form progress =
      match form (Feed.scan progress.feed).1 with
      | .ok result => (.ok result, { progress with feed := (Feed.scan progress.feed).2 })
      | .error fault =>
        (.error ⟨fault, (Feed.scan progress.feed).1.span⟩,
          { progress with feed := (Feed.scan progress.feed).2 }) := by
  rw [take, bind_apply, scan_apply]
  dsimp only
  cases form (Feed.scan progress.feed).1 <;> rfl

theorem take?_apply (form : Token → Option α) (progress : Progress σ) :
    take? form progress =
      match form (Feed.scan progress.feed).1.token with
      | some result => (.ok (some result), { progress with feed := (Feed.scan progress.feed).2 })
      | none =>
        (.ok none, { progress with feed := Feed.unscan (Feed.scan progress.feed).2 }) := by
  rw [take?, bind_apply, scan_apply]
  dsimp only
  cases form (Feed.scan progress.feed).1.token <;> rfl

/-! ## Steady parsers and parsers that eat -/

/-- Success leaves the feed no larger. -/
def Steady (parser : Parser σ α) : Prop :=
  ∀ progress result after, parser progress = (.ok result, after) →
    Feed.size after.feed ≤ Feed.size progress.feed

/-- Success leaves the feed smaller. -/
def Eats (parser : Parser σ α) : Prop :=
  ∀ progress result after, parser progress = (.ok result, after) →
    Feed.size after.feed < Feed.size progress.feed

theorem Eats.steady {parser : Parser σ α} (h : parser.Eats) : parser.Steady :=
  fun progress result after hrun => Nat.le_of_lt (h progress result after hrun)

theorem steady_pure (result : α) : (pure result : Parser σ α).Steady := by
  intro progress result' after h
  cases h
  exact Nat.le_refl _

theorem eats_fail (fault : Fault) (span : Span) : (fail fault span : Parser σ α).Eats := by
  intro progress result after h
  cases h

theorem steady_statement : (statement : Parser σ Select).Steady := by
  intro progress result after h
  cases h
  exact Nat.le_refl _

theorem steady_update (change : Select → Select) : (update change : Parser σ Unit).Steady := by
  intro progress result after h
  cases h
  exact Nat.le_refl _

theorem steady_scan : (scan : Parser σ Lexeme).Steady := by
  intro progress result after h
  cases h
  exact Feed.size_scan_le _

theorem Steady.bind {first : Parser σ α} {next : α → Parser σ β} (hfirst : first.Steady)
    (hnext : ∀ result, (next result).Steady) : (first >>= next).Steady := by
  intro progress result after h
  obtain ⟨middle, between, h₁, h₂⟩ := exists_of_bind_eq_ok h
  exact Nat.le_trans (hnext _ _ _ _ h₂) (hfirst _ _ _ h₁)

theorem Eats.bind {first : Parser σ α} {next : α → Parser σ β} (hfirst : first.Eats)
    (hnext : ∀ result, (next result).Steady) : (first >>= next).Eats := by
  intro progress result after h
  obtain ⟨middle, between, h₁, h₂⟩ := exists_of_bind_eq_ok h
  exact Nat.lt_of_le_of_lt (hnext _ _ _ _ h₂) (hfirst _ _ _ h₁)

theorem Steady.bind_eats {first : Parser σ α} {next : α → Parser σ β} (hfirst : first.Steady)
    (hnext : ∀ result, (next result).Eats) : (first >>= next).Eats := by
  intro progress result after h
  obtain ⟨middle, between, h₁, h₂⟩ := exists_of_bind_eq_ok h
  exact Nat.lt_of_lt_of_le (hnext _ _ _ _ h₂) (hfirst _ _ _ h₁)

theorem steady_peek : (peek : Parser σ Lexeme).Steady := by
  intro progress result after h
  cases h
  exact Feed.size_unscan_scan_le _

/-- A form that no end of the text has makes a parser that eats. -/
theorem eats_take {form : Lexeme → Except Fault α}
    (hform : ∀ lexeme result, form lexeme = .ok result → lexeme.token ≠ .eof) :
    (take form : Parser σ α).Eats := by
  intro progress result after h
  rw [take_apply] at h
  split at h
  · rename_i value hvalue
    cases h
    exact Feed.size_scan_lt _ (hform _ _ hvalue)
  · cases h

theorem steady_take? (form : Token → Option α) :
    (take? form : Parser σ (Option α)).Steady := by
  intro progress result after h
  rw [take?_apply] at h
  split at h
  · cases h
    exact Feed.size_scan_le _
  · cases h
    exact Feed.size_unscan_scan_le _

/-! ## Repetition -/

/-- Reads `item (separator item)*`: the first item, then each separator with the
item after it. -/
def chain (item : Parser σ α) (separator : Parser σ (Option β)) (hitem : item.Eats)
    (hseparator : separator.Steady) : Parser σ (α × List (β × α)) :=
  fun progress =>
    match _hitem : item progress with
    | (.error error, after) => (.error error, after)
    | (.ok head, between) =>
      match _hseparator : separator between with
      | (.error error, after) => (.error error, after)
      | (.ok none, after) => (.ok (head, []), after)
      | (.ok (some link), later) =>
        match chain item separator hitem hseparator later with
        | (.error error, after) => (.error error, after)
        | (.ok (next, more), after) => (.ok (head, (link, next) :: more), after)
termination_by progress => Feed.size progress.feed
decreasing_by
  -- The item ate something and the separator gave nothing back.
  exact Nat.lt_of_le_of_lt (hseparator _ _ _ _hseparator) (hitem _ _ _ _hitem)

theorem eats_chain {item : Parser σ α} {separator : Parser σ (Option β)} (hitem : item.Eats)
    (hseparator : separator.Steady) : (chain item separator hitem hseparator).Eats := by
  intro progress
  fun_induction chain item separator hitem hseparator progress with
  | case1 => rintro _ _ ⟨⟩
  | case2 => rintro _ _ ⟨⟩
  | case3 progress head between hfirst after hlast =>
      rintro _ _ ⟨⟩
      exact Nat.lt_of_le_of_lt (hseparator _ _ _ hlast) (hitem _ _ _ hfirst)
  | case4 => rintro _ _ ⟨⟩
  | case5 progress head between hfirst link later hlink next more after hmore ih =>
      rintro _ _ ⟨⟩
      have hbetween := hitem _ _ _ hfirst
      have hlater := hseparator _ _ _ hlink
      have hafter := ih _ _ hmore
      omega

end Parser

end SelectPlan
