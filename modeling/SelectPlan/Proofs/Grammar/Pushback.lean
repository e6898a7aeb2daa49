import SelectPlan.Proofs.Grammar.Lockstep
import SelectPlan.Proofs.Grammar.Parse
import SelectPlan.Proofs.Scanner.Coverage

/-!
# One lexeme put back

The parser drives a scanner with room for one lexeme put back.  It makes of a text what it
makes of the list of all its lexemes, and it never loses or repeats one: at every time the
lexemes it has consumed are the first of the list, the scanner has been asked for one more
at most, and none is put back while another is.  The clauses of the statement take no more
steps than there are lexemes (`reads_in_order`).

## Strategy

A watched feed is a scanner with room for one lexeme that keeps its calls (`Watched`).
What is to be shown of the calls is kept by each of them (`Tracked.scan`, `Tracked.unscan`),
so it is part of what a watched feed offers, and it holds after every run because feeds are
lawful at the end of runs in step (`finishes_or_stops`).  That the runs on several kinds of
feeds come to the same is the case of runs in step where both sides of all twins are the
same.  The number of steps is bounded for the list, which loses a lexeme with every step
but the last, and it is the same for the scanner.
-/

namespace SelectPlan

open SelectPlan.Parser Scanner

/-! ## Calls -/

/-- A call of a feed. -/
inductive FeedCall
  /-- A lexeme is handed out, which is fresh from the scanner or was put back before. -/
  | scan (lexeme : Lexeme) (fresh : Bool)
  /-- The last lexeme is put back, while it was put back already or not. -/
  | unscan (pending : Bool)

/-- What one more call makes of the lexemes that have been consumed. -/
def FeedCall.consume (lexemes : List Lexeme) : FeedCall → List Lexeme
  | scan lexeme _ => lexemes ++ [lexeme]
  | unscan _ => lexemes.dropLast

/-- The lexeme that a call takes from the scanner. -/
def FeedCall.fresh? : FeedCall → Option Lexeme
  | scan lexeme true => some lexeme
  | _ => none

/-- The lexemes that calls have handed out without taking them back. -/
def consumed (calls : List FeedCall) : List Lexeme :=
  calls.foldl FeedCall.consume []

/-- The lexemes that calls have taken from the scanner. -/
def scanned (calls : List FeedCall) : List Lexeme :=
  calls.filterMap FeedCall.fresh?

theorem consumed_concat (calls : List FeedCall) (call : FeedCall) :
    consumed (calls ++ [call]) = call.consume (consumed calls) :=
  List.foldl_concat ..

theorem scanned_concat (calls : List FeedCall) (call : FeedCall) :
    scanned (calls ++ [call]) = scanned calls ++ call.fresh?.toList := by
  rw [scanned, List.filterMap_append]
  cases h : call.fresh? <;> simp [scanned, h]

/-- Calls go through some lexemes one after the other, with the scanner one ahead at
most. -/
structure InOrder (lexemes : List Lexeme) (calls : List FeedCall) : Prop where
  consumed : consumed calls <+: lexemes
  scanned : scanned calls <+: lexemes
  ahead : (SelectPlan.scanned calls).length ≤ (SelectPlan.consumed calls).length + 1

/-! ## Watched feeds -/

namespace Pushback

theorem pending_scan (feed : Pushback) : feed.scan.2.pending = false := by
  by_cases h : feed.pending = true
  · rw [scan_of_pending h]
  · rw [scan_of_not_pending h]

theorem last_scan (feed : Pushback) : feed.scan.2.last = feed.scan.1 := by
  by_cases h : feed.pending = true
  · rw [scan_of_pending h]
  · rw [scan_of_not_pending h]

end Pushback

/-- A scanner over a text with room for one lexeme put back, and the calls it has had. -/
structure Watched (text : String) where
  feed : Pushback := { scanner := .ofText text }
  calls : List FeedCall := []

namespace Watched

variable {text : String}

/-- The next lexeme, which is noted. -/
def scan (watched : Watched text) : Lexeme × Watched text :=
  let (lexeme, feed) := watched.feed.scan
  (lexeme, ⟨feed, watched.calls ++ [.scan lexeme (!watched.feed.pending)]⟩)

/-- Puts the last lexeme back, which is noted. -/
def unscan (watched : Watched text) : Watched text :=
  ⟨watched.feed.unscan, watched.calls ++ [.unscan watched.feed.pending]⟩

end Watched

instance (text : String) : Feed (Watched text) where
  scan := Watched.scan
  unscan := Watched.unscan
  size watched := watched.feed.size
  size_scan_le watched := watched.feed.size_scan_le
  size_scan_lt watched := watched.feed.size_scan_lt
  size_unscan_scan_le watched := watched.feed.size_unscan_scan_le

/-- The calls of a watched feed are in order, and these lexemes come next. -/
structure Tracked {text : String} (watched : Watched text) (lexemes : List Lexeme) : Prop where
  inOrder : ∀ front, front <+: watched.calls → InOrder (tokenize text) front
  not_pending : ∀ pending, FeedCall.unscan pending ∈ watched.calls → pending = false
  consumed : consumed watched.calls ++ lexemes <+: tokenize text
  scanned : scanned watched.calls =
    SelectPlan.consumed watched.calls ++
      if watched.feed.pending then [watched.feed.last] else []
  upcoming : LawfulFeed.Offers watched.feed lexemes

namespace Tracked

variable {text : String} {watched : Watched text} {lexeme : Lexeme} {rest : List Lexeme}

theorem start (text : String) : Tracked ({} : Watched text) (tokenize text) where
  inOrder front hfront := by
    obtain rfl := List.prefix_nil.mp hfront
    exact ⟨List.nil_prefix, List.nil_prefix, Nat.zero_le _⟩
  not_pending _ hmem := by cases hmem
  consumed := List.prefix_rfl
  scanned := rfl
  upcoming := offers_ofText text

/-- Calls that were in order are so with one more call. -/
theorem inOrder_concat (h : Tracked watched rest) {call : FeedCall}
    (hcall : InOrder (tokenize text) (watched.calls ++ [call])) (front : List FeedCall)
    (hfront : front <+: watched.calls ++ [call]) : InOrder (tokenize text) front := by
  rcases List.prefix_concat_iff.mp hfront with rfl | hfront
  · exact hcall
  · exact h.inOrder front hfront

theorem scan_eq (h : Tracked watched (lexeme :: rest)) : watched.feed.scan.1 = lexeme :=
  LawfulFeed.scan_eq h.upcoming

/-- A lexeme that is handed out is consumed, and the scanner is no further. -/
theorem scan (h : Tracked watched (lexeme :: rest)) :
    Tracked watched.scan.2 rest ∧ SelectPlan.consumed watched.scan.2.calls =
      SelectPlan.consumed watched.calls ++ [lexeme] := by
  have hlexeme := h.scan_eq
  have hcalls : watched.scan.2.calls =
      watched.calls ++ [.scan lexeme (!watched.feed.pending)] := by
    rw [← hlexeme]
    rfl
  have hconsumed : SelectPlan.consumed watched.scan.2.calls =
      SelectPlan.consumed watched.calls ++ [lexeme] := by
    rw [hcalls, consumed_concat]
    rfl
  -- The scanner is asked only if nothing was put back; else it is one lexeme ahead already.
  have hscanned : SelectPlan.scanned watched.scan.2.calls =
      SelectPlan.consumed watched.calls ++ [lexeme] := by
    rw [hcalls, scanned_concat, h.scanned]
    cases hpending : watched.feed.pending with
    | false => exact congrArg (· ++ [lexeme]) (List.append_nil _)
    | true =>
        rw [Pushback.scan_of_pending hpending] at hlexeme
        rw [← hlexeme]
        exact List.append_nil _
  have hprefix : SelectPlan.consumed watched.calls ++ [lexeme] ++ rest <+: tokenize text := by
    rw [List.append_assoc]
    exact h.consumed
  have horder : InOrder (tokenize text) watched.scan.2.calls := by
    refine ⟨?_, ?_, ?_⟩
    · rw [hconsumed]
      exact (List.prefix_append _ rest).trans hprefix
    · rw [hscanned]
      exact (List.prefix_append _ rest).trans hprefix
    · rw [hscanned, hconsumed]
      exact Nat.le_succ _
  refine ⟨⟨?_, ?_, ?_, ?_, LawfulFeed.offers_scan h.upcoming⟩, hconsumed⟩
  · exact hcalls ▸ h.inOrder_concat (hcalls ▸ horder)
  · rw [hcalls]
    simpa using h.not_pending
  · rw [hconsumed]
    exact hprefix
  · rw [hscanned, hconsumed]
    change _ = _ ++ if watched.feed.scan.2.pending then _ else _
    rw [watched.feed.pending_scan, if_neg Bool.false_ne_true, List.append_nil]

/-- A lexeme that is put back is not consumed, but the scanner has passed it. -/
theorem unscan (h : Tracked watched (lexeme :: rest)) :
    Tracked watched.scan.2.unscan (lexeme :: rest) := by
  obtain ⟨hscan, hconsumed⟩ := h.scan
  have hlexeme := h.scan_eq
  have hpending : watched.scan.2.feed.pending = false := watched.feed.pending_scan
  have hcalls : watched.scan.2.unscan.calls = watched.scan.2.calls ++ [.unscan false] := by
    rw [← hpending]
    rfl
  -- For what is consumed, putting back undoes the scan; for what is scanned it does not.
  have hback : SelectPlan.consumed watched.scan.2.unscan.calls =
      SelectPlan.consumed watched.calls := by
    rw [hcalls, consumed_concat, hconsumed]
    exact List.dropLast_concat
  have hscanned : SelectPlan.scanned watched.scan.2.unscan.calls =
      SelectPlan.consumed watched.calls ++ [lexeme] := by
    rw [hcalls, scanned_concat, hscan.scanned, hpending, hconsumed]
    simp [FeedCall.fresh?]
  have horder : InOrder (tokenize text) watched.scan.2.unscan.calls := by
    refine ⟨?_, ?_, ?_⟩
    · rw [hback]
      exact (List.prefix_append _ _).trans h.consumed
    · rw [hscanned, ← hconsumed]
      exact (List.prefix_append _ rest).trans hscan.consumed
    · rw [hscanned, hback, List.length_append, List.length_singleton]
  refine ⟨?_, ?_, ?_, ?_, LawfulFeed.offers_unscan h.upcoming⟩
  · exact hcalls ▸ hscan.inOrder_concat (hcalls ▸ horder)
  · rw [hcalls]
    simpa using hscan.not_pending
  · rw [hback]
    exact h.consumed
  · rw [hscanned, hback]
    change _ = _ ++ [watched.feed.scan.2.last]
    rw [watched.feed.last_scan, hlexeme]

end Tracked

instance (text : String) : LawfulFeed (Watched text) where
  Offers := Tracked
  offers_prefix h :=
    ⟨h.inOrder, h.not_pending,
      (List.prefix_append_right_inj _).mpr (List.prefix_append _ _) |>.trans h.consumed, h.scanned,
      LawfulFeed.offers_prefix h.upcoming⟩
  scan_eq h := h.scan_eq
  offers_scan h := h.scan.1
  offers_unscan h := h.unscan

/-! ## One text on two kinds of feeds -/

/-- A lexeme as both sides of a twin. -/
def Twin.same (lexeme : Lexeme) : Twin :=
  ⟨lexeme, lexeme, rfl, .inl rfl⟩

theorem Twin.map_left_same (lexemes : List Lexeme) :
    (lexemes.map Twin.same).map Twin.left = lexemes := by
  rw [List.map_map]
  exact List.map_id lexemes

theorem Twin.map_right_same (lexemes : List Lexeme) :
    (lexemes.map Twin.same).map Twin.right = lexemes := by
  rw [List.map_map]
  exact List.map_id lexemes

/-- Faults that quote lexemes in the same writing are the same. -/
theorem Fault.Recased.eq {seen : List Lexeme} {fault fault' : Fault}
    (h : Fault.Recased seen seen fault fault') : fault' = fault := by
  rcases h with heq | ⟨skipped, expectation, hfault, hfault'⟩
  · exact heq
  · rw [hfault, hfault']

namespace Parser

variable {σ τ : Type} [Feed σ] [LawfulFeed σ] [Feed τ] [LawfulFeed τ]

theorem offered_same {feed : σ} {feed' : τ} {lexemes : List Lexeme}
    (hended : Ended (lexemes.map Lexeme.symbol)) (h : LawfulFeed.Offers feed lexemes)
    (h' : LawfulFeed.Offers feed' lexemes) :
    Offered feed feed' (lexemes.map Twin.same) where
  ended := by
    rw [List.map_map]
    exact hended
  left := by rwa [Twin.map_left_same]
  right := by rwa [Twin.map_right_same]

/-- What is read of a statement does not depend on the kind of the feed, and the feed is
lawful to the end. -/
theorem readStatement_eq {feed : σ} {feed' : τ} {lexemes : List Lexeme}
    (hended : Ended (lexemes.map Lexeme.symbol)) (h : LawfulFeed.Offers feed lexemes)
    (h' : LawfulFeed.Offers feed' lexemes) :
    readStatement feed = readStatement feed' ∧
      LawfulFeed.Offers (run .start ⟨feed, {}⟩).2.feed [] := by
  rcases finishes_or_stops .start {} feed feed' _ (offered_same hended h h')
      (starts_of_opener_eq_none rfl _) with
    ⟨used, rest, _, after, next, next', -, -, hrun, hrun', hnext⟩ |
    ⟨used, bad, rest, fault, fault', after, next, next', hsplit, hrun, hrun', hrecased, hnext⟩
  · rw [readStatement, readStatement, hrun, hrun']
    exact ⟨rfl, hnext⟩
  · -- Both sides of these twins are one lexeme, so the two faults are the same.
    have hsides : ∀ part : List Twin, part <:+: lexemes.map Twin.same →
        part.map Twin.right = part.map Twin.left := by
      intro part hpart
      refine List.map_congr_left fun twin htwin => ?_
      obtain ⟨lexeme, -, rfl⟩ := List.mem_map.mp (hpart.mem htwin)
      rfl
    have hused : used.map Twin.right = used.map Twin.left :=
      hsides used ⟨[], bad :: rest, by rw [hsplit]; rfl⟩
    have hseen : (used ++ [bad]).map Twin.right = (used ++ [bad]).map Twin.left :=
      hsides (used ++ [bad]) ⟨[], rest, by rw [hsplit]; simp⟩
    have hbad : bad.right = bad.left := by
      simpa using hsides [bad] ⟨used, rest, by rw [hsplit]; simp⟩
    rw [hseen] at hrecased
    rw [hused, hbad, hrecased.eq] at hrun'
    rw [readStatement, readStatement, hrun, hrun']
    exact ⟨rfl, hnext⟩

/-! ## Steps -/

/-- Reads a statement from a position in a limited number of steps. -/
def runWithin : Nat → Position → Progress σ → Option (Except ParseError Unit × Progress σ)
  | 0, _, _ => none
  | limit + 1, position, progress =>
    match step position progress with
    | (.error error, after) => some (.error error, after)
    | (.ok none, after) => some (.ok (), after)
    | (.ok (some next), after) => runWithin limit next after

omit [LawfulFeed σ] in
/-- Steps that are enough make a whole run. -/
theorem runWithin_eq_some {limit : Nat} {position : Position} {progress : Progress σ}
    (h : (runWithin limit position progress).isSome = true) :
    runWithin limit position progress = some (run position progress) := by
  induction limit generalizing position progress with
  | zero => cases h
  | succ limit ih =>
      rw [runWithin] at h ⊢
      rw [run_eq_step_bind, bind_apply]
      split
      case h_1 hstep => rw [hstep]
      case h_2 hstep =>
        rw [hstep]
        rfl
      case h_3 hstep =>
        rw [hstep] at h ⊢
        exact ih h

/-- A step past the limit is needed on both kinds of feeds or on none. -/
theorem isSome_runWithin {limit : Nat} {position : Position} {before : Select} {feed : σ}
    {feed' : τ} {twins : List Twin} (hoffered : Offered feed feed' twins)
    (hstarts : Starts position twins)
    (h : (runWithin limit position ⟨feed', before⟩).isSome = true) :
    (runWithin limit position ⟨feed, before⟩).isSome = true := by
  induction limit generalizing position before feed feed' twins with
  | zero => cases h
  | succ limit ih =>
      rw [runWithin] at h ⊢
      -- The last position is not covered by the lockstep, but it leads nowhere.
      by_cases hposition : position = .finish
      · subst hposition
        split
        case h_1 => rfl
        case h_2 => rfl
        case h_3 hstep => exact absurd hstep (readFinish_ne_some _ _ _)
      rcases lockstep_step hposition hoffered hstarts with
        ⟨used, rest, result, after, next, next', -, -, hleft, hright, hrest, hleads⟩ |
        ⟨used, bad, rest, fault, fault', after, next, next', -, hleft, -, -, -⟩
      · rw [hleft]
        rw [hright] at h
        cases result with
        | none => rfl
        | some position' => exact ih hrest (hleads position' rfl) h
      · rw [hleft]
        rfl

omit [LawfulFeed σ] in
/-- Every step but the last makes the feed smaller. -/
theorem isSome_runWithin_of_size {limit : Nat} {position : Position} {progress : Progress σ}
    (h : Feed.size progress.feed < limit) :
    (runWithin limit position progress).isSome = true := by
  induction limit generalizing position progress with
  | zero => exact absurd h (Nat.not_lt_zero _)
  | succ limit ih =>
      rw [runWithin]
      split
      case h_1 => rfl
      case h_2 => rfl
      case h_3 hstep =>
        have hsmaller := size_step_lt hstep
        exact ih (by omega)

end Parser

/-! ## Whole texts -/

/-- The end of a text is its last lexeme and no other. -/
theorem countP_eof_tokenize (text : String) :
    (tokenize text).countP (fun lexeme => lexeme.token = .eof) ≤ 1 ∧
      (tokenize text).countP (fun lexeme => lexeme.token ≠ .eof) < (tokenize text).length := by
  rw [tokenize_eq_lexemes, lexemes_eq_append]
  generalize ofText text = scanner
  have hinner : (drain scanner).1.countP (fun lexeme => lexeme.token = .eof) = 0 :=
    List.countP_eq_zero.mpr fun lexeme hlexeme => by simpa using (ne_of_mem_drain hlexeme).1
  have hle : (drain scanner).1.countP (fun lexeme => lexeme.token ≠ .eof) ≤ _ :=
    List.countP_le_length
  constructor
  · rw [List.countP_append, hinner, Nat.zero_add]
    exact List.countP_le_length
  · simp only [List.countP_append, List.countP_singleton, ending_token, List.length_append,
      List.length_singleton]
    simpa using Nat.lt_succ_of_le hle

/-- A text is read by the scanner with one lexeme put back as its lexemes are read from
their list, and:

* At every time the lexemes consumed are the first of the list, the end of the text once
  at most, and the scanner has been asked for these and one more at most.
* No lexeme is put back while one is.
* The driver takes no more steps than there are lexemes. -/
theorem reads_in_order (text : String) :
    let lexemes := tokenize text
    let watched := run .start ⟨({} : Watched text), {}⟩
    Select.parsePartial text = readStatement ({ ahead := lexemes } : Listing) ∧
      Select.parsePartial text = (watched.2.statement, watched.1) ∧
      (∀ front, front <+: watched.2.feed.calls →
        consumed front <+: lexemes ∧ scanned front <+: lexemes ∧
        (consumed front).countP (fun lexeme => lexeme.token = .eof) ≤ 1 ∧
        (scanned front).length ≤ (consumed front).length + 1) ∧
      (∀ pending, .unscan pending ∈ watched.2.feed.calls → pending = false) ∧
      runWithin lexemes.length .start ⟨({ scanner := ofText text } : Pushback), {}⟩ =
        some (run .start ⟨{ scanner := ofText text }, {}⟩) := by
  intro lexemes watched
  have hended : Ended (lexemes.map Lexeme.symbol) := ended_symbols text
  obtain ⟨hlisting, -⟩ := readStatement_eq hended (offers_ofText text) (offers_listing lexemes)
  have hstart : LawfulFeed.Offers ({} : Watched text) lexemes := Tracked.start text
  obtain ⟨hwatched, htracked⟩ := readStatement_eq hended hstart (offers_ofText text)
  obtain ⟨heof, hsize⟩ := countP_eof_tokenize text
  refine ⟨hlisting, hwatched.symm, fun front hfront => ?_, htracked.not_pending, ?_⟩
  · obtain ⟨hconsumed, hscanned, hahead⟩ := htracked.inOrder front hfront
    exact ⟨hconsumed, hscanned, hconsumed.sublist.countP_le.trans heof, hahead⟩
  · -- Each step makes the list shorter, and the scanner takes as many steps as the list.
    have hoffered := offered_same hended (offers_ofText text) (offers_listing lexemes)
    refine runWithin_eq_some (isSome_runWithin hoffered (starts_of_opener_eq_none rfl _) ?_)
    exact isSome_runWithin_of_size hsize

/-- Behind a select list the scanner is one lexeme ahead, the one put back: no comma. -/
theorem reads_in_order_ahead :
    let calls := (run .start ⟨({} : Watched "SELECT a"), {}⟩).2.feed.calls
    let front := calls.take 4
    front <+: calls ∧ (consumed front).length = 2 ∧ (scanned front).length = 3 ∧
      consumed front <+: tokenize "SELECT a" ∧ scanned front <+: tokenize "SELECT a" := by
  intro calls front
  have hfront : front <+: calls := List.take_prefix 4 calls
  obtain ⟨-, -, horder, -, -⟩ := reads_in_order "SELECT a"
  obtain ⟨hconsumed, hscanned, -⟩ := horder front hfront
  exact ⟨hfront, by decide +kernel, by decide +kernel, hconsumed, hscanned⟩

end SelectPlan
