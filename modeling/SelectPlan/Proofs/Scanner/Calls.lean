import SelectPlan.Proofs.Scanner.Coverage

/-!
# Calls to a scanner

A scanner is asked for its lexemes by two kinds of calls: `scan` hands out the end
of the text like any other lexeme, and `next` hands out nothing there.  They may be
mixed at will.  This file proves that every sequence of calls hands out the lexemes
of the text in order, and the end for ever after (`run_answers`), and that the
scanner always stands between two characters (`Within.run`).

Together with the places of the lexemes and what they cover this says that
scanning loses nothing of a text: `tokenize_lossless`.
-/

namespace SelectPlan.Scanner

open Text

/-! ## Calls -/

/-- The two ways to ask for the next lexeme. -/
inductive Call
  | scan
  | next
  deriving DecidableEq, Repr

namespace Call

/-- What a call hands out if this is the next lexeme. -/
def handed (call : Call) (lexeme : Lexeme) : Option Lexeme :=
  match call with
  | scan => some lexeme
  | next => if lexeme.token = .eof then none else some lexeme

/-- A call: what it hands out, and the scanner after it. -/
def make : Call → Scanner → Option Lexeme × Scanner
  | scan, scanner => (some scanner.scan.1, scanner.scan.2)
  | next, scanner => scanner.next?

theorem make_eq (call : Call) (scanner : Scanner) :
    call.make scanner = (call.handed scanner.scan.1, scanner.scan.2) := by
  cases call <;> rfl

end Call

/-- Calls one after the other: what each of them hands out, and the scanner after
the last. -/
def run : List Call → Scanner → List (Option Lexeme) × Scanner
  | [], scanner => ([], scanner)
  | call :: rest, scanner =>
    let (answer, after) := call.make scanner
    let (answers, last) := run rest after
    (answer :: answers, last)

theorem run_cons (call : Call) (rest : List Call) (scanner : Scanner) :
    run (call :: rest) scanner =
      (call.handed scanner.scan.1 :: (run rest scanner.scan.2).1, (run rest scanner.scan.2).2) := by
  rw [run, call.make_eq]

/-! ## The lexemes in their order -/

/-- The lexeme at an index, and past the last one the end of the text. -/
def lexemeAt (scanner : Scanner) (index : Nat) : Lexeme :=
  scanner.lexemes.getD index scanner.ending

theorem lexemeAt_zero (scanner : Scanner) : scanner.lexemeAt 0 = scanner.scan.1 := by
  by_cases h : scanner.scan.1.token = .eof
  · rw [lexemeAt, lexemes_of_eof h]
    rfl
  · rw [lexemeAt, lexemes_of_ne_eof h]
    rfl

theorem lexemeAt_succ (scanner : Scanner) (index : Nat) :
    scanner.lexemeAt (index + 1) = scanner.scan.2.lexemeAt index := by
  by_cases h : scanner.scan.1.token = .eof
  · have hagain : scanner.scan.2.scan.1.token = .eof := by rwa [scan_scan_of_eof h]
    rw [lexemeAt, lexemeAt, lexemes_of_eof h, lexemes_of_eof hagain, ending_of_eof h,
      ending_of_eof hagain, scan_scan_of_eof h]
    cases index <;> rfl
  · rw [lexemeAt, lexemes_of_ne_eof h, ending_of_ne_eof h]
    rfl

/-- Every call hands out the lexeme whose turn it is. -/
theorem run_answers (calls : List Call) (scanner : Scanner) :
    (run calls scanner).1 =
      calls.mapIdx fun index call => call.handed (scanner.lexemeAt index) := by
  induction calls generalizing scanner with
  | nil => rfl
  | cons call rest ih =>
      rw [run_cons, List.mapIdx_cons, lexemeAt_zero, ih]
      simp only [lexemeAt_succ]

/-! ## The positions of the scanner -/

variable {text passed : List Char} {scanner : Scanner}

/-- However it is called, a scanner has passed a part of the text, and the rest of
it lies ahead. -/
theorem Within.run (h : Within text scanner passed) (calls : List Call) :
    ∃ passed', Within text (run calls scanner).2 passed' := by
  induction calls generalizing scanner passed with
  | nil => exact ⟨passed, h⟩
  | cons call rest ih =>
      obtain ⟨blanks, -, -, hafter⟩ := h.scan
      rw [run_cons]
      exact ih hafter

/-- After a call the scanner stands at the end of the lexeme whose turn it was. -/
theorem Within.position_run (h : Within text scanner passed)
    (hsize : byteLength text ≤ Span.lastOffset) (call : Call) (rest : List Call) :
    (Scanner.run (call :: rest) scanner).2.position = (scanner.lexemeAt rest.length).span.stop := by
  induction rest generalizing call scanner passed with
  | nil =>
      rw [run_cons, List.length_nil, lexemeAt_zero]
      exact h.position_scan hsize
  | cons later rest ih =>
      obtain ⟨blanks, -, -, hafter⟩ := h.scan
      rw [run_cons, List.length_cons, lexemeAt_succ]
      exact ih hafter later

/-- Where the lexemes are used up, the scanner has passed the whole text. -/
theorem Within.position_run_of_lt (h : Within text scanner passed)
    (hsize : byteLength text ≤ Span.lastOffset) {calls : List Call}
    (hcalls : (drain scanner).1.length < calls.length) :
    (Scanner.run calls scanner).2.position = byteLength text := by
  cases calls with
  | nil => cases hcalls
  | cons call rest =>
      have hlength : (drain scanner).1.length ≤ rest.length := Nat.le_of_lt_succ hcalls
      have hending : scanner.lexemeAt rest.length = scanner.ending := by
        rw [lexemeAt, lexemes_eq_append, List.getD_eq_getElem?_getD,
          List.getElem?_append_right hlength]
        cases rest.length - (drain scanner).1.length <;> rfl
      rw [h.position_run hsize, hending, h.ending_eq, Span.ofOffsets_stop]
      omega

/-! ## Nothing is lost -/

/-- Scanning a text that is short enough for its offsets loses nothing of it.

The lexemes end with the only end of the text; each of the others has characters,
which are the bytes at its span; the spans are in order, and what they leave out is
blank.  All ends of spans are places between two characters, and so is the place of
the first quotation mark among the bytes behind such a place.  Every sequence of
calls hands out the lexemes in this order, each once, and then the end, while the
scanner stands at the end of the lexeme that was handed out last. -/
theorem tokenize_lossless (text : String) (hsize : text.utf8ByteSize ≤ Span.lastOffset) :
    ∃ lexemes ending, tokenize text = lexemes ++ [ending] ∧
      ending = ⟨.eof, "", ⟨text.utf8ByteSize, text.utf8ByteSize⟩⟩ ∧
      (∀ lexeme ∈ lexemes, lexeme.token ≠ .eof ∧ lexeme.text ≠ "" ∧
        text.toByteArray.extract lexeme.span.start lexeme.span.stop = lexeme.text.toByteArray ∧
        String.Pos.Raw.IsValid text ⟨lexeme.span.start⟩ ∧
        String.Pos.Raw.IsValid text ⟨lexeme.span.stop⟩) ∧
      ((tokenize text).Pairwise fun first second => first.span.stop ≤ second.span.start) ∧
      (∀ i < text.utf8ByteSize,
        (∀ lexeme ∈ lexemes, ¬ (lexeme.span.start ≤ i ∧ i < lexeme.span.stop)) →
        ∃ c, CharAt text.toList i c ∧ isBlank c = true) ∧
      (∀ front back, text.toList = front ++ back →
        ∀ offset, (encodeUtf8 back).findIdx? isQuoteByte = some offset →
          String.Pos.Raw.IsValid text ⟨byteLength front + offset⟩ ∧
          String.Pos.Raw.IsValid text ⟨byteLength front + offset + 1⟩) ∧
      ∀ calls : List Call,
        (run calls (ofText text)).1 =
          calls.mapIdx (fun index call => call.handed ((tokenize text).getD index ending)) ∧
        String.Pos.Raw.IsValid text ⟨(run calls (ofText text)).2.position⟩ ∧
        (∀ call rest, calls = call :: rest → (run calls (ofText text)).2.position =
          ((tokenize text).getD rest.length ending).span.stop) ∧
        (lexemes.length < calls.length →
          (run calls (ofText text)).2.position = text.utf8ByteSize) := by
  rw [utf8ByteSize_eq] at hsize ⊢
  have hwithin := within_ofText text
  -- The bound takes the clamp out of all spans.
  have hending : (ofText text).ending =
      ⟨.eof, "", ⟨byteLength text.toList, byteLength text.toList⟩⟩ := by
    rw [hwithin.ending_eq, Span.ofOffsets, Nat.min_eq_left hsize]
  refine ⟨(drain (ofText text)).1, (ofText text).ending, rfl, hending, ?_, pairwise_tokenize text,
    ?_, ?_, ?_⟩
  · intro lexeme hmem
    obtain ⟨htoken, htext⟩ := ne_of_mem_drain hmem
    obtain ⟨front, back, hsplit, hspan⟩ :=
      at_of_mem_tokenize (List.mem_append_left [(ofText text).ending] hmem)
    have hlength := congrArg byteLength hsplit
    rw [byteLength_append, byteLength_append] at hlength
    rw [Span.ofOffsets, Nat.min_eq_left (by omega), Nat.min_eq_left (by omega)] at hspan
    have hstop := isValid_byteLength ((List.append_assoc ..).trans hsplit.symm).symm
    rw [byteLength_append] at hstop
    rw [hspan]
    refine ⟨htoken, htext, ?_, isValid_byteLength hsplit, hstop⟩
    rw [extract_toByteArray hsplit, String.ofList_toList]
  · intro i hi hfree
    rcases hwithin.covered hsize (Nat.zero_le i) hi with ⟨lexeme, hmem, hlexeme⟩ | hblank
    · exact absurd hlexeme (hfree lexeme hmem)
    · exact hblank
  · intro front back hsplit _ hoffset
    exact isValid_of_findIdx?_isQuoteByte hsplit hoffset
  · intro calls
    -- Wherever the calls lead, the scanner has passed a front of the text.
    obtain ⟨passed, hpassed⟩ := hwithin.run calls
    refine ⟨run_answers calls _, ?_, ?_, hwithin.position_run_of_lt hsize⟩
    · rw [hpassed.position]
      exact isValid_byteLength hpassed.split
    · rintro call rest rfl
      exact hwithin.position_run hsize call rest

/-- An unterminated string reaches to the end of the text, which calls of both kinds
then hand out. -/
theorem tokenize_lossless_unterminated :
    "é = 'ü".utf8ByteSize ≤ Span.lastOffset ∧
      (run [.next, .scan, .next, .next, .scan] (ofText "é = 'ü")).1 =
        [some ⟨.ident, "é", ⟨0, 2⟩⟩, some ⟨.comparison .eq, "=", ⟨3, 4⟩⟩,
          some ⟨.illegal, "'ü", ⟨5, 8⟩⟩, none, some ⟨.eof, "", ⟨8, 8⟩⟩] ∧
      (run [.next, .scan, .next, .next, .scan] (ofText "é = 'ü")).2.position = 8 := by
  have hsize : "é = 'ü".utf8ByteSize ≤ Span.lastOffset := by decide
  have htokens : tokenize "é = 'ü" =
      [⟨.ident, "é", ⟨0, 2⟩⟩, ⟨.comparison .eq, "=", ⟨3, 4⟩⟩, ⟨.illegal, "'ü", ⟨5, 8⟩⟩,
        ⟨.eof, "", ⟨8, 8⟩⟩] := by
    decide +kernel
  obtain ⟨lexemes, ending, hlexemes, rfl, -, -, -, -, hcalls⟩ :=
    tokenize_lossless "é = 'ü" hsize
  obtain ⟨hanswers, -, hposition, -⟩ := hcalls [.next, .scan, .next, .next, .scan]
  rw [htokens] at hanswers hposition
  exact ⟨hsize, hanswers, hposition _ _ rfl⟩

end SelectPlan.Scanner
