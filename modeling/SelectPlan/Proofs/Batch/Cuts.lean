import SelectPlan.Proofs.Scanner.Content
import SelectPlan.Shell.Batch

/-!
# Where a text is cut

A text either has no semicolon lexeme, or it is a body, a semicolon and more text
(`cut_induction`).  A body has no semicolon lexeme either and ends outside of a
string, so what comes before its semicolon does not depend on what comes after:
the text is cut there, whatever follows (`cutAtSemicolons_body`).

`cutAtSemicolons` cuts a text of any length at its characters.  The program cuts it at
the byte offsets in the spans of its lexemes.  As long as these hold all offsets of the
text, the cuts are the same (`cutAll?_semicolonStops`), and they are the slices of its
bytes (`slices_semicolonStops`).
-/

namespace SelectPlan

open Text Scanner

/-! ## Semicolons -/

theorem readLexeme_semicolon (rest : List Char) :
    readLexeme ';' rest = ⟨.semicolon, [';'], rest⟩ :=
  readLexeme_of_isMark (by decide) rest

/-- Only the character itself is read as a semicolon. -/
theorem eq_semicolon_of_token {first : Char} {rest : List Char}
    (h : (readLexeme first rest).token = .semicolon) : first = ';' := by
  unfold readLexeme at h
  split at h
  · rcases wordToken_cases (first :: rest.take (wordLength rest)) with
      ⟨word, htoken⟩ | htoken <;> simp [Reading.take, htoken] at h
  split at h
  · rcases comparisonToken_cases (first :: rest.take (comparisonLength first rest)) with
      ⟨comparison, htoken⟩ | htoken <;> simp [Reading.take, htoken] at h
  split at h
  · rcases numberToken_cases (first :: rest.take (numberLength rest)) with
      htoken | htoken | htoken <;> simp [Reading.take, htoken] at h
  split at h
  · split at h <;> simp [Reading.take] at h
  · rw [Reading.take, markToken] at h
    split at h
    · cases h
    split at h
    · cases h
    split at h
    · assumption
    · cases h

theorem content_semicolon_cons (rest : List Char) :
    content (';' :: rest) = ⟨.semicolon, ";"⟩ :: content rest := by
  rw [content_cons (by decide), readLexeme_semicolon]

theorem breaks_semicolon (rest : List Char) : Breaks (';' :: rest) :=
  breaks_cons rest (by decide)

/-- No lexeme of the text is a semicolon. -/
def Unbroken (text : List Char) : Prop :=
  ∀ symbol ∈ content text, symbol.token ≠ .semicolon

theorem unbroken_nil : Unbroken [] := by
  simp [Unbroken]

theorem unbroken_blank_cons_iff {c : Char} (hc : isBlank c = true) (text : List Char) :
    Unbroken (c :: text) ↔ Unbroken text := by
  rw [Unbroken, Unbroken, content_blank_cons hc]

theorem unbroken_cons_iff {first : Char} (hfirst : isBlank first = false) (rest : List Char) :
    Unbroken (first :: rest) ↔
      (readLexeme first rest).token ≠ .semicolon ∧ Unbroken (readLexeme first rest).rest := by
  rw [Unbroken, content_cons hfirst, List.forall_mem_cons]
  rfl

theorem unbroken_blank_append_iff {blanks : List Char} (h : Blank blanks) (text : List Char) :
    Unbroken (blanks ++ text) ↔ Unbroken text := by
  rw [Unbroken, Unbroken, content_blank_append h]

/-- Blanks behind a text add no semicolon to it, and take none away. -/
theorem unbroken_append_blank_iff (text : List Char) {blanks : List Char} (h : Blank blanks) :
    Unbroken (text ++ blanks) ↔ Unbroken text := by
  by_cases hclosed : Closed text
  · rw [Unbroken, Unbroken, content_append hclosed (breaks_of_blank h), content_of_blank h,
      List.append_nil]
  · obtain ⟨before, string, hends⟩ := exists_endsWithin hclosed
    rw [Unbroken, Unbroken, hends.append_blank blanks h, hends.content_eq]
    simp only [List.forall_mem_append, List.forall_mem_singleton]

/-- What stands in front of the first semicolon of a text. -/
structure Body (text : List Char) : Prop where
  closed : Closed text
  unbroken : Unbroken text

theorem body_nil : Body [] :=
  ⟨closed_nil, unbroken_nil⟩

theorem body_blank_cons_iff {c : Char} (hc : isBlank c = true) (text : List Char) :
    Body (c :: text) ↔ Body text := by
  constructor
  · rintro ⟨hclosed, hunbroken⟩
    exact ⟨(closed_blank_cons_iff hc text).mp hclosed,
      (unbroken_blank_cons_iff hc text).mp hunbroken⟩
  · rintro ⟨hclosed, hunbroken⟩
    exact ⟨(closed_blank_cons_iff hc text).mpr hclosed,
      (unbroken_blank_cons_iff hc text).mpr hunbroken⟩

theorem body_blank_append_iff {blanks : List Char} (h : Blank blanks) (text : List Char) :
    Body (blanks ++ text) ↔ Body text := by
  induction blanks with
  | nil => exact Iff.rfl
  | cons c rest ih =>
      obtain ⟨hc, hrest⟩ := blank_cons_iff.mp h
      exact (body_blank_cons_iff hc _).trans (ih hrest)

theorem body_cons_iff {first : Char} (hfirst : isBlank first = false) (rest : List Char) :
    Body (first :: rest) ↔
      ¬ OpenString first rest ∧ (readLexeme first rest).token ≠ .semicolon ∧
        Body (readLexeme first rest).rest := by
  constructor
  · rintro ⟨hclosed, hunbroken⟩
    obtain ⟨hopen, hclosed⟩ := (closed_cons_iff hfirst rest).mp hclosed
    obtain ⟨htoken, hunbroken⟩ := (unbroken_cons_iff hfirst rest).mp hunbroken
    exact ⟨hopen, htoken, hclosed, hunbroken⟩
  · rintro ⟨hopen, htoken, hbody⟩
    exact ⟨(closed_cons_iff hfirst rest).mpr ⟨hopen, hbody.closed⟩,
      (unbroken_cons_iff hfirst rest).mpr ⟨htoken, hbody.unbroken⟩⟩

/-- A text without quotation marks has no semicolon lexeme if it has no semicolon. -/
theorem body_of_forall {text : List Char} (h : ∀ c ∈ text, isQuote c = false ∧ c ≠ ';') :
    Body text := by
  induction text using content_induction with
  | nil => exact body_nil
  | blank c text hc ih =>
      exact (body_blank_cons_iff hc text).mpr (ih (List.forall_mem_cons.mp h).2)
  | lexeme first rest hfirst ih =>
      obtain ⟨hquote, hsemicolon⟩ := (List.forall_mem_cons.mp h).1
      refine (body_cons_iff hfirst rest).mpr
        ⟨fun hopen => ?_, fun htoken => hsemicolon (eq_semicolon_of_token htoken), ih ?_⟩
      · exact Bool.false_ne_true (hquote.symm.trans hopen.1)
      · intro c hmem
        refine h c ?_
        rw [← readLexeme_text_append_rest first rest]
        exact List.mem_append_right _ hmem

theorem Body.content_append {body : List Char} (h : Body body) (after : List Char) :
    content (body ++ ';' :: after) = content body ++ ⟨.semicolon, ";"⟩ :: content after := by
  rw [Scanner.content_append h.closed (breaks_semicolon after), content_semicolon_cons]

/-! ## Through the first semicolon -/

/-- The text through its first `;` lexeme, and the text after it. -/
def throughSemicolon? (text : List Char) : Option (List Char × List Char) :=
  match _htext : text.dropWhile isBlank with
  | [] => none
  | first :: rest =>
    let reading := readLexeme first rest
    let front := text.takeWhile isBlank ++ reading.text
    if reading.token = .semicolon then some (front, reading.rest)
    else (throughSemicolon? reading.rest).map fun (more, after) => (front ++ more, after)
termination_by text.length
decreasing_by
  -- Passing the blanks does not lengthen the text, and the lexeme takes a character.
  have hrest := readLexeme_rest_length_le first rest
  have htext := (List.dropWhile_sublist isBlank (l := text)).length_le
  rw [_htext, List.length_cons] at htext
  omega

theorem throughSemicolon?_length_lt {text front after : List Char}
    (h : throughSemicolon? text = some (front, after)) : after.length < text.length := by
  fun_induction throughSemicolon? text generalizing front with
  | case1 => simp at h
  | case2 text first rest htext reading =>
      cases h
      have hrest := readLexeme_rest_length_le first rest
      have hlength := (List.dropWhile_sublist isBlank (l := text)).length_le
      rw [htext, List.length_cons] at hlength
      exact Nat.lt_of_le_of_lt hrest hlength
  | case3 text first rest htext reading before hother =>
      rename_i ih
      obtain ⟨⟨more, after'⟩, hmore, heq⟩ := Option.map_eq_some_iff.mp h
      cases heq
      have hrest := readLexeme_rest_length_le first rest
      have hlength := (List.dropWhile_sublist isBlank (l := text)).length_le
      rw [htext, List.length_cons] at hlength
      exact Nat.lt_trans (ih hmore) (Nat.lt_of_le_of_lt hrest hlength)

theorem throughSemicolon?_nil : throughSemicolon? [] = none := by
  rw [throughSemicolon?]
  split
  · rfl
  · rename_i h
    simp at h

theorem throughSemicolon?_cons {first : Char} (hfirst : isBlank first = false)
    (rest : List Char) :
    throughSemicolon? (first :: rest) =
      if (readLexeme first rest).token = .semicolon then
        some ((readLexeme first rest).text, (readLexeme first rest).rest)
      else (throughSemicolon? (readLexeme first rest).rest).map fun (more, after) =>
        ((readLexeme first rest).text ++ more, after) := by
  rw [throughSemicolon?]
  split
  · rename_i h
    simp [hfirst] at h
  · rename_i first' rest' h
    rw [List.dropWhile_cons_of_neg (by simp [hfirst])] at h
    cases h
    simp [hfirst]

theorem throughSemicolon?_blank_cons {c : Char} (hc : isBlank c = true) (text : List Char) :
    throughSemicolon? (c :: text) =
      (throughSemicolon? text).map fun (front, after) => (c :: front, after) := by
  -- The function skips blanks at once, so both sides look at the same first letter.
  have hdrop : (c :: text).dropWhile isBlank = text.dropWhile isBlank := by simp [hc]
  have htake : (c :: text).takeWhile isBlank = c :: text.takeWhile isBlank := by simp [hc]
  rw [throughSemicolon?.eq_def (c :: text), throughSemicolon?.eq_def text]
  split
  · rename_i h
    split
    · rfl
    · rename_i h'
      simp [hdrop, h'] at h
  · rename_i first rest h
    split
    · rename_i h'
      simp [hdrop, h'] at h
    · rename_i first' rest' h'
      rw [hdrop, h'] at h
      cases h
      dsimp only
      rw [htake]
      split
      · rfl
      · rw [Option.map_map]
        rfl

/-- The text through its first semicolon is a body and that semicolon. -/
theorem exists_body_of_throughSemicolon? {text front after : List Char}
    (h : throughSemicolon? text = some (front, after)) :
    ∃ body, Body body ∧ front = body ++ [';'] ∧ text = body ++ ';' :: after := by
  induction text using content_induction generalizing front with
  | nil => simp [throughSemicolon?_nil] at h
  | blank c text hc ih =>
      rw [throughSemicolon?_blank_cons hc] at h
      obtain ⟨⟨front, after⟩, hrest, heq⟩ := Option.map_eq_some_iff.mp h
      cases heq
      obtain ⟨body, hbody, rfl, rfl⟩ := ih hrest
      exact ⟨c :: body, (body_blank_cons_iff hc body).mpr hbody, rfl, rfl⟩
  | lexeme first rest hfirst ih =>
      rw [throughSemicolon?_cons hfirst] at h
      split at h
      · rename_i htoken
        obtain rfl := eq_semicolon_of_token htoken
        rw [readLexeme_semicolon] at h
        cases h
        exact ⟨[], body_nil, rfl, rfl⟩
      · rename_i htoken
        obtain ⟨⟨more, after⟩, hrest, heq⟩ := Option.map_eq_some_iff.mp h
        cases heq
        obtain ⟨body, hbody, rfl, hafter⟩ := ih hrest
        obtain ⟨token, text, after', rfl, hread⟩ := exists_readLexeme_eq first rest
        rw [hread] at htoken hafter ⊢
        simp only at htoken hafter
        subst hafter
        -- The lexeme is the same in front of the rest of the body alone.
        obtain ⟨hopen, hcut⟩ := readLexeme_of_append hread (breaks_semicolon after) (by simp)
        refine ⟨first :: (text ++ body), ?_, by simp, by simp⟩
        rw [body_cons_iff hfirst, hcut]
        exact ⟨hopen, htoken, hbody⟩

theorem unbroken_of_throughSemicolon? {text : List Char} (h : throughSemicolon? text = none) :
    Unbroken text := by
  induction text using content_induction with
  | nil => exact unbroken_nil
  | blank c text hc ih =>
      rw [throughSemicolon?_blank_cons hc, Option.map_eq_none_iff] at h
      exact (unbroken_blank_cons_iff hc text).mpr (ih h)
  | lexeme first rest hfirst ih =>
      rw [throughSemicolon?_cons hfirst] at h
      split at h
      · cases h
      · rename_i htoken
        exact (unbroken_cons_iff hfirst rest).mpr ⟨htoken, ih (Option.map_eq_none_iff.mp h)⟩

theorem Body.throughSemicolon?_eq {body : List Char} (h : Body body) (after : List Char) :
    throughSemicolon? (body ++ ';' :: after) = some (body ++ [';'], after) := by
  induction body using content_induction with
  | nil =>
      rw [List.nil_append, throughSemicolon?_cons (by decide), readLexeme_semicolon]
      rfl
  | blank c text hc ih =>
      rw [List.cons_append, throughSemicolon?_blank_cons hc,
        ih ((body_blank_cons_iff hc text).mp h)]
      rfl
  | lexeme first rest hfirst ih =>
      obtain ⟨hopen, htoken, hrest⟩ := (body_cons_iff hfirst rest).mp h
      rw [List.cons_append, throughSemicolon?_cons hfirst,
        readLexeme_append first rest (breaks_semicolon after) hopen, if_neg htoken, ih hrest,
        Option.map_some]
      simp only [← List.append_assoc, readLexeme_text_append_rest]

/-! ## The cuts -/

/-- The text cut after each `;` lexeme. -/
def cutAtSemicolons (text : List Char) : List (List Char) :=
  match _hcut : throughSemicolon? text with
  | some (front, after) => front :: cutAtSemicolons after
  | none => [text]
termination_by text.length
decreasing_by exact throughSemicolon?_length_lt _hcut

/-- A text has no semicolon, or it is a body with a semicolon and more text. -/
theorem cut_induction {motive : List Char → Prop}
    (last : ∀ text, Unbroken text → motive text)
    (cut : ∀ body after, Body body → motive after → motive (body ++ ';' :: after))
    (text : List Char) : motive text := by
  cases h : throughSemicolon? text with
  | none => exact last text (unbroken_of_throughSemicolon? h)
  | some pair =>
      obtain ⟨front, after⟩ := pair
      obtain ⟨body, hbody, -, htext⟩ := exists_body_of_throughSemicolon? h
      rw [htext]
      exact cut body after hbody (cut_induction last cut after)
termination_by text.length
decreasing_by exact throughSemicolon?_length_lt h

theorem cutAtSemicolons_body {body : List Char} (h : Body body) (after : List Char) :
    cutAtSemicolons (body ++ ';' :: after) = (body ++ [';']) :: cutAtSemicolons after := by
  rw [cutAtSemicolons]
  split
  · rename_i hsome
    rw [h.throughSemicolon?_eq after] at hsome
    cases hsome
    rfl
  · rename_i hnone
    simp [h.throughSemicolon?_eq after] at hnone

theorem cutAtSemicolons_unbroken {text : List Char} (h : Unbroken text) :
    cutAtSemicolons text = [text] := by
  rw [cutAtSemicolons]
  split
  · rename_i front after hsome
    obtain ⟨body, hbody, -, rfl⟩ := exists_body_of_throughSemicolon? hsome
    have hsemicolon : (⟨.semicolon, ";"⟩ : Symbol) ∈ content (body ++ ';' :: after) := by
      simp [hbody.content_append after]
    exact absurd rfl (h _ hsemicolon)
  · rfl

/-! ## Where semicolons end -/

theorem scan_blank_cons {c : Char} (hc : isBlank c = true) (text : List Char) (position : Nat) :
    (⟨c :: text, position⟩ : Scanner).scan = (⟨text, position + c.utf8Size⟩ : Scanner).scan := by
  simp [scan, hc, Nat.add_assoc]

theorem scan_cons {first : Char} (hfirst : isBlank first = false) (rest : List Char)
    (position : Nat) :
    (⟨first :: rest, position⟩ : Scanner).scan =
      (⟨(readLexeme first rest).token, String.ofList (readLexeme first rest).text,
          Span.ofOffsets position (position + byteLength (readLexeme first rest).text)⟩,
        ⟨(readLexeme first rest).rest,
          position + byteLength (readLexeme first rest).text⟩) := by
  simp [scan, hfirst]

theorem drain_blank_cons {c : Char} (hc : isBlank c = true) (text : List Char) (position : Nat) :
    drain ⟨c :: text, position⟩ = drain ⟨text, position + c.utf8Size⟩ := by
  rw [drain, drain, scan_blank_cons hc]

theorem drain_cons {first : Char} (hfirst : isBlank first = false) (rest : List Char)
    (position : Nat) :
    (drain ⟨first :: rest, position⟩).1 =
      ⟨(readLexeme first rest).token, String.ofList (readLexeme first rest).text,
          Span.ofOffsets position (position + byteLength (readLexeme first rest).text)⟩ ::
        (drain ⟨(readLexeme first rest).rest,
          position + byteLength (readLexeme first rest).text⟩).1 := by
  have hscan := scan_cons hfirst rest position
  rw [drain_of_ne_eof (by rw [hscan]; exact readLexeme_token_ne_eof first rest), hscan]

theorem semicolonStops_nil (position : Nat) : semicolonStops position [] = [] := by
  rw [semicolonStops, drain_of_eof ((scan_token_eq_eof_iff _).mpr rfl)]
  rfl

theorem semicolonStops_blank_cons {c : Char} (hc : isBlank c = true) (text : List Char)
    (position : Nat) :
    semicolonStops position (c :: text) = semicolonStops (position + c.utf8Size) text := by
  rw [semicolonStops, drain_blank_cons hc, semicolonStops]

theorem semicolonStops_cons {first : Char} (hfirst : isBlank first = false) (rest : List Char)
    {position stop : Nat} (hstop : stop = position + byteLength (readLexeme first rest).text) :
    semicolonStops position (first :: rest) =
      if (readLexeme first rest).token = .semicolon then
        min stop Span.lastOffset :: semicolonStops stop (readLexeme first rest).rest
      else semicolonStops stop (readLexeme first rest).rest := by
  rw [semicolonStops, drain_cons hfirst, ← hstop, List.filter_cons]
  simp only [decide_eq_true_eq]
  split <;> rfl

theorem semicolonStops_unbroken {text : List Char} (h : Unbroken text) (position : Nat) :
    semicolonStops position text = [] := by
  induction text using content_induction generalizing position with
  | nil => exact semicolonStops_nil position
  | blank c text hc ih =>
      rw [semicolonStops_blank_cons hc]
      exact ih ((unbroken_blank_cons_iff hc text).mp h) _
  | lexeme first rest hfirst ih =>
      obtain ⟨htoken, hrest⟩ := (unbroken_cons_iff hfirst rest).mp h
      rw [semicolonStops_cons hfirst rest rfl, if_neg htoken]
      exact ih hrest _

theorem Body.semicolonStops_eq {body : List Char} (h : Body body) (after : List Char)
    {position stop : Nat} (hstop : stop = position + byteLength (body ++ [';'])) :
    semicolonStops position (body ++ ';' :: after) =
      min stop Span.lastOffset :: semicolonStops stop after := by
  induction body using content_induction generalizing position with
  | nil =>
      have hlength : stop = position + byteLength (readLexeme ';' after).text := by
        rw [hstop, readLexeme_semicolon]
        rfl
      rw [List.nil_append, semicolonStops_cons (by decide) after hlength, readLexeme_semicolon,
        if_pos rfl]
  | blank c text hc ih =>
      rw [List.cons_append, semicolonStops_blank_cons hc]
      refine ih ((body_blank_cons_iff hc text).mp h) ?_
      rw [hstop, List.cons_append, byteLength_cons, Nat.add_assoc]
  | lexeme first rest hfirst ih =>
      obtain ⟨hopen, htoken, hrest⟩ := (body_cons_iff hfirst rest).mp h
      rw [List.cons_append, semicolonStops_cons hfirst _ rfl,
        readLexeme_append first rest (breaks_semicolon after) hopen, if_neg htoken]
      refine ih hrest ?_
      rw [hstop, ← readLexeme_text_append_rest first rest, List.append_assoc, byteLength_append,
        Nat.add_assoc]

/-! ## Cuts at byte offsets -/

theorem cutAt?_start (position : Nat) (text : List Char) :
    cutAt? position text position = some ([], text) := by
  cases text with
  | nil => exact if_pos rfl
  | cons c rest => exact if_pos rfl

theorem cutAt?_cons {position offset : Nat} {c : Char} {rest : List Char}
    (h : position ≠ offset) :
    cutAt? position (c :: rest) offset =
      (cutAt? (position + c.utf8Size) rest offset).map fun (front, back) =>
        (c :: front, back) := by
  rw [cutAt?, if_neg h]

/-- An offset behind some characters cuts them off. -/
theorem cutAt?_append (front back : List Char) {position offset : Nat}
    (h : offset = position + byteLength front) :
    cutAt? position (front ++ back) offset = some (front, back) := by
  induction front generalizing position with
  | nil =>
      rw [byteLength_nil, Nat.add_zero] at h
      rw [h]
      exact cutAt?_start position back
  | cons c rest ih =>
      rw [byteLength_cons, ← Nat.add_assoc] at h
      have hpos := c.utf8Size_pos
      rw [List.cons_append, cutAt?_cons (by omega), ih h]
      rfl

theorem cutAt?_of_lt (text : List Char) {position offset : Nat} (h : offset < position) :
    cutAt? position text offset = none := by
  induction text generalizing position with
  | nil => exact if_neg h.ne'
  | cons c rest ih => rw [cutAt?_cons h.ne', ih (Nat.lt_add_right _ h), Option.map_none]

/-- An offset inside a character cuts nothing. -/
theorem cutAt?_inside {front back : List Char} {c : Char} {position offset : Nat}
    (hfront : position + byteLength front < offset)
    (hback : offset < position + byteLength front + c.utf8Size) :
    cutAt? position (front ++ c :: back) offset = none := by
  induction front generalizing position with
  | nil =>
      rw [byteLength_nil, Nat.add_zero] at hfront hback
      rw [List.nil_append, cutAt?_cons hfront.ne, cutAt?_of_lt back hback, Option.map_none]
  | cons first rest ih =>
      rw [byteLength_cons, ← Nat.add_assoc] at hfront hback
      rw [List.cons_append, cutAt?_cons (by omega), ih hfront hback, Option.map_none]

theorem cutAll?_cons {text front back : List Char} {position stop : Nat}
    (h : cutAt? position text stop = some (front, back)) (stops : List Nat) :
    cutAll? position text (stop :: stops) = (cutAll? stop back stops).map (front :: ·) := by
  rw [cutAll?, h]
  cases hcuts : cutAll? stop back stops <;> simp [hcuts]

/-- A text is cut behind each of its semicolons, as long as spans hold its offsets. -/
theorem cutAll?_semicolonStops {text : List Char} {position : Nat}
    (hsize : position + byteLength text ≤ Span.lastOffset) :
    cutAll? position text (semicolonStops position text) = some (cutAtSemicolons text) := by
  induction text using cut_induction generalizing position with
  | last text htext =>
      rw [semicolonStops_unbroken htext, cutAtSemicolons_unbroken htext, cutAll?]
  | cut body after hbody ih =>
      have hsplit : body ++ ';' :: after = (body ++ [';']) ++ after := by simp
      rw [hsplit, byteLength_append, ← Nat.add_assoc] at hsize
      have hstop := Nat.le_of_add_right_le hsize
      rw [hbody.semicolonStops_eq after rfl, Nat.min_eq_left hstop, hsplit,
        cutAll?_cons (cutAt?_append _ after rfl), ih hsize, ← hsplit, cutAtSemicolons_body hbody,
        Option.map_some]

/-- A text is not split if its first semicolon stands behind a character that the last
offset of spans is inside of. -/
theorem splitStatements_eq_none {front back after : List Char} {c : Char}
    (hbody : Body (front ++ c :: back)) (hfront : byteLength front < Span.lastOffset)
    (hback : Span.lastOffset < byteLength front + c.utf8Size) :
    splitStatements (String.ofList (front ++ c :: back ++ ';' :: after)) = none := by
  have hlate : Span.lastOffset ≤ 0 + byteLength (front ++ c :: back ++ [';']) := by
    rw [byteLength_append, byteLength_append, byteLength_cons]
    omega
  -- The first stop is the last offset, and that is inside of a character.
  have hcut : cutAt? 0 (front ++ c :: (back ++ ';' :: after)) Span.lastOffset = none :=
    cutAt?_inside (by rwa [Nat.zero_add]) (by rwa [Nat.zero_add])
  rw [splitStatements, String.toList_ofList, hbody.semicolonStops_eq after rfl,
    Nat.min_eq_right hlate, cutAll?, List.append_assoc, List.cons_append, hcut]
  rfl

/-! ## Cuts as bytes -/

/-- The bytes from a start to an offset, on to the next one, and so on to the end. -/
def slices (bytes : ByteArray) (start : Nat) : List Nat → List ByteArray
  | [] => [bytes.extract start bytes.size]
  | stop :: stops => bytes.extract start stop :: slices bytes stop stops

/-- The cuts of the rest of a text are its slices between the ends of its
semicolons. -/
theorem slices_semicolonStops {text : String} {front back : List Char}
    (htext : text.toList = front ++ back) (hsize : text.utf8ByteSize ≤ Span.lastOffset) :
    slices text.toByteArray (byteLength front) (semicolonStops (byteLength front) back) =
      (cutAtSemicolons back).map fun cut => (String.ofList cut).toByteArray := by
  induction back using cut_induction generalizing front with
  | last back hback =>
      have hwhole : text.toList = front ++ (back ++ []) := by rw [htext, List.append_nil]
      have hend : text.toByteArray.size = byteLength front + byteLength back := by
        rw [String.size_toByteArray, utf8ByteSize_eq, htext, byteLength_append]
      rw [semicolonStops_unbroken hback, cutAtSemicolons_unbroken hback, slices, hend,
        extract_toByteArray hwhole]
      rfl
  | cut body after hbody ih =>
      have hsplit : text.toList = front ++ ((body ++ [';']) ++ after) := by
        rw [htext, List.append_assoc, List.singleton_append]
      have hlength := utf8ByteSize_eq text
      rw [hsplit, byteLength_append, byteLength_append] at hlength
      rw [hbody.semicolonStops_eq after rfl, Nat.min_eq_left (by omega),
        cutAtSemicolons_body hbody, slices, extract_toByteArray hsplit, List.map_cons,
        ← byteLength_append, ih (by rw [hsplit, ← List.append_assoc front])]

end SelectPlan
