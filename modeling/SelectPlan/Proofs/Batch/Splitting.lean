import Mathlib.Data.List.ModifyLast
import SelectPlan.Proofs.Batch.Statements

/-!
# Splitting a text into statements

What splitting does to the lexemes of a text, and what it does when it is done again.
The lexemes of the statements are those of the text, without the semicolons of empty
statements and without the blanks at the end of a string that does not end
(`Batch.flatMap_content`).  Statements that are written one after the other, with any
blanks between them, are split in the same way again (`Batch.of_joined`).
-/

namespace SelectPlan

open Text Scanner

/-! ## Lexemes -/

/-- The symbols without the semicolons of empty statements: those that stand at the
start, or behind another semicolon.  `fresh` says that a statement is to start. -/
def dropLone (fresh : Bool) : List Symbol → List Symbol
  | [] => []
  | symbol :: rest =>
    if symbol.token = .semicolon then
      if fresh then dropLone true rest else symbol :: dropLone true rest
    else symbol :: dropLone false rest

/-- A string that does not end, without the blanks at its end; any other symbol as it
is. -/
def Symbol.trimmed (symbol : Symbol) : Symbol :=
  if symbol.isOpen then { symbol with text := String.ofList (trimEnd symbol.text.toList) }
  else symbol

/-- Up to the first semicolon no symbol is dropped. -/
theorem dropLone_append {symbols : List Symbol}
    (h : ∀ symbol ∈ symbols, symbol.token ≠ .semicolon) (fresh : Bool) (more : List Symbol) :
    dropLone fresh (symbols ++ more) = symbols ++ dropLone (fresh && symbols.isEmpty) more := by
  induction symbols generalizing fresh with
  | nil => simp
  | cons symbol rest ih =>
      obtain ⟨hsymbol, hrest⟩ := List.forall_mem_cons.mp h
      rw [List.cons_append, dropLone, if_neg hsymbol, ih hrest]
      simp

theorem dropLone_of_unbroken {text : List Char} (h : Unbroken text) (fresh : Bool) :
    dropLone fresh (content text) = content text := by
  simpa [dropLone] using dropLone_append h fresh []

/-- An idle gap has no lexemes but semicolons of empty statements. -/
theorem dropLone_idle_append {gap : List Char} (h : Idle gap) (text : List Char) :
    dropLone true (content (gap ++ text)) = dropLone true (content text) := by
  induction gap with
  | nil => rfl
  | cons c rest ih =>
      obtain ⟨hc, hrest⟩ := List.forall_mem_cons.mp h
      rw [List.cons_append]
      rcases hc with hc | rfl
      · rw [content_blank_cons hc, ih hrest]
      · rw [content_semicolon_cons, dropLone, if_pos rfl, if_pos rfl, ih hrest]

theorem modifyLast_trimmed_of_closed {text : List Char} (h : Closed text) :
    (content text).modifyLast Symbol.trimmed = content text := by
  rcases List.eq_nil_or_concat (content text) with hnil | ⟨before, last, hlast⟩
  · rw [hnil]
    rfl
  · rw [List.concat_eq_append] at hlast
    have hclosed : last.isOpen = false := h last (by simp [hlast])
    rw [hlast, List.modifyLast_concat, Symbol.trimmed, hclosed]
    rfl

/-- Blanks behind a text are trimmed from its last symbol. -/
theorem modifyLast_trimmed_append_blank {text blanks : List Char} (h : trimEnd text = text)
    (hblanks : Blank blanks) :
    (content (text ++ blanks)).modifyLast Symbol.trimmed = content text := by
  by_cases hclosed : Closed text
  · rw [content_append hclosed (breaks_of_blank hblanks), content_of_blank hblanks,
      List.append_nil, modifyLast_trimmed_of_closed hclosed]
  · obtain ⟨before, string, hends⟩ := exists_endsWithin hclosed
    have hstring : trimEnd (string ++ blanks) = string := by
      rw [trimEnd_append_blank string hblanks, trimEnd_of_suffix h hends.suffix]
    have hopen : Symbol.isOpen ⟨.illegal, String.ofList (string ++ blanks)⟩ = true := by
      obtain ⟨quote, hhead, hquote⟩ := (Option.any_eq_true ..).mp hends.isQuote_head
      simp [Symbol.isOpen, hhead, hquote]
    rw [hends.append_blank blanks hblanks, List.modifyLast_concat, Symbol.trimmed, if_pos hopen,
      hends.content_eq, String.toList_ofList, hstring]

theorem modifyLast_trimmed_semicolon (before rest : List Symbol) :
    (before ++ ⟨.semicolon, ";"⟩ :: rest).modifyLast Symbol.trimmed =
      before ++ ⟨.semicolon, ";"⟩ :: rest.modifyLast Symbol.trimmed := by
  by_cases hrest : rest = []
  · rw [hrest, List.modifyLast_concat]
    rfl
  · rw [List.append_cons, List.modifyLast_append_of_right_ne_nil _ _ _ hrest, ← List.append_cons]

theorem Trailing.trimEnd_eq {piece : List Char} (h : Trailing piece) : trimEnd piece = piece := by
  have htrim := trimEnd_trimEnd (piece.dropWhile isBlank)
  rwa [← trim, h.trim_eq] at htrim

/-- A statement with its semicolon has the lexemes of its body and that semicolon. -/
theorem Terminated.exists_body {piece : List Char} (h : Terminated piece) :
    ∃ body, Body body ∧ piece = body ++ [';'] ∧ content body ≠ [] ∧
      content piece = content body ++ [⟨.semicolon, ";"⟩] := by
  obtain ⟨first, rest, hfirst, hbody, rfl⟩ := h
  have hcontent := hbody.content_append []
  rw [content_nil] at hcontent
  exact ⟨first :: rest, hbody, rfl, by simp [content_cons hfirst], hcontent⟩

/-- The lexemes of the statements are those of the text, without the semicolons of
empty statements and the blanks at the end of a last string that does not end. -/
theorem Batch.flatMap_content {text : List Char} {pieces : List (List Char)}
    (h : Batch text pieces) :
    pieces.flatMap content =
      (dropLone true (content text)).modifyLast Symbol.trimmed := by
  induction h with
  | idle hgap =>
      have hnil := dropLone_idle_append hgap []
      rw [List.append_nil, content_nil] at hnil
      rw [hnil]
      rfl
  | @trailing gap piece blanks hgap hpiece hblanks =>
      have hunbroken : Unbroken (piece ++ blanks) :=
        (unbroken_append_blank_iff piece hblanks).mpr hpiece.unbroken
      rw [dropLone_idle_append hgap, dropLone_of_unbroken hunbroken,
        modifyLast_trimmed_append_blank hpiece.trimEnd_eq hblanks]
      simp
  | @terminated gap piece rest pieces hgap hpiece hrest ih =>
      obtain ⟨body, hbody, rfl, hne, hcontent⟩ := hpiece.exists_body
      have hfresh : (true && (content body).isEmpty) = false := by simpa using hne
      -- The semicolon ends a statement that is not empty, so it is kept.
      have hlone : dropLone true (content (body ++ [';'] ++ rest)) =
          content body ++ ⟨.semicolon, ";"⟩ :: dropLone true (content rest) := by
        rw [List.append_assoc, List.singleton_append, hbody.content_append,
          dropLone_append hbody.unbroken, hfresh, dropLone, if_pos rfl]
        rfl
      rw [List.flatMap_cons, ih, hcontent, dropLone_idle_append hgap, hlone,
        modifyLast_trimmed_semicolon, ← List.append_cons]

/-- Only the last lexeme of a statement may be a semicolon. -/
theorem Batch.ne_semicolon_of_mem_dropLast {text : List Char} {pieces : List (List Char)}
    (h : Batch text pieces) {piece : List Char} (hmem : piece ∈ pieces) :
    ∀ symbol ∈ (content piece).dropLast, symbol.token ≠ .semicolon := by
  rcases h.terminated_or_trailing piece hmem with hpiece | hpiece
  · obtain ⟨body, hbody, -, -, hcontent⟩ := hpiece.exists_body
    rw [hcontent, List.dropLast_concat]
    exact hbody.unbroken
  · exact fun symbol hsymbol => hpiece.unbroken symbol (List.dropLast_subset _ hsymbol)

theorem Batch.trim_eq {text : List Char} {pieces : List (List Char)} (h : Batch text pieces)
    {piece : List Char} (hmem : piece ∈ pieces) : piece ≠ [] ∧ trim piece = piece := by
  rcases h.terminated_or_trailing piece hmem with hpiece | hpiece
  · refine ⟨?_, hpiece.trim_eq⟩
    obtain ⟨body, -, rfl, -, -⟩ := hpiece.exists_body
    simp
  · exact ⟨hpiece.ne_nil, hpiece.trim_eq⟩

/-! ## Splitting again -/

/-- Pieces written one after the other, with blanks around them. -/
inductive Joined : List (List Char) → List Char → Prop
  | nil {blanks : List Char} (hblanks : Blank blanks) : Joined [] blanks
  | cons {piece blanks text : List Char} {pieces : List (List Char)} (hblanks : Blank blanks)
      (hrest : Joined pieces text) : Joined (piece :: pieces) (blanks ++ (piece ++ text))

/-- The statements of a text, joined by blanks, make up a text of these statements. -/
theorem Batch.of_joined {text joined : List Char} {pieces : List (List Char)}
    (h : Batch text pieces) (hjoined : Joined pieces joined) : Batch joined pieces := by
  induction h generalizing joined with
  | idle =>
      cases hjoined with
      | nil hblanks => exact .idle (idle_of_blank hblanks)
  | trailing _ hpiece _ =>
      cases hjoined with
      | cons hblanks hrest =>
          cases hrest with
          | nil hbehind => exact .trailing (idle_of_blank hblanks) hpiece hbehind
  | terminated _ hpiece _ ih =>
      cases hjoined with
      | cons hblanks hrest => exact .terminated (idle_of_blank hblanks) hpiece (ih hrest)

/-- A statement is split into itself. -/
theorem Batch.statements_piece {text : List Char} {pieces : List (List Char)}
    (h : Batch text pieces) {piece : List Char} (hmem : piece ∈ pieces) :
    statements piece = [piece] := by
  rcases h.terminated_or_trailing piece hmem with hpiece | hpiece
  · have hstatements := hpiece.statements_append []
    rwa [List.append_nil, statements_of_idle idle_nil] at hstatements
  · have hstatements := hpiece.statements_append blank_nil
    rwa [List.append_nil] at hstatements

/-! ## The statements of a text -/

theorem semicolonStops_tokenize (text : String) :
    semicolonStops 0 text.toList =
      ((tokenize text).filter fun lexeme => lexeme.token = .semicolon).map
        fun lexeme => lexeme.span.stop := by
  have hend : (ofText text).ending.token ≠ .semicolon := by
    rw [(within_ofText text).ending_eq]
    simp
  rw [tokenize_eq_lexemes, lexemes_eq_append, List.filter_append,
    List.filter_cons_of_neg (by simpa using hend), List.filter_nil, List.append_nil]
  rfl

/-- A text whose offsets spans can hold is cut behind the bytes of each semicolon lexeme,
and what is cut is trimmed and kept if it is a statement.  The statements stand in the text
in their order, with nothing but blanks and the semicolons of empty statements between
them; a semicolon is the last lexeme of its statement, and only the last statement may lack
one; and the lexemes of the statements are those of the text.  What has been split stays
split, by itself and joined by blanks. -/
theorem splitStatements_exact (text : String) (hsize : text.utf8ByteSize ≤ Span.lastOffset) :
    ∃ (cuts : List (List Char)) (pieces : List String),
      ((cuts.map fun cut => (String.ofList cut).toByteArray) =
        slices text.toByteArray 0
          (((tokenize text).filter fun lexeme => lexeme.token = .semicolon).map
            fun lexeme => lexeme.span.stop)) ∧
      splitStatements text = some pieces ∧
      pieces = (statementsAmong cuts).map String.ofList ∧
      Batch text.toList (pieces.map String.toList) ∧
      (∀ piece ∈ pieces, piece ≠ "" ∧ trim piece.toList = piece.toList ∧
        ∀ symbol ∈ (content piece.toList).dropLast, symbol.token ≠ .semicolon) ∧
      (∀ piece ∈ pieces.dropLast,
        (content piece.toList).getLast? = some ⟨.semicolon, ";"⟩) ∧
      (pieces.flatMap fun piece => content piece.toList) =
        (dropLone true (content text.toList)).modifyLast Symbol.trimmed ∧
      (∀ piece ∈ pieces, splitStatements piece = some [piece]) ∧
      ∀ joined : String, joined.utf8ByteSize ≤ Span.lastOffset →
        Joined (pieces.map String.toList) joined.toList →
        splitStatements joined = some pieces := by
  -- Within the bound the program cuts where the definition by lists does.
  obtain ⟨pieces, hpieces⟩ : ∃ pieces, pieces = (statements text.toList).map String.ofList :=
    ⟨_, rfl⟩
  have hbatch : Batch text.toList (pieces.map String.toList) := by
    rw [hpieces, List.map_map]
    simpa using batch_statements text.toList
  have hmem : ∀ piece ∈ pieces, piece.toList ∈ pieces.map String.toList :=
    fun piece hpiece => List.mem_map_of_mem hpiece
  refine ⟨cutAtSemicolons text.toList, pieces, ?_, ?_, hpieces, hbatch, fun piece hpiece => ?_,
    fun piece hpiece => ?_, ?_, fun piece hpiece => ?_, fun joined hjoinedSize hjoined => ?_⟩
  · rw [← semicolonStops_tokenize]
    have hwhole : text.toList = [] ++ text.toList := rfl
    exact (slices_semicolonStops hwhole hsize).symm
  · rw [splitStatements_eq hsize, hpieces]
  · obtain ⟨hne, htrim⟩ := hbatch.trim_eq (hmem piece hpiece)
    exact ⟨by simpa using hne, htrim, hbatch.ne_semicolon_of_mem_dropLast (hmem piece hpiece)⟩
  · have hdrop : piece.toList ∈ (pieces.map String.toList).dropLast := by
      rw [← List.map_dropLast]
      exact List.mem_map_of_mem hpiece
    obtain ⟨body, -, -, -, hcontent⟩ := (hbatch.terminated_of_mem_dropLast _ hdrop).exists_body
    rw [hcontent, List.getLast?_concat]
  · -- All lexemes are in a statement, except semicolons of empty ones.
    rw [← hbatch.flatMap_content, List.flatMap_map]
  · -- A statement is not longer than the text, so spans hold its offsets as well.
    have hshort : piece.utf8ByteSize ≤ Span.lastOffset := by
      rw [utf8ByteSize_eq] at hsize ⊢
      exact (hbatch.byteLength_le _ (hmem piece hpiece)).trans hsize
    rw [splitStatements_eq hshort, hbatch.statements_piece (hmem piece hpiece),
      List.map_singleton, String.ofList_toList]
  · -- Joining makes a batch of the same statements, and batches are unique.
    rw [splitStatements_eq hjoinedSize, (hbatch.of_joined hjoined).statements_eq, List.map_map]
    simp

/-- Two statements with an empty one between them; the second is a string that hides a
semicolon and does not end. -/
theorem splitStatements_exact_hidden :
    "SELECT a ; ;\u2003'ä; \n".utf8ByteSize ≤ Span.lastOffset ∧
      "SELECT a ;\t'ä;".utf8ByteSize ≤ Span.lastOffset ∧
      splitStatements "SELECT a ; ;\u2003'ä; \n" = some ["SELECT a ;", "'ä;"] ∧
      splitStatements "SELECT a ;\t'ä;" = some ["SELECT a ;", "'ä;"] := by
  have hsize : "SELECT a ; ;\u2003'ä; \n".utf8ByteSize ≤ Span.lastOffset := by decide
  have hjoinedSize : "SELECT a ;\t'ä;".utf8ByteSize ≤ Span.lastOffset := by decide
  obtain ⟨cuts, pieces, -, hpieces, -, -, -, -, -, -, hjoined⟩ :=
    splitStatements_exact "SELECT a ; ;\u2003'ä; \n" hsize
  have hsplit : splitStatements "SELECT a ; ;\u2003'ä; \n" = some ["SELECT a ;", "'ä;"] := by
    decide +kernel
  obtain rfl := Option.some.inj (hpieces.symm.trans hsplit)
  have htab : Blank ['\t'] := by simp [Blank]; decide
  exact ⟨hsize, hjoinedSize, hsplit,
    hjoined _ hjoinedSize (.cons blank_nil (.cons htab (.nil blank_nil)))⟩

end SelectPlan
