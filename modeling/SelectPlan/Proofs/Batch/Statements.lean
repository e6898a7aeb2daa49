import Mathlib.Data.List.ModifyLast
import SelectPlan.Proofs.Batch.Cuts

/-!
# The statements of a text

A text is made up of statements and of what stands between them: blanks, and the
semicolons of statements that are empty (`Batch`).  There is one way to take it
apart like this, and splitting finds it (`batch_statements`, `Batch.statements_eq`).

So what is to be known of the statements of a text can be shown by induction over
the batch.
-/

namespace SelectPlan

open Text Scanner

/-! ## Batches -/

/-- The statements of a text of any length, as characters. -/
def statements (text : List Char) : List (List Char) :=
  statementsAmong (cutAtSemicolons text)

/-- A text whose offsets spans can hold is split into its statements. -/
theorem splitStatements_eq {text : String} (hsize : text.utf8ByteSize ≤ Span.lastOffset) :
    splitStatements text = some ((statements text.toList).map String.ofList) := by
  have hcuts := @cutAll?_semicolonStops text.toList 0
    (by rwa [Nat.zero_add, ← utf8ByteSize_eq])
  rw [splitStatements, hcuts]
  rfl

theorem statements_eq_of_splitStatements {text : String} {pieces : List String}
    (hsize : text.utf8ByteSize ≤ Span.lastOffset) (h : splitStatements text = some pieces) :
    statements text.toList = pieces.map String.toList := by
  obtain rfl := Option.some.inj ((splitStatements_eq hsize).symm.trans h)
  simp

/-- Blanks and the semicolons of empty statements. -/
def Idle (gap : List Char) : Prop :=
  ∀ c ∈ gap, isBlank c = true ∨ c = ';'

theorem idle_of_blank {gap : List Char} (h : Blank gap) : Idle gap :=
  fun c hc => .inl (h c hc)

theorem idle_nil : Idle [] :=
  idle_of_blank blank_nil

theorem Idle.append {gap more : List Char} (h : Idle gap) (hmore : Idle more) :
    Idle (gap ++ more) :=
  List.forall_mem_append.mpr ⟨h, hmore⟩

/-- A statement with its semicolon. -/
def Terminated (piece : List Char) : Prop :=
  ∃ first rest, isBlank first = false ∧ Body (first :: rest) ∧ piece = first :: (rest ++ [';'])

/-- A statement without a semicolon, with no blanks around it. -/
structure Trailing (piece : List Char) : Prop where
  ne_nil : piece ≠ []
  trim_eq : trim piece = piece
  unbroken : Unbroken piece

/-- A text is made up of statements, idle gaps between them and blanks behind the
last one.  Only the last one may lack its semicolon. -/
inductive Batch : List Char → List (List Char) → Prop
  | idle {gap : List Char} (hgap : Idle gap) : Batch gap []
  | trailing {gap piece blanks : List Char} (hgap : Idle gap) (hpiece : Trailing piece)
      (hblanks : Blank blanks) : Batch (gap ++ (piece ++ blanks)) [piece]
  | terminated {gap piece rest : List Char} {pieces : List (List Char)} (hgap : Idle gap)
      (hpiece : Terminated piece) (hrest : Batch rest pieces) :
      Batch (gap ++ (piece ++ rest)) (piece :: pieces)

theorem Batch.idle_append {gap text : List Char} {pieces : List (List Char)} (hgap : Idle gap)
    (h : Batch text pieces) : Batch (gap ++ text) pieces := by
  cases h with
  | idle hmore => exact .idle (hgap.append hmore)
  | trailing hmore hpiece hblanks =>
      rw [← List.append_assoc]
      exact .trailing (hgap.append hmore) hpiece hblanks
  | terminated hmore hpiece hrest =>
      rw [← List.append_assoc]
      exact .terminated (hgap.append hmore) hpiece hrest

/-! ## Splitting finds the batch -/

theorem statements_blank_append {blanks : List Char} (h : Blank blanks) (text : List Char) :
    statements (blanks ++ text) = statements text := by
  induction text using cut_induction with
  | last text htext =>
      have hlonger : Unbroken (blanks ++ text) := (unbroken_blank_append_iff h text).mpr htext
      rw [statements, statements, cutAtSemicolons_unbroken hlonger,
        cutAtSemicolons_unbroken htext, statementsAmong, statementsAmong, List.map_singleton,
        List.map_singleton, trim_blank_append h]
  | cut body after hbody _ =>
      have hlonger : Body (blanks ++ body) := (body_blank_append_iff h body).mpr hbody
      rw [← List.append_assoc, statements, statements, cutAtSemicolons_body hlonger,
        cutAtSemicolons_body hbody, statementsAmong, statementsAmong, List.map_cons,
        List.map_cons, List.append_assoc, trim_blank_append h]

theorem statements_semicolon_cons (after : List Char) :
    statements (';' :: after) = statements after := by
  have hcut : cutAtSemicolons (';' :: after) = [';'] :: cutAtSemicolons after :=
    cutAtSemicolons_body body_nil after
  rw [statements, hcut, statementsAmong, List.map_cons, List.filter_cons_of_neg (by decide)]
  rfl

theorem statements_idle_append {gap : List Char} (h : Idle gap) (text : List Char) :
    statements (gap ++ text) = statements text := by
  induction gap with
  | nil => rfl
  | cons c rest ih =>
      obtain ⟨hc, hrest⟩ := List.forall_mem_cons.mp h
      rw [List.cons_append]
      rcases hc with hc | rfl
      · have hblank : Blank [c] := blank_cons_iff.mpr ⟨hc, blank_nil⟩
        rw [← List.singleton_append, statements_blank_append hblank, ih hrest]
      · rw [statements_semicolon_cons, ih hrest]

theorem statements_of_idle {gap : List Char} (h : Idle gap) : statements gap = [] := by
  have hnil : statements [] = [] := by
    rw [statements, cutAtSemicolons_unbroken unbroken_nil]
    rfl
  simpa [hnil] using statements_idle_append h []

theorem Terminated.trim_eq {piece : List Char} (h : Terminated piece) : trim piece = piece := by
  obtain ⟨first, rest, hfirst, -, rfl⟩ := h
  rw [trim_cons hfirst, trimEnd_append_singleton rest (by decide)]

theorem Terminated.statements_append {piece : List Char} (h : Terminated piece)
    (rest : List Char) : statements (piece ++ rest) = piece :: statements rest := by
  have htrim := h.trim_eq
  obtain ⟨first, text, -, hbody, rfl⟩ := h
  have hcut := cutAtSemicolons_body hbody rest
  rw [List.cons_append] at hcut
  rw [List.cons_append, List.append_assoc, List.singleton_append, statements, hcut,
    statementsAmong, List.map_cons, List.cons_append, htrim, List.filter_cons_of_pos (by simp)]
  rfl

theorem Trailing.statements_append {piece blanks : List Char} (h : Trailing piece)
    (hblanks : Blank blanks) : statements (piece ++ blanks) = [piece] := by
  have hcut : cutAtSemicolons (piece ++ blanks) = [piece ++ blanks] :=
    cutAtSemicolons_unbroken ((unbroken_append_blank_iff piece hblanks).mpr h.unbroken)
  have hsemicolon : piece ≠ [';'] := by
    rintro rfl
    exact absurd rfl (h.unbroken ⟨.semicolon, ";"⟩ (by simp [content_semicolon_cons]))
  rw [statements, hcut, statementsAmong, List.map_singleton, trim_append_blank _ hblanks,
    h.trim_eq,
    List.filter_cons_of_pos (by simpa [h.ne_nil] using hsemicolon)]
  rfl

/-- There is one way to take a text apart into statements. -/
theorem Batch.statements_eq {text : List Char} {pieces : List (List Char)}
    (h : Batch text pieces) : statements text = pieces := by
  induction h with
  | idle hgap => exact statements_of_idle hgap
  | trailing hgap hpiece hblanks =>
      rw [statements_idle_append hgap, hpiece.statements_append hblanks]
  | terminated hgap hpiece hrest ih =>
      rw [statements_idle_append hgap, hpiece.statements_append, ih]

/-- Splitting takes a text apart into statements. -/
theorem batch_statements (text : List Char) : Batch text (statements text) := by
  induction text using cut_induction with
  | last text htext =>
      -- The rest behind the last semicolon is a statement unless it is blank.
      obtain ⟨front, back, hfront, hback, hsplit⟩ := exists_append_trim_append text
      by_cases hnil : trim text = []
      · rw [hnil, List.nil_append] at hsplit
        have hidle : Idle text := hsplit ▸ (idle_of_blank hfront).append (idle_of_blank hback)
        rw [statements_of_idle hidle]
        exact .idle hidle
      · have hunbroken : Unbroken (trim text) := by
          rw [hsplit, unbroken_blank_append_iff hfront, unbroken_append_blank_iff _ hback]
            at htext
          exact htext
        have hpiece : Trailing (trim text) := ⟨hnil, trim_trim text, hunbroken⟩
        have hstatements : statements text = [trim text] := by
          rw [hsplit, statements_blank_append hfront, ← hsplit, hpiece.statements_append hback]
        have hbatch : Batch (front ++ (trim text ++ back)) [trim text] :=
          .trailing (idle_of_blank hfront) hpiece hback
        rw [← hsplit] at hbatch
        rwa [hstatements]
  | cut body after hbody ih =>
      obtain ⟨blanks, hblanks, hsplit⟩ := exists_blank_append body
      rw [hsplit, List.append_assoc, statements_blank_append hblanks]
      refine Batch.idle_append (idle_of_blank hblanks) ?_
      cases hdrop : body.dropWhile isBlank with
      | nil =>
          -- A lone semicolon is no statement.
          rw [List.nil_append, statements_semicolon_cons]
          have hsemicolon : Idle [';'] := by simp [Idle]
          exact Batch.idle_append hsemicolon ih
      | cons first rest =>
          have hfirst : isBlank first = false := by
            simpa [hdrop] using List.head?_dropWhile_not isBlank body
          rw [hsplit, hdrop, body_blank_append_iff hblanks] at hbody
          have hpiece : Terminated (first :: (rest ++ [';'])) := ⟨first, rest, hfirst, hbody, rfl⟩
          have happend : first :: rest ++ ';' :: after = first :: (rest ++ [';']) ++ after := by
            simp
          rw [happend, hpiece.statements_append]
          exact .terminated idle_nil hpiece ih

/-! ## Blanks around a text -/

theorem Batch.append_blank {text : List Char} {pieces : List (List Char)} (h : Batch text pieces)
    {blanks : List Char} (hblanks : Blank blanks) : Batch (text ++ blanks) pieces := by
  induction h with
  | idle hgap => exact .idle (hgap.append (idle_of_blank hblanks))
  | trailing hgap hpiece hbehind =>
      rw [List.append_assoc, List.append_assoc]
      exact .trailing hgap hpiece (List.forall_mem_append.mpr ⟨hbehind, hblanks⟩)
  | terminated hgap hpiece _ ih =>
      rw [List.append_assoc, List.append_assoc]
      exact .terminated hgap hpiece ih

/-- A text has the same statements whether it is trimmed first or not, also when a
string that does not end takes in the blanks at its end. -/
theorem statements_trim (text : List Char) : statements (trim text) = statements text := by
  obtain ⟨front, back, hfront, hback, htext⟩ := exists_append_trim_append text
  have hbatch := (batch_statements (trim text)).append_blank hback
  calc statements (trim text) = statements (trim text ++ back) := hbatch.statements_eq.symm
    _ = statements (front ++ (trim text ++ back)) := (statements_blank_append hfront _).symm
    _ = statements text := by rw [← htext]

theorem byteLength_trim_le (text : List Char) : byteLength (trim text) ≤ byteLength text := by
  obtain ⟨front, back, -, -, htext⟩ := exists_append_trim_append text
  have hlength := congrArg byteLength htext
  rw [byteLength_append, byteLength_append] at hlength
  omega

theorem splitStatements_trim {text : List Char} (hsize : byteLength text ≤ Span.lastOffset) :
    splitStatements (String.ofList (trim text)) = some ((statements text).map String.ofList) := by
  have htrim : (String.ofList (trim text)).utf8ByteSize ≤ Span.lastOffset := by
    rw [utf8ByteSize_ofList]
    exact (byteLength_trim_le text).trans hsize
  rw [splitStatements_eq htrim, String.toList_ofList, statements_trim]

/-! ## The pieces of a batch -/

theorem Batch.terminated_or_trailing {text : List Char} {pieces : List (List Char)}
    (h : Batch text pieces) : ∀ piece ∈ pieces, Terminated piece ∨ Trailing piece := by
  induction h with
  | idle => simp
  | trailing _ hpiece _ => simpa using .inr hpiece
  | terminated _ hpiece _ ih => exact List.forall_mem_cons.mpr ⟨.inl hpiece, ih⟩

/-- A statement is not longer than its text. -/
theorem Batch.byteLength_le {text : List Char} {pieces : List (List Char)}
    (h : Batch text pieces) : ∀ piece ∈ pieces, byteLength piece ≤ byteLength text := by
  induction h with
  | idle => simp
  | trailing =>
      simp only [List.forall_mem_singleton, byteLength_append]
      omega
  | terminated _ _ _ ih =>
      simp only [List.forall_mem_cons, byteLength_append]
      refine ⟨by omega, fun piece hmem => (ih piece hmem).trans (by omega)⟩

/-- Every statement but the last has its semicolon. -/
theorem Batch.terminated_of_mem_dropLast {text : List Char} {pieces : List (List Char)}
    (h : Batch text pieces) : ∀ piece ∈ pieces.dropLast, Terminated piece := by
  induction h with
  | idle => simp
  | trailing => simp
  | @terminated _ piece _ pieces _ hpiece _ ih =>
      cases pieces with
      | nil => simp
      | cons next pieces =>
          rw [List.dropLast_cons_cons]
          exact List.forall_mem_cons.mpr ⟨hpiece, ih⟩

end SelectPlan
