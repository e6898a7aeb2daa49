import Mathlib.Data.List.Forall2
import SelectPlan.Proofs.Text.Bytes
import SelectPlan.Proofs.Text.Utf8
import SelectPlan.Shell.Session

/-!
# Lines of a text

An input is cut into lines at its bytes.  If it is a text then so is each of its
lines, since a line feed is no part of a longer character
(`exists_encodeUtf8_of_mem_inputLines`), and so is a line without the line feed
that ends it (`exists_encodeUtf8_of_append_lineFeed`).
-/

namespace SelectPlan.Shell

open Text

/-- Bytes in front of a text that hold no line feed belong to its first line. -/
theorem inputLines_append {front : List UInt8} (hne : front ≠ []) (hfeed : 10 ∉ front)
    (rest : List UInt8) :
    inputLines (front ++ rest) =
      (front ++ (inputLines rest).headD []) :: (inputLines rest).tail := by
  induction front with
  | nil => exact absurd rfl hne
  | cons byte more ih =>
      have hbyte : byte ≠ 10 := fun heq => hfeed (heq ▸ List.mem_cons_self)
      have hmore : 10 ∉ more := fun hmem => hfeed (List.mem_cons_of_mem _ hmem)
      rw [List.cons_append, inputLines, if_neg hbyte]
      by_cases hnil : more = []
      · rw [hnil, List.nil_append]
        cases inputLines rest with
        | nil => rfl
        | cons line lines => rfl
      · rw [ih hnil hmore]
        rfl

/-- A line feed in the encoding of a character is all of it. -/
theorem eq_lineFeed_of_mem {c : Char} (h : 10 ∈ String.utf8EncodeChar c) :
    c = '\n' ∧ String.utf8EncodeChar c = [10] := by
  obtain ⟨hencode, hcode⟩ := eq_singleton_of_mem_utf8EncodeChar h (by decide)
  exact ⟨Char.toNat_inj.mp hcode, hencode⟩

/-- The lines of a text are texts. -/
theorem exists_encodeUtf8_of_mem_inputLines {text : List Char} :
    ∀ line ∈ inputLines (encodeUtf8 text), ∃ content, line = encodeUtf8 content := by
  induction text with
  | nil => simp [encodeUtf8, inputLines]
  | cons c rest ih =>
      rw [encodeUtf8_cons]
      by_cases hfeed : 10 ∈ String.utf8EncodeChar c
      · obtain ⟨rfl, hencode⟩ := eq_lineFeed_of_mem hfeed
        rw [hencode, List.singleton_append, inputLines, if_pos rfl]
        exact List.forall_mem_cons.mpr ⟨⟨['\n'], rfl⟩, ih⟩
      · rw [inputLines_append String.utf8EncodeChar_ne_nil hfeed]
        cases hlines : inputLines (encodeUtf8 rest) with
        | nil => simpa using ⟨[c], by simp [encodeUtf8]⟩
        | cons line lines =>
            rw [hlines] at ih
            obtain ⟨⟨content, hcontent⟩, hothers⟩ := List.forall_mem_cons.mp ih
            refine List.forall_mem_cons.mpr ⟨⟨c :: content, ?_⟩, hothers⟩
            rw [List.headD_cons, hcontent, encodeUtf8_cons]

/-- A text that ends with a line feed is a text without it. -/
theorem exists_encodeUtf8_of_append_lineFeed {text : List Char} {bytes : List UInt8}
    (h : encodeUtf8 text = bytes ++ [10]) :
    ∃ content, text = content ++ ['\n'] ∧ bytes = encodeUtf8 content := by
  rcases List.eq_nil_or_concat text with rfl | ⟨content, c, rfl⟩
  · simp [encodeUtf8] at h
  · have hbytes : encodeUtf8 [c] = String.utf8EncodeChar c :=
      List.flatMap_singleton _ _
    rw [List.concat_eq_append, encodeUtf8_append, hbytes] at h
    rw [List.concat_eq_append]
    have hlast : 10 ∈ String.utf8EncodeChar c := by
      have hend := congrArg List.getLast? h
      rw [List.getLast?_append_of_ne_nil _ String.utf8EncodeChar_ne_nil, List.getLast?_concat]
        at hend
      exact List.mem_of_getLast? hend
    obtain ⟨rfl, hencode⟩ := eq_lineFeed_of_mem hlast
    rw [hencode] at h
    exact ⟨content, rfl, (List.append_cancel_right h).symm⟩

end SelectPlan.Shell
