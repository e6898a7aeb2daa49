import Mathlib.Data.List.Basic

/-!
# Cutting lists

Where a list is made of parts, a cut of the whole is a cut of one of them
(`split_append`), and the first element of a kind cuts it in one way only
(`eq_of_split_at_first`), as the first and the last occurrence of a mark do.
-/

namespace SelectPlan

variable {α : Type} {p : α → Prop} {front back front' back' : List α} {mark mark' : α}

/-- A member of a list of two parts is in the first part, or the first part stands in
front of it. -/
theorem split_append {passed more : List α} {x : α}
    (h : front ++ back = passed ++ x :: more) :
    (∃ others, front = passed ++ x :: others) ∨
      ∃ others, passed = front ++ others ∧ back = others ++ x :: more := by
  rcases List.append_eq_append_iff.mp h with ⟨others, hpassed, hback⟩ | ⟨others, hfront, hback⟩
  · exact .inr ⟨others, hpassed, hback⟩
  cases others with
  | nil => exact .inr ⟨[], by simpa using hfront.symm, hback.symm⟩
  | cons found others =>
      obtain ⟨rfl, -⟩ := List.cons.inj hback
      exact .inl ⟨others, hfront⟩

/-- A list is split at the first element of a kind in one way only. -/
theorem eq_of_split_at_first (hfront : ∀ x ∈ front, ¬ p x) (hfront' : ∀ x ∈ front', ¬ p x)
    (hmark : p mark) (hmark' : p mark')
    (h : front ++ mark :: back = front' ++ mark' :: back') :
    front = front' ∧ mark = mark' ∧ back = back' := by
  induction front generalizing front' with
  | nil =>
      cases front' with
      | nil => simpa using h
      | cons x rest =>
          obtain ⟨rfl, -⟩ := List.cons.inj h
          exact absurd hmark (hfront' _ List.mem_cons_self)
  | cons x rest ih =>
      cases front' with
      | nil =>
          obtain ⟨rfl, -⟩ := List.cons.inj h
          exact absurd hmark' (hfront _ List.mem_cons_self)
      | cons x' rest' =>
          obtain ⟨rfl, htail⟩ := List.cons.inj h
          obtain ⟨rfl, hmarks⟩ := ih (fun y hy => hfront y (List.mem_cons_of_mem _ hy))
            (fun y hy => hfront' y (List.mem_cons_of_mem _ hy)) htail
          exact ⟨rfl, hmarks⟩

/-- A list is cut at the first occurrence of a mark in one way only. -/
theorem eq_of_cut_at_first (hfront : mark ∉ front) (hfront' : mark ∉ front')
    (h : front ++ mark :: back = front' ++ mark :: back') : front = front' ∧ back = back' := by
  have hmarks : ∀ {list : List α}, mark ∉ list → ∀ x ∈ list, ¬ x = mark := by
    rintro list hlist x hmem rfl
    exact hlist hmem
  obtain ⟨hsame, -, hbehind⟩ :=
    eq_of_split_at_first (hmarks hfront) (hmarks hfront') rfl rfl h
  exact ⟨hsame, hbehind⟩

/-- A list is cut at the last occurrence of a mark in one way only. -/
theorem eq_of_cut_at_last (hback : mark ∉ back) (hback' : mark ∉ back')
    (h : front ++ mark :: back = front' ++ mark :: back') : front = front' ∧ back = back' := by
  have hreverse : back.reverse ++ mark :: front.reverse =
      back'.reverse ++ mark :: front'.reverse := by
    simpa using congrArg List.reverse h
  have hcut := eq_of_cut_at_first (by simpa using hback) (by simpa using hback') hreverse
  exact ⟨List.reverse_inj.mp hcut.2, List.reverse_inj.mp hcut.1⟩

end SelectPlan
