import Mathlib.Order.Defs.Unbundled
import SelectPlan.Proofs.Grammar.Clauses

/-!
# What parsers leave of a statement

A parser leaves a statement behind whether it succeeds or fails.  `Keeps kept parser`
says how that statement stands to the one before, in both cases.  It goes through binds
and chains, so a phrase that does not touch the statement keeps whatever doing nothing
keeps.

`Unchanged parser` says that a failure leaves the statement as it was.  So it is with the
clauses that are put into the statement as a whole (`unchanged_wholeClause`).
-/

namespace SelectPlan.Parser

variable {σ α β : Type} {kept : Select → Select → Prop}

/-- The parser leaves a statement that stands to the one before it as `kept` says,
whatever its outcome is. -/
def Keeps (kept : Select → Select → Prop) (parser : Parser σ α) : Prop :=
  ∀ progress, kept progress.statement (parser progress).2.statement

theorem Keeps.bind [IsTrans Select kept] {first : Parser σ α} {next : α → Parser σ β}
    (hfirst : Keeps kept first) (hnext : ∀ result, Keeps kept (next result)) :
    Keeps kept (first >>= next) := by
  intro progress
  have hkept := hfirst progress
  rw [bind_apply]
  rcases hrun : first progress with ⟨_ | result, between⟩
  · rwa [hrun] at hkept
  · rw [hrun] at hkept
    exact Trans.trans hkept (hnext result between)

theorem keeps_update {change : Select → Select}
    (h : ∀ statement, kept statement (change statement)) :
    Keeps kept (update change : Parser σ Unit) :=
  fun progress => h progress.statement

/-! ## Parsers that do not touch the statement -/

section Untouched

variable [Std.Refl kept]

theorem keeps_pure (result : α) : Keeps kept (pure result : Parser σ α) :=
  fun progress => refl progress.statement

theorem keeps_fail (fault : Fault) (span : Span) : Keeps kept (fail fault span : Parser σ α) :=
  fun progress => refl progress.statement

theorem keeps_statement : Keeps kept (statement : Parser σ Select) :=
  fun progress => refl progress.statement

variable [Feed σ]

theorem keeps_scan : Keeps kept (scan : Parser σ Lexeme) :=
  fun progress => refl progress.statement

theorem keeps_peek : Keeps kept (peek : Parser σ Lexeme) :=
  fun progress => refl progress.statement

theorem keeps_take (form : Lexeme → Except Fault α) : Keeps kept (take form : Parser σ α) := by
  intro progress
  rw [take_apply]
  cases form (Feed.scan progress.feed).1 <;> exact refl progress.statement

theorem keeps_take? (form : Token → Option α) :
    Keeps kept (take? form : Parser σ (Option α)) := by
  intro progress
  rw [take?_apply]
  cases form (Feed.scan progress.feed).1.token <;> exact refl progress.statement

theorem keeps_keyword (word : Keyword) : Keeps kept (keyword word : Parser σ Unit) :=
  keeps_take _

variable [IsTrans Select kept]

omit [Std.Refl kept] in
theorem keeps_chain {item : Parser σ α} {separator : Parser σ (Option β)} (heats : item.Eats)
    (hsteady : separator.Steady) (hitem : Keeps kept item) (hseparator : Keeps kept separator) :
    Keeps kept (chain item separator heats hsteady) := by
  intro progress
  have hfirst := hitem progress
  fun_induction chain item separator heats hsteady progress with
  | case1 progress error after hrun => rwa [hrun] at hfirst
  | case2 progress head between hrun error after hlink
  | case3 progress head between hrun after hlink =>
      rw [hrun] at hfirst
      have hsecond := hseparator between
      rw [hlink] at hsecond
      exact Trans.trans hfirst hsecond
  | case4 progress head between hrun link later hlink error after hmore ih
  | case5 progress head between hrun link later hlink next more after hmore ih =>
      rw [hrun] at hfirst
      have hsecond := hseparator between
      rw [hlink] at hsecond
      have hthird := ih (hitem later)
      rw [hmore] at hthird
      exact Trans.trans hfirst (Trans.trans hsecond hthird)

theorem keeps_keywordBy (word : Keyword) : Keeps kept (keywordBy word : Parser σ Unit) := by
  refine keeps_scan.bind fun first => keeps_scan.bind fun second => ?_
  split
  · exact keeps_pure ()
  · exact keeps_fail _ _

theorem keeps_joinKind : Keeps kept (joinKind : Parser σ JoinKind) := by
  have hjoin : ∀ kind, Keeps kept (do keyword .JOIN; pure kind : Parser σ JoinKind) :=
    fun kind => (keeps_keyword .JOIN).bind fun _ => keeps_pure kind
  have houter : ∀ kind,
      Keeps kept (do let _ ← take? outerForm; keyword .JOIN; pure kind : Parser σ JoinKind) :=
    fun kind => (keeps_take? outerForm).bind fun _ => hjoin kind
  refine (keeps_take joinForm).bind fun word => ?_
  split
  · exact hjoin _
  · exact houter _
  · exact houter _
  · exact houter _
  · exact keeps_pure _

theorem keeps_criterion : Keeps kept (criterion : Parser σ Criterion) :=
  (keeps_take _).bind fun _ => (keeps_take _).bind fun _ => (keeps_take _).bind fun _ =>
    keeps_pure _

theorem keeps_predicate : Keeps kept (predicate : Parser σ Expr) :=
  (keeps_chain eats_criterion (steady_take? _) keeps_criterion (keeps_take? _)).bind
    fun _ => keeps_pure _

theorem keeps_nameList : Keeps kept (nameList : Parser σ (List Ident)) :=
  (keeps_chain eats_listedName (steady_take? _) (keeps_take _) (keeps_take? _)).bind
    fun _ => keeps_pure _

theorem keeps_forbid (wrong : Bool) (fault : Fault) :
    Keeps kept (forbid wrong fault : Parser σ Unit) := by
  cases wrong with
  | true => exact keeps_peek.bind fun _ => keeps_fail _ _
  | false => exact keeps_pure ()

theorem keeps_goOn (part : Part) : Keeps kept (goOn part : Parser σ (Option Position)) := by
  refine keeps_peek.bind fun lexeme => ?_
  split
  · exact keeps_pure _
  · exact keeps_fail _ _

end Untouched

/-! ## Failures that change nothing -/

/-- A failure leaves the statement as it was. -/
def Unchanged (parser : Parser σ α) : Prop :=
  ∀ progress error after, parser progress = (.error error, after) →
    after.statement = progress.statement

theorem Keeps.unchanged {parser : Parser σ α} (h : Keeps Eq parser) : Unchanged parser := by
  intro progress error after hrun
  have hkept := h progress
  rw [hrun] at hkept
  exact hkept.symm

theorem Keeps.bind_unchanged {first : Parser σ α} {next : α → Parser σ β}
    (hfirst : Keeps Eq first) (hnext : ∀ result, Unchanged (next result)) :
    Unchanged (first >>= next) := by
  intro progress error after hrun
  have hkept := hfirst progress
  rw [bind_apply] at hrun
  rcases hmiddle : first progress with ⟨_ | result, between⟩ <;> rw [hmiddle] at hrun hkept
  · cases hrun
    exact hkept.symm
  · exact (hnext result between error after hrun).trans hkept.symm

theorem unchanged_update (change : Select → Select) :
    Unchanged (update change : Parser σ Unit) := by
  rintro progress error after ⟨⟩

theorem unchanged_wholeClause [Feed σ] {position : Position} (h : position.Whole) :
    Unchanged (clause position : Parser σ Unit) := by
  have hcount : ∀ (word : Keyword) (which : CountClause) (change : Nat → Select → Select),
      Unchanged (do keyword word; let value ← count which; update (change value) :
        Parser σ Unit) :=
    fun word which change => (keeps_keyword word).bind_unchanged fun _ =>
      (keeps_take _).bind_unchanged fun value => unchanged_update (change value)
  rcases h with rfl | rfl | rfl | rfl
  · exact keeps_joinKind.bind_unchanged fun _ => (keeps_take _).bind_unchanged fun _ =>
      (keeps_keyword _).bind_unchanged fun _ => keeps_criterion.bind_unchanged fun _ =>
        unchanged_update _
  · exact (keeps_keyword _).bind_unchanged fun _ => keeps_predicate.bind_unchanged fun _ =>
      unchanged_update _
  · exact hcount .LIMIT .limit _
  · exact hcount .OFFSET .offset _

end SelectPlan.Parser
