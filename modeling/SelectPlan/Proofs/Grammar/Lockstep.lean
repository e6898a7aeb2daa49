import SelectPlan.Proofs.Grammar.Following
import SelectPlan.Proofs.Parser.Lockstep

/-!
# Statements in step

Two texts whose lexemes are the same but for their places and the texts of keywords
and illegal lexemes are read in step, even by feeds of two kinds: both runs of the
parser finish with the same statement, or both stop at the same lexeme
(`finishes_or_stops`).

## Strategy

Every form judges twins alike, and the laws of `InStep` put productions and clauses
together.  The one parser that reads more than it judges is `keywordBy`; it is in
step where its keyword is known to be ahead, which is why `Starts` is carried from a
clause to the next.  A whole run is an induction on the size of the first feed, as in
`run` itself.
-/

namespace SelectPlan.Parser

variable {σ τ α β : Type} [Feed σ] [LawfulFeed σ] [Feed τ] [LawfulFeed τ]

/-! ## Forms -/

/-- A form that refuses a lexeme as not expected refuses its twin. -/
theorem judged_unexpected {form : Lexeme → Except Fault α} {twin : Twin} (expectation : Expectation)
    (hleft : form twin.left = unexpected twin.left expectation)
    (hright : form twin.right = unexpected twin.right expectation) : Judged form twin :=
  .refused _ _ hleft hright (Fault.recased_unexpected twin expectation)

theorem judged_keywordForm {word : Keyword} (hword : (Token.keyword word).wantsBy = false)
    (twin : Twin) : Judged (keywordForm word) twin := by
  have hright := twin.right_token
  by_cases htoken : twin.token = .keyword word
  · refine .accepted () (if_pos htoken) (if_pos (hright.trans htoken)) ?_ (htoken ▸ hword)
    rw [htoken]
    rfl
  · refine judged_unexpected (.keyword word) (if_neg htoken) (if_neg ?_)
    rw [hright]
    exact htoken

theorem judged_nameForm (expectation : Expectation) (twin : Twin) :
    Judged (nameForm expectation) twin := by
  cases twin using Twin.byToken with
  | keyword word => exact judged_unexpected expectation rfl rfl
  | illegal => exact judged_unexpected expectation rfl rfl
  | other token text =>
      cases token with
      | ident => exact .accepted ⟨text⟩ rfl rfl rfl rfl
      | _ => exact judged_unexpected expectation rfl rfl

theorem judged_fieldForm (twin : Twin) : Judged fieldForm twin := by
  cases twin using Twin.byToken with
  | keyword word => exact judged_unexpected .field rfl rfl
  | illegal => exact judged_unexpected .field rfl rfl
  | other token text =>
      cases token with
      | ident => exact .accepted ⟨text⟩ rfl rfl rfl rfl
      | asterisk => exact .accepted .star rfl rfl rfl rfl
      | _ => exact judged_unexpected .field rfl rfl

theorem judged_operandForm (twin : Twin) : Judged operandForm twin := by
  cases twin using Twin.byToken with
  | keyword word => exact judged_unexpected .operand rfl rfl
  | illegal => exact judged_unexpected .operand rfl rfl
  | other token text =>
      cases token with
      | ident => exact .accepted (.ident ⟨text⟩) rfl rfl rfl rfl
      | literal kind => exact .accepted (.literal ⟨kind, text⟩) rfl rfl rfl rfl
      | _ => exact judged_unexpected .operand rfl rfl

theorem judged_comparisonForm (twin : Twin) : Judged comparisonForm twin := by
  cases twin using Twin.byToken with
  | keyword word => exact judged_unexpected .comparison rfl rfl
  | illegal => exact judged_unexpected .comparison rfl rfl
  | other token text =>
      cases token with
      | comparison comparison => exact .accepted comparison rfl rfl rfl rfl
      | _ => exact judged_unexpected .comparison rfl rfl

theorem judged_joinForm (twin : Twin) : Judged joinForm twin := by
  cases twin using Twin.byToken with
  | keyword word =>
      cases word with
      | JOIN | INNER | LEFT | RIGHT | FULL => exact .accepted _ rfl rfl rfl rfl
      | _ => exact judged_unexpected (.keyword .JOIN) rfl rfl
  | illegal => exact judged_unexpected (.keyword .JOIN) rfl rfl
  | other token text hother =>
      cases token with
      | keyword word => exact absurd rfl (hother word)
      | _ => exact judged_unexpected (.keyword .JOIN) rfl rfl

theorem judged_countForm (clause : CountClause) (twin : Twin) : Judged (countForm clause) twin := by
  cases twin using Twin.byToken with
  | keyword word => exact judged_unexpected (.count clause) rfl rfl
  | illegal => exact judged_unexpected (.count clause) rfl rfl
  | other token text hother span span' =>
      -- An INT has the same text on both sides, so it has the same value.
      by_cases hint : token = .literal .int
      · subst hint
        cases hvalue : countForm clause ⟨.literal .int, text, span⟩ with
        | ok value => exact .accepted value hvalue hvalue rfl rfl
        | error fault => exact .refused fault fault hvalue hvalue (.inl rfl)
      · have hcount : ∀ span, countForm clause ⟨token, text, span⟩ =
            unexpected ⟨token, text, span⟩ (.count clause) := by
          intro span
          unfold countForm
          split
          · rename_i htoken
            exact absurd htoken hint
          · rfl
        exact judged_unexpected (.count clause) (hcount span) (hcount span')

/-! ## Productions -/

theorem inStep_keyword {word : Keyword} (hword : (Token.keyword word).wantsBy = false) :
    InStep (keyword word) (keyword word) (goesOn : Post σ τ Unit) :=
  inStep_take (judged_keywordForm hword)

theorem inStep_tableName : InStep tableName tableName (goesOn : Post σ τ Ident) :=
  inStep_take (judged_nameForm .tableName)

theorem inStep_selectList : InStep selectList selectList (goesOn : Post σ τ Unit) := by
  have hfield : InStep field field (goesOn : Post σ τ Unit) :=
    (inStep_take judged_fieldForm).bind fun _ => inStep_update _
  exact (inStep_chain eats_field eats_field hfield comma_inner).bind fun _ => inStep_pure _

theorem inStep_nameList : InStep nameList nameList (goesOn : Post σ τ (List Ident)) := by
  have hname : InStep listedName listedName (goesOn : Post σ τ Ident) :=
    inStep_take (judged_nameForm .field)
  exact (inStep_chain eats_listedName eats_listedName hname comma_inner).bind fun _ =>
    inStep_pure _

theorem outer_inner (symbol : Symbol) (link : Unit) (h : outerForm symbol.token = some link) :
    symbol.Inner ∧ symbol.token.wantsBy = false :=
  plain_of_token (outerForm_eq_some.mp h) (by simp) rfl rfl

theorem inStep_joinKind : InStep joinKind joinKind (goesOn : Post σ τ JoinKind) := by
  have hjoin : ∀ kind, InStep (do keyword .JOIN; pure kind) (do keyword .JOIN; pure kind)
      (goesOn : Post σ τ JoinKind) :=
    fun kind => (inStep_keyword rfl).bind fun _ => inStep_pure kind
  have houter : ∀ kind, InStep (do let _ ← take? outerForm; keyword .JOIN; pure kind)
      (do let _ ← take? outerForm; keyword .JOIN; pure kind) (goesOn : Post σ τ JoinKind) :=
    fun kind => (inStep_take? outer_inner).bind fun _ => hjoin kind
  refine (inStep_take judged_joinForm).bind fun word => ?_
  split
  · exact hjoin .inner
  · exact houter .leftOuter
  · exact houter .rightOuter
  · exact houter .fullOuter
  · exact inStep_pure JoinKind.inner

theorem inStep_criterion : InStep criterion criterion (goesOn : Post σ τ Criterion) := by
  have hoperand : InStep operand operand (goesOn : Post σ τ Expr) :=
    inStep_take judged_operandForm
  exact hoperand.bind fun _ => (inStep_take judged_comparisonForm).bind fun _ =>
    hoperand.bind fun _ => inStep_pure _

theorem inStep_predicate : InStep predicate predicate (goesOn : Post σ τ Expr) :=
  (inStep_chain eats_criterion eats_criterion inStep_criterion connective_inner).bind fun _ =>
    inStep_pure _

theorem inStep_count (clause : CountClause) :
    InStep (count clause) (count clause) (goesOn : Post σ τ Nat) :=
  inStep_take (judged_countForm clause)

omit [LawfulFeed σ] in
theorem keywordBy_apply (word : Keyword) (feed : σ) (before : Select) :
    let first := Feed.scan feed
    let second := Feed.scan first.2
    keywordBy word ⟨feed, before⟩ =
      (if first.1.token = .keyword word ∧ second.1.token = .keyword .BY then .ok ()
        else .error ⟨.unexpected (first.1.text ++ " " ++ second.1.text) (.keyword word),
          first.1.span.merge second.1.span⟩, ⟨second.2, before⟩) := by
  rw [keywordBy, bind_apply, scan_apply]
  dsimp only
  rw [bind_apply, scan_apply]
  dsimp only
  split <;> rfl

/-- Behind `GROUP` or `ORDER` the keyword is blamed as well. -/
theorem blame_of_wantsBy {previous : Lexeme} (h : previous.token.wantsBy = true)
    (lexeme : Lexeme) : blame [previous] lexeme = previous.span.merge lexeme.span := by
  simp [blame, h]

/-- Where the first keyword is ahead, the second one is in step. -/
theorem lockstep_keywordBy {word : Keyword} (hword : (Token.keyword word).wantsBy = true)
    {feed : σ} {feed' : τ} {twin : Twin} {rest : List Twin} (htwin : twin.token = .keyword word)
    (hoffered : Offered feed feed' (twin :: rest)) (before : Select) :
    Lockstep (keywordBy word) (keywordBy word) goesOn before feed feed' (twin :: rest) := by
  have hbehind : Offered (Feed.scan feed).2 (Feed.scan feed').2 rest := by
    refine hoffered.scan ?_
    rw [htwin]
    rfl
  obtain ⟨second, others, rfl⟩ := hbehind.exists_cons
  have hleft : (keywordBy word : Parser σ Unit) ⟨feed, before⟩ =
      (if second.token = .keyword .BY then .ok ()
        else .error ⟨.unexpected (twin.left.text ++ " " ++ second.left.text) (.keyword word),
          twin.left.span.merge second.left.span⟩,
        ⟨(Feed.scan (Feed.scan feed).2).2, before⟩) := by
    rw [keywordBy_apply, hoffered.scan_left, hbehind.scan_left]
    simp only [show twin.left.token = .keyword word from htwin, true_and]
    rfl
  have hright : (keywordBy word : Parser τ Unit) ⟨feed', before⟩ =
      (if second.token = .keyword .BY then .ok ()
        else .error ⟨.unexpected (twin.right.text ++ " " ++ second.right.text) (.keyword word),
          twin.right.span.merge second.right.span⟩,
        ⟨(Feed.scan (Feed.scan feed').2).2, before⟩) := by
    rw [keywordBy_apply, hoffered.scan_right, hbehind.scan_right]
    simp only [twin.right_token, second.right_token, htwin, true_and]
  by_cases hby : second.token = .keyword .BY
  · rw [if_pos hby] at hleft hright
    refine .inl (.intro [twin, second] others () before _ _ rfl ?_ hleft hright
      (hbehind.scan (hby ▸ rfl)))
    intro symbol hlast
    rw [← Option.some.inj hlast]
    exact congrArg Token.wantsBy hby
  -- Both lexemes are gone by now, and the errors cover both.
  · rw [if_neg hby] at hleft hright
    have hwants : twin.left.token.wantsBy = true := (congrArg Token.wantsBy htwin).trans hword
    have hwants' : twin.right.token.wantsBy = true := by rw [twin.right_token, htwin, hword]
    rw [← blame_of_wantsBy hwants] at hleft
    rw [← blame_of_wantsBy hwants'] at hright
    exact .inr (.intro [twin] second others _ _ before _ _ rfl hleft hright
      (.inr ⟨0, .keyword word, rfl, rfl⟩) hbehind.scan_nil)

/-! ## From a clause to the next -/

/-- The keyword that has to be ahead at a position for its clause to be read in
step. -/
def opener : Position → Option Keyword
  | .groupBy => some .GROUP
  | .orderBy => some .ORDER
  | _ => none

/-- The twins start as the position wants them to. -/
def Starts (position : Position) (twins : List Twin) : Prop :=
  ∀ word ∈ opener position, ∃ twin rest, twins = twin :: rest ∧ twin.token = .keyword word

/-- The feeds can be read on from the position that is given, if there is one. -/
def leadsOn : Post σ τ (Option Position) :=
  fun result next next' rest => Offered next next' rest ∧
    ∀ position ∈ result, Starts position rest

theorem starts_of_opener_eq_none {position : Position} (h : opener position = none)
    (twins : List Twin) : Starts position twins := by
  simp [Starts, h]

theorem starts_of_positionAfter {part : Part} {position : Position} {twin : Twin}
    (h : positionAfter part twin.token = some position) (rest : List Twin) :
    Starts position (twin :: rest) := by
  intro word hword
  refine ⟨twin, rest, rfl, ?_⟩
  cases htoken : twin.token with
  | keyword found =>
      rw [htoken] at h
      have hopens : found ∈ opens position := mem_opens h
      cases position <;> cases hword <;> simpa [opens] using hopens
  -- Only a keyword leads to a clause.
  | eof | semicolon =>
      rw [htoken] at h
      cases h
      cases hword
  | _ =>
      rw [htoken] at h
      cases h

theorem inStep_lead {position : Position} (h : opener position = none) :
    InStep (pure (some position)) (pure (some position))
      (leadsOn : Post σ τ (Option Position)) := by
  refine inStep_of_still (some position) id (fun _ _ => rfl) (fun _ _ => rfl) ?_
  intro next next' rest hoffered
  refine ⟨hoffered, ?_⟩
  intro position' hposition
  rw [← Option.some.inj hposition]
  exact starts_of_opener_eq_none h rest

theorem inStep_goOn (part : Part) :
    InStep (goOn part) (goOn part) (leadsOn : Post σ τ (Option Position)) := by
  intro before feed feed' twins hoffered
  obtain ⟨twin, rest, rfl⟩ := hoffered.exists_cons
  have hleft := goOn_apply part feed before
  have hright := goOn_apply part feed' before
  rw [hoffered.scan_left, ← Twin.token] at hleft
  rw [hoffered.scan_right, twin.right_token] at hright
  cases hposition : positionAfter part twin.token with
  | some position =>
      rw [hposition, Option.elim_some] at hleft hright
      refine .inl (.intro [] (twin :: rest) (some position) before _ _ rfl settled_nil hleft hright
        ⟨hoffered.unscan, ?_⟩)
      intro position' hposition'
      rw [← Option.some.inj hposition']
      exact starts_of_positionAfter hposition rest
  | none =>
      rw [hposition, Option.elim_none] at hleft hright
      exact .inr (.intro [] twin rest _ _ before _ _ rfl hleft hright
        (Fault.recased_unexpected twin _) hoffered.unscan_nil)

/-- A clause that stands where it may not is refused on both sides. -/
theorem lockstep_forbid {wrong : Bool} {fault : Fault} {following : Unit → Parser σ β}
    {following' : Unit → Parser τ β} {post : Post σ τ β} {before : Select} {feed : σ} {feed' : τ}
    {twins : List Twin} (hoffered : Offered feed feed' twins)
    (h : Lockstep (following ()) (following' ()) post before feed feed' twins) :
    Lockstep (forbid wrong fault >>= following) (forbid wrong fault >>= following') post before
      feed feed' twins := by
  cases wrong with
  | false =>
      rw [forbid_false_bind, forbid_false_bind]
      exact h
  | true =>
      obtain ⟨twin, rest, rfl⟩ := hoffered.exists_cons
      have hstops : Stops (forbid true fault : Parser σ Unit) (forbid true fault : Parser τ Unit)
          before feed feed' (twin :: rest) := by
        refine .intro [] twin rest fault fault before (Feed.unscan (Feed.scan feed).2)
          (Feed.unscan (Feed.scan feed').2) rfl ?_ ?_ (.inl rfl) hoffered.unscan_nil
        · rw [← hoffered.scan_left]
          rfl
        · rw [← hoffered.scan_right]
          rfl
      exact .inr (hstops.bind following following')

/-- The keywords of a clause with a list, where the first of them is ahead. -/
theorem lockstep_listKeywords {word : Keyword} (hword : (Token.keyword word).wantsBy = true)
    {position : Position} (hposition : opener position = none) (change : Select → Select)
    {feed : σ} {feed' : τ} {twin : Twin} {rest : List Twin} (htwin : twin.token = .keyword word)
    (hoffered : Offered feed feed' (twin :: rest)) (before : Select) :
    Lockstep (do keywordBy word; update change; pure (some position))
      (do keywordBy word; update change; pure (some position)) leadsOn before feed feed'
      (twin :: rest) := by
  have hbehind : InStep (do update change; pure (some position))
      (do update change; pure (some position)) (leadsOn : Post σ τ (Option Position)) :=
    (inStep_update change).bind fun _ => inStep_lead hposition
  refine (lockstep_keywordBy hword htwin hoffered before).bind ?_
  intro _ after next next' rest' _ hrest
  exact hbehind after next next' rest' hrest

theorem inStep_update_goOn (change : Select → Select) (part : Part) :
    InStep (do update change; goOn part) (do update change; goOn part)
      (leadsOn : Post σ τ (Option Position)) :=
  (inStep_update change).bind fun _ => inStep_goOn part

/-- A step of the parser is in step where its keyword is ahead. -/
theorem lockstep_step {position : Position} (hposition : position ≠ .finish) {before : Select}
    {feed : σ} {feed' : τ} {twins : List Twin} (hoffered : Offered feed feed' twins)
    (hstarts : Starts position twins) :
    Lockstep (step position) (step position) leadsOn before feed feed' twins := by
  cases position with
  | start =>
      refine InStep.bind (inStep_keyword rfl) (fun _ => ?_) before feed feed' twins hoffered
      exact inStep_lead rfl
  | selectList =>
      refine InStep.bind inStep_selectList (fun _ => ?_) before feed feed' twins hoffered
      exact inStep_lead rfl
  | source =>
      refine InStep.bind (inStep_keyword rfl) (fun _ => ?_) before feed feed' twins hoffered
      exact inStep_tableName.bind fun _ => inStep_update_goOn _ _
  | join =>
      refine InStep.bind inStep_joinKind (fun _ => ?_) before feed feed' twins hoffered
      exact inStep_tableName.bind fun _ => (inStep_keyword rfl).bind fun _ =>
        inStep_criterion.bind fun _ => inStep_update_goOn _ _
  | filter =>
      refine InStep.bind (inStep_keyword rfl) (fun _ => ?_) before feed feed' twins hoffered
      exact inStep_predicate.bind fun _ => inStep_update_goOn _ _
  | groupBy =>
      -- `GROUP BY` is two lexemes with one fault, so the keyword ahead has to be known.
      obtain ⟨twin, rest, rfl, htwin⟩ := hstarts .GROUP rfl
      refine lockstep_statement (lockstep_forbid hoffered ?_)
      exact lockstep_listKeywords rfl rfl _ htwin hoffered before
  | groupList =>
      refine InStep.bind inStep_nameList (fun _ => ?_) before feed feed' twins hoffered
      exact inStep_update_goOn _ _
  | orderBy =>
      obtain ⟨twin, rest, rfl, htwin⟩ := hstarts .ORDER rfl
      refine lockstep_statement (lockstep_forbid hoffered ?_)
      exact lockstep_listKeywords rfl rfl _ htwin hoffered before
  | orderList =>
      refine InStep.bind inStep_nameList (fun _ => ?_) before feed feed' twins hoffered
      exact inStep_update_goOn _ _
  | limit =>
      refine lockstep_statement (lockstep_forbid hoffered ?_)
      refine InStep.bind (inStep_keyword rfl) (fun _ => ?_) before feed feed' twins hoffered
      exact (inStep_count .limit).bind fun _ => inStep_update_goOn _ _
  | offset =>
      refine lockstep_statement (lockstep_forbid hoffered (lockstep_forbid hoffered ?_))
      refine InStep.bind (inStep_keyword rfl) (fun _ => ?_) before feed feed' twins hoffered
      exact (inStep_count .offset).bind fun _ => inStep_update_goOn _ _
  | finish => exact absurd rfl hposition

/-! ## Whole runs -/

/-- Nothing is said about what comes after a statement. -/
def finished : Post σ τ Unit :=
  fun _ next _ _ => LawfulFeed.Offers next []

omit [LawfulFeed σ] in
theorem run_finish_apply (feed : σ) (before : Select) :
    run .finish ⟨feed, before⟩ =
      (if (Feed.scan feed).1.token.isTerminal then .ok ()
        else .error ⟨.unexpected (Feed.scan feed).1.text .statementEnd, (Feed.scan feed).1.span⟩,
        ⟨(Feed.scan feed).2, before⟩) := by
  rw [run_eq_step_bind, step, readFinish, bind_assoc, bind_apply, scan_apply]
  dsimp only
  split <;> rfl

theorem lockstep_finish {before : Select} {feed : σ} {feed' : τ} {twins : List Twin}
    (hoffered : Offered feed feed' twins) :
    Lockstep (run .finish) (run .finish) finished before feed feed' twins := by
  obtain ⟨twin, rest, rfl⟩ := hoffered.exists_cons
  have hleft := run_finish_apply feed before
  have hright := run_finish_apply feed' before
  rw [hoffered.scan_left, ← Twin.token] at hleft
  rw [hoffered.scan_right, twin.right_token] at hright
  cases hterminal : twin.token.isTerminal with
  | true =>
      rw [hterminal, if_pos rfl] at hleft hright
      refine .inl (.intro [twin] rest () before _ _ rfl (settled_singleton ?_) hleft hright
        hoffered.scan_nil)
      change twin.token.wantsBy = false
      generalize twin.token = token at hterminal
      cases token <;> first | rfl | cases hterminal
  | false =>
      rw [hterminal, if_neg Bool.false_ne_true] at hleft hright
      exact .inr (.intro [] twin rest _ _ before _ _ rfl hleft hright
        (Fault.recased_unexpected twin .statementEnd) hoffered.scan_nil)

/-- Both runs finish a statement alike, or stop at the same lexeme. -/
theorem finishes_or_stops (position : Position) (before : Select) (feed : σ) (feed' : τ)
    (twins : List Twin) (hoffered : Offered feed feed' twins) (hstarts : Starts position twins) :
    Lockstep (run position) (run position) finished before feed feed' twins := by
  by_cases hposition : position = .finish
  · subst hposition
    exact lockstep_finish hoffered
  · rw [run_eq_step_bind, run_eq_step_bind]
    refine (lockstep_step hposition hoffered hstarts).bind ?_
    rintro result after next next' rest hrun ⟨hrest, hleads⟩
    cases result with
    | none =>
        exact .inl (.intro [] rest () after next next' rfl settled_nil rfl rfl
          (LawfulFeed.offers_nil hrest.left))
    | some position' =>
        have hsmaller : Feed.size next < Feed.size feed := size_step_lt hrun
        exact finishes_or_stops position' after next next' rest hrest (hleads position' rfl)
termination_by Feed.size feed

end SelectPlan.Parser
