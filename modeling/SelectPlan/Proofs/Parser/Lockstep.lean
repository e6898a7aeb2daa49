import SelectPlan.Proofs.Parser.Phrase
import SelectPlan.Proofs.Scanner.Layout

/-!
# Two runs in step

A parser runs on two feeds whose lexemes are the same but for their places and for
texts that are not looked into: those of keywords and of illegal lexemes.  `Twin` is a
pair of such lexemes, so two feeds at once are one list of twins.

`InStep` says of a parser that it never tells twins apart: both runs give the same
result after equally many lexemes, or both fail at the same lexeme, with faults that
quote the same lexemes.  Every combinator of parsers carries this from its parts to
the whole, so twins are taken apart for single lexemes only (`Judged`).

The feeds may be of two kinds.  The left one is still lawful where a run stops, so what
a lawful feed keeps holds at the end of every run.
-/

namespace SelectPlan

/-! ## Twins -/

/-- The symbols have the same token, and the same text unless it is that of a keyword
or of an illegal lexeme. -/
def Symbol.Akin (symbol other : Symbol) : Prop :=
  other.token = symbol.token ∧
    (other.text = symbol.text ∨ (∃ word, symbol.token = .keyword word) ∨ symbol.token = .illegal)

theorem Symbol.Recased.akin {symbol other : Symbol} (h : symbol.Recased other) :
    symbol.Akin other :=
  ⟨h.1, h.2.imp_right fun hcase => .inl hcase.1⟩

/-- A lexeme in two texts that no parser tells apart. -/
structure Twin where
  left : Lexeme
  right : Lexeme
  akin : left.symbol.Akin right.symbol

namespace Twin

/-- The token of both lexemes. -/
def token (twin : Twin) : Token :=
  twin.left.token

theorem right_token (twin : Twin) : twin.right.token = twin.token :=
  twin.akin.1

/-- A keyword may differ in its text, and so may an illegal lexeme; of any other lexeme
both sides are the same up to their place. -/
theorem byToken {motive : Twin → Prop}
    (keyword : ∀ word text text' span span' akin,
      motive ⟨⟨.keyword word, text, span⟩, ⟨.keyword word, text', span'⟩, akin⟩)
    (illegal : ∀ text text' span span' akin,
      motive ⟨⟨.illegal, text, span⟩, ⟨.illegal, text', span'⟩, akin⟩)
    (other : ∀ token text, (∀ word, token ≠ .keyword word) → ∀ span span' akin,
      motive ⟨⟨token, text, span⟩, ⟨token, text, span'⟩, akin⟩)
    (twin : Twin) : motive twin := by
  obtain ⟨⟨token, text, span⟩, ⟨token', text', span'⟩, hakin⟩ := twin
  obtain rfl : token' = token := hakin.1
  cases token' with
  | keyword word => exact keyword word text text' span span' hakin
  | illegal => exact illegal text text' span span' hakin
  | _ =>
      obtain rfl : text' = text := by simpa [Lexeme.symbol] using hakin.2
      exact other _ text' (by simp) span span' hakin

/-- Lists of lexemes that are the same in this sense are lists of twins. -/
theorem exists_of_forall₂ {lexemes others : List Lexeme}
    (h : List.Forall₂ (fun lexeme other => lexeme.symbol.Akin other.symbol) lexemes others) :
    ∃ twins : List Twin, twins.map left = lexemes ∧ twins.map right = others := by
  induction h with
  | nil => exact ⟨[], rfl, rfl⟩
  | @cons lexeme other _ _ hakin _ ih =>
      obtain ⟨twins, hleft, hright⟩ := ih
      refine ⟨⟨lexeme, other, hakin⟩ :: twins, ?_, ?_⟩
      · rw [List.map_cons, hleft]
      · rw [List.map_cons, hright]

end Twin

/-! ## Faults that quote the same lexemes -/

/-- The lexemes as a fault quotes them. -/
def quote (lexemes : List Lexeme) : String :=
  String.intercalate " " (lexemes.map Lexeme.text)

/-- The faults are the same, or quote the same last ones of the lexemes seen. -/
def Fault.Recased (seen seen' : List Lexeme) (fault fault' : Fault) : Prop :=
  fault' = fault ∨ ∃ skipped expectation,
    fault = .unexpected (quote (seen.drop skipped)) expectation ∧
      fault' = .unexpected (quote (seen'.drop skipped)) expectation

theorem Fault.recased_unexpected (twin : Twin) (expectation : Expectation) :
    Fault.Recased [twin.left] [twin.right] (.unexpected twin.left.text expectation)
      (.unexpected twin.right.text expectation) :=
  .inr ⟨0, expectation, rfl, rfl⟩

/-- Lexemes that were seen before those do not change what is quoted. -/
theorem Fault.Recased.append_left {seen seen' : List Lexeme} {fault fault' : Fault}
    (h : Fault.Recased seen seen' fault fault') {front front' : List Lexeme}
    (hlength : front'.length = front.length) :
    Fault.Recased (front ++ seen) (front' ++ seen') fault fault' := by
  refine h.imp_right ?_
  rintro ⟨skipped, expectation, hfault, hfault'⟩
  refine ⟨front.length + skipped, expectation, ?_, ?_⟩
  · rw [hfault, List.drop_length_add_append]
  · rw [hfault', ← hlength, List.drop_length_add_append]

namespace Parser

variable {σ τ α β : Type} [Feed σ] [LawfulFeed σ] [Feed τ] [LawfulFeed τ]

/-! ## Outcomes of two runs -/

/-- Two feeds offer the two sides of these twins, which include an end. -/
structure Offered (feed : σ) (feed' : τ) (twins : List Twin) : Prop where
  ended : Ended (twins.map fun twin => twin.left.symbol)
  left : LawfulFeed.Offers feed (twins.map Twin.left)
  right : LawfulFeed.Offers feed' (twins.map Twin.right)

/-- What is said about a common result, the feeds after it and the twins that are
left. -/
abbrev Post (σ τ α : Type) : Type :=
  α → σ → τ → List Twin → Prop

/-- Both runs give the same result and statement after as many twins. -/
inductive Agrees (parser : Parser σ α) (parser' : Parser τ α) (post : Post σ τ α)
    (before : Select) (feed : σ) (feed' : τ) (twins : List Twin) : Prop
  | intro (used rest : List Twin) (result : α) (after : Select) (next : σ) (next' : τ)
      (split : twins = used ++ rest)
      (settled : Settled (used.map fun twin => twin.left.symbol))
      (left : parser ⟨feed, before⟩ = (.ok result, ⟨next, after⟩))
      (right : parser' ⟨feed', before⟩ = (.ok result, ⟨next', after⟩))
      (holds : post result next next' rest)

/-- Both runs fail at the same twin, with the same statement, and the left feed is still
lawful. -/
inductive Stops (parser : Parser σ α) (parser' : Parser τ α) (before : Select) (feed : σ)
    (feed' : τ) (twins : List Twin) : Prop
  | intro (used : List Twin) (bad : Twin) (rest : List Twin) (fault fault' : Fault)
      (after : Select) (next : σ) (next' : τ) (split : twins = used ++ bad :: rest)
      (left : parser ⟨feed, before⟩ =
        (.error ⟨fault, blame (used.map Twin.left) bad.left⟩, ⟨next, after⟩))
      (right : parser' ⟨feed', before⟩ =
        (.error ⟨fault', blame (used.map Twin.right) bad.right⟩, ⟨next', after⟩))
      (recased : Fault.Recased ((used ++ [bad]).map Twin.left) ((used ++ [bad]).map Twin.right)
        fault fault')
      (offers : LawfulFeed.Offers next [])

/-- What becomes of two runs on twins. -/
def Lockstep (parser : Parser σ α) (parser' : Parser τ α) (post : Post σ τ α) (before : Select)
    (feed : σ) (feed' : τ) (twins : List Twin) : Prop :=
  Agrees parser parser' post before feed feed' twins ∨
    Stops parser parser' before feed feed' twins

/-- The feeds can be read on, whatever the result is. -/
def goesOn : Post σ τ α :=
  fun _ next next' rest => Offered next next' rest

/-- The parsers, which are one parser on two kinds of feeds, do not tell twins apart. -/
def InStep (parser : Parser σ α) (parser' : Parser τ α) (post : Post σ τ α) : Prop :=
  ∀ before feed feed' twins, Offered feed feed' twins →
    Lockstep parser parser' post before feed feed' twins

/-! ## One after the other -/

theorem settled_right {used : List Twin}
    (h : Settled (used.map fun twin => twin.left.symbol)) :
    Settled ((used.map Twin.right).map Lexeme.symbol) := by
  intro symbol hlast
  rw [List.map_map, List.getLast?_map, Option.mem_def, Option.map_eq_some_iff] at hlast
  obtain ⟨twin, hlast, rfl⟩ := hlast
  have hleft : twin.left.token.wantsBy = false := by
    refine h twin.left.symbol ?_
    rw [List.getLast?_map, hlast]
    rfl
  rw [← hleft]
  exact congrArg Token.wantsBy twin.right_token

omit [Feed τ] [LawfulFeed τ] in
theorem Stops.bind {first : Parser σ α} {first' : Parser τ α} {before : Select} {feed : σ}
    {feed' : τ} {twins : List Twin} (h : Stops first first' before feed feed' twins)
    (next : α → Parser σ β) (next' : α → Parser τ β) :
    Stops (first >>= next) (first' >>= next') before feed feed' twins := by
  obtain ⟨used, bad, rest, fault, fault', after, last, last', hsplit, hleft, hright, hrecased,
    hlast⟩ := h
  refine .intro used bad rest fault fault' after last last' hsplit ?_ ?_ hrecased hlast
  · rw [bind_apply, hleft]
  · rw [bind_apply, hright]

omit [Feed τ] [LawfulFeed τ] in
/-- The two runs of two parsers in turn.  The second need only be known on what the
first leaves. -/
theorem Lockstep.bind {first : Parser σ α} {first' : Parser τ α} {following : α → Parser σ β}
    {following' : α → Parser τ β} {post : Post σ τ α} {post' : Post σ τ β} {before : Select}
    {feed : σ} {feed' : τ} {twins : List Twin}
    (hfirst : Lockstep first first' post before feed feed' twins)
    (hnext : ∀ result after next next' rest, first ⟨feed, before⟩ = (.ok result, ⟨next, after⟩) →
      post result next next' rest →
      Lockstep (following result) (following' result) post' after next next' rest) :
    Lockstep (first >>= following) (first' >>= following') post' before feed feed' twins := by
  rcases hfirst with
    ⟨used, rest, result, after, next, next', rfl, hsettled, hleft, hright, hpost⟩ | hstops
  · -- What the first has used is settled, so blame does not reach back into it.
    have hsettled' : Settled ((used.map Twin.left).map Lexeme.symbol) := by
      rw [List.map_map]
      exact hsettled
    rcases hnext result after next next' rest hleft hpost with
      ⟨more, rest', result', after', last, last', rfl, hmore, hleft', hright', hpost'⟩ |
      ⟨more, bad, rest', fault, fault', after', last, last', rfl, hleft', hright', hrecased, hlast⟩
    · left
      refine .intro (used ++ more) rest' result' after' last last' (List.append_assoc ..).symm ?_
        ?_ ?_ hpost'
      · rw [List.map_append]
        exact hsettled.append hmore
      · rw [bind_apply, hleft]
        exact hleft'
      · rw [bind_apply, hright]
        exact hright'
    · right
      refine .intro (used ++ more) bad rest' fault fault' after' last last'
        (List.append_assoc ..).symm ?_ ?_ ?_ hlast
      · rw [bind_apply, hleft, List.map_append, blame_append hsettled']
        exact hleft'
      · rw [bind_apply, hright, List.map_append, blame_append (settled_right hsettled)]
        exact hright'
      · simp only [List.append_assoc, List.map_append] at hrecased ⊢
        refine hrecased.append_left ?_
        rw [List.length_map, List.length_map]
  · exact .inr (hstops.bind following following')

theorem InStep.bind {first : Parser σ α} {first' : Parser τ α} {following : α → Parser σ β}
    {following' : α → Parser τ β} {post : Post σ τ β} (hfirst : InStep first first' goesOn)
    (hnext : ∀ result, InStep (following result) (following' result) post) :
    InStep (first >>= following) (first' >>= following') post := by
  intro before feed feed' twins hoffered
  refine (hfirst before feed feed' twins hoffered).bind ?_
  intro result after next next' rest _ hoffered'
  exact hnext result after next next' rest hoffered'

/-! ## Parsers that leave the feed alone -/

theorem inStep_of_still {parser : Parser σ α} {parser' : Parser τ α} {post : Post σ τ α}
    (result : α) (change : Select → Select)
    (h : ∀ feed before, parser ⟨feed, before⟩ = (.ok result, ⟨feed, change before⟩))
    (h' : ∀ feed before, parser' ⟨feed, before⟩ = (.ok result, ⟨feed, change before⟩))
    (hpost : ∀ next next' rest, Offered next next' rest → post result next next' rest) :
    InStep parser parser' post := by
  intro before feed feed' twins hoffered
  exact .inl (.intro [] twins result (change before) feed feed' rfl settled_nil
    (h feed before) (h' feed' before) (hpost _ _ _ hoffered))

theorem inStep_pure (result : α) :
    InStep (pure result) (pure result) (goesOn : Post σ τ α) :=
  inStep_of_still result id (fun _ _ => rfl) (fun _ _ => rfl) fun _ _ _ hoffered => hoffered

theorem inStep_update (change : Select → Select) :
    InStep (update change) (update change) (goesOn : Post σ τ Unit) :=
  inStep_of_still () change (fun _ _ => rfl) (fun _ _ => rfl) fun _ _ _ hoffered => hoffered

omit [Feed τ] [LawfulFeed τ] in
/-- Both runs see the same statement. -/
theorem lockstep_statement {following : Select → Parser σ β} {following' : Select → Parser τ β}
    {post : Post σ τ β} {before : Select} {feed : σ} {feed' : τ} {twins : List Twin}
    (h : Lockstep (following before) (following' before) post before feed feed' twins) :
    Lockstep (statement >>= following) (statement >>= following') post before feed feed'
      twins := by
  rcases h with
    ⟨used, rest, result, after, next, next', hsplit, hsettled, hleft, hright, hpost⟩ |
    ⟨used, bad, rest, fault, fault', after, next, next', hsplit, hleft, hright, hrecased, hnext⟩
  · exact .inl (.intro used rest result after next next' hsplit hsettled hleft hright hpost)
  · exact .inr (.intro used bad rest fault fault' after next next' hsplit hleft hright hrecased
      hnext)

/-! ## Single lexemes -/

theorem Offered.exists_cons {feed : σ} {feed' : τ} {twins : List Twin}
    (h : Offered feed feed' twins) : ∃ twin rest, twins = twin :: rest := by
  obtain ⟨symbol, rest, hcons⟩ := h.ended.exists_cons
  obtain ⟨twin, others, htwins, -, -⟩ := List.map_eq_cons_iff.mp hcons
  exact ⟨twin, others, htwins⟩

section Head

variable {feed : σ} {feed' : τ} {twin : Twin} {rest : List Twin}

theorem Offered.scan_left (h : Offered feed feed' (twin :: rest)) :
    (Feed.scan feed).1 = twin.left :=
  LawfulFeed.scan_eq h.left

theorem Offered.scan_right (h : Offered feed feed' (twin :: rest)) :
    (Feed.scan feed').1 = twin.right :=
  LawfulFeed.scan_eq h.right

/-- A twin that does not end a statement can be passed. -/
theorem Offered.scan (h : Offered feed feed' (twin :: rest))
    (htwin : twin.token.isTerminal = false) :
    Offered (Feed.scan feed).2 (Feed.scan feed').2 rest :=
  ⟨h.ended.tail htwin, LawfulFeed.offers_scan h.left, LawfulFeed.offers_scan h.right⟩

theorem Offered.unscan (h : Offered feed feed' (twin :: rest)) :
    Offered (Feed.unscan (Feed.scan feed).2) (Feed.unscan (Feed.scan feed').2) (twin :: rest) :=
  ⟨h.ended, LawfulFeed.offers_unscan h.left, LawfulFeed.offers_unscan h.right⟩

/-- A feed that has handed out a twin is in order. -/
theorem Offered.scan_nil (h : Offered feed feed' (twin :: rest)) :
    LawfulFeed.Offers (Feed.scan feed).2 [] :=
  LawfulFeed.offers_nil (LawfulFeed.offers_scan h.left)

/-- A feed that has taken a twin back is in order. -/
theorem Offered.unscan_nil (h : Offered feed feed' (twin :: rest)) :
    LawfulFeed.Offers (Feed.unscan (Feed.scan feed).2) [] :=
  LawfulFeed.offers_nil (LawfulFeed.offers_unscan h.left)

end Head

/-- What a form makes of the two sides of a twin: the same, or faults that quote
them. -/
inductive Judged (form : Lexeme → Except Fault α) (twin : Twin) : Prop
  | accepted (result : α) (left : form twin.left = .ok result)
      (right : form twin.right = .ok result) (inner : twin.token.isTerminal = false)
      (settled : twin.token.wantsBy = false)
  | refused (fault fault' : Fault) (left : form twin.left = .error fault)
      (right : form twin.right = .error fault')
      (recased : Fault.Recased [twin.left] [twin.right] fault fault')

theorem inStep_take {form : Lexeme → Except Fault α} (hform : ∀ twin, Judged form twin) :
    InStep (take form) (take form) (goesOn : Post σ τ α) := by
  intro before feed feed' twins hoffered
  obtain ⟨twin, rest, rfl⟩ := hoffered.exists_cons
  rcases hform twin with
    ⟨result, hleft, hright, hinner, hwants⟩ | ⟨fault, fault', hleft, hright, hrecased⟩
  · left
    refine .intro [twin] rest result before _ _ rfl (settled_singleton hwants) ?_ ?_
      (hoffered.scan hinner)
    · rw [take_apply, hoffered.scan_left, hleft]
    · rw [take_apply, hoffered.scan_right, hright]
  · right
    refine .intro [] twin rest fault fault' before (Feed.scan feed).2 (Feed.scan feed').2 rfl ?_ ?_
      hrecased hoffered.scan_nil
    · rw [take_apply, hoffered.scan_left, hleft]
      rfl
    · rw [take_apply, hoffered.scan_right, hright]
      rfl

theorem inStep_take? {form : Token → Option α}
    (hinner : ∀ (symbol : Symbol) value, form symbol.token = some value →
      symbol.Inner ∧ symbol.token.wantsBy = false) :
    InStep (take? form) (take? form) (goesOn : Post σ τ (Option α)) := by
  intro before feed feed' twins hoffered
  obtain ⟨twin, rest, rfl⟩ := hoffered.exists_cons
  have hright : form twin.right.token = form twin.left.token := congrArg form twin.right_token
  left
  cases hvalue : form twin.left.token with
  | some value =>
      obtain ⟨hsymbol, hwants⟩ := hinner twin.left.symbol value hvalue
      refine .intro [twin] rest (some value) before _ _ rfl (settled_singleton hwants) ?_ ?_
        (hoffered.scan hsymbol.2)
      · rw [take?_apply, hoffered.scan_left, hvalue]
      · rw [take?_apply, hoffered.scan_right, hright, hvalue]
  | none =>
      refine .intro [] (twin :: rest) none before _ _ rfl settled_nil ?_ ?_ hoffered.unscan
      · rw [take?_apply, hoffered.scan_left, hvalue]
      · rw [take?_apply, hoffered.scan_right, hright, hvalue]

/-! ## Repetition -/

theorem lockstep_chain {item : Parser σ α} {item' : Parser τ α} {form : Token → Option β}
    (hitem : item.Eats) (hitem' : item'.Eats) (hstep : InStep item item' goesOn)
    (hinner : ∀ (symbol : Symbol) value, form symbol.token = some value →
      symbol.Inner ∧ symbol.token.wantsBy = false) (before : Select) (feed : σ) (feed' : τ)
    (twins : List Twin) (hoffered : Offered feed feed' twins) :
    Lockstep (chain item (take? form) hitem (steady_take? form))
      (chain item' (take? form) hitem' (steady_take? form)) goesOn before feed feed' twins := by
  rw [chain_eq_bind, chain_eq_bind]
  refine (hstep before feed feed' twins hoffered).bind
    fun head between next next' rest hrun hrest => ?_
  refine (inStep_take? hinner between next next' rest hrest).bind
    fun found later last last' others hrun' hothers => ?_
  cases found with
  | none => exact inStep_pure _ later last last' others hothers
  | some link =>
      -- The item ate something and the separator gave nothing back.
      have hsmaller : Feed.size last < Feed.size feed :=
        Nat.lt_of_le_of_lt (steady_take? form _ _ _ hrun') (hitem _ _ _ hrun)
      refine (lockstep_chain hitem hitem' hstep hinner later last last' others hothers).bind ?_
      intro more final _ _ _ _ hfinal
      exact inStep_pure _ final _ _ _ hfinal
termination_by Feed.size feed

theorem inStep_chain {item : Parser σ α} {item' : Parser τ α} {form : Token → Option β}
    (hitem : item.Eats) (hitem' : item'.Eats) (hstep : InStep item item' goesOn)
    (hinner : ∀ (symbol : Symbol) value, form symbol.token = some value →
      symbol.Inner ∧ symbol.token.wantsBy = false) :
    InStep (chain item (take? form) hitem (steady_take? form))
      (chain item' (take? form) hitem' (steady_take? form)) goesOn :=
  lockstep_chain hitem hitem' hstep hinner

end Parser

end SelectPlan
