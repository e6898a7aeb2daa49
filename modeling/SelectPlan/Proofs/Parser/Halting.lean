import SelectPlan.Proofs.Parser.Keeps

/-!
# Where parsers halt

`Fate` says at which symbol a parser is rejected, and leaves open which statement it has
by then.  Here that statement is described by the symbols that were read: `broken` relates
the statement before, the symbols in front of the rejected one and the statement left.

* `HaltsAt`: if the parser fails on the lexemes of a feed, it is rejected at one of them,
  and what it leaves is broken off as described.
* `Fate.halts`: the fate of a parser gives the place, and the run gives the statement.
* `HaltsAt.bind`, `haltsAt_chain`: descriptions compose as the parsers do.
-/

namespace SelectPlan.Parser

variable {σ α β : Type} [Feed σ] [LawfulFeed σ]

/-- The parser is rejected at one of the lexemes, where its phrase can still be completed,
and leaves a statement that is broken off as described. -/
inductive Halted (parser : Parser σ α) (phrase : Phrase α)
    (broken : Select → List Symbol → Select → Prop) (before : Select) (lexemes : List Lexeme)
    (after : Select) : Prop
  | intro (passed : List Lexeme) (bad : Lexeme) (rest : List Lexeme) (fault : Fault)
      (split : lexemes = passed ++ bad :: rest)
      (inner : ∀ symbol ∈ passed.map Lexeme.symbol, symbol.Inner)
      (viable : Viable phrase before (passed.map Lexeme.symbol))
      (run : Rejects parser (passed.map Lexeme.symbol) bad.symbol before fault after)
      (broken : broken before (passed.map Lexeme.symbol) after)

/-- If the parser fails, it has halted at one of the lexemes. -/
def HaltsAt (parser : Parser σ α) (phrase : Phrase α)
    (broken : Select → List Symbol → Select → Prop) (before : Select) (feed : σ)
    (lexemes : List Lexeme) : Prop :=
  ∀ error after, parser ⟨feed, before⟩ = (.error error, after) →
    Halted parser phrase broken before lexemes after.statement

variable {parser : Parser σ α} {phrase : Phrase α} {broken : Select → List Symbol → Select → Prop}
  {before : Select} {feed : σ} {lexemes : List Lexeme}

theorem haltsAt_of_ok {result : α} {after : Progress σ}
    (h : parser ⟨feed, before⟩ = (.ok result, after)) :
    HaltsAt parser phrase broken before feed lexemes := by
  intro error failed hrun
  rw [h] at hrun
  cases hrun

/-- A rejection on the lexemes of a feed is how the parser runs there. -/
theorem Rejects.run_eq {passed rest : List Lexeme} {bad : Lexeme} {fault : Fault} {after : Select}
    (h : Rejects parser (passed.map Lexeme.symbol) bad.symbol before fault after)
    (hoffers : LawfulFeed.Offers feed (passed ++ bad :: rest)) :
    ∃ feed', parser ⟨feed, before⟩ = (.error ⟨fault, blame passed bad⟩, ⟨feed', after⟩) := by
  rw [List.append_cons] at hoffers
  exact h feed passed bad rfl rfl (LawfulFeed.offers_prefix hoffers)

/-- The fate of a parser says where it halts; what it leaves there is to be described. -/
theorem Fate.halts (h : Fate parser phrase before (lexemes.map Lexeme.symbol))
    (hoffers : LawfulFeed.Offers feed lexemes)
    (hbroken : ∀ (passed : List Lexeme) (bad : Lexeme) (rest : List Lexeme) fault error feed' after,
      lexemes = passed ++ bad :: rest → (∀ symbol ∈ passed.map Lexeme.symbol, symbol.Inner) →
      Viable phrase before (passed.map Lexeme.symbol) →
      Rejects parser (passed.map Lexeme.symbol) bad.symbol before fault after →
      parser ⟨feed, before⟩ = (.error error, ⟨feed', after⟩) →
      broken before (passed.map Lexeme.symbol) after) :
    HaltsAt parser phrase broken before feed lexemes := by
  intro error after hrun
  -- Only the second fate is left: where the parser reads its phrase it does not halt.
  rcases h with
    ⟨used, next, others, result, between, hsplit, -, -, -, hreads⟩ |
    ⟨used, bad, others, fault, final, hsplit, hinner, hviable, -, hrejects⟩
  · obtain ⟨passed, lexeme, rest, rfl, hpassed, hlexeme, -⟩ := exists_lexemes_of_split hsplit
    obtain ⟨feed', hok, -⟩ := hreads feed passed (lexeme :: rest) hpassed
      (by rw [List.map_cons, hlexeme]; exact List.prefix_append [next] _) hoffers
    rw [hok] at hrun
    cases hrun
  · obtain ⟨passed, lexeme, rest, hlexemes, rfl, rfl, -⟩ := exists_lexemes_of_split hsplit
    obtain ⟨feed', hfail⟩ := hrejects.run_eq (hlexemes ▸ hoffers)
    have hafter : after = ⟨feed', final⟩ := by
      rw [hfail] at hrun
      exact (Prod.mk.inj hrun).2.symm
    subst hafter
    exact .intro passed lexeme rest fault hlexemes hinner hviable hrejects
      (hbroken passed lexeme rest fault error feed' final hlexemes hinner hviable hrejects hrun)

/-- A lexeme that may be left alone is never a fault. -/
theorem take?_never_halts (form : Token → Option α) {phrase : Phrase (Option α)} :
    HaltsAt (take? form) phrase (fun _ _ _ => False) before feed lexemes := by
  intro error after hrun
  rw [take?_apply] at hrun
  cases hform : form (Feed.scan feed).1.token <;> rw [hform] at hrun <;> cases hrun

theorem HaltsAt.imp {broken' : Select → List Symbol → Select → Prop}
    (h : HaltsAt parser phrase broken before feed lexemes)
    (himp : ∀ used after, broken before used after → broken' before used after) :
    HaltsAt parser phrase broken' before feed lexemes := by
  intro error after hrun
  obtain ⟨passed, bad, rest, fault, hsplit, hinner, hviable, hrejects, hbroken⟩ :=
    h error after hrun
  exact .intro passed bad rest fault hsplit hinner hviable hrejects (himp _ _ hbroken)

theorem HaltsAt.congr {other : Phrase α} (h : HaltsAt parser phrase broken before feed lexemes)
    (hsame : ∀ before used result after,
      phrase before used result after ↔ other before used result after) :
    HaltsAt parser other broken before feed lexemes := by
  have heq : phrase = other := by
    funext before used result after
    exact propext (hsame before used result after)
  exact heq ▸ h

/-! ## One after the other -/

/-- Two phrases in turn are broken off in the first of them, or in the second after all of
the first. -/
def brokenIn (phrase : Phrase α) (broken : Select → List Symbol → Select → Prop)
    (broken' : α → Select → List Symbol → Select → Prop) (before : Select) (used : List Symbol)
    (after : Select) : Prop :=
  broken before used after ∨ ∃ front back middle between, used = front ++ back ∧
    phrase before front middle between ∧ broken' middle between back after

theorem HaltsAt.bind {first : Parser σ α} {next : α → Parser σ β} {following : α → Phrase β}
    (broken' : α → Select → List Symbol → Select → Prop)
    (hfate : Fate first phrase before (lexemes.map Lexeme.symbol))
    (hoffers : LawfulFeed.Offers feed lexemes)
    (hfirst : HaltsAt first phrase broken before feed lexemes)
    (hviable : ∀ middle between, Viable (following middle) between [])
    (hnext : ∀ (front : List Lexeme) lexeme rest middle between feed',
      lexemes = front ++ lexeme :: rest → (∀ symbol ∈ front.map Lexeme.symbol, symbol.Inner) →
      phrase before (front.map Lexeme.symbol) middle between →
      LawfulFeed.Offers feed' (lexeme :: rest) →
      HaltsAt (next middle) (following middle) (broken' middle) between feed' (lexeme :: rest)) :
    HaltsAt (first >>= next) (phrase.andThen following) (brokenIn phrase broken broken') before
      feed lexemes := by
  intro error after hrun
  rw [bind_apply] at hrun
  -- Either the first parser reads all of its phrase and the second one halts, or the first one
  -- halts.
  rcases hfate with
    ⟨used, symbol, others, middle, between, hsplit, hinner, hsettled, hderived, hreads⟩ |
    ⟨used, symbol, others, fault, final, hsplit, -, -, -, hrejects⟩
  · obtain ⟨front, lexeme, rest, hlexemes, rfl, rfl, -⟩ := exists_lexemes_of_split hsplit
    obtain ⟨feed', hok, hoffers'⟩ := hreads feed front (lexeme :: rest) rfl
      (List.prefix_append [_] _) (hlexemes ▸ hoffers)
    rw [hok] at hrun
    obtain ⟨passed, bad, rest', fault, hsplit', hinner', hviable', hrejects, hbroken⟩ :=
      hnext front lexeme rest middle between feed' hlexemes hinner hderived hoffers' error after
        hrun
    -- The lexeme behind the first phrase is looked at by both parsers.
    have hahead : [lexeme.symbol] <+: passed.map Lexeme.symbol ++ [bad.symbol] := by
      have hmap := congrArg (List.map Lexeme.symbol) hsplit'
      rw [List.map_cons, List.map_append, List.map_cons] at hmap
      exact singleton_prefix_of_split hmap
    refine .intro (front ++ passed) bad rest' fault ?_ ?_ ?_ ?_ ?_
    · rw [hlexemes, hsplit', List.append_assoc]
    · rw [List.map_append]
      exact List.forall_mem_append.mpr ⟨hinner, hinner'⟩
    · rw [List.map_append]
      exact .andThen_right hderived hviable'
    · rw [List.map_append]
      exact (hreads.extend hahead).bind_rejects hsettled hrejects
    · rw [List.map_append]
      exact .inr ⟨_, _, middle, between, rfl, hderived, hbroken⟩
  · obtain ⟨passed, bad, rest, hlexemes, rfl, rfl, -⟩ := exists_lexemes_of_split hsplit
    obtain ⟨feed', hfail⟩ := hrejects.run_eq (hlexemes ▸ hoffers)
    rw [hfail] at hrun
    cases hrun
    obtain ⟨passed, bad, rest, fault, hlexemes, hinner, hviable', hrejects, hbroken⟩ :=
      hfirst _ _ hfail
    exact .intro passed bad rest fault hlexemes hinner (hviable'.andThen_left hviable)
      (hrejects.bind next) (.inl hbroken)

theorem HaltsAt.map {next : α → Parser σ β} {f : α → β}
    (h : HaltsAt parser phrase broken before feed lexemes)
    (hnext : ∀ result, next result = pure (f result)) :
    HaltsAt (parser >>= next) (phrase.map f) broken before feed lexemes := by
  intro error after hrun
  rw [bind_apply] at hrun
  rcases hfirst : parser ⟨feed, before⟩ with ⟨_ | result, between⟩ <;> rw [hfirst] at hrun
  · cases hrun
    obtain ⟨passed, bad, rest, fault, hsplit, hinner, ⟨more, result, final, hwritable, hderived⟩,
      hrejects, hbroken⟩ := h _ _ hfirst
    exact .intro passed bad rest fault hsplit hinner
      ⟨more, f result, final, hwritable, result, hderived, rfl⟩ (hrejects.bind next) hbroken
  · dsimp only at hrun
    rw [hnext] at hrun
    cases hrun

/-! ## Repetition -/

/-- A chain is broken off in one of its items, with items and separators in front of
it. -/
inductive BrokenChain {α β : Type} (item : Phrase α)
    (broken : Select → List Symbol → Select → Prop) (separator : Token → Option β) :
    Select → List Symbol → Select → Prop
  | first {before used after} : broken before used after →
      BrokenChain item broken separator before used after
  | later {before used head between symbol link rest after} : item before used head between →
      separator symbol.token = some link → BrokenChain item broken separator between rest after →
      BrokenChain item broken separator before (used ++ symbol :: rest) after

/-- What is broken off behind an item: the chain that follows a separator. -/
def brokenRest (item : Phrase α) (broken : Select → List Symbol → Select → Prop)
    (separator : Token → Option β) : Option β → Select → List Symbol → Select → Prop
  | none => fun _ _ _ => False
  | some _ => BrokenChain item broken separator

/-- Where items halt as described, chains of them do. -/
theorem haltsAt_chain {item : Parser σ α} {form : Token → Option β} (heats : item.Eats)
    (hparses : Parses anyToken item phrase)
    (hinner : ∀ (symbol : Symbol) value, form symbol.token = some value →
      symbol.Inner ∧ symbol.token.wantsBy = false)
    (hitem : ∀ before (feed : σ) lexemes, Ended (lexemes.map Lexeme.symbol) →
      LawfulFeed.Offers feed lexemes → HaltsAt item phrase broken before feed lexemes)
    (before : Select) (feed : σ) (lexemes : List Lexeme)
    (hended : Ended (lexemes.map Lexeme.symbol)) (hoffers : LawfulFeed.Offers feed lexemes) :
    HaltsAt (chain item (take? form) heats (steady_take? form)) (Phrase.Chained phrase form)
      (BrokenChain phrase broken form) before feed lexemes := by
  rw [chain_eq_bind]
  refine HaltsAt.congr (HaltsAt.imp (HaltsAt.bind
    (fun _ => brokenIn (Phrase.optional form) (fun _ _ _ => False)
      (brokenRest phrase broken form)) (hparses.fate before _ hended) hoffers
    (hitem before feed lexemes hended hoffers) viable_behind_item ?_) ?_) chained_iff
  · intro front lexeme rest head between feed' hsplit hfront _ hoffers'
    have hended' := hended
    rw [hsplit, List.map_append] at hended'
    refine HaltsAt.bind (brokenRest phrase broken form)
      ((parses_take? hinner).fate between _ (hended'.of_append hfront)) hoffers'
      (take?_never_halts form) (viable_restPhrase hparses head) ?_
    rintro front' next rest' found later feed'' hsplit' hfront' ⟨hfound, rfl⟩ hoffers''
    rcases hfound with ⟨-, rfl⟩ | ⟨symbol, link, hsymbol, -, rfl⟩
    · exact haltsAt_of_ok rfl
    · -- The separator is gone, so the chain goes on with fewer lexemes.
      have hshorter : (next :: rest').length < lexemes.length := by
        obtain ⟨separator, rfl, -⟩ := List.map_eq_singleton_iff.mp hsymbol
        rw [hsplit, hsplit', List.length_append, List.length_append, List.length_singleton]
        omega
      have hended'' := hended'.of_append hfront
      rw [hsplit', List.map_append] at hended''
      exact (haltsAt_chain heats hparses hinner hitem later feed'' (next :: rest')
        (hended''.of_append hfront') hoffers'').map fun _ => rfl
  · rintro used after (hfirst | ⟨front, back, head, between, rfl, hhead, hlater⟩)
    · exact .first hfirst
    · rcases hlater with hnever | ⟨front', back', found, later, rfl, ⟨hfound, rfl⟩, hrest⟩
      · cases hnever
      · rcases hfound with ⟨rfl, rfl⟩ | ⟨symbol, link, rfl, hlink, rfl⟩
        · cases hrest
        · exact .later hhead hlink hrest
termination_by lexemes.length

end SelectPlan.Parser
