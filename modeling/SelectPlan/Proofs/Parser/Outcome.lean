import SelectPlan.Parser.Basic
import SelectPlan.Proofs.Parser.Offer

/-!
# Outcomes of parsers

What a parser does is stated on the symbols ahead of it, whatever feed they come
from.  `Reads` says which symbols it takes, what it makes of them, and which
symbols it has to see behind them.  `Rejects` says at which symbol it fails; the
error is then determined by that symbol and those before it.

Both compose along the binds of a parser.  The place of an error composes with
them as long as no parser stops between `GROUP` or `ORDER` and the `BY` that has
to follow (`Settled`).
-/

namespace SelectPlan

/-- The keywords that have to be followed by `BY`. -/
def Token.wantsBy : Token → Bool
  | keyword .GROUP | keyword .ORDER => true
  | _ => false

/-- The place that an error is about if a lexeme is refused after those passed:
its own, or where `BY` is missing, the one that starts with the keyword in
front. -/
def blame (passed : List Lexeme) (lexeme : Lexeme) : Span :=
  match passed.getLast? with
  | some previous =>
    if previous.token.wantsBy then previous.span.merge lexeme.span else lexeme.span
  | none => lexeme.span

/-- Symbols that do not end in a keyword that has to be followed by `BY`. -/
def Settled (symbols : List Symbol) : Prop :=
  ∀ symbol ∈ symbols.getLast?, symbol.token.wantsBy = false

theorem settled_nil : Settled [] := by
  simp [Settled]

theorem settled_singleton {symbol : Symbol} (h : symbol.token.wantsBy = false) :
    Settled [symbol] := by
  simpa [Settled] using h

theorem Settled.append {front back : List Symbol} (hfront : Settled front) (hback : Settled back) :
    Settled (front ++ back) := by
  cases back with
  | nil => rwa [List.append_nil]
  | cons symbol rest =>
      rw [Settled, List.getLast?_append, List.getLast?_cons, Option.some_or, ← List.getLast?_cons]
      exact hback

theorem blame_append {front : List Lexeme} (hfront : Settled (front.map Lexeme.symbol))
    (back : List Lexeme) (lexeme : Lexeme) : blame (front ++ back) lexeme = blame back lexeme := by
  cases back with
  | nil =>
      rw [List.append_nil, blame]
      split
      · rename_i previous hprevious
        have hlast : previous.symbol ∈ (front.map Lexeme.symbol).getLast? := by
          simp [List.getLast?_map, hprevious]
        have hwants : previous.token.wantsBy = false := hfront _ hlast
        simp [hwants, blame]
      · rfl
  | cons next rest =>
      rw [blame, List.getLast?_append, List.getLast?_cons, Option.some_or, ← List.getLast?_cons]
      rfl

/-- A symbol that is refused after `GROUP` or `ORDER` is not the `BY` that has to
follow there. -/
def Unpaired (used : List Symbol) (bad : Symbol) : Prop :=
  ∀ symbol ∈ used.getLast?, symbol.token.wantsBy = true → bad.token ≠ .keyword .BY

theorem unpaired_nil (bad : Symbol) : Unpaired [] bad := by
  simp [Unpaired]

theorem Settled.unpaired_append {front back : List Symbol} {bad : Symbol} (hfront : Settled front)
    (hback : Unpaired back bad) : Unpaired (front ++ back) bad := by
  cases back with
  | nil =>
      intro symbol hlast hwants
      rw [List.append_nil] at hlast
      rw [hfront symbol hlast] at hwants
      cases hwants
  | cons symbol rest =>
      rw [Unpaired, List.getLast?_append, List.getLast?_cons, Option.some_or, ← List.getLast?_cons]
      exact hback

/-! ## Symbols inside and at the end of statements -/

/-- A symbol that may stand inside a statement. -/
def Symbol.Inner (symbol : Symbol) : Prop :=
  symbol.token ≠ .illegal ∧ symbol.token.isTerminal = false

/-- A symbol that may be written so as to be read again. -/
def Symbol.Writable (symbol : Symbol) : Prop :=
  symbol.Spelled ∧ symbol.token ≠ .illegal

/-- Symbols of which one may end a statement, so that there is always a symbol to
look at. -/
def Ended (symbols : List Symbol) : Prop :=
  ∃ symbol ∈ symbols, symbol.token.isTerminal = true

theorem Ended.exists_cons {symbols : List Symbol} (h : Ended symbols) :
    ∃ symbol rest, symbols = symbol :: rest := by
  obtain ⟨symbol, hmem, -⟩ := h
  exact List.exists_cons_of_ne_nil (List.ne_nil_of_mem hmem)

theorem Ended.of_append {front back : List Symbol} (h : Ended (front ++ back))
    (hfront : ∀ symbol ∈ front, symbol.Inner) : Ended back := by
  obtain ⟨symbol, hmem, hterminal⟩ := h
  rcases List.mem_append.mp hmem with hmem | hmem
  · exact absurd hterminal (by simp [(hfront symbol hmem).2])
  · exact ⟨symbol, hmem, hterminal⟩

theorem Ended.tail {symbol : Symbol} {rest : List Symbol} (h : Ended (symbol :: rest))
    (hsymbol : symbol.token.isTerminal = false) : Ended rest := by
  obtain ⟨other, hmem, hterminal⟩ := h
  rcases List.mem_cons.mp hmem with rfl | hmem
  · exact absurd hterminal (by simp [hsymbol])
  · exact ⟨other, hmem, hterminal⟩

/-- The lexemes of which symbols are taken apart. -/
theorem exists_lexemes_of_split {lexemes : List Lexeme} {used rest : List Symbol} {next : Symbol}
    (h : lexemes.map Lexeme.symbol = used ++ next :: rest) :
    ∃ passed lexeme others, lexemes = passed ++ lexeme :: others ∧
      passed.map Lexeme.symbol = used ∧ lexeme.symbol = next ∧
        others.map Lexeme.symbol = rest := by
  obtain ⟨passed, others, rfl, hpassed, hothers⟩ := List.map_eq_append_iff.mp h
  obtain ⟨lexeme, rest, rfl, hlexeme, hrest⟩ := List.map_eq_cons_iff.mp hothers
  exact ⟨passed, lexeme, rest, rfl, hpassed, hlexeme, hrest⟩

namespace Parser

variable {σ α β : Type} [Feed σ] [LawfulFeed σ]

/-! ## Reading and rejecting -/

/-- The parser turns the symbols `used` into a result, provided that the symbols
`ahead` come next. -/
def Reads (parser : Parser σ α) (used ahead : List Symbol) (before : Select) (result : α)
    (after : Select) : Prop :=
  ∀ feed (passed coming : List Lexeme), passed.map Lexeme.symbol = used →
    ahead <+: coming.map Lexeme.symbol → LawfulFeed.Offers feed (passed ++ coming) →
    ∃ feed', parser ⟨feed, before⟩ = (.ok result, ⟨feed', after⟩) ∧ LawfulFeed.Offers feed' coming

/-- The parser fails at the symbol `bad` after the symbols `used`. -/
def Rejects (parser : Parser σ α) (used : List Symbol) (bad : Symbol) (before : Select)
    (fault : Fault) (after : Select) : Prop :=
  ∀ feed (passed : List Lexeme) (lexeme : Lexeme), passed.map Lexeme.symbol = used →
    lexeme.symbol = bad → LawfulFeed.Offers feed (passed ++ [lexeme]) →
    ∃ feed', parser ⟨feed, before⟩ = (.error ⟨fault, blame passed lexeme⟩, ⟨feed', after⟩)

theorem Reads.extend {parser : Parser σ α} {used ahead further : List Symbol}
    {before after : Select} {result : α} (h : Reads parser used ahead before result after)
    (hfurther : ahead <+: further) : Reads parser used further before result after :=
  fun feed passed coming hpassed hcoming => h feed passed coming hpassed (hfurther.trans hcoming)

theorem Reads.bind {first : Parser σ α} {next : α → Parser σ β} {used more ahead : List Symbol}
    {before between after : Select} {middle : α} {result : β}
    (hfirst : Reads first used (more ++ ahead) before middle between)
    (hnext : Reads (next middle) more ahead between result after) :
    Reads (first >>= next) (used ++ more) ahead before result after := by
  intro feed passed coming hpassed hcoming hoffers
  obtain ⟨front, back, rfl, hfront, hback⟩ := List.map_eq_append_iff.mp hpassed
  rw [List.append_assoc] at hoffers
  have hprefix : more ++ ahead <+: (back ++ coming).map Lexeme.symbol := by
    rw [List.map_append, hback]
    exact (List.prefix_append_right_inj more).mpr hcoming
  obtain ⟨feed₁, hrun₁, hoffers₁⟩ := hfirst feed front (back ++ coming) hfront hprefix hoffers
  obtain ⟨feed₂, hrun₂, hoffers₂⟩ := hnext feed₁ back coming hback hcoming hoffers₁
  refine ⟨feed₂, ?_, hoffers₂⟩
  rw [bind_apply, hrun₁]
  exact hrun₂

theorem Rejects.bind {first : Parser σ α} {used : List Symbol} {bad : Symbol}
    {before after : Select} {fault : Fault} (h : Rejects first used bad before fault after)
    (next : α → Parser σ β) : Rejects (first >>= next) used bad before fault after := by
  intro feed passed lexeme hpassed hlexeme hoffers
  obtain ⟨feed', hrun⟩ := h feed passed lexeme hpassed hlexeme hoffers
  refine ⟨feed', ?_⟩
  rw [bind_apply, hrun]

theorem Reads.bind_rejects {first : Parser σ α} {next : α → Parser σ β} {used more : List Symbol}
    {bad : Symbol} {before between after : Select} {middle : α} {fault : Fault}
    (hfirst : Reads first used (more ++ [bad]) before middle between) (hused : Settled used)
    (hnext : Rejects (next middle) more bad between fault after) :
    Rejects (first >>= next) (used ++ more) bad before fault after := by
  intro feed passed lexeme hpassed hlexeme hoffers
  obtain ⟨front, back, rfl, hfront, hback⟩ := List.map_eq_append_iff.mp hpassed
  rw [List.append_assoc] at hoffers
  have hprefix : more ++ [bad] <+: (back ++ [lexeme]).map Lexeme.symbol := by
    rw [List.map_append, List.map_singleton]
    exact hback ▸ hlexeme ▸ List.prefix_rfl
  obtain ⟨feed₁, hrun₁, hoffers₁⟩ := hfirst feed front (back ++ [lexeme]) hfront hprefix hoffers
  obtain ⟨feed₂, hrun₂⟩ := hnext feed₁ back lexeme hback hlexeme hoffers₁
  refine ⟨feed₂, ?_⟩
  rw [bind_apply, hrun₁, blame_append (hfront ▸ hused)]
  exact hrun₂

/-- A parser that agrees with another in a given statement reads and rejects
alike. -/
theorem Reads.congr {parser other : Parser σ α} {used ahead : List Symbol}
    {before after : Select} {result : α} (h : Reads other used ahead before result after)
    (hsame : ∀ feed, parser ⟨feed, before⟩ = other ⟨feed, before⟩) :
    Reads parser used ahead before result after := by
  intro feed passed coming hpassed hcoming hoffers
  rw [hsame]
  exact h feed passed coming hpassed hcoming hoffers

theorem Rejects.congr {parser other : Parser σ α} {used : List Symbol} {bad : Symbol}
    {before after : Select} {fault : Fault} (h : Rejects other used bad before fault after)
    (hsame : ∀ feed, parser ⟨feed, before⟩ = other ⟨feed, before⟩) :
    Rejects parser used bad before fault after := by
  intro feed passed lexeme hpassed hlexeme hoffers
  rw [hsame]
  exact h feed passed lexeme hpassed hlexeme hoffers

theorem reads_pure (result : α) (ahead : List Symbol) (before : Select) :
    Reads (pure result : Parser σ α) [] ahead before result before := by
  intro feed passed coming hpassed hcoming hoffers
  rw [List.map_eq_nil_iff] at hpassed
  subst hpassed
  exact ⟨feed, rfl, hoffers⟩

theorem reads_update (change : Select → Select) (ahead : List Symbol) (before : Select) :
    Reads (update change : Parser σ Unit) [] ahead before () (change before) := by
  intro feed passed coming hpassed hcoming hoffers
  rw [List.map_eq_nil_iff] at hpassed
  subst hpassed
  exact ⟨feed, rfl, hoffers⟩

/-! ## Single lexemes -/

/-- The form of a lexeme does not depend on its place. -/
def Placeless (form : Lexeme → Except Fault α) : Prop :=
  ∀ lexeme other : Lexeme, lexeme.symbol = other.symbol → form lexeme = form other

/-- A symbol as a lexeme at no particular place. -/
def lexemeOf (symbol : Symbol) : Lexeme :=
  ⟨symbol.token, symbol.text, ⟨0, 0⟩⟩

theorem map_symbol_lexemeOf (symbols : List Symbol) :
    (symbols.map lexemeOf).map Lexeme.symbol = symbols := by
  rw [List.map_map]
  exact List.map_id symbols

/-- Two readings from the start of the same symbols are one run: it leaves one statement,
and one list to go on with. -/
theorem Reads.same_run {parser : Parser Listing α} {before after after' : Select}
    {used used' ahead ahead' rest rest' : List Symbol} {result result' : α}
    (h : Reads parser used ahead before result after)
    (h' : Reads parser used' ahead' before result' after')
    (hsame : used ++ (ahead ++ rest) = used' ++ (ahead' ++ rest')) :
    after = after' ∧ ∃ feed : Listing, LawfulFeed.Offers feed ((ahead ++ rest).map lexemeOf) ∧
      LawfulFeed.Offers feed ((ahead' ++ rest').map lexemeOf) := by
  have hahead : ∀ ahead rest : List Symbol,
      ahead <+: ((ahead ++ rest).map lexemeOf).map Lexeme.symbol := by
    intro ahead rest
    rw [map_symbol_lexemeOf]
    exact List.prefix_append ahead rest
  obtain ⟨feed, hoffers⟩ : ∃ feed : Listing,
      LawfulFeed.Offers feed ((used ++ (ahead ++ rest)).map lexemeOf) := ⟨_, offers_listing _⟩
  have hoffers' := hoffers
  rw [List.map_append] at hoffers
  rw [hsame, List.map_append] at hoffers'
  obtain ⟨left, hrun, hcoming⟩ :=
    h feed _ _ (map_symbol_lexemeOf used) (hahead ahead rest) hoffers
  obtain ⟨_, hrun', hcoming'⟩ :=
    h' feed _ _ (map_symbol_lexemeOf used') (hahead ahead' rest') hoffers'
  have hboth := hrun.symm.trans hrun'
  rw [Prod.mk.injEq, Progress.mk.injEq] at hboth
  obtain ⟨-, rfl, rfl⟩ := hboth
  exact ⟨rfl, left, hcoming, hcoming'⟩

theorem reads_take {form : Lexeme → Except Fault α} (hform : Placeless form) {symbol : Symbol}
    {result : α} (h : form (lexemeOf symbol) = .ok result) (ahead : List Symbol)
    (before : Select) : Reads (take form : Parser σ α) [symbol] ahead before result before := by
  intro feed passed coming hpassed hcoming hoffers
  obtain ⟨lexeme, rfl, hlexeme⟩ := List.map_eq_singleton_iff.mp hpassed
  rw [List.singleton_append] at hoffers
  refine ⟨_, ?_, LawfulFeed.offers_scan hoffers⟩
  rw [take_apply, LawfulFeed.scan_eq hoffers, hform lexeme (lexemeOf symbol) hlexeme, h]

theorem rejects_take {form : Lexeme → Except Fault α} (hform : Placeless form) {symbol : Symbol}
    {fault : Fault} (h : form (lexemeOf symbol) = .error fault) (before : Select) :
    Rejects (take form : Parser σ α) [] symbol before fault before := by
  intro feed passed lexeme hpassed hlexeme hoffers
  rw [List.map_eq_nil_iff] at hpassed
  subst hpassed
  rw [List.nil_append] at hoffers
  refine ⟨(Feed.scan feed).2, ?_⟩
  rw [take_apply, LawfulFeed.scan_eq hoffers, hform lexeme (lexemeOf symbol) hlexeme, h]
  rfl

theorem reads_take?_some {form : Token → Option α} {symbol : Symbol} {result : α}
    (h : form symbol.token = some result) (ahead : List Symbol) (before : Select) :
    Reads (take? form : Parser σ (Option α)) [symbol] ahead before (some result) before := by
  intro feed passed coming hpassed hcoming hoffers
  obtain ⟨lexeme, rfl, hlexeme⟩ := List.map_eq_singleton_iff.mp hpassed
  rw [List.singleton_append] at hoffers
  refine ⟨_, ?_, LawfulFeed.offers_scan hoffers⟩
  have htoken : lexeme.token = symbol.token := congrArg Symbol.token hlexeme
  rw [take?_apply, LawfulFeed.scan_eq hoffers, htoken, h]

/-- The head of the lexemes to come, if a symbol is known to be their first. -/
theorem exists_of_singleton_prefix {symbol : Symbol} {coming : List Lexeme}
    (h : [symbol] <+: coming.map Lexeme.symbol) :
    ∃ lexeme rest, coming = lexeme :: rest ∧ lexeme.symbol = symbol := by
  cases coming with
  | nil => simp at h
  | cons lexeme rest =>
      rw [List.map_cons, List.cons_prefix_cons] at h
      exact ⟨lexeme, rest, rfl, h.1.symm⟩

theorem reads_take?_none {form : Token → Option α} {next : Symbol} (h : form next.token = none)
    (before : Select) :
    Reads (take? form : Parser σ (Option α)) [] [next] before none before := by
  intro feed passed coming hpassed hcoming hoffers
  rw [List.map_eq_nil_iff] at hpassed
  subst hpassed
  obtain ⟨lexeme, rest, rfl, hlexeme⟩ := exists_of_singleton_prefix hcoming
  rw [List.nil_append] at hoffers
  refine ⟨_, ?_, LawfulFeed.offers_unscan hoffers⟩
  have htoken : lexeme.token = next.token := congrArg Symbol.token hlexeme
  rw [take?_apply, LawfulFeed.scan_eq hoffers, htoken, h]

end Parser

end SelectPlan
