import SelectPlan.Proofs.Parser.Outcome

/-!
# Phrases

A phrase says which symbols may be turned into which result, in a given
statement and with which statement afterwards.  `Parses` ties a parser to a
phrase in both directions.

* What the phrase allows is read, unless a symbol follows that would continue
  it.
* Whatever is offered is either read as the phrase allows, or rejected at a
  symbol in front of which the phrase can still be completed.

Every combinator of parsers carries this from its parts to the whole, so it has
to be looked at lexeme by lexeme only for single lexemes (`parses_take`).
-/

namespace SelectPlan.Parser

/-- Which symbols, in which statement, give which result and statement. -/
abbrev Phrase (α : Type) : Type :=
  Select → List Symbol → α → Select → Prop

namespace Phrase

variable {α β : Type}

/-- A phrase that leaves the statement alone. -/
def still (derives : List Symbol → α → Prop) : Phrase α :=
  fun before used result after => derives used result ∧ after = before

/-- One phrase after the other. -/
def andThen (first : Phrase α) (next : α → Phrase β) : Phrase β :=
  fun before used result after => ∃ front back middle between, used = front ++ back ∧
    first before front middle between ∧ next middle between back result after

/-- The phrase of a single symbol of a certain form. -/
def single (form : Lexeme → Except Fault α) : Phrase α :=
  still fun used result => ∃ symbol, used = [symbol] ∧ form (lexemeOf symbol) = .ok result

/-- The phrase of at most one symbol of a certain form. -/
def optional (form : Token → Option α) : Phrase (Option α) :=
  still fun used result => (used = [] ∧ result = none) ∨
    ∃ symbol value, used = [symbol] ∧ form symbol.token = some value ∧ result = some value

/-- The phrase of no symbols that changes the statement. -/
def changing (change : Select → Select) : Phrase Unit :=
  fun before used _ after => used = [] ∧ after = change before

/-- `item (separator item)*`. -/
inductive Chained (item : Phrase α) (separator : Token → Option β) :
    Phrase (α × List (β × α))
  | last {before used head after} : item before used head after →
      Chained item separator before used (head, []) after
  | more {before used head between symbol link rest next others after} :
      item before used head between → separator symbol.token = some link →
      Chained item separator between rest (next, others) after →
      Chained item separator before (used ++ symbol :: rest) (head, (link, next) :: others) after

end Phrase

/-- The phrase can be completed after the symbols `used`, by symbols that may be
written. -/
def Viable {α : Type} (phrase : Phrase α) (before : Select) (used : List Symbol) : Prop :=
  ∃ more result after, (∀ symbol ∈ more, symbol.Writable) ∧
    phrase before (used ++ more) result after

variable {σ α β : Type} [Feed σ] [LawfulFeed σ]

/-- What becomes of the symbols ahead. -/
inductive Fate (parser : Parser σ α) (phrase : Phrase α) (before : Select)
    (symbols : List Symbol) : Prop
  | reads (used : List Symbol) (next : Symbol) (rest : List Symbol) (result : α) (after : Select)
      (split : symbols = used ++ next :: rest) (inner : ∀ symbol ∈ used, symbol.Inner)
      (settled : Settled used) (derived : phrase before used result after)
      (run : Reads parser used [next] before result after)
  | rejects (used : List Symbol) (bad : Symbol) (rest : List Symbol) (fault : Fault)
      (after : Select) (split : symbols = used ++ bad :: rest)
      (inner : ∀ symbol ∈ used, symbol.Inner) (viable : Viable phrase before used)
      (unpaired : Unpaired used bad) (run : Rejects parser used bad before fault after)

/-- The parser reads just what the phrase allows, as long as a token of the kind
`stops` follows it. -/
structure Parses (stops : Token → Prop) (parser : Parser σ α) (phrase : Phrase α) : Prop where
  complete : ∀ {before used result after}, phrase before used result after →
    ∀ next : Symbol, stops next.token → Reads parser used [next] before result after
  fate : ∀ before symbols, Ended symbols → Fate parser phrase before symbols

/-- Any token. -/
def anyToken : Token → Prop := fun _ => True

/-- A parser for a phrase can always be led to its end. -/
theorem Parses.viable {stops : Token → Prop} {parser : Parser σ α} {phrase : Phrase α}
    (h : Parses stops parser phrase) (before : Select) : Viable phrase before [] := by
  have hended : Ended [Symbol.ending] := ⟨Symbol.ending, List.mem_singleton_self _, rfl⟩
  rcases h.fate before _ hended with
    ⟨used, next, rest, result, after, hsplit, -, -, hderived, -⟩ |
    ⟨used, bad, rest, -, -, hsplit, -, hviable, -, -⟩
  · have hused : used = [] := by
      cases used with
      | nil => rfl
      | cons symbol used => simp at hsplit
    subst hused
    exact ⟨[], result, after, by simp, hderived⟩
  · have hused : used = [] := by
      cases used with
      | nil => rfl
      | cons symbol used => simp at hsplit
    rwa [hused] at hviable

theorem Parses.weaken {stops stops' : Token → Prop} {parser : Parser σ α} {phrase : Phrase α}
    (h : Parses stops parser phrase) (hstops : ∀ token, stops' token → stops token) :
    Parses stops' parser phrase :=
  ⟨fun hderived next hnext => h.complete hderived next (hstops _ hnext), h.fate⟩

theorem Parses.congr {stops : Token → Prop} {parser : Parser σ α} {phrase other : Phrase α}
    (h : Parses stops parser phrase)
    (hsame : ∀ before used result after,
      phrase before used result after ↔ other before used result after) :
    Parses stops parser other := by
  have heq : phrase = other := by
    funext before used result after
    exact propext (hsame before used result after)
  exact heq ▸ h

/-! ## Single lexemes -/

theorem parses_take {form : Lexeme → Except Fault α} (hform : Placeless form)
    (hinner : ∀ symbol result, form (lexemeOf symbol) = .ok result →
      symbol.Inner ∧ symbol.token.wantsBy = false)
    (hwitness : ∃ (symbol : Symbol) (result : α),
      symbol.Writable ∧ form (lexemeOf symbol) = .ok result) :
    Parses anyToken (take form : Parser σ α) (Phrase.single form) where
  complete := by
    rintro before used result after ⟨⟨symbol, rfl, hok⟩, rfl⟩ next -
    exact reads_take hform hok [next] after
  fate := by
    intro before symbols hended
    obtain ⟨symbol, rest, rfl⟩ := hended.exists_cons
    cases hok : form (lexemeOf symbol) with
    | ok result =>
        obtain ⟨hsymbol, hwants⟩ := hinner symbol result hok
        obtain ⟨next, rest, rfl⟩ := (hended.tail hsymbol.2).exists_cons
        exact .reads [symbol] next rest result before rfl (by simpa using hsymbol)
          (settled_singleton hwants) ⟨⟨symbol, rfl, hok⟩, rfl⟩ (reads_take hform hok [next] before)
    | error fault =>
        obtain ⟨witness, result, hwritable, hresult⟩ := hwitness
        exact .rejects [] symbol rest fault before rfl (by simp)
          ⟨[witness], result, before, by simpa using hwritable, ⟨witness, rfl, hresult⟩, rfl⟩
          (unpaired_nil symbol) (rejects_take hform hok before)

theorem parses_take? {form : Token → Option α}
    (hinner : ∀ (symbol : Symbol) value, form symbol.token = some value →
      symbol.Inner ∧ symbol.token.wantsBy = false) :
    Parses (fun token => form token = none) (take? form : Parser σ (Option α))
      (Phrase.optional form) where
  complete := by
    rintro before used result after ⟨⟨rfl, rfl⟩ | ⟨symbol, value, rfl, hvalue, rfl⟩, rfl⟩ next hnext
    · exact reads_take?_none hnext after
    · exact reads_take?_some hvalue [next] after
  fate := by
    intro before symbols hended
    obtain ⟨symbol, rest, rfl⟩ := hended.exists_cons
    cases hvalue : form symbol.token with
    | none =>
        exact .reads [] symbol rest none before rfl (by simp) settled_nil
          ⟨.inl ⟨rfl, rfl⟩, rfl⟩ (reads_take?_none hvalue before)
    | some value =>
        obtain ⟨hsymbol, hwants⟩ := hinner symbol value hvalue
        obtain ⟨next, rest, rfl⟩ := (hended.tail hsymbol.2).exists_cons
        exact .reads [symbol] next rest (some value) before rfl (by simpa using hsymbol)
          (settled_singleton hwants) ⟨.inr ⟨symbol, value, rfl, hvalue, rfl⟩, rfl⟩
          (reads_take?_some hvalue [next] before)

theorem parses_pure (result : α) :
    Parses anyToken (pure result : Parser σ α)
      (Phrase.still fun used value => used = [] ∧ value = result) where
  complete := by
    rintro before used value after ⟨⟨rfl, rfl⟩, rfl⟩ next -
    exact reads_pure value [next] after
  fate := by
    intro before symbols hended
    obtain ⟨symbol, rest, rfl⟩ := hended.exists_cons
    exact .reads [] symbol rest result before rfl (by simp) settled_nil ⟨⟨rfl, rfl⟩, rfl⟩
      (reads_pure result [symbol] before)

theorem parses_update (change : Select → Select) :
    Parses anyToken (update change : Parser σ Unit) (Phrase.changing change) where
  complete := by
    rintro before used value after ⟨rfl, rfl⟩ next -
    exact reads_update change [next] before
  fate := by
    intro before symbols hended
    obtain ⟨symbol, rest, rfl⟩ := hended.exists_cons
    exact .reads [] symbol rest () (change before) rfl (by simp) settled_nil ⟨rfl, rfl⟩
      (reads_update change [symbol] before)

/-! ## One after the other -/

theorem Viable.andThen_left {phrase : Phrase α} {following : α → Phrase β} {before : Select}
    {used : List Symbol} (h : Viable phrase before used)
    (hfollowing : ∀ middle between, Viable (following middle) between []) :
    Viable (phrase.andThen following) before used := by
  obtain ⟨more, middle, between, hwritable, hderived⟩ := h
  obtain ⟨more', result, after, hwritable', hderived'⟩ := hfollowing middle between
  refine ⟨more ++ more', result, after, List.forall_mem_append.mpr ⟨hwritable, hwritable'⟩,
    used ++ more, more', middle, between, ?_, hderived, hderived'⟩
  rw [List.append_assoc]

theorem Viable.andThen_right {phrase : Phrase α} {following : α → Phrase β}
    {before between : Select} {used more : List Symbol} {middle : α}
    (hderived : phrase before used middle between) (h : Viable (following middle) between more) :
    Viable (phrase.andThen following) before (used ++ more) := by
  obtain ⟨more', result, after, hwritable, hderived'⟩ := h
  refine ⟨more', result, after, hwritable, used, more ++ more', middle, between, ?_, hderived,
    hderived'⟩
  rw [List.append_assoc]

/-- The first symbol of a list is the first one of any split of it. -/
theorem singleton_prefix_of_split {symbol next : Symbol} {rest used rest' : List Symbol}
    (h : symbol :: rest = used ++ next :: rest') : [symbol] <+: used ++ [next] := by
  cases used with
  | nil => simp [(List.cons.inj h).1]
  | cons head tail => simp [(List.cons.inj h).1]

/-- The fate of two parsers in turn.  The second need only be known on what the
first leaves. -/
theorem Fate.bind {first : Parser σ α} {next : α → Parser σ β} {phrase : Phrase α}
    {following : α → Phrase β} {before : Select} {symbols : List Symbol}
    (hfirst : Fate first phrase before symbols)
    (hviable : ∀ middle between, Viable (following middle) between [])
    (hnext : ∀ used symbol rest middle between, symbols = used ++ symbol :: rest →
      (∀ symbol ∈ used, symbol.Inner) → phrase before used middle between →
      Fate (next middle) (following middle) between (symbol :: rest)) :
    Fate (first >>= next) (phrase.andThen following) before symbols := by
  -- If the first parser rejects, so do both; else the fate is that of the second on what is
  -- left.
  rcases hfirst with
    ⟨used, symbol, rest, middle, between, hsplit, hinner, hsettled, hderived, hrun⟩ |
    ⟨used, bad, rest, fault, after, hsplit, hinner, hcomplete, hunpaired, hrun⟩
  · rcases hnext used symbol rest middle between hsplit hinner hderived with
      ⟨more, symbol', rest', result, after, hsplit', hinner', hsettled', hderived', hrun'⟩ |
      ⟨more, bad, rest', fault, after, hsplit', hinner', hcomplete', hunpaired', hrun'⟩
    · refine .reads (used ++ more) symbol' rest' result after ?_
        (List.forall_mem_append.mpr ⟨hinner, hinner'⟩) (hsettled.append hsettled')
        ⟨used, more, middle, between, rfl, hderived, hderived'⟩
        ((hrun.extend (singleton_prefix_of_split hsplit')).bind hrun')
      rw [hsplit, hsplit', List.append_assoc]
    · refine .rejects (used ++ more) bad rest' fault after ?_
        (List.forall_mem_append.mpr ⟨hinner, hinner'⟩) (.andThen_right hderived hcomplete')
        (hsettled.unpaired_append hunpaired')
        ((hrun.extend (singleton_prefix_of_split hsplit')).bind_rejects hsettled hrun')
      rw [hsplit, hsplit', List.append_assoc]
  · exact .rejects used bad rest fault after hsplit hinner (hcomplete.andThen_left hviable)
      hunpaired (hrun.bind next)

/-- Two parsers in turn.  The first has to stop at whatever the second starts
with, or at what follows both if the second reads nothing. -/
theorem Parses.bind_of_stops {stops stops' : Token → Prop} {first : Parser σ α}
    {next : α → Parser σ β} {phrase : Phrase α} {following : α → Phrase β}
    (hfirst : Parses stops' first phrase)
    (hnext : ∀ middle, Parses stops (next middle) (following middle))
    (hstops : ∀ middle before used result after, following middle before used result after →
      ∀ symbol : Symbol, stops symbol.token →
        ∀ head ∈ (used ++ [symbol]).head?, stops' head.token) :
    Parses stops (first >>= next) (phrase.andThen following) where
  complete := by
    rintro before used result after ⟨front, back, middle, between, rfl, hfront, hback⟩ symbol
      hsymbol
    have hrun := (hnext middle).complete hback symbol hsymbol
    -- The first of what the second reads, or what follows both, has to stop the first.
    have hhead := hstops middle between back result after hback symbol hsymbol
    cases hahead : back ++ [symbol] with
    | nil => simp at hahead
    | cons head tail =>
        rw [hahead] at hhead
        refine Reads.bind ((hfirst.complete hfront head (hhead head rfl)).extend ?_) hrun
        rw [hahead]
        exact List.prefix_append [head] tail
  fate := by
    intro before symbols hended
    have hviable := fun middle between => (hnext middle).viable between
    refine (hfirst.fate before symbols hended).bind hviable
      fun used symbol rest middle between hsplit hinner _ => ?_
    exact (hnext middle).fate between _ (Ended.of_append (hsplit ▸ hended) hinner)

/-- Two parsers in turn, where whatever the second reads may follow the
first. -/
theorem Parses.bind {stops : Token → Prop} {first : Parser σ α} {next : α → Parser σ β}
    {phrase : Phrase α} {following : α → Phrase β} (hfirst : Parses anyToken first phrase)
    (hnext : ∀ middle, Parses stops (next middle) (following middle)) :
    Parses stops (first >>= next) (phrase.andThen following) :=
  hfirst.bind_of_stops hnext fun _ _ _ _ _ _ _ _ _ _ => trivial

/-- A parser and a change of the statement after it. -/
theorem Parses.bind_update {stops : Token → Prop} {first : Parser σ α} {phrase : Phrase α}
    {next : α → Parser σ Unit} {change : α → Select → Select} (hfirst : Parses stops first phrase)
    (hnext : ∀ middle, next middle = update (change middle)) :
    Parses stops (first >>= next)
      (phrase.andThen fun middle => Phrase.changing (change middle)) := by
  refine hfirst.bind_of_stops (fun middle => ?_) ?_
  · rw [hnext middle]
    exact (parses_update (change middle)).weaken fun _ _ => trivial
  · rintro middle before used result after ⟨rfl, rfl⟩ symbol hsymbol head hhead
    rw [List.nil_append, List.head?_cons, Option.mem_some_iff] at hhead
    exact hhead ▸ hsymbol

theorem Fate.congr {parser : Parser σ α} {phrase other : Phrase α} {before : Select}
    {symbols : List Symbol} (h : Fate parser phrase before symbols)
    (hsame : ∀ before used result after,
      phrase before used result after ↔ other before used result after) :
    Fate parser other before symbols := by
  have heq : phrase = other := by
    funext before used result after
    exact propext (hsame before used result after)
  exact heq ▸ h

/-- The phrase of a parser whose result is put into another form. -/
def Phrase.map (phrase : Phrase α) (f : α → β) : Phrase β :=
  fun before used value after => ∃ result, phrase before used result after ∧ value = f result

theorem Reads.bind_pure {parser : Parser σ α} {next : α → Parser σ β} {used ahead : List Symbol}
    {before after : Select} {result : α} {value : β}
    (h : Reads parser used ahead before result after) (hnext : next result = pure value) :
    Reads (parser >>= next) used ahead before value after := by
  have hread : Reads parser used ([] ++ ahead) before result after := h
  have hpure : Reads (next result) [] ahead after value after := by
    rw [hnext]
    exact reads_pure value ahead after
  have hboth := hread.bind hpure
  rwa [List.append_nil] at hboth

theorem Fate.map {parser : Parser σ α} {phrase : Phrase α} {next : α → Parser σ β} {f : α → β}
    {before : Select} {symbols : List Symbol} (h : Fate parser phrase before symbols)
    (hnext : ∀ result, next result = pure (f result)) :
    Fate (parser >>= next) (phrase.map f) before symbols := by
  rcases h with
    ⟨used, symbol, rest, result, after, hsplit, hinner, hsettled, hderived, hrun⟩ |
    ⟨used, bad, rest, fault, after, hsplit, hinner, hcomplete, hunpaired, hrun⟩
  · exact .reads used symbol rest (f result) after hsplit hinner hsettled ⟨result, hderived, rfl⟩
      (hrun.bind_pure (hnext result))
  · obtain ⟨completion, result, final, hwritable, hcompleted⟩ := hcomplete
    exact .rejects used bad rest fault after hsplit hinner
      ⟨completion, f result, final, hwritable, result, hcompleted, rfl⟩ hunpaired (hrun.bind next)

theorem Parses.map {stops : Token → Prop} {parser : Parser σ α} {phrase : Phrase α}
    {next : α → Parser σ β} {f : α → β} (h : Parses stops parser phrase)
    (hnext : ∀ result, next result = pure (f result)) :
    Parses stops (parser >>= next) (phrase.map f) where
  complete := by
    rintro before used value after ⟨result, hderived, rfl⟩ symbol hsymbol
    exact (h.complete hderived symbol hsymbol).bind_pure (hnext result)
  fate := fun before symbols hended => (h.fate before symbols hended).map hnext

/-! ## Repetition -/

section Chain

variable {item : Parser σ α} (form : Token → Option β) (hitem : item.Eats)

/-- What a chain does after one of its items. -/
def chainRest (head : α) (found : Option β) : Parser σ (α × List (β × α)) :=
  match found with
  | none => pure (head, [])
  | some link => do
    let more ← chain item (take? form) hitem (steady_take? form)
    pure (head, (link, more.1) :: more.2)

omit [LawfulFeed σ] in
theorem chain_eq_bind :
    chain item (take? form) hitem (steady_take? form) =
      item >>= fun head => take? form >>= chainRest form hitem head := by
  refine funext fun progress => ?_
  -- The branches of the recursion are those of the two binds.
  rw [chain, bind_apply]
  split
  · rename_i error after hrun
    rw [hrun]
  · rename_i head between hrun
    rw [hrun]
    dsimp only
    rw [bind_apply]
    split
    · rename_i error after hseparator
      rw [hseparator]
    · rename_i after hseparator
      rw [hseparator]
      rfl
    · rename_i link later hseparator
      rw [hseparator]
      dsimp only [chainRest]
      rw [bind_apply]
      cases chain item (take? form) hitem (steady_take? form) later with
      | mk outcome after => cases outcome <;> rfl

variable {phrase : Phrase α} {form}

/-- The phrases of `chainRest`. -/
def restPhrase (phrase : Phrase α) (form : Token → Option β) (head : α) (found : Option β) :
    Phrase (α × List (β × α)) :=
  match found with
  | none => Phrase.still fun used value => used = [] ∧ value = (head, [])
  | some link => (Phrase.Chained phrase form).map fun more => (head, (link, more.1) :: more.2)

theorem chained_iff (before : Select) (used : List Symbol) (result : α × List (β × α))
    (after : Select) :
    phrase.andThen (fun head => (Phrase.optional form).andThen (restPhrase phrase form head))
        before used result after ↔ Phrase.Chained phrase form before used result after := by
  constructor
  · rintro ⟨front, back, head, between, rfl, hhead, link, rest, found, later, rfl, ⟨hfound, rfl⟩,
      hrest⟩
    rcases hfound with ⟨rfl, rfl⟩ | ⟨symbol, value, rfl, hvalue, rfl⟩
    · obtain ⟨⟨rfl, rfl⟩, rfl⟩ := hrest
      rw [List.append_nil, List.append_nil]
      exact .last hhead
    · obtain ⟨⟨next, others⟩, hmore, rfl⟩ := hrest
      exact .more hhead hvalue hmore
  · intro h
    cases h with
    | last hhead =>
        exact ⟨used, [], _, after, by simp, hhead, [], [], none, after, rfl, ⟨.inl ⟨rfl, rfl⟩, rfl⟩,
          ⟨rfl, rfl⟩, rfl⟩
    | more hhead hvalue hmore =>
        exact ⟨_, _, _, _, rfl, hhead, [_], _, some _, _, rfl,
          ⟨.inr ⟨_, _, rfl, hvalue, rfl⟩, rfl⟩, _, hmore, rfl⟩

theorem reads_chain (hparses : Parses anyToken item phrase) {before : Select}
    {used : List Symbol} {result : α × List (β × α)} {after : Select}
    (h : Phrase.Chained phrase form before used result after) {next : Symbol}
    (hnext : form next.token = none) :
    Reads (chain item (take? form) hitem (steady_take? form)) used [next] before result after := by
  induction h with
  | @last before used head after hhead =>
      rw [chain_eq_bind]
      have hrest :
          Reads (take? form >>= chainRest form hitem head) [] [next] after (head, []) after :=
        (reads_take?_none hnext after).bind_pure rfl
      have hboth : Reads (item >>= fun head => take? form >>= chainRest form hitem head)
          (used ++ []) [next] before (head, []) after :=
        Reads.bind (hparses.complete hhead next trivial) hrest
      rwa [List.append_nil] at hboth
  | @more before used head between symbol link rest tail others after hhead hlink _ ih =>
      rw [chain_eq_bind]
      refine Reads.bind ((hparses.complete hhead symbol trivial).extend ?_) ?_
      · exact List.prefix_append [symbol] (rest ++ [next])
      · refine Reads.bind (reads_take?_some hlink (rest ++ [next]) between) ?_
        exact ih.bind_pure rfl

theorem viable_restPhrase (hparses : Parses anyToken item phrase) (head : α) (found : Option β)
    (between : Select) : Viable (restPhrase phrase form head found) between [] := by
  cases found with
  | none => exact ⟨[], (head, []), between, by simp, ⟨rfl, rfl⟩, rfl⟩
  | some link =>
      obtain ⟨more, next, after, hwritable, hderived⟩ := hparses.viable between
      exact ⟨more, _, after, hwritable, (next, []), .last hderived, rfl⟩

/-- A chain may end behind each of its items. -/
theorem viable_behind_item (head : α) (between : Select) :
    Viable ((Phrase.optional form).andThen (restPhrase phrase form head)) between [] :=
  ⟨[], (head, []), between, by simp, [], [], none, between, rfl, ⟨.inl ⟨rfl, rfl⟩, rfl⟩,
    ⟨rfl, rfl⟩, rfl⟩

theorem fate_chain (hparses : Parses anyToken item phrase)
    (hinner : ∀ (symbol : Symbol) value, form symbol.token = some value →
      symbol.Inner ∧ symbol.token.wantsBy = false) (before : Select) (symbols : List Symbol)
    (hended : Ended symbols) :
    Fate (chain item (take? form) hitem (steady_take? form)) (Phrase.Chained phrase form) before
      symbols := by
  -- An item, then a separator or none, then with a separator the chain once more.
  rw [chain_eq_bind]
  refine Fate.congr ?_ chained_iff
  refine (hparses.fate before symbols hended).bind viable_behind_item
    fun used symbol rest head between hsplit hused hhead => ?_
  have hended' : Ended (symbol :: rest) := Ended.of_append (hsplit ▸ hended) hused
  refine ((parses_take? hinner).fate between _ hended').bind (viable_restPhrase hparses head)
    fun link next rest' found later hsplit' hlink hfound => ?_
  have hended'' : Ended (next :: rest') := Ended.of_append (hsplit' ▸ hended') hlink
  obtain ⟨hfound, rfl⟩ := hfound
  rcases hfound with ⟨rfl, rfl⟩ | ⟨separator, value, rfl, hvalue, rfl⟩
  · exact (parses_pure (head, [])).fate later _ hended''
  · -- The separator is gone, so the chain goes on with fewer symbols.
    have hshorter : (next :: rest').length < symbols.length := by
      rw [hsplit, hsplit']
      simp
      omega
    exact (fate_chain hparses hinner later (next :: rest') hended'').map fun _ => rfl
termination_by symbols.length

/-- A chain parses a chain of its items. -/
theorem parses_chain (hparses : Parses anyToken item phrase)
    (hinner : ∀ (symbol : Symbol) value, form symbol.token = some value →
      symbol.Inner ∧ symbol.token.wantsBy = false) :
    Parses (fun token => form token = none) (chain item (take? form) hitem (steady_take? form))
      (Phrase.Chained phrase form) where
  complete := fun hderived _ hnext => reads_chain hitem hparses hderived hnext
  fate := fate_chain hitem hparses hinner

end Chain

end SelectPlan.Parser
