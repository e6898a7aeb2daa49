import SelectPlan.Json.Reader

/-!
# Reading what was written

A value without numbers whose strings can be written is read back from its own text
(`Textual.ofText?_render`).  The reader works in two stages, and so does the proof: the text
of a value is cut into the symbols of the value, whatever follows it (`Spells`), and
those symbols are read as the value, whatever follows them (`Reads`).
Numbers are left out since they end only where something follows that cannot belong
to them.
-/

namespace SelectPlan.Json

/-! ## Strings -/

/-- The piece can be written: a control character needs a short escape, and a code
unit has four digits. -/
def Piece.Writable : Piece → Prop
  | .char c => c.toNat < 0x20 → c ∈ shortEscapes.map Prod.snd
  | .unit code => code < 0x10000

theorem hexDigit?_hexDigit {value : Nat} (h : value < 16) :
    hexDigit? (hexDigit value) = some value := by
  have hall : ∀ digit : Fin 16, hexDigit? (hexDigit digit.val) = some digit.val := by decide
  exact hall ⟨value, h⟩

theorem codeUnit?_digits {code : Nat} (h : code < 0x10000) :
    codeUnit? (hexDigit (code / 0x1000 % 16)) (hexDigit (code / 0x100 % 16))
      (hexDigit (code / 0x10 % 16)) (hexDigit (code % 16)) = some code := by
  have hdigit : ∀ value, hexDigit? (hexDigit (value % 16)) = some (value % 16) :=
    fun value => hexDigit?_hexDigit (Nat.mod_lt _ (by decide))
  simp only [codeUnit?, hdigit, Option.bind_eq_bind, Option.bind_some, Option.pure_def,
    Option.some.injEq]
  omega

/-- A written piece is the next that is read. -/
theorem readString_render {piece : Piece} (h : piece.Writable) (rest : List Char) :
    readString (piece.render ++ rest) =
      (readString rest).map fun (pieces, after) => (piece :: pieces, after) := by
  unfold Piece.render
  split
  case h_8 c hquote hbackslash hb hf hn hr ht =>
    -- A control character has a short escape or is written by its code, so none stands here.
    have hcontrol : ¬ c.toNat < 0x20 := by
      intro hlow
      have hmem := h hlow
      simp only [shortEscapes, List.map_cons, List.map_nil, List.mem_cons, List.not_mem_nil,
        or_false] at hmem
      rcases hmem with rfl | rfl | rfl | rfl | rfl | rfl | rfl | rfl
      · exact hquote rfl
      · exact hbackslash rfl
      · exact absurd hlow (by decide)
      · exact hb rfl
      · exact hf rfl
      · exact hn rfl
      · exact hr rfl
      · exact ht rfl
    rw [List.singleton_append, readString.eq_5 c rest (fun hc => hquote (by rw [hc]))
      (fun _ _ _ _ _ hc _ => hbackslash (by rw [hc])) (fun _ _ hc _ => hbackslash (by rw [hc])),
      if_neg hcontrol]
  case h_9 code =>
    simp only [List.cons_append, List.nil_append]
    rw [readString, codeUnit?_digits h]
  all_goals
    simp only [List.cons_append, List.nil_append]
    rw [readString]
    · rfl
    · simp

/-- Written pieces are read up to the quotation mark behind them. -/
theorem readString_renderPieces {pieces : List Piece} (h : ∀ piece ∈ pieces, piece.Writable)
    (rest : List Char) :
    readString (pieces.flatMap Piece.render ++ '"' :: rest) = some (pieces, rest) := by
  induction pieces with
  | nil => rfl
  | cons piece pieces ih =>
      obtain ⟨hpiece, hpieces⟩ := List.forall_mem_cons.mp h
      rw [List.flatMap_cons, List.append_assoc, readString_render hpiece, ih hpieces]
      rfl

/-! ## Symbols -/

/-- A text is cut into these symbols, whatever follows it. -/
def Spells (text : List Char) (list : List Symbol) : Prop :=
  ∀ rest, symbols? (text ++ rest) = (symbols? rest).map (list ++ ·)

variable {text text' : List Char} {list list' : List Symbol}

theorem Spells.append (h : Spells text list) (h' : Spells text' list') :
    Spells (text ++ text') (list ++ list') := by
  intro rest
  rw [List.append_assoc, h, h', Option.map_map]
  congr 1
  funext others
  exact (List.append_assoc ..).symm

theorem spells_nil : Spells [] [] := by
  intro rest
  simp

theorem spells_of_readSymbol {first : Char} {more : List Char} {symbol : Symbol}
    (hfirst : isSpace first = false)
    (hread : ∀ rest, readSymbol first (more ++ rest) = some (symbol, rest)) :
    Spells (first :: more) [symbol] := by
  intro rest
  have hdrop : (first :: (more ++ rest)).dropWhile isSpace = first :: (more ++ rest) := by
    simp [hfirst]
  rw [List.cons_append, symbols?]
  split
  · rename_i hnil
    rw [hdrop] at hnil
    cases hnil
  · rename_i hcons
    rw [hdrop] at hcons
    cases hcons
    split
    · rename_i hsymbol
      rw [hread] at hsymbol
      cases hsymbol
      rfl
    · rename_i hsymbol
      rw [hread] at hsymbol
      cases hsymbol

theorem spells_string {pieces : List Piece} (h : ∀ piece ∈ pieces, piece.Writable) :
    Spells (renderString pieces) [.string pieces] := by
  apply spells_of_readSymbol (by decide)
  intro rest
  rw [List.append_assoc, List.singleton_append]
  change (readString _).map _ = _
  rw [readString_renderPieces h]
  rfl

theorem spells_comma : Spells [','] [.comma] :=
  spells_of_readSymbol (by decide) fun _ => rfl

theorem spells_colon : Spells [':'] [.colon] :=
  spells_of_readSymbol (by decide) fun _ => rfl

mutual

/-- The symbols of a value. -/
def toSymbols : Json → List Symbol
  | null => [.null]
  | bool value => [.bool value]
  | number spelling => [.number spelling]
  | string pieces => [.string pieces]
  | array items => .openBracket :: (itemSymbols items ++ [.closeBracket])
  | object members => .openBrace :: (memberSymbols members ++ [.closeBrace])

/-- The symbols of the items of an array, with commas between them. -/
def itemSymbols : List Json → List Symbol
  | [] => []
  | [item] => item.toSymbols
  | item :: rest => item.toSymbols ++ .comma :: itemSymbols rest

/-- The symbols of the members of an object, with commas between them. -/
def memberSymbols : List (List Piece × Json) → List Symbol
  | [] => []
  | [(key, value)] => .string key :: .colon :: value.toSymbols
  | (key, value) :: rest =>
    .string key :: .colon :: (value.toSymbols ++ .comma :: memberSymbols rest)

end

/-- A value without numbers, all strings of which can be written. -/
inductive Textual : Json → Prop
  | null : Textual .null
  | bool (value : Bool) : Textual (.bool value)
  | string {pieces : List Piece} (h : ∀ piece ∈ pieces, piece.Writable) : Textual (.string pieces)
  | array {items : List Json} (h : ∀ item ∈ items, Textual item) : Textual (.array items)
  | object {members : List (List Piece × Json)}
      (hkeys : ∀ member ∈ members, ∀ piece ∈ member.1, piece.Writable)
      (hvalues : ∀ member ∈ members, Textual member.2) : Textual (.object members)

theorem spells_items {items : List Json} (h : ∀ item ∈ items, Spells item.render item.toSymbols) :
    Spells (renderItems items) (itemSymbols items) := by
  induction items with
  | nil => exact spells_nil
  | cons item rest ih =>
      obtain ⟨hitem, hrest⟩ := List.forall_mem_cons.mp h
      cases rest with
      | nil => exact hitem
      | cons next others => exact hitem.append (spells_comma.append (ih hrest))

theorem spells_members {members : List (List Piece × Json)}
    (hkeys : ∀ member ∈ members, ∀ piece ∈ member.1, piece.Writable)
    (hvalues : ∀ member ∈ members, Spells member.2.render member.2.toSymbols) :
    Spells (renderMembers members) (memberSymbols members) := by
  induction members with
  | nil => exact spells_nil
  | cons member rest ih =>
      obtain ⟨key, value⟩ := member
      obtain ⟨hkey, hkeys⟩ := List.forall_mem_cons.mp hkeys
      obtain ⟨hvalue, hvalues⟩ := List.forall_mem_cons.mp hvalues
      have hname : Spells (renderString key ++ [':']) [.string key, .colon] :=
        (spells_string hkey).append spells_colon
      cases rest with
      | nil => simpa [renderMembers, memberSymbols] using hname.append hvalue
      | cons next others =>
          have hall := hname.append (hvalue.append (spells_comma.append (ih hkeys hvalues)))
          simpa [renderMembers, memberSymbols] using hall

/-- The text of a value is cut into the symbols of the value. -/
theorem Textual.spells {json : Json} (h : json.Textual) : Spells json.render json.toSymbols := by
  induction h with
  | null => exact spells_of_readSymbol (by decide) fun _ => rfl
  | bool value =>
      cases value with
      | true => exact spells_of_readSymbol (by decide) fun _ => rfl
      | false => exact spells_of_readSymbol (by decide) fun _ => rfl
  | string hpieces => exact spells_string hpieces
  | array _ ih =>
      have hopen : Spells ['['] [.openBracket] := spells_of_readSymbol (by decide) fun _ => rfl
      have hclose : Spells [']'] [.closeBracket] := spells_of_readSymbol (by decide) fun _ => rfl
      exact hopen.append ((spells_items ih).append hclose)
  | object hkeys _ ih =>
      have hopen : Spells ['\x7b'] [.openBrace] := spells_of_readSymbol (by decide) fun _ => rfl
      have hclose : Spells ['\x7d'] [.closeBrace] := spells_of_readSymbol (by decide) fun _ => rfl
      exact hopen.append ((spells_members hkeys ih).append hclose)

/-! ## Values -/

/-- These symbols are read as the value, and then the rest is left. -/
def Reads (symbols : List Symbol) (json : Json) (rest : List Symbol) : Prop :=
  ∃ h, readValue symbols = some (json, ⟨rest, h⟩)

/-- An array with items does not close where it opens. -/
theorem itemSymbols_ne_closeBracket (item : Json) (others : List Json) (rest : List Symbol) :
    ∀ more, itemSymbols (item :: others) ++ rest ≠ .closeBracket :: more := by
  have hitem : ∀ rest more, item.toSymbols ++ rest ≠ .closeBracket :: more := by
    cases item <;> simp [toSymbols]
  intro more
  cases others with
  | nil => exact hitem rest more
  | cons next others =>
      rw [itemSymbols, List.append_assoc]
      · exact hitem _ more
      · simp

/-- An object with members does not close where it opens. -/
theorem memberSymbols_ne_closeBrace (member : List Piece × Json)
    (others : List (List Piece × Json)) (rest : List Symbol) :
    ∀ more, memberSymbols (member :: others) ++ rest ≠ .closeBrace :: more := by
  intro more
  cases others <;> simp [memberSymbols]

theorem readItems_itemSymbols {items : List Json} (hne : items ≠ [])
    (h : ∀ item ∈ items, ∀ rest, Reads (item.toSymbols ++ rest) item rest) (rest : List Symbol) :
    ∃ h, readItems (itemSymbols items ++ .closeBracket :: rest) = some (items, ⟨rest, h⟩) := by
  induction items with
  | nil => exact absurd rfl hne
  | cons item others ih =>
      obtain ⟨hitem, hothers⟩ := List.forall_mem_cons.mp h
      cases others with
      | nil =>
          obtain ⟨_, hread⟩ := hitem (.closeBracket :: rest)
          rw [itemSymbols, readItems, hread]
          exact ⟨_, rfl⟩
      | cons next others =>
          obtain ⟨_, hread⟩ := hitem (.comma :: (itemSymbols (next :: others) ++
            .closeBracket :: rest))
          obtain ⟨_, hmore⟩ := ih (by simp) hothers
          rw [itemSymbols, List.append_assoc, List.cons_append, readItems, hread]
          dsimp only
          rw [hmore]
          exact ⟨_, rfl⟩
          · simp

theorem readMembers_memberSymbols {members : List (List Piece × Json)} (hne : members ≠ [])
    (h : ∀ member ∈ members, ∀ rest, Reads (member.2.toSymbols ++ rest) member.2 rest)
    (rest : List Symbol) :
    ∃ h, readMembers (memberSymbols members ++ .closeBrace :: rest) =
      some (members, ⟨rest, h⟩) := by
  induction members with
  | nil => exact absurd rfl hne
  | cons member others ih =>
      obtain ⟨key, value⟩ := member
      obtain ⟨hvalue, hothers⟩ := List.forall_mem_cons.mp h
      cases others with
      | nil =>
          obtain ⟨_, hread⟩ := hvalue (.closeBrace :: rest)
          rw [memberSymbols, List.cons_append, List.cons_append, readMembers, hread]
          exact ⟨_, rfl⟩
      | cons next others =>
          obtain ⟨_, hread⟩ := hvalue (.comma :: (memberSymbols (next :: others) ++
            .closeBrace :: rest))
          obtain ⟨_, hmore⟩ := ih (by simp) hothers
          rw [memberSymbols, List.cons_append, List.cons_append, List.append_assoc,
            List.cons_append, readMembers, hread]
          dsimp only
          rw [hmore]
          exact ⟨_, rfl⟩
          · simp

/-- The symbols of a value are read as the value. -/
theorem Textual.reads {json : Json} (h : json.Textual) (rest : List Symbol) :
    Reads (json.toSymbols ++ rest) json rest := by
  induction h generalizing rest with
  | null => exact ⟨_, readValue.eq_1 rest⟩
  | bool value => exact ⟨_, readValue.eq_2 value rest⟩
  | string _ => exact ⟨_, readValue.eq_4 _ rest⟩
  | @array items _ ih =>
      cases items with
      | nil => exact ⟨_, readValue.eq_5 rest⟩
      | cons item others =>
          obtain ⟨_, hread⟩ := readItems_itemSymbols (List.cons_ne_nil item others) ih rest
          have hopen : (Json.array (item :: others)).toSymbols ++ rest =
              .openBracket :: (itemSymbols (item :: others) ++ .closeBracket :: rest) := by
            simp [toSymbols]
          rw [Reads, hopen, readValue.eq_7 _ (itemSymbols_ne_closeBracket item others _), hread]
          exact ⟨_, rfl⟩
  | @object members _ _ ih =>
      cases members with
      | nil => exact ⟨_, readValue.eq_6 rest⟩
      | cons member others =>
          obtain ⟨_, hread⟩ := readMembers_memberSymbols (List.cons_ne_nil member others) ih rest
          have hopen : (Json.object (member :: others)).toSymbols ++ rest =
              .openBrace :: (memberSymbols (member :: others) ++ .closeBrace :: rest) := by
            simp [toSymbols]
          rw [Reads, hopen, readValue.eq_8 _ (memberSymbols_ne_closeBrace member others _), hread]
          exact ⟨_, rfl⟩

/-- A value is read back from its own text. -/
theorem Textual.ofText?_render {json : Json} (h : json.Textual) :
    ofText? json.render = some json := by
  have hsymbols : symbols? json.render = some json.toSymbols := by
    have hspells := h.spells []
    rw [List.append_nil] at hspells
    rw [hspells, show symbols? [] = some [] by simp [symbols?], Option.map_some, List.append_nil]
  have hreads := h.reads []
  rw [List.append_nil] at hreads
  obtain ⟨_, hread⟩ := hreads
  rw [ofText?, hsymbols, Option.bind_some, ofSymbols?, hread]

end SelectPlan.Json
