import SelectPlan.Json.Record
import SelectPlan.Proofs.Json.Reading

/-!
# Formats

Reading a record from the value that writes it.  A text is the text that its JSON
string denotes (`string?_ofString`), and the fields of a record are found under
their names (`fields?_ofFields`).  A way to write values and one to read them back
make up a format (`Format`); what can be said about texts follows for every format
(`RoundTrips`).
-/

namespace SelectPlan.Json

/-! ## Strings -/

theorem writable_of_mem_piecesOf {text : List Char} {piece : Piece} (h : piece ∈ piecesOf text) :
    piece.Writable := by
  obtain ⟨c, -, rfl⟩ := List.mem_map.mp h
  split
  · rename_i hcontrol
    simp only [Bool.and_eq_true, decide_eq_true_eq] at hcontrol
    exact Nat.lt_trans hcontrol.1 (by decide)
  · rename_i hplain
    intro hlow
    simpa [hlow] using hplain

/-- A code unit that is no surrogate stands for a character of its own. -/
theorem textOf?_unit {code : Nat} (hhigh : isHighSurrogate code = false)
    (hlow : isLowSurrogate code = false) (rest : List Piece) :
    textOf? (.unit code :: rest) = (textOf? rest).map (Char.ofNat code :: ·) := by
  rw [textOf?.eq_def]
  simp [hhigh, hlow]

/-- The pieces that write a text denote it. -/
theorem textOf?_piecesOf (text : List Char) : textOf? (piecesOf text) = some text := by
  induction text with
  | nil => rfl
  | cons c rest ih =>
      rw [piecesOf, List.map_cons, ← piecesOf]
      split
      · rename_i hcontrol
        simp only [Bool.and_eq_true, decide_eq_true_eq] at hcontrol
        -- No control character is half of a pair.
        have hhigh : isHighSurrogate c.toNat = false := by
          simp only [isHighSurrogate, Bool.and_eq_false_iff, decide_eq_false_iff_not]
          omega
        have hlow : isLowSurrogate c.toNat = false := by
          simp only [isLowSurrogate, Bool.and_eq_false_iff, decide_eq_false_iff_not]
          omega
        rw [textOf?_unit hhigh hlow, ih, Option.map_some, Char.ofNat_toNat]
      · rw [textOf?, ih]
        rfl

@[simp] theorem string?_ofString (text : String) : (ofString text).string? = some text := by
  rw [ofString, string?, textOf?_piecesOf, Option.map_some, String.ofList_toList]

@[simp] theorem alternative?_ofString (text : String) :
    (ofString text).alternative? = some text := by
  rw [ofString, alternative?, textOf?_piecesOf, Option.map_some, String.ofList_toList]

theorem textual_ofString (text : String) : (ofString text).Textual :=
  .string fun _ => writable_of_mem_piecesOf

/-! ## Records -/

/-- Items that are read back one by one are read back as a list. -/
theorem mapM_map_eq_some {α β : Type} {write : α → β} {read? : β → Option α}
    (h : ∀ item, read? (write item) = some item) (items : List α) :
    (items.map write).mapM read? = some items := by
  induction items with
  | nil => rfl
  | cons item rest ih => rw [List.map_cons, List.mapM_cons, h, ih]; rfl

/-- The member of an object that a field is written as. -/
def writeMember (field : String × Json) : List Piece × Json :=
  (piecesOf field.1.toList, field.2)

/-- The field of a member, if its key denotes a text. -/
def readMember? (member : List Piece × Json) : Option (String × Json) :=
  (textOf? member.1).map fun name => (String.ofList name, member.2)

theorem ofFields_eq (fields : List (String × Json)) :
    ofFields fields = .object (fields.map writeMember) := rfl

theorem fields?_object (names : List String) (closed : Bool)
    (members : List (List Piece × Json)) :
    (object members).fields? names closed =
      (members.mapM readMember?).bind fun named =>
        if closed && named.any (fun member => !names.contains member.1) then none
        else names.mapM (field? named) := rfl

theorem readMember?_writeMember (field : String × Json) :
    readMember? (writeMember field) = some field := by
  rw [readMember?, writeMember, textOf?_piecesOf, Option.map_some, String.ofList_toList]

/-- The named members of an object are its fields. -/
theorem fields?_ofFields (names : List String) {closed : Bool} {fields : List (String × Json)}
    (hclosed : closed = true → ∀ field ∈ fields, field.1 ∈ names) :
    (ofFields fields).fields? names closed = names.mapM (field? fields) := by
  have hknown : (closed && fields.any fun member => !names.contains member.1) = false := by
    cases closed with
    | false => rfl
    | true => simpa using hclosed rfl
  rw [ofFields_eq, fields?_object, mapM_map_eq_some readMember?_writeMember, Option.bind_some,
    hknown]
  rfl

theorem textual_ofFields {fields : List (String × Json)} (h : ∀ field ∈ fields, field.2.Textual) :
    (ofFields fields).Textual := by
  refine .object ?_ ?_
  · intro member hmem piece hpiece
    obtain ⟨field, -, rfl⟩ := List.mem_map.mp hmem
    exact writable_of_mem_piecesOf hpiece
  · intro member hmem
    obtain ⟨field, hfield, rfl⟩ := List.mem_map.mp hmem
    exact h field hfield

/-! ## Formats -/

/-- Values that are written as JSON without numbers and read back as they were. -/
structure Format {α : Type} (write : α → Json) (read? : Json → Option α) : Prop where
  textual : ∀ value, (write value).Textual
  read_write : ∀ value, read? (write value) = some value

/-- The text of a value. -/
def encode {α : Type} (write : α → Json) (value : α) : String :=
  String.ofList (write value).render

/-- The value of a text. -/
def decode? {α : Type} (read? : Json → Option α) (text : String) : Option α :=
  (ofText? text.toList).bind read?

/-- Every value is read back from its text.  So decoding a text, writing the value
anew and decoding that is the same as decoding the text, and only equal values have
the same text. -/
structure RoundTrips {α : Type} (write : α → Json) (read? : Json → Option α) : Prop where
  decode_encode : ∀ value, decode? read? (encode write value) = some value
  decode_again : ∀ text,
    ((decode? read? text).bind fun value => decode? read? (encode write value)) =
      decode? read? text
  encode_injective : Function.Injective (encode write)

variable {α : Type} {write : α → Json} {read? : Json → Option α}

namespace Format

theorem decode?_encode (h : Format write read?) (value : α) :
    decode? read? (encode write value) = some value := by
  rw [decode?, encode, String.toList_ofList, (h.textual value).ofText?_render, Option.bind_some,
    h.read_write]

theorem roundTrips (h : Format write read?) : RoundTrips write read? where
  decode_encode := h.decode?_encode
  decode_again text := by
    cases decode? read? text with
    | none => rfl
    | some value => exact h.decode?_encode value
  encode_injective := by
    intro value value' htext
    have hvalue := h.decode?_encode value
    rw [htext, h.decode?_encode value'] at hvalue
    exact (Option.some.inj hvalue).symm

theorem textual_array (h : Format write read?) (items : List α) :
    (array (items.map write)).Textual := by
  refine .array fun item hmem => ?_
  obtain ⟨value, -, rfl⟩ := List.mem_map.mp hmem
  exact h.textual value

/-- The items of an array are read back. -/
theorem read_items (h : Format write read?) (items : List α) :
    (array (items.map write)).items?.bind (·.mapM read?) = some items :=
  mapM_map_eq_some h.read_write items

end Format

end SelectPlan.Json
