import Mathlib.Data.List.TakeWhile
import NetPrograms.AddressBook.Alpha
import NetPrograms.AddressBook.Contact
import NetPrograms.AddressBook.Token

/-! Which lines `paraser_token` reads without leaving its arrays. Its loops stop at a
comma or at the end of the line and do not know how much room a field has. -/

namespace NetPrograms.Proofs.TokenBounds
open AddressBook

variable {size : Nat}

/-- The bytes of a text that a loop puts into a field. -/
def put (status : Bool) (text : List UInt8) : List UInt8 :=
  (if status then text else text.dropWhile (· ≠ space)).filter (· ≠ space)

/-- A loop's body on each byte of a text. -/
def fill (field : Field size) (text : List UInt8) : Option (Field size) := text.foldlM Field.take field

theorem fill_cons (field : Field size) (byte : UInt8) (text : List UInt8) :
    fill field (byte :: text) = (field.take byte).bind (fill · text) := rfl

@[simp] theorem put_nil (status : Bool) : put status [] = [] := by cases status <;> rfl

theorem put_space (status : Bool) (text : List UInt8) : put status (space :: text) = put true text := by
  cases status <;> simp [put]

theorem put_byte {byte : UInt8} (other : byte ≠ space) (text : List UInt8) : put true (byte :: text) = byte :: put true text := by
  simp [put, other]

theorem put_skip {byte : UInt8} (other : byte ≠ space) (text : List UInt8) : put false (byte :: text) = put false text := by
  simp [put, other]

/-- What a loop puts into a field is one write. -/
theorem fill_eq {field : Field size} (text : List UInt8) (room : field.j ≤ size) :
    fill field text = (field.cells.write field.j (put field.status text)).map fun cells =>
      ⟨cells, field.status || decide (space ∈ text), field.j + (put field.status text).length⟩ := by
  induction text generalizing field with
  | nil => simp [fill, Buffer.write_nil _ room]
  | cons byte text ih =>
    obtain ⟨cells, status, j⟩ := field
    simp only [fill_cons, Field.take]
    by_cases blank : byte = space
    · rw [if_pos blank, Option.bind_some, @ih ⟨cells, true, j⟩ room, blank, put_space]
      simp
    · rw [if_neg blank]
      cases status with
      | false =>
        rw [if_neg (by simp), Option.bind_some, ih room, put_skip blank]
        simp [Ne.symm blank]
      | true =>
        have whole := Buffer.write_write cells j [byte] (put true text)
        rw [List.singleton_append] at whole
        rw [if_pos rfl, put_byte blank, ← whole]
        cases written : cells.write j [byte] with
        | none => rfl
        | some next =>
          have inside := (Buffer.write_eq_some written).1
          simp only [Option.bind_eq_bind, Option.bind_some]
          rw [@ih ⟨next, true, j + 1⟩ inside]
          simp [Nat.add_assoc, Nat.add_comm]

theorem fill_clear_j {text : List UInt8} {after : Field size} (filled : fill .clear text = some after) :
    after.j = (put false text).length := by
  rw [fill_eq text (Nat.zero_le _)] at filled
  obtain ⟨cells, -, rfl⟩ := Option.map_eq_some_iff.mp filled
  exact Nat.zero_add _

/-- A field with room for one more byte keeps a zero. -/
theorem fill_clear {text : List UInt8} (short : (put false text).length < size) :
    ∃ after : Field size, fill .clear text = some after ∧ 0 ∈ after.cells.cells := by
  obtain ⟨cells, written, stored⟩ := Buffer.write_of_le (Buffer.fill 0 : Buffer UInt8 size) 0 (put false text) (by omega)
  refine ⟨⟨cells, false || decide (space ∈ text), 0 + (put false text).length⟩, ?_, ?_⟩
  · rw [fill_eq text (Nat.zero_le _)]
    simp only [Field.clear, written, Option.map_some]
  · rw [stored, Block.overlay_zero]
    apply List.mem_append_right
    rw [Buffer.fill, List.drop_replicate, List.mem_replicate]
    exact ⟨by omega, rfl⟩

/-- What both programs do with the texts that their loops pass. -/
def fields (name phone : List UInt8) : Option Token := do
  let name ← fill .clear name
  let phone ← fill .clear phone
  let _shown ← showPerson ⟨name.cells, phone.cells⟩
  some ⟨0, name, phone⟩

/-- A run that stays within its arrays and leaves a string in both fields. -/
structure Bounded (run : Option Token) (token : Token) : Prop where
  ends : run = some token
  name : token.name.j ≤ 14
  phone : token.phone.j ≤ 19
  nameEnds : 0 ∈ token.name.cells.cells
  phoneEnds : 0 ∈ token.phone.cells.cells

theorem fields_bounded {name phone : List UInt8} : (∃ token, Bounded (fields name phone) token) ↔
    (put false name).length ≤ 14 ∧ (put false phone).length ≤ 19 := by
  constructor
  · rintro ⟨token, ends, shortName, shortPhone, -, -⟩
    obtain ⟨nameField, first, ends⟩ := Option.bind_eq_some_iff.mp ends
    obtain ⟨phoneField, second, ends⟩ := Option.bind_eq_some_iff.mp ends
    obtain ⟨shown, -, same⟩ := Option.bind_eq_some_iff.mp ends
    cases same
    exact ⟨fill_clear_j first ▸ shortName, fill_clear_j second ▸ shortPhone⟩
  · rintro ⟨shortName, shortPhone⟩
    have roomName : (put false name).length < nameLength := Nat.lt_succ_of_le shortName
    have roomPhone : (put false phone).length < phoneLength := Nat.lt_succ_of_le shortPhone
    obtain ⟨nameField, first, nameEnds⟩ := fill_clear roomName
    obtain ⟨phoneField, second, phoneEnds⟩ := fill_clear roomPhone
    obtain ⟨shownName, showName⟩ := cstring_isSome nameEnds
    obtain ⟨shownPhone, showPhone⟩ := cstring_isSome phoneEnds
    refine ⟨⟨0, nameField, phoneField⟩, ?_, ?_, ?_, nameEnds, phoneEnds⟩
    · simp [fields, first, second, showPerson, showName, showPhone]
    · exact (fill_clear_j first).trans_le shortName
    · exact (fill_clear_j second).trans_le shortPhone

section loops
variable {length i : Nat}

theorem phoneLoop_eq {phone : Field phoneLength} {cells : List UInt8} (inside : length ≤ i + cells.length) :
    phoneLoop length phone i cells = fill phone (cells.take (length - i)) := by
  induction cells generalizing phone i with
  | nil =>
    rw [phoneLoop, if_neg (by simpa using inside), List.take_nil]
    rfl
  | cons byte rest ih =>
    rw [phoneLoop]
    split
    next more =>
      have size : length - i = (length - (i + 1)) + 1 := by omega
      rw [size, List.take_succ_cons, fill_cons]
      congr 1
      funext phone
      exact ih (by simp only [List.length_cons] at inside; omega)
    next ended =>
      have none : length - i = 0 := by omega
      rw [none, List.take_zero]
      rfl

theorem Contact.nameLoop_eq {name : Field nameLength} {cells : List UInt8} :
    Contact.nameLoop name i cells = if comma ∈ cells then
      (fill name (cells.takeWhile (· ≠ comma))).map fun name =>
        (name, i + (cells.takeWhile (· ≠ comma)).length, cells.dropWhile (· ≠ comma)) else none := by
  induction cells generalizing name i with
  | nil => rfl
  | cons byte rest ih =>
    rw [AddressBook.Contact.nameLoop]
    split
    next other =>
      rw [List.takeWhile_cons_of_pos (by simpa using other), List.dropWhile_cons_of_pos (by simpa using other), fill_cons]
      have same : comma ∈ byte :: rest ↔ comma ∈ rest := by simp [Ne.symm other]
      simp only [same]
      cases name.take byte with
      | none => simp
      | some next =>
        simp only [Option.bind_eq_bind, Option.bind_some, ih, List.length_cons, Nat.add_assoc, Nat.add_comm 1]
    next ended =>
      obtain rfl : byte = comma := not_not.mp ended
      simp [fill]

theorem Alpha.nameLoop_eq {name : Field nameLength} {cells : List UInt8} (before : i ≤ length)
    (inside : length < i + cells.length) :
    Alpha.nameLoop length name i cells =
      (fill name ((cells.take (length - i)).takeWhile (· ≠ comma))).map fun name =>
        (name, i + ((cells.take (length - i)).takeWhile (· ≠ comma)).length,
          cells.drop ((cells.take (length - i)).takeWhile (· ≠ comma)).length) := by
  induction cells generalizing name i with
  | nil =>
    simp only [List.length_nil] at inside
    omega
  | cons byte rest ih =>
    rw [AddressBook.Alpha.nameLoop]
    split
    next goesOn =>
      have size : length - i = (length - (i + 1)) + 1 := by omega
      rw [size, List.take_succ_cons, List.takeWhile_cons_of_pos (by simpa using goesOn.1), fill_cons]
      have further := fun next => @ih (i + 1) next (by omega) (by simp only [List.length_cons] at inside; omega)
      cases name.take byte with
      | none => rfl
      | some next =>
        simp only [Option.bind_eq_bind, Option.bind_some, further, List.length_cons, List.drop_succ_cons, Nat.add_assoc,
          Nat.add_comm 1]
    next stops =>
      have none : ((byte :: rest).take (length - i)).takeWhile (· ≠ comma) = [] := by
        by_cases ended : length - i = 0
        · rw [ended, List.take_zero, List.takeWhile_nil]
        · have size : length - i = (length - i - 1) + 1 := by omega
          have found : byte = comma := by
            by_contra other
            exact stops ⟨other, by omega⟩
          rw [size, List.take_succ_cons, found, List.takeWhile_cons_of_neg (by simp)]
      rw [none]
      rfl

theorem dropWhile_take (p : UInt8 → Bool) (cells : List UInt8) (length : Nat) :
    (cells.dropWhile p).take (length - (cells.takeWhile p).length) = (cells.take length).dropWhile p := by
  induction cells generalizing length with
  | nil => simp
  | cons byte cells ih =>
    cases passed : p byte with
    | false =>
      rw [List.dropWhile_cons_of_neg (by simp [passed]), List.takeWhile_cons_of_neg (by simp [passed]), List.length_nil,
        Nat.sub_zero]
      cases length with
      | zero => rfl
      | succ length => rw [List.take_succ_cons, List.dropWhile_cons_of_neg (by simp [passed])]
    | true =>
      rw [List.dropWhile_cons_of_pos passed, List.takeWhile_cons_of_pos passed, List.length_cons]
      cases length with
      | zero => simp
      | succ length => rw [List.take_succ_cons, List.dropWhile_cons_of_pos passed, Nat.add_sub_add_right, ih]

theorem drop_takeWhile (p : UInt8 → Bool) (text : List UInt8) : text.drop (text.takeWhile p).length = text.dropWhile p := by
  induction text with
  | nil => rfl
  | cons byte text ih => cases passed : p byte <;> simp [passed, ih]

end loops

section lines
variable {buffer : Buffer UInt8 bufferLength} {length : Nat} (long : minLength ≤ length) (within : length < bufferLength)
include long within

/-- The text of the name is what stands before the first comma of the buffer. -/
theorem contact_scanToken : Contact.scanToken buffer length = if comma ∈ buffer.cells then
    fields (buffer.cells.takeWhile (· ≠ comma)) ((buffer.cells.take length).dropWhile (· ≠ comma)) else none := by
  rw [Contact.scanToken, if_neg (by omega), Contact.nameLoop_eq]
  split
  next =>
    rw [fields]
    cases fill .clear (buffer.cells.takeWhile (· ≠ comma)) with
    | none => rfl
    | some name =>
      have whole := congrArg List.length (List.takeWhile_append_dropWhile (p := (· ≠ comma)) (l := buffer.cells))
      rw [List.length_append, buffer.size] at whole
      simp only [Option.map_some, Option.bind_eq_bind, Option.bind_some, Nat.zero_add]
      rw [phoneLoop_eq (by omega), dropWhile_take]
  next => rfl

theorem alpha_scanToken : Alpha.scanToken buffer length =
    fields ((buffer.cells.take length).takeWhile (· ≠ comma)) ((buffer.cells.take length).dropWhile (· ≠ comma)) := by
  rw [Alpha.scanToken, if_neg (by omega), Alpha.nameLoop_eq (Nat.zero_le _) (by rw [buffer.size]; omega), fields, Nat.sub_zero]
  cases fill .clear ((buffer.cells.take length).takeWhile (· ≠ comma)) with
  | none => rfl
  | some name =>
    have short := (List.takeWhile_sublist (l := buffer.cells.take length) (· ≠ comma)).length_le
    rw [List.length_take] at short
    simp only [Option.map_some, Option.bind_eq_bind, Option.bind_some, Nat.zero_add]
    rw [phoneLoop_eq (by rw [List.length_drop, buffer.size]; omega), ← List.drop_take]
    rw [drop_takeWhile]

/-- What a line must be for both programs to stay within their arrays: a comma in the
buffer, and room in both fields for what stands before and behind it. -/
structure Fits (buffer : Buffer UInt8 bufferLength) (length : Nat) : Prop where
  comma : comma ∈ buffer.cells
  name : (put false (buffer.cells.takeWhile (· ≠ AddressBook.comma))).length ≤ 14
  phone : (put false ((buffer.cells.take length).dropWhile (· ≠ AddressBook.comma))).length ≤ 19

theorem contact_bounded : (∃ token, Bounded (Contact.scanToken buffer length) token) ↔ Fits buffer length := by
  rw [contact_scanToken long within]
  split
  next found =>
    rw [fields_bounded]
    exact ⟨fun ⟨name, phone⟩ => ⟨found, name, phone⟩, fun fits => ⟨fits.name, fits.phone⟩⟩
  next missing =>
    constructor
    · rintro ⟨token, run⟩
      cases run.ends
    · intro fits
      exact absurd fits.comma missing

theorem alpha_bounded : (∃ token, Bounded (Alpha.scanToken buffer length) token) ↔
    (put false ((buffer.cells.take length).takeWhile (· ≠ comma))).length ≤ 14 ∧
      (put false ((buffer.cells.take length).dropWhile (· ≠ comma))).length ≤ 19 := by
  rw [alpha_scanToken long within, fields_bounded]

end lines

/-- In a longer text a loop puts more. -/
theorem put_longer {text more : List UInt8} (front : text <+: more) : (put false text).length ≤ (put false more).length := by
  obtain ⟨rest, rfl⟩ := front
  simp only [put, Bool.false_eq_true, if_false, List.dropWhile_append]
  split
  next none =>
    rw [List.isEmpty_iff.mp none]
    exact Nat.zero_le _
  next => simp

/-- For a line of the length that both programs parse, neither leaves its arrays and
both fields keep their zeros exactly when the line fits. -/
theorem bounded_iff_fits {buffer : Buffer UInt8 bufferLength} {length : Nat} (line : strlen buffer.cells = some length)
    (long : 5 ≤ length) :
    (∃ token, Bounded (Contact.scanToken buffer length) token) ∧ (∃ token, Bounded (Alpha.scanToken buffer length) token) ↔
      Fits buffer length := by
  have within : length < bufferLength := by
    have inside := (List.findIdx?_eq_some_iff_getElem.mp line).1
    rwa [buffer.size] at inside
  rw [contact_bounded long within, alpha_bounded long within]
  constructor
  · exact And.left
  · intro fits
    refine ⟨fits, (put_longer ?_).trans fits.name, fits.phone⟩
    have whole : (buffer.cells.take length ++ buffer.cells.drop length).takeWhile (· ≠ comma) = _ := List.takeWhile_append
    rw [List.take_append_drop] at whole
    rw [whole]
    split
    · exact (List.takeWhile_prefix _).trans (List.prefix_append _ _)
    · exact List.prefix_refl _

theorem saved_line_short : (ascii "name: Ann,phone: 555\n").length ≤ bufferLength := by decide

/-- A line that both programs parse. -/
def savedLine : Buffer UInt8 bufferLength := Buffer.put (Buffer.fill 0) (ascii "name: Ann,phone: 555\n") saved_line_short

theorem saved_line_bounded :
    (∃ token, Bounded (Contact.scanToken savedLine 21) token) ∧ (∃ token, Bounded (Alpha.scanToken savedLine 21) token) :=
  (bounded_iff_fits (by decide) (by decide)).mpr ⟨by decide, by decide, by decide⟩

theorem plain_line_short : (ascii "hello\n").length ≤ bufferLength := by decide

/-- A line without a comma. -/
def plainLine : Buffer UInt8 bufferLength := Buffer.put (Buffer.fill 0) (ascii "hello\n") plain_line_short

theorem plain_line_overrun : Contact.scanToken plainLine 6 = none := by
  rw [contact_scanToken (by decide) (by decide), if_neg (by decide)]

theorem unbounded : ¬ ∀ (buffer : Buffer UInt8 bufferLength) (length : Nat), strlen buffer.cells = some length → 5 ≤ length →
    (∃ token, Bounded (Contact.scanToken buffer length) token) ∧ (∃ token, Bounded (Alpha.scanToken buffer length) token) := by
  intro always
  obtain ⟨⟨token, run⟩, -⟩ := always plainLine 6 (by decide) (by decide)
  rw [plain_line_overrun] at run
  cases run.ends

section parsers

theorem copyField_eq_fill {field : Buffer UInt8 size} {status : Bool} {j : Nat} (text : List UInt8) :
    copyField field status j text = (fill ⟨field, status, j⟩ text).map Field.cells := by
  induction text generalizing field status j with
  | nil => rfl
  | cons byte text ih =>
    rw [copyField, fill_cons, Field.take]
    split
    next => exact ih
    next =>
      split
      next =>
        cases field.write j [byte] with
        | none => rfl
        | some next => exact ih
      next => exact ih

theorem fields_map (nameText phoneText : List UInt8) :
    ((fields nameText phoneText).map fun token => (token.code, (⟨token.name.cells, token.phone.cells⟩ : Person))) = (do
      let name ← copyField clearPerson.name false 0 nameText
      let phone ← copyField clearPerson.phone false 0 phoneText
      let _shown ← showPerson ⟨name, phone⟩
      some ((0 : Int), (⟨name, phone⟩ : Person))) := by
  have firstField : copyField clearPerson.name false 0 nameText = (fill .clear nameText).map Field.cells := copyField_eq_fill _
  have secondField : copyField clearPerson.phone false 0 phoneText = (fill .clear phoneText).map Field.cells :=
    copyField_eq_fill _
  rw [firstField, secondField, fields]
  cases fill .clear nameText with
  | none => rfl
  | some name =>
    cases fill .clear phoneText with
    | none => rfl
    | some phone =>
      simp only [Option.bind_eq_bind, Option.map_some, Option.bind_some]
      cases showPerson ⟨name.cells, phone.cells⟩ <;> rfl

/-- The model with indices computes what the other one does. -/
theorem contact_paraserToken {buffer : Buffer UInt8 bufferLength} {length : Nat} (within : length < bufferLength) :
    Contact.paraserToken buffer length clearPerson.name clearPerson.phone =
      (Contact.scanToken buffer length).map fun token => (token.code, ⟨token.name.cells, token.phone.cells⟩) := by
  by_cases long : minLength ≤ length
  · rw [contact_scanToken long within, AddressBook.Contact.paraserToken, if_neg (by omega), List.span_eq_takeWhile_dropWhile]
    dsimp only
    by_cases found : comma ∈ buffer.cells
    · have behind : buffer.cells.dropWhile (· ≠ comma) ≠ [] := by
        intro empty
        simpa using List.dropWhile_eq_nil_iff.mp empty comma found
      rw [if_pos found, fields_map, if_neg behind, ← dropWhile_take, List.drop_take, drop_takeWhile]
    · have empty : buffer.cells.dropWhile (· ≠ comma) = [] := by
        rw [List.dropWhile_eq_nil_iff]
        intro byte member
        simpa using ne_of_mem_of_not_mem member found
      rw [if_neg found, if_pos empty]
      rfl
  · rw [AddressBook.Contact.paraserToken, AddressBook.Contact.scanToken, if_pos (by omega), if_pos (by omega)]
    rfl

theorem alpha_paraserToken {buffer : Buffer UInt8 bufferLength} {length : Nat} (within : length < bufferLength) :
    Alpha.paraserToken buffer length clearPerson.name clearPerson.phone =
      (Alpha.scanToken buffer length).map fun token => (token.code, ⟨token.name.cells, token.phone.cells⟩) := by
  by_cases long : minLength ≤ length
  · rw [alpha_scanToken long within, AddressBook.Alpha.paraserToken, if_neg (by omega), List.span_eq_takeWhile_dropWhile]
    exact (fields_map _ _).symm
  · rw [AddressBook.Alpha.paraserToken, AddressBook.Alpha.scanToken, if_pos (by omega), if_pos (by omega)]
    rfl

end parsers

end NetPrograms.Proofs.TokenBounds
