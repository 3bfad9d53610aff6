import Mathlib.Algebra.Order.Ring.Int
import Mathlib.Data.List.TakeWhile
import NetPrograms.Proofs.BookShape

/-! A saved book does not come back: `paraser_token` takes everything behind the last
space of a line as the phone, the newline that `fgets` leaves in the line included. -/

namespace NetPrograms.Proofs.BookRoundTrip
open AddressBook BookChains BookEntries BookShape

variable {P : Type}

/-- A word that `scanf` with `%s` reads as a whole. -/
structure Word (text : List UInt8) : Prop where
  nonempty : text ≠ []
  plain : ∀ byte ∈ text, byte ≠ 0 ∧ byte ≠ space ∧ ¬ (9 ≤ byte.toNat ∧ byte.toNat ≤ 13)

namespace Word
variable {text : List UInt8} (word : Word text)
include word

theorem no_zero : 0 ∉ text := fun member => (word.plain 0 member).1 rfl

theorem no_space : space ∉ text := fun member => (word.plain space member).2.1 rfl

theorem no_newline : TextFile.newline ∉ text := fun member => (word.plain TextFile.newline member).2.2 (by decide)

end Word

section fields
variable {size : Nat} {field filled : Buffer UInt8 size}

theorem copyField_skip {before : List UInt8} (free : space ∉ before) (j : Nat) (rest : List UInt8) :
    copyField field false j (before ++ space :: rest) = copyField field true j rest := by
  induction before with
  | nil => rfl
  | cons byte before ih =>
    obtain ⟨other, free⟩ := not_or.mp (List.mem_cons.not.mp free)
    rw [List.cons_append, copyField, if_neg (Ne.symm other)]
    exact ih free

theorem copyField_word {text : List UInt8} (free : space ∉ text) {j : Nat} (inside : j ≤ size)
    (copied : copyField field true j text = some filled) :
    j + text.length ≤ size ∧ filled.cells = Block.overlay field.cells j text := by
  induction text generalizing field j with
  | nil =>
    cases copied
    exact ⟨inside, by simp [Block.overlay]⟩
  | cons byte text ih =>
    obtain ⟨other, free⟩ := not_or.mp (List.mem_cons.not.mp free)
    rw [copyField, if_neg (Ne.symm other)] at copied
    obtain ⟨next, written, copied⟩ := Option.bind_eq_some_iff.mp copied
    obtain ⟨room, cells⟩ := Buffer.write_eq_some written
    obtain ⟨fits, whole⟩ := ih free room copied
    simp only [List.length_cons, List.length_nil] at room fits ⊢
    refine ⟨by omega, ?_⟩
    rw [whole, cells]
    exact Block.overlay_overlay (by simpa using inside)

end fields

section line
variable {entry : Entry} (name : Word entry.name) (phone : Word entry.phone)

include name phone in
theorem lineText_plain : 0 ∉ lineText entry ∧ TextFile.newline ∉ lineText entry := by
  have front : 0 ∉ ascii "name: " ∧ TextFile.newline ∉ ascii "name: " := by decide
  have middle : 0 ∉ ascii ",phone: " ∧ TextFile.newline ∉ ascii ",phone: " := by decide
  simp only [lineText, List.mem_append, not_or]
  exact ⟨⟨⟨⟨front.1, name.no_zero⟩, middle.1⟩, phone.no_zero⟩, ⟨⟨front.2, name.no_newline⟩, middle.2⟩, phone.no_newline⟩

/-- Where the second loop starts, no space comes before the one in front of the phone. -/
theorem behind_comma {entry : Entry} (name : Word entry.name) : ∃ before, space ∉ before ∧
    (entryLine entry).dropWhile (· ≠ comma) = before ++ space :: (entry.phone ++ [TextFile.newline]) := by
  have whole : entryLine entry =
      ascii "name: " ++ ((entry.name ++ ascii ",phone:") ++ space :: (entry.phone ++ [TextFile.newline])) := by
    have label : ascii ",phone: " = ascii ",phone:" ++ [space] := by decide
    simp [entryLine, label]
  have skipped : (ascii "name: ").dropWhile (· ≠ comma) = [] := by decide
  have middle : comma ∈ entry.name ++ ascii ",phone:" := List.mem_append_right _ (by decide)
  refine ⟨(entry.name ++ ascii ",phone:").dropWhile (· ≠ comma), ?_, ?_⟩
  · intro member
    rcases List.mem_append.mp ((List.dropWhile_suffix _).subset member) with inName | inLabel
    · exact name.no_space inName
    · exact absurd inLabel (by decide)
  · rw [whole, List.dropWhile_append, skipped, List.isEmpty_nil, if_pos rfl, List.dropWhile_append, if_neg]
    intro empty
    have all := List.dropWhile_eq_nil_iff.mp (List.isEmpty_iff.mp empty) comma middle
    simp at all

end line

theorem not_mem_line {byte : UInt8} {text : List UInt8} (absent : byte ∉ text) (apart : byte ≠ TextFile.newline) :
    byte ∉ text ++ [TextFile.newline] := by
  intro member
  rcases List.mem_append.mp member with inText | inEnd
  · exact absent inText
  · exact apart (List.mem_singleton.mp inEnd)

/-- The phone of a line that was saved comes back with the newline of the line. -/
theorem parses_newline {entry : Entry} (name : Word entry.name) (phone : Word entry.phone) {person : Person}
    (parsed : Parses (entryLine entry) person) :
    ∃ shown, showPerson person = some shown ∧ TextFile.newline ∈ shown.phone := by
  obtain ⟨buffer, length, read, long, parsed⟩ := parsed
  have free : 0 ∉ entryLine entry := not_mem_line (lineText_plain name phone).1 (by decide)
  obtain ⟨whole, text⟩ := fgets_line free read
  obtain rfl : (entryLine entry).length = length := Option.some.inj (whole.symm.trans long)
  unfold Alpha.paraserToken at parsed
  split at parsed
  next => cases parsed
  next =>
    rw [text, List.span_eq_takeWhile_dropWhile] at parsed
    obtain ⟨first, -, parsed⟩ := Option.bind_eq_some_iff.mp parsed
    obtain ⟨second, copied, parsed⟩ := Option.bind_eq_some_iff.mp parsed
    obtain ⟨shown, shows, same⟩ := Option.bind_eq_some_iff.mp parsed
    cases same
    refine ⟨shown, shows, ?_⟩
    obtain ⟨before, skipped, behind⟩ := behind_comma name
    rw [behind, copyField_skip skipped] at copied
    have plain : space ∉ entry.phone ++ [TextFile.newline] := not_mem_line phone.no_space (by decide)
    obtain ⟨fits, cells⟩ := copyField_word plain (Nat.zero_le _) copied
    have free : 0 ∉ entry.phone ++ [TextFile.newline] := not_mem_line phone.no_zero (by decide)
    have ended := (showPerson_eq_some shows).2
    rw [cells, Block.overlay_zero] at ended
    exact (prefix_cstring free ended).subset (List.mem_append_right _ (List.mem_singleton_self _))

/-- A line that was not read is no person. -/
theorem parses_nothing (person : Person) : ¬ Parses [] person := by
  rintro ⟨buffer, length, read, long, parsed⟩
  obtain ⟨whole, -⟩ := fgets_line (by simp) read
  obtain rfl : 0 = length := Option.some.inj (whole.symm.trans long)
  cases parsed

theorem showPerson_short {person : Person} {entry : Entry} (shown : showPerson person = some entry) :
    entry.name.length < nameLength ∧ entry.phone.length < phoneLength := by
  have short : ∀ {size} {field : Buffer UInt8 size} {text}, cstring field.cells = some text → text.length < size := by
    intro size field text ended
    obtain ⟨-, rest, cells⟩ := cstring_eq_some ended
    have whole := field.size
    rw [cells, List.length_append, List.length_cons] at whole
    omega
  obtain ⟨name, phone⟩ := showPerson_eq_some shown
  exact ⟨short name, short phone⟩

section trip

/-- Both fields are words that `scanf` has read. -/
def Read (entry : Entry) : Prop := Word entry.name ∧ Word entry.phone

/-- What is saved and loaded into an empty book is the same collection of entries. -/
def RoundTrips [DecidableEq P] (malloc : Malloc P) (heap : Heap P) (cts : Alpha P) : Prop :=
  ∃ content loaded code before after, cts.saveEntry = some content ∧
    (Alpha.empty heap).loadEntry malloc (some content) = some (loaded, code) ∧
    cts.entries = some before ∧ loaded.entries = some after ∧ after.Perm before

/-- The reads of a saved file are its lines and one more that gets nothing. -/
theorem reads_saved {book : List Entry} (words : ∀ entry ∈ book, Read entry)
    (short : ∀ entry ∈ book, entry.name.length < nameLength ∧ entry.phone.length < phoneLength) :
    TextFile.reads bufferLength (book.flatMap entryLine) = book.map entryLine ++ [[]] := by
  have read : TextFile.reads bufferLength ((book.map lineText).flatMap (· ++ [TextFile.newline]) ++ []) =
      (book.map lineText).map (· ++ [TextFile.newline]) ++ TextFile.reads bufferLength [] := by
    apply TextFile.reads_lines
    · intro line member
      obtain ⟨entry, inside, rfl⟩ := List.mem_map.mp member
      exact (lineText_plain (words entry inside).1 (words entry inside).2).2
    · intro line member
      obtain ⟨entry, inside, rfl⟩ := List.mem_map.mp member
      exact lineText_short (short entry inside).1 (short entry inside).2
  rw [List.append_nil, List.flatMap_map, List.map_map] at read
  exact read

/-- A saved book and the entries in it. -/
structure Saved (cts : Alpha P) (book : List Entry) : Prop where
  entries : cts.entries = some book
  words : ∀ entry ∈ book, Read entry
  reads : TextFile.reads bufferLength (book.flatMap entryLine) = book.map entryLine ++ [[]]

theorem saved {cts : Alpha P} {buckets : Fin alphaCount → List P} (filled : Filled Read cts buckets) :
    ∃ book, Saved cts book := by
  have words := filled.entries_fit filled.entries
  refine ⟨_, filled.entries, words, reads_saved words ?_⟩
  have short : Filled (fun entry => entry.name.length < nameLength ∧ entry.phone.length < phoneLength) cts buckets := by
    refine ⟨filled.shape, ?_⟩
    intro k p member
    obtain ⟨entry, shown, -⟩ := filled.shown k p member
    exact ⟨entry, shown, showPerson_short shown⟩
  exact short.entries_fit short.entries

variable [DecidableEq P] {malloc : Malloc P}

/-- Every phone in a book that was loaded has a newline. -/
theorem loaded_newline {heap : Heap P} {cts loaded : Alpha P} {book : List Entry} {code : Int} (saved : Saved cts book)
    (taken : (Alpha.empty heap).loadEntry malloc (some (book.flatMap entryLine)) = some (loaded, code)) :
    ∃ buckets, Filled (fun entry => TextFile.newline ∈ entry.phone) loaded buckets := by
  apply loadLines_keeps (fun cts => ∃ buckets, Filled (fun entry => TextFile.newline ∈ entry.phone) cts buckets) _ _
    ⟨_, empty_filled _ heap⟩ taken
  · rintro cts ⟨buckets, filled⟩
    exact ⟨buckets, filled.tick⟩
  · rintro cts k p person line ⟨buckets, filled⟩ fresh own member parsed
    rw [saved.reads] at member
    rcases List.mem_append.mp member with inside | last
    · obtain ⟨entry, inBook, rfl⟩ := List.mem_map.mp inside
      obtain ⟨name, phone⟩ := saved.words entry inBook
      obtain ⟨shown, shows, newline⟩ := parses_newline name phone parsed
      exact ⟨_, filled.link fresh own shows newline⟩
    · rw [List.mem_singleton.mp last] at parsed
      exact absurd parsed (parses_nothing person)

theorem round_trip_iff_empty (malloc : Malloc P) (heap : Heap P) (cts : Alpha P)
    (savable : ∃ buckets, Filled Read cts buckets) : RoundTrips malloc heap cts ↔ cts.entries = some [] := by
  obtain ⟨buckets, filled⟩ := savable
  obtain ⟨book, saved⟩ := saved filled
  constructor
  · rintro ⟨content, loaded, code, before, after, written, taken, shown, shown', perm⟩
    rw [Alpha.saveEntry, saved.entries] at written
    cases written
    obtain rfl : book = before := Option.some.inj (saved.entries.symm.trans shown)
    obtain ⟨others, newlines⟩ := loaded_newline saved taken
    cases book with
    | nil => exact shown
    | cons entry book =>
      have newline := newlines.entries_fit shown' entry (perm.mem_iff.mpr List.mem_cons_self)
      exact absurd newline (saved.words entry List.mem_cons_self).2.no_newline
  · intro empty
    refine ⟨[], Alpha.empty heap, 0, [], [], by rw [Alpha.saveEntry, empty]; rfl, rfl, empty, ?_, .refl _⟩
    rw [(empty_filled (fun _ => True) heap).entries]
    simp

end trip

def bobPerson : Person := ⟨⟨ascii "Bob" ++ List.replicate 12 0, rfl⟩, ⟨ascii "139" ++ List.replicate 17 0, rfl⟩⟩

def bobBook : Alpha Nat := (Alpha.empty countingHeap).link 1 1 bobPerson

theorem bobBook_filled : ∃ buckets, Filled Read bobBook buckets := by
  have name : Word (ascii "Bob") := ⟨by decide, by simp [ascii, space]⟩
  have phone : Word (ascii "139") := ⟨by decide, by simp [ascii, space]⟩
  have fits : Read ⟨ascii "Bob", ascii "139"⟩ := ⟨name, phone⟩
  exact ⟨_, (empty_filled Read countingHeap).link (by decide) rfl rfl fits⟩

theorem bobBook_trip : (∃ buckets, Filled Read bobBook buckets) ∧
    (RoundTrips counting countingHeap bobBook ↔ bobBook.entries = some []) :=
  ⟨bobBook_filled, round_trip_iff_empty counting countingHeap bobBook bobBook_filled⟩

/-- The phone comes back with the newline of its line. -/
theorem bobBook_changes : ¬ ∀ (P : Type) [DecidableEq P] (malloc : Malloc P) (heap : Heap P) (cts : Alpha P),
    (∃ buckets, Filled Read cts buckets) → RoundTrips malloc heap cts := by
  intro always
  obtain ⟨content, loaded, code, before, after, written, taken, shown, shown', perm⟩ :=
    always Nat counting countingHeap bobBook bobBook_filled
  have saves : bobBook.saveEntry = some (entryLine ⟨ascii "Bob", ascii "139"⟩) := by decide +kernel
  have shows : bobBook.entries = some [⟨ascii "Bob", ascii "139"⟩] := by decide +kernel
  have loads : ((Alpha.empty countingHeap).loadEntry counting (some (entryLine ⟨ascii "Bob", ascii "139"⟩))).map
      (fun result => result.1.entries) = some (some [⟨ascii "Bob", ascii "139" ++ [TextFile.newline]⟩]) := by
    decide +kernel
  rw [saves] at written
  cases written
  rw [taken] at loads
  rw [shows] at shown
  cases shown
  rw [Option.map_some, shown'] at loads
  cases loads
  exact absurd perm (by decide)

end NetPrograms.Proofs.BookRoundTrip
