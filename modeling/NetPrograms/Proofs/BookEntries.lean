import NetPrograms.AddressBook.Book
import NetPrograms.Proofs.BookChains

/-! What the programs read of an input and of a list of nodes, in terms of the
entries of the abstract book. -/

namespace NetPrograms.Proofs.BookEntries
open AddressBook BookChains

variable {P : Type}

section input
variable {size : Nat} {word : List UInt8}

theorem scanf_fits (fits : word.length < size) (free : 0 ∉ word) (field : Buffer UInt8 size) :
    ∃ filled, scanf word field = some filled ∧ cstring filled.cells = some word := by
  obtain ⟨filled, written, cells⟩ := field.write_of_le 0 (word ++ [0]) (by simp; omega)
  refine ⟨filled, written, ?_⟩
  rw [cells, Block.overlay_zero, List.append_assoc]
  exact cstring_append free _

theorem Name.terminated (name : Name) : 0 ∉ name.bytes := by
  intro member
  rcases List.mem_cons.mp member with first | rest
  · have letter := name.letter
    rw [← first] at letter
    simp [IsLetter] at letter
  · exact name.text rest

theorem readPerson_shown (name : Name) (phone : Phone) : ∃ person, readPerson name.bytes phone.digits = some person ∧
    showPerson person = some ⟨name.bytes, phone.digits⟩ := by
  obtain ⟨first, named, firstText⟩ := scanf_fits name.short (Name.terminated name) clearPerson.name
  obtain ⟨second, phoned, secondText⟩ := scanf_fits phone.short phone.text clearPerson.phone
  refine ⟨⟨first, second⟩, ?_, ?_⟩
  · rw [readPerson, named]
    simp [phoned]
  · rw [showPerson, firstText]
    simp [secondText]

end input

section index

theorem getIndexByName_cells {cells text : List UInt8} (named : cstring cells = some text) :
    getIndexByName cells = getIndexByName text := by
  obtain ⟨free, rest, rfl⟩ := cstring_eq_some named
  cases text with
  | nil => rfl
  | cons ch text => rfl

/-- The letter of an index, in either case. -/
def HasIndex (text : List UInt8) (k : Fin alphaCount) : Prop :=
  ∃ ch rest, text = ch :: rest ∧ (ch.toNat = 65 + k.val ∨ ch.toNat = 97 + k.val)

theorem hasIndex_iff (text : List UInt8) (k : Fin alphaCount) : getIndexByName text = some k ↔ HasIndex text k := by
  have inside : k.val < 26 := k.isLt
  cases text with
  | nil => simp [getIndexByName, HasIndex]
  | cons ch rest =>
    have one : HasIndex (ch :: rest) k ↔ ch.toNat = 65 + k.val ∨ ch.toNat = 97 + k.val := by
      simp [HasIndex]
    rw [one, getIndexByName]
    split
    next upper =>
      simp only [Option.some.injEq, Fin.ext_iff]
      omega
    next notUpper =>
      split
      next lower =>
        simp only [Option.some.injEq, Fin.ext_iff]
        omega
      next notLower =>
        simp
        omega

theorem Name.index (name : Name) : ∃ k, getIndexByName name.bytes = some k := by
  rcases name.letter with upper | lower
  · exact ⟨⟨name.first.toNat - 65, show _ < 26 by omega⟩, (hasIndex_iff ..).mpr ⟨_, _, rfl, .inl (by simp; omega)⟩⟩
  · exact ⟨⟨name.first.toNat - 97, show _ < 26 by omega⟩, (hasIndex_iff ..).mpr ⟨_, _, rfl, .inr (by simp; omega)⟩⟩

end index

/-- The entries that the nodes of a list show. -/
structure Shown (heap : Heap P) (items : List P) (entries : List Entry) : Prop where
  printable : ∀ p ∈ items, Printable heap p
  entries : items.map (entryOf heap) = entries

namespace Shown
variable {heap after : Heap P} {items : List P} {entries : List Entry} {text : List UInt8} (shown : Shown heap items entries)
include shown

theorem congr (same : ∀ p ∈ items, after.data p = heap.data p) : Shown after items entries := by
  refine ⟨?_, ?_⟩
  · intro p member
    rw [Printable, same p member]
    exact shown.printable p member
  · rw [← shown.entries]
    apply List.map_congr_left
    intro p member
    rw [entryOf, entryOf, same p member]

theorem cons {p : P} {entry : Entry} (here : showPerson (heap.data p) = some entry) :
    Shown heap (p :: items) (entry :: entries) := by
  refine ⟨?_, ?_⟩
  · intro q member
    rcases List.mem_cons.mp member with same | earlier
    · rw [same, Printable, here]
      rfl
    · exact shown.printable q earlier
  · rw [List.map_cons, entryOf, here, shown.entries]
    rfl

theorem find : Recent.find Entry.name entries text =
    (items.find? fun p => (entryOf heap p).name = text).map (entryOf heap) := by
  unfold Recent.find
  rw [← shown.entries, List.find?_map]
  rfl

/-- The node that is found is the one that the abstract book erases. -/
theorem erase {p : P} (found : (items.find? fun p => (entryOf heap p).name = text) = some p) :
    ∃ front back, items = front ++ p :: back ∧ Shown heap (front ++ back) (Recent.erase Entry.name entries text) := by
  obtain ⟨named, front, back, rfl, before⟩ := List.find?_eq_some_iff_append.mp found
  refine ⟨front, back, rfl, ?_, ?_⟩
  · intro q member
    exact shown.printable q (List.perm_middle.mem_iff.mpr (List.mem_cons_of_mem p member))
  · unfold Recent.erase
    rw [← shown.entries, List.eraseP_map, List.eraseP_append_right, List.eraseP_cons_of_pos]
    · simpa using named
    · intro q member
      simpa using before q member

theorem missing (missing : (items.find? fun p => (entryOf heap p).name = text) = none) :
    Recent.erase Entry.name entries text = entries := by
  apply List.eraseP_of_forall_not
  intro entry member
  rw [← shown.entries] at member
  obtain ⟨p, inside, rfl⟩ := List.mem_map.mp member
  simpa using List.find?_eq_none.mp missing p inside

end Shown

section lines

/-- The line of an entry without its newline. -/
def lineText (entry : Entry) : List UInt8 := ascii "name: " ++ entry.name ++ ascii ",phone: " ++ entry.phone

theorem lineText_short {entry : Entry} (name : entry.name.length < nameLength) (phone : entry.phone.length < phoneLength) :
    (lineText entry).length + 2 ≤ bufferLength := by
  have front : (ascii "name: ").length = 6 := rfl
  have middle : (ascii ",phone: ").length = 8 := rfl
  simp only [nameLength, phoneLength] at name phone
  simp only [lineText, List.length_append, front, middle, bufferLength]
  omega

theorem fgets_line {line : List UInt8} {buffer : Buffer UInt8 bufferLength} (free : 0 ∉ line) (read : fgets line = some buffer) :
    strlen buffer.cells = some line.length ∧ buffer.cells.take line.length = line := by
  obtain ⟨-, cells⟩ := Buffer.write_eq_some read
  rw [cells, Block.overlay_zero, List.append_assoc]
  exact ⟨strlen_append free _, List.take_left⟩

/-- The length of a line is not more than what was read. -/
theorem strlen_fgets {line : List UInt8} {buffer : Buffer UInt8 bufferLength} {length : Nat} (read : fgets line = some buffer)
    (long : strlen buffer.cells = some length) : length ≤ line.length := by
  obtain ⟨-, cells⟩ := Buffer.write_eq_some read
  rw [cells, Block.overlay_zero, List.append_assoc] at long
  obtain ⟨inside, zero, before⟩ := List.findIdx?_eq_some_iff_getElem.mp long
  apply Nat.le_of_not_lt
  intro beyond
  have other := before line.length beyond
  simp at other

end lines
end NetPrograms.Proofs.BookEntries
