import NetPrograms.AddressBook.Heap

/-! The address book of contact.c, one list with its count. -/

namespace NetPrograms.AddressBook

structure Contact (P : Type) where
  heap : Heap P
  nnode : Option P
  count : Int

def Contact.empty {P : Type} (heap : Heap P) : Contact P := ⟨heap, none, 0⟩

namespace Contact
variable {P : Type} [DecidableEq P]

/-- A loop without a bound on `i` finds the end of the name, so a line without a
comma is read past the buffer. -/
def paraserToken (buffer : Buffer UInt8 bufferLength) (length : Nat) (name : Buffer UInt8 nameLength)
    (phone : Buffer UInt8 phoneLength) : Option (Int × Person) := do
  if length < minLength then
    some (-2, ⟨name, phone⟩)
  else
    let (text, rest) := buffer.cells.span (· ≠ comma)
    if rest = [] then none
    let name ← copyField name false 0 text
    let phone ← copyField phone false 0 ((buffer.cells.take length).drop text.length)
    let _shown ← showPerson ⟨name, phone⟩
    some (0, ⟨name, phone⟩)

variable (malloc : Malloc P)

/-- The turns of the loop of `load_file`, one for each line that is read. -/
def loadLines (cts : Contact P) : List (List UInt8) → Option (Contact P × Int)
  | [] => some (cts, 0)
  | line :: lines => do
    let buffer ← fgets line
    let length ← strlen buffer.cells
    let (code, person) ← paraserToken buffer length clearPerson.name clearPerson.phone
    if code = 0 then
      loadLines cts lines
    else
      match malloc.node cts.heap.time cts.heap.live with
      | none => some ({ cts with heap := cts.heap.tick }, -2)
      | some p =>
        if malloc.person cts.heap.time then
          let list := (cts.heap.allocate p person).personInsert cts.nnode p
          loadLines ⟨list.1, list.2, cts.count + 1⟩ lines
        else
          some ({ cts with heap := cts.heap.tick }, -3)

def loadFile (cts : Contact P) (file : Option (List UInt8)) : Option (Contact P × Int) :=
  match file with
  | none => some (cts, -1)
  | some content => cts.loadLines malloc (TextFile.reads bufferLength content)

def insertEntry (cts : Contact P) (name phone : List UInt8) : Option (Contact P × Reply) :=
  match malloc.node cts.heap.time cts.heap.live with
  | none => some ({ cts with heap := cts.heap.tick }, ⟨-2, none⟩)
  | some p =>
    if malloc.person cts.heap.time then do
      let person ← readPerson name phone
      let list := (cts.heap.allocate p person).personInsert cts.nnode p
      some (⟨list.1, list.2, cts.count + 1⟩, ⟨0, none⟩)
    else
      some ({ cts with heap := cts.heap.tick }, ⟨-3, none⟩)

def deleteEntry (cts : Contact P) (name : List UInt8) : Option (Contact P × Reply) := do
  let name ← scanf name clearPerson.name
  match ← cts.heap.personSearch cts.nnode name with
  | none => some (cts, ⟨-2, none⟩)
  | some person =>
    let list := cts.heap.personDelete cts.nnode person
    some ({ cts with heap := list.1.free person, nnode := list.2 }, ⟨0, none⟩)

def searchEntry (cts : Contact P) (name : List UInt8) : Option Reply := do
  let name ← scanf name clearPerson.name
  match ← cts.heap.personSearch cts.nnode name with
  | none => some ⟨-2, none⟩
  | some person =>
    let shown ← showPerson (cts.heap.data person)
    some ⟨0, some shown⟩

end Contact
end NetPrograms.AddressBook
