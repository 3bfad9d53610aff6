import Mathlib.Data.Fin.Basic
import NetPrograms.AddressBook.Heap

/-! The address book of 26Alpha_contact.c, a list for each first letter and one count. -/

namespace NetPrograms.AddressBook

abbrev alphaCount : Nat := 26

structure Alpha (P : Type) where
  heap : Heap P
  heads : Fin alphaCount → Option P
  count : Int

/-- The operations of the menu with their input. A file that cannot be opened is none. -/
inductive Operation where
  | insert (name phone : List UInt8)
  | delete (name : List UInt8)
  | search (name : List UInt8)
  | save (opened : Bool)
  | load (file : Option (List UInt8))

theorem upper_index {ch : UInt8} (upper : 65 ≤ ch.toNat ∧ ch.toNat ≤ 90) : ch.toNat - 65 < alphaCount :=
  show _ < 26 by omega

theorem lower_index {ch : UInt8} (lower : 97 ≤ ch.toNat ∧ ch.toNat ≤ 122) : ch.toNat - 97 < alphaCount :=
  show _ < 26 by omega

def getIndexByName : List UInt8 → Option (Fin alphaCount)
  | [] => none
  | ch :: _ =>
    if upper : 65 ≤ ch.toNat ∧ ch.toNat ≤ 90 then
      some ⟨ch.toNat - 65, upper_index upper⟩
    else if lower : 97 ≤ ch.toNat ∧ ch.toNat ≤ 122 then
      some ⟨ch.toNat - 97, lower_index lower⟩
    else none

def Alpha.empty {P : Type} (heap : Heap P) : Alpha P := ⟨heap, fun _ => none, 0⟩

namespace Alpha
variable {P : Type} [DecidableEq P]

def paraserToken (buffer : Buffer UInt8 bufferLength) (length : Nat) (name : Buffer UInt8 nameLength)
    (phone : Buffer UInt8 phoneLength) : Option (Int × Person) := do
  if length < minLength then
    some (-1, ⟨name, phone⟩)
  else
    let (text, rest) := (buffer.cells.take length).span (· ≠ comma)
    let name ← copyField name false 0 text
    let phone ← copyField phone false 0 rest
    let _shown ← showPerson ⟨name, phone⟩
    some (0, ⟨name, phone⟩)

/-- A new node in the list of an index. -/
def link (cts : Alpha P) (index : Fin alphaCount) (p : P) (person : Person) : Alpha P :=
  let list := (cts.heap.allocate p person).personInsert (cts.heads index) p
  ⟨list.1, Function.update cts.heads index list.2, cts.count + 1⟩

/-- `person_delete` and the two calls of `free`. -/
def unlink (cts : Alpha P) (index : Fin alphaCount) (person : P) : Alpha P :=
  let list := cts.heap.personDelete (cts.heads index) person
  { cts with heap := list.1.free person, heads := Function.update cts.heads index list.2 }

def tick (cts : Alpha P) : Alpha P := { cts with heap := cts.heap.tick }

variable (malloc : Malloc P)

def insertEntry (cts : Alpha P) (name phone : List UInt8) : Option (Alpha P × Reply) :=
  match malloc.node cts.heap.time cts.heap.live with
  | none => some (cts.tick, ⟨-2, none⟩)
  | some p =>
    if malloc.person cts.heap.time then do
      let person ← readPerson name phone
      match getIndexByName person.name.cells with
      | none => some (cts.tick, ⟨-4, none⟩)
      | some index => some (cts.link index p person, ⟨0, none⟩)
    else
      some (cts.tick, ⟨-3, none⟩)

def deleteEntry (cts : Alpha P) (name : List UInt8) : Option (Alpha P × Reply) := do
  let name ← scanf name clearPerson.name
  match getIndexByName name.cells with
  | none => some (cts, ⟨-2, none⟩)
  | some index =>
    match ← cts.heap.personSearch (cts.heads index) name with
    | none => some (cts, ⟨-3, none⟩)
    | some person => some (cts.unlink index person, ⟨0, none⟩)

def searchEntry (cts : Alpha P) (name : List UInt8) : Option Reply := do
  let name ← scanf name clearPerson.name
  match getIndexByName name.cells with
  | none => some ⟨-2, none⟩
  | some index =>
    match ← cts.heap.personSearch (cts.heads index) name with
    | none => some ⟨-3, none⟩
    | some person =>
      let shown ← showPerson (cts.heap.data person)
      some ⟨0, some shown⟩

/-- The entries in the order of the lists. -/
def entries (cts : Alpha P) : Option (List Entry) := do
  let lists ← (List.finRange alphaCount).mapM fun i => cts.heap.entries (cts.heads i)
  some lists.flatten

/-- What `save_entry` writes. -/
def saveEntry (cts : Alpha P) : Option (List UInt8) := do
  let entries ← cts.entries
  some (entries.flatMap entryLine)

/-- The turns of the loop of `load_entry`, one for each line that is read. -/
def loadLines (cts : Alpha P) : List (List UInt8) → Option (Alpha P × Int)
  | [] => some (cts, 0)
  | line :: lines => do
    let buffer ← fgets line
    let length ← strlen buffer.cells
    let (code, person) ← paraserToken buffer length clearPerson.name clearPerson.phone
    if code ≠ 0 then
      loadLines cts lines
    else
      match getIndexByName person.name.cells with
      | none => loadLines cts lines
      | some index =>
        match malloc.node cts.heap.time cts.heap.live with
        | none => some (cts.tick, -3)
        | some p =>
          if malloc.person cts.heap.time then
            loadLines (cts.link index p person) lines
          else
            some (cts.tick, -4)

def loadEntry (cts : Alpha P) (file : Option (List UInt8)) : Option (Alpha P × Int) :=
  match file with
  | none => some (cts, -2)
  | some content => cts.loadLines malloc (TextFile.reads bufferLength content)

def step (cts : Alpha P) : Operation → Option (Alpha P × Reply)
  | .insert name phone => cts.insertEntry malloc name phone
  | .delete name => cts.deleteEntry name
  | .search name => do
    let reply ← cts.searchEntry name
    some (cts, reply)
  | .save opened =>
    if opened then do
      let _file ← cts.saveEntry
      some (cts, ⟨0, none⟩)
    else some (cts, ⟨-2, none⟩)
  | .load file => do
    let (cts, code) ← cts.loadEntry malloc file
    some (cts, ⟨code, none⟩)

end Alpha
end NetPrograms.AddressBook
