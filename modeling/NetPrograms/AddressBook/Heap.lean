import NetPrograms.Lib.Block
import NetPrograms.Lib.CString
import NetPrograms.Lib.Linked
import NetPrograms.Lib.TextFile

/-! What contact.c and 26Alpha_contact.c have in common: nodes with a person each,
the list functions, input and the lines of a saved book. A node and the person that
its `data` points to are one record, since no person is shared. -/

namespace NetPrograms.AddressBook

abbrev nameLength : Nat := 15
abbrev phoneLength : Nat := 20
abbrev bufferLength : Nat := 128
abbrev minLength : Nat := 5

structure Person where
  name : Buffer UInt8 nameLength
  phone : Buffer UInt8 phoneLength

/-- The result of each `malloc` of a node and of a person. A node is never one that
is in use. -/
structure Malloc (P : Type) where
  node : Nat → List P → Option P
  person : Nat → Bool
  fresh : ∀ time live p, node time live = some p → p ∉ live

structure Heap (P : Type) where
  links : Links P
  data : P → Person
  live : List P
  time : Nat

/-- What a reader of the book sees of a person. -/
structure Entry where
  name : List UInt8
  phone : List UInt8
deriving DecidableEq

structure Reply where
  code : Int
  shown : Option Entry
deriving DecidableEq

/-- `scanf` with `%s`, which puts a zero behind the word. A word that does not fit
leaves the field. -/
def scanf {size : Nat} (word : List UInt8) (field : Buffer UInt8 size) : Option (Buffer UInt8 size) :=
  field.write 0 (word ++ [0])

def clearPerson : Person := ⟨Buffer.fill 0, Buffer.fill 0⟩

def readPerson (name phone : List UInt8) : Option Person := do
  let name ← scanf name clearPerson.name
  let phone ← scanf phone clearPerson.phone
  some ⟨name, phone⟩

/-- What `printf` shows with `%s`. -/
def showPerson (person : Person) : Option Entry := do
  let name ← cstring person.name.cells
  let phone ← cstring person.phone.cells
  some ⟨name, phone⟩

/-- `fprintf` with `"name: %s,phone: %s\n"`. -/
def entryLine (entry : Entry) : List UInt8 :=
  ascii "name: " ++ entry.name ++ ascii ",phone: " ++ entry.phone ++ [TextFile.newline]

namespace Heap
variable {P : Type} [DecidableEq P]

def tick (heap : Heap P) : Heap P := { heap with time := heap.time + 1 }

def allocate (heap : Heap P) (p : P) (person : Person) : Heap P :=
  { heap.tick with data := Function.update heap.data p person, live := p :: heap.live }

def free (heap : Heap P) (p : P) : Heap P := { heap with live := heap.live.erase p }

/-- `LIST_INSERT` overwrites both links of the node, whatever `memset` made them. -/
def personInsert (heap : Heap P) (people : Option P) (ps : P) : Heap P × Option P :=
  let list := heap.links.listInsert ps people
  ({ heap with links := list.1 }, list.2)

def personDelete (heap : Heap P) (people : Option P) (ps : P) : Heap P × Option P :=
  match people with
  | none => (heap, none)
  | some _ =>
    let list := heap.links.listRemove ps people
    ({ heap with links := list.1 }, list.2)

def personSearch (heap : Heap P) (people : Option P) (name : Buffer UInt8 nameLength) : Option (Option P) :=
  heap.links.scan (fun item => strcmpZero (heap.data item).name.cells name.cells) heap.live.length people

/-- The entries that a traversal shows, in its order. -/
def entries (heap : Heap P) (people : Option P) : Option (List Entry) := do
  let items ← heap.links.toList heap.live.length people
  items.mapM fun item => showPerson (heap.data item)

end Heap

def space : UInt8 := 32
def comma : UInt8 := 44

/-- The loop of `paraser_token` over the bytes of one field: from the first space on
each byte that is not a space is put into `field`. -/
def copyField {size : Nat} (field : Buffer UInt8 size) (status : Bool) (j : Nat) : List UInt8 → Option (Buffer UInt8 size)
  | [] => some field
  | byte :: rest =>
    if byte = space then
      copyField field true j rest
    else if status then do
      let field ← field.write j [byte]
      copyField field status (j + 1) rest
    else
      copyField field status j rest

/-- The buffer of a line after `fgets`. -/
def fgets (line : List UInt8) : Option (Buffer UInt8 bufferLength) :=
  (Buffer.fill 0 : Buffer UInt8 bufferLength).write 0 (line ++ [0])

end NetPrograms.AddressBook
