import NetPrograms.AddressBook.Alpha
import NetPrograms.AddressBook.Contact
import NetPrograms.Lib.Recent
import NetPrograms.Lib.Run

/-! What an address book is for, and the two programs as books. The abstract book
is the list of its entries, newest first. -/

namespace NetPrograms.AddressBook

/-- A byte of an ASCII letter. -/
def IsLetter (ch : UInt8) : Prop :=
  65 ≤ ch.toNat ∧ ch.toNat ≤ 90 ∨ 97 ≤ ch.toNat ∧ ch.toNat ≤ 122

/-- A name that the programs have room for. -/
structure Name where
  first : UInt8
  rest : List UInt8
  letter : IsLetter first
  text : 0 ∉ rest
  short : rest.length + 1 < nameLength

structure Phone where
  digits : List UInt8
  text : 0 ∉ digits
  short : digits.length < phoneLength

def Name.bytes (name : Name) : List UInt8 := name.first :: name.rest

inductive BookOp where
  | insert (name : Name) (phone : Phone)
  | delete (name : Name)
  | search (name : Name)

structure Outcome where
  success : Bool
  shown : Option Entry
deriving DecidableEq

def Reply.outcome (reply : Reply) : Outcome := ⟨reply.code = 0, reply.shown⟩

def bookStep (book : List Entry) : BookOp → List Entry × Outcome
  | .insert name phone => (⟨name.bytes, phone.digits⟩ :: book, ⟨true, none⟩)
  | .delete name =>
    (Recent.erase Entry.name book name.bytes, ⟨(Recent.find Entry.name book name.bytes).isSome, none⟩)
  | .search name =>
    let found := Recent.find Entry.name book name.bytes
    (book, ⟨found.isSome, found⟩)

/-- Every `malloc` has a result. -/
structure Malloc.Succeeds {P : Type} (malloc : Malloc P) : Prop where
  node : ∀ time live, (malloc.node time live).isSome
  person : ∀ time, malloc.person time = true

variable {P : Type} [DecidableEq P] (malloc : Malloc P)

def Contact.bookStep (cts : Contact P) : BookOp → Option (Contact P × Outcome)
  | .insert name phone => do
    let (cts, reply) ← cts.insertEntry malloc name.bytes phone.digits
    some (cts, reply.outcome)
  | .delete name => do
    let (cts, reply) ← cts.deleteEntry name.bytes
    some (cts, reply.outcome)
  | .search name => do
    let reply ← cts.searchEntry name.bytes
    some (cts, reply.outcome)

def BookOp.operation : BookOp → Operation
  | .insert name phone => .insert name.bytes phone.digits
  | .delete name => .delete name.bytes
  | .search name => .search name.bytes

def Alpha.bookStep (cts : Alpha P) (op : BookOp) : Option (Alpha P × Outcome) := do
  let (cts, reply) ← cts.step malloc op.operation
  some (cts, reply.outcome)

/-- An allocator that counts on. -/
def counting : Malloc Nat where
  node _ live := some (live.max?.getD 0 + 1)
  person _ := true
  fresh _ live p found := by
    cases found
    intro member
    exact absurd (List.le_max?_getD_of_mem member) (Nat.not_succ_le_self _)

theorem counting_succeeds : counting.Succeeds := ⟨fun _ _ => rfl, fun _ => rfl⟩

/-- No node yet, with arbitrary memory for both fields of each. -/
def countingHeap : Heap Nat := ⟨⟨fun _ => none, fun _ => none⟩, fun _ => clearPerson, [], 0⟩

end NetPrograms.AddressBook
