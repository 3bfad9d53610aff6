import NetPrograms.AddressBook.Heap

/-! `paraser_token` of contact.c and of 26Alpha_contact.c with its indices. A read or a
write that leaves its array has no result. -/

namespace NetPrograms.AddressBook

/-- `name` or `phone`, with the `status` and `j` of its loop. -/
structure Field (size : Nat) where
  cells : Buffer UInt8 size
  status : Bool
  j : Nat

def Field.clear {size : Nat} : Field size := ⟨Buffer.fill 0, false, 0⟩

/-- The body of both loops. -/
def Field.take {size : Nat} (field : Field size) (byte : UInt8) : Option (Field size) :=
  if byte = space then
    some { field with status := true }
  else if field.status then do
    let cells ← field.cells.write field.j [byte]
    some { field with cells, j := field.j + 1 }
  else
    some field

/-- What `paraser_token` returns and has put into both arrays. -/
structure Token where
  code : Int
  name : Field nameLength
  phone : Field phoneLength

/-- The second loop, over the cells of the buffer from `i` on. -/
def phoneLoop (length : Nat) (phone : Field phoneLength) (i : Nat) : List UInt8 → Option (Field phoneLength)
  | [] => if i < length then none else some phone
  | byte :: rest =>
    if i < length then do
      let phone ← phone.take byte
      phoneLoop length phone (i + 1) rest
    else
      some phone

namespace Contact

/-- The first loop, which tests `buffer[i]` alone. -/
def nameLoop (name : Field nameLength) (i : Nat) : List UInt8 → Option (Field nameLength × Nat × List UInt8)
  | [] => none
  | byte :: rest =>
    if byte ≠ comma then do
      let name ← name.take byte
      nameLoop name (i + 1) rest
    else
      some (name, i, byte :: rest)

def scanToken (buffer : Buffer UInt8 bufferLength) (length : Nat) : Option Token :=
  if length < minLength then
    some ⟨-2, .clear, .clear⟩
  else do
    let (name, i, rest) ← nameLoop .clear 0 buffer.cells
    let phone ← phoneLoop length .clear i rest
    let _shown ← showPerson ⟨name.cells, phone.cells⟩
    some ⟨0, name, phone⟩

end Contact

namespace Alpha

/-- The first loop, which tests `buffer[i]` and then `i`. -/
def nameLoop (length : Nat) (name : Field nameLength) (i : Nat) :
    List UInt8 → Option (Field nameLength × Nat × List UInt8)
  | [] => none
  | byte :: rest =>
    if byte ≠ comma ∧ i < length then do
      let name ← name.take byte
      nameLoop length name (i + 1) rest
    else
      some (name, i, byte :: rest)

def scanToken (buffer : Buffer UInt8 bufferLength) (length : Nat) : Option Token :=
  if length < minLength then
    some ⟨-1, .clear, .clear⟩
  else do
    let (name, i, rest) ← nameLoop length .clear 0 buffer.cells
    let phone ← phoneLoop length .clear i rest
    let _shown ← showPerson ⟨name.cells, phone.cells⟩
    some ⟨0, name, phone⟩

end Alpha
end NetPrograms.AddressBook
