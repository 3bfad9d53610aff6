import NetPrograms.Lib.Linked

/-! `LIST_INSERT` and `LIST_REMOVE`, which are the same text in contact.c, 26Alpha_contact.c
and threadpool.c, one access after the other, and the functions of contact.c around
them. An access through a pointer to no node has no result. -/

namespace NetPrograms.Lists

universe u

/-- The nodes with their links, and the head pointer. The other fields of a node are
in none of the macros. -/
structure Memory (P : Type u) where
  live : P → Bool
  links : Links P
  list : Option P

namespace Memory
variable {P : Type u}

/-- The node that a pointer points to, if it is not null. -/
def node (memory : Memory P) (p : Option P) : Option P := p.filter memory.live

def next (memory : Memory P) (p : Option P) : Option (Option P) := (memory.node p).map memory.links.next

def prev (memory : Memory P) (p : Option P) : Option (Option P) := (memory.node p).map memory.links.prev

variable [DecidableEq P]

def setNext (memory : Memory P) (p target : Option P) : Option (Memory P) :=
  (memory.node p).map fun p => { memory with links := memory.links.setNext p target }

def setPrev (memory : Memory P) (p target : Option P) : Option (Memory P) :=
  (memory.node p).map fun p => { memory with links := memory.links.setPrev p target }

/-- `if (p) p->next = target;` -/
def setNextOf (memory : Memory P) (p target : Option P) : Option (Memory P) :=
  if p = none then some memory else memory.setNext p target

def setPrevOf (memory : Memory P) (p target : Option P) : Option (Memory P) :=
  if p = none then some memory else memory.setPrev p target

def listInsert (memory : Memory P) (item : Option P) : Option (Memory P) := do
  let memory ← memory.setPrev item none
  let memory ← memory.setNext item memory.list
  let memory ← memory.setPrevOf memory.list item
  some { memory with list := item }

/-- `if ((list) == item) (list) = (list)->next;` -/
def leaveHead (memory : Memory P) (item : Option P) : Option (Memory P) :=
  if memory.list = item then
    (memory.next memory.list).map fun next => { memory with list := next }
  else
    some memory

def listRemove (memory : Memory P) (item : Option P) : Option (Memory P) := do
  let memory ← memory.leaveHead item
  let memory ← memory.setNextOf (← memory.prev item) (← memory.next item)
  let memory ← memory.setPrevOf (← memory.next item) (← memory.prev item)
  let memory ← memory.setNext item none
  memory.setPrev item none

/-- The head pointer of the memory is `*ppeople`. -/
def personInsert (memory : Memory P) (ps : Option P) : Option (Memory P × Int) :=
  if ps = none then
    some (memory, -1)
  else
    (memory.listInsert ps).map fun memory => (memory, 0)

def personDelete (memory : Memory P) (ps : Option P) : Option (Memory P × Int) :=
  if ps = none then
    some (memory, -1)
  else if memory.list = none then
    some (memory, -2)
  else
    (memory.listRemove ps).map fun memory => (memory, 0)

end Memory
end NetPrograms.Lists
