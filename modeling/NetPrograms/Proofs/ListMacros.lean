import NetPrograms.AddressBook.Heap
import NetPrograms.Lists.Macros
import NetPrograms.ThreadPool.Pool

/-! The list macros on a well-formed list. They follow no pointer to no node, and what they
do to the links is what the models of the address book and of the thread pool do. -/

namespace NetPrograms.Proofs.ListMacros
open NetPrograms.Lists

universe u
variable {P : Type u}

/-- The head pointer points to the list of these nodes: the first has no node before it,
the last none behind it, and neighbours point to each other. -/
structure Represents (memory : Memory P) (items : List P) : Prop where
  live : ∀ p ∈ items, memory.live p = true
  head : memory.list = items.head?
  linked : Segment memory.links none items none

theorem Represents.list {memory : Memory P} {items : List P} (represents : Represents memory items) :
    Linked memory.links memory.list items where
  head := represents.head
  nodup := represents.linked.path.nodup
  segment := represents.linked

/-- The nodes with other links and another head. -/
def relinked (memory : Memory P) (links : Links P) (list : Option P) : Memory P := { memory with links, list }

@[simp] theorem relinked_list (memory : Memory P) (links : Links P) (list : Option P) :
    (relinked memory links list).list = list := rfl

section accesses
variable {memory : Memory P} {p : P} (live : memory.live p = true) (links : Links P) (list : Option P)
include live

theorem node_live : (relinked memory links list).node (some p) = some p := Option.filter_eq_some_iff.mpr ⟨rfl, live⟩

theorem next_live : (relinked memory links list).next (some p) = some (links.next p) := by
  rw [Memory.next, node_live live, Option.map_some]
  rfl

theorem prev_live : (relinked memory links list).prev (some p) = some (links.prev p) := by
  rw [Memory.prev, node_live live, Option.map_some]
  rfl

variable [DecidableEq P] (target : Option P)

theorem setNext_live : (relinked memory links list).setNext (some p) target =
    some (relinked memory (links.setNext p target) list) := by
  rw [Memory.setNext, node_live live, Option.map_some]
  rfl

theorem setPrev_live : (relinked memory links list).setPrev (some p) target =
    some (relinked memory (links.setPrev p target) list) := by
  rw [Memory.setPrev, node_live live, Option.map_some]
  rfl

end accesses

section macros
variable [DecidableEq P] {memory : Memory P} {links : Links P} {list : Option P}

/-- A write through a pointer that was tested. -/
theorem setNextOf_live {p : Option P} (live : ∀ q, p = some q → memory.live q = true) (target : Option P) :
    (relinked memory links list).setNextOf p target = some (relinked memory (links.setNextOf p target) list) := by
  cases p with
  | none => rfl
  | some q =>
    rw [Memory.setNextOf, if_neg (Option.some_ne_none q), setNext_live (live q rfl)]
    rfl

theorem setPrevOf_live {p : Option P} (live : ∀ q, p = some q → memory.live q = true) (target : Option P) :
    (relinked memory links list).setPrevOf p target = some (relinked memory (links.setPrevOf p target) list) := by
  cases p with
  | none => rfl
  | some q =>
    rw [Memory.setPrevOf, if_neg (Option.some_ne_none q), setPrev_live (live q rfl)]
    rfl

theorem leaveHead_live {item : P} (live : memory.live item = true) : (relinked memory links list).leaveHead (some item) =
    some (relinked memory links (if list = some item then links.next item else list)) := by
  rw [Memory.leaveHead, relinked_list]
  by_cases head : list = some item
  · subst head
    rw [if_pos rfl, if_pos rfl, next_live live]
    rfl
  · rw [if_neg head, if_neg head]

/-- An insertion follows the pointers to the new node and to the head only. -/
theorem listInsert_live {item : P} (live : memory.live item = true) (head : ∀ p, list = some p → memory.live p = true) :
    (relinked memory links list).listInsert (some item) =
      some (relinked memory (links.listInsert item list).1 (links.listInsert item list).2) := by
  simp only [Memory.listInsert, setPrev_live live, setNext_live live, relinked_list, setPrevOf_live head,
    Option.bind_eq_bind, Option.bind_some]
  rfl

/-- A removal follows the pointers to the node and to its neighbours only. -/
theorem listRemove_live {item : P} (live : memory.live item = true)
    (before : ∀ p, links.prev item = some p → memory.live p = true)
    (behind : ∀ p, links.next item = some p → memory.live p = true) :
    (relinked memory links list).listRemove (some item) =
      some (relinked memory (links.listRemove item list).1 (links.listRemove item list).2) := by
  simp only [Memory.listRemove, leaveHead_live live, prev_live live, next_live live, setNextOf_live before,
    Links.setNextOf_prev, Links.setNextOf_next_self, setPrevOf_live behind, setNext_live live, setPrev_live live,
    Option.bind_eq_bind, Option.bind_some, Links.listRemove]

end macros

namespace Represents
variable {memory : Memory P} {items front back : List P} {item : P}

theorem of_linked {links : Links P} {list : Option P} (linked : Linked links list items)
    (live : ∀ p ∈ items, memory.live p = true) : Represents (relinked memory links list) items where
  live := live
  head := linked.head
  linked := linked.segment

theorem nonempty (represents : Represents memory (front ++ item :: back)) : memory.list ≠ none := by
  rw [represents.head]
  simp

variable [DecidableEq P]

/-- On a well-formed list the macro has a result, and it is the insertion into the links. -/
theorem insert_eq (represents : Represents memory items) (live : memory.live item = true) :
    memory.listInsert (some item) = some (relinked memory (memory.links.listInsert item memory.list).1
      (memory.links.listInsert item memory.list).2) := by
  apply listInsert_live live
  intro p head
  rw [represents.head] at head
  exact represents.live p (List.mem_of_head? head)

theorem remove_eq (represents : Represents memory (front ++ item :: back)) :
    memory.listRemove (some item) = some (relinked memory (memory.links.listRemove item memory.list).1
      (memory.links.listRemove item memory.list).2) := by
  obtain ⟨prev, next⟩ := represents.list.links_at
  apply listRemove_live
  · exact represents.live item (List.mem_append_right front List.mem_cons_self)
  · intro p before
    rw [prev] at before
    exact represents.live p (List.mem_append_left _ (List.mem_of_getLast? before))
  · intro p behind
    rw [next] at behind
    exact represents.live p (List.mem_append_right front (List.mem_cons_of_mem item (List.mem_of_head? behind)))

theorem insert (represents : Represents memory items) (live : memory.live item = true) (fresh : item ∉ items) :
    ∃ after, memory.listInsert (some item) = some after ∧ Represents after (item :: items) := by
  refine ⟨_, represents.insert_eq live, of_linked (represents.list.insert fresh) ?_⟩
  exact List.forall_mem_cons.mpr ⟨live, represents.live⟩

theorem remove (represents : Represents memory (front ++ item :: back)) :
    ∃ after, memory.listRemove (some item) = some after ∧ Represents after (front ++ back) ∧
      after.links.prev item = none ∧ after.links.next item = none ∧
      ∀ q, q ≠ item → front.getLast? ≠ some q → back.head? ≠ some q →
        after.links.prev q = memory.links.prev q ∧ after.links.next q = memory.links.next q := by
  obtain ⟨prev, next⟩ := memory.links.listRemove_self item memory.list
  refine ⟨_, represents.remove_eq, of_linked represents.list.remove ?_, prev, next, ?_⟩
  · intro p member
    exact represents.live p (List.perm_middle.mem_iff.mpr (List.mem_cons_of_mem item member))
  · intro q other last first
    exact represents.list.remove_frame other last first

end Represents

section calls
variable [DecidableEq P] {memory : Memory P} {items front back : List P} {item : P}

theorem personInsert_represents (represents : Represents memory items) (live : memory.live item = true)
    (fresh : item ∉ items) : ∃ after, memory.personInsert (some item) = some (after, 0) ∧ Represents after (item :: items) := by
  obtain ⟨after, inserted, represents⟩ := represents.insert live fresh
  refine ⟨after, ?_, represents⟩
  rw [Memory.personInsert, if_neg (Option.some_ne_none item), inserted, Option.map_some]

theorem personDelete_represents (represents : Represents memory (front ++ item :: back)) :
    ∃ after, memory.personDelete (some item) = some (after, 0) ∧ Represents after (front ++ back) := by
  obtain ⟨after, removed, kept, -⟩ := represents.remove
  refine ⟨after, ?_, kept⟩
  rw [Memory.personDelete, if_neg (Option.some_ne_none item), if_neg represents.nonempty, removed, Option.map_some]

end calls

section models
open AddressBook ThreadPool

/-- The nodes of an address book, with the head pointer of one list. -/
def bookMemory {P : Type} [DecidableEq P] (heap : Heap P) (people : Option P) : Memory P where
  live p := decide (p ∈ heap.live)
  links := heap.links
  list := people

theorem book_personInsert {P : Type} [DecidableEq P] {heap : Heap P} {people : Option P} {items : List P} {p : P}
    (represents : Represents (bookMemory heap people) items) (live : p ∈ heap.live) :
    (bookMemory heap people).personInsert (some p) =
      some (bookMemory (heap.personInsert people p).1 (heap.personInsert people p).2, 0) := by
  rw [Memory.personInsert, if_neg (Option.some_ne_none p), represents.insert_eq (by simpa [bookMemory] using live)]
  rfl

theorem book_personDelete {P : Type} [DecidableEq P] {heap : Heap P} {people : Option P} {front back : List P} {p : P}
    (represents : Represents (bookMemory heap people) (front ++ p :: back)) :
    (bookMemory heap people).personDelete (some p) =
      some (bookMemory (heap.personDelete people p).1 (heap.personDelete people p).2, 0) := by
  have nonempty := represents.nonempty
  rw [Memory.personDelete, if_neg (Option.some_ne_none p), if_neg nonempty, represents.remove_eq]
  cases people with
  | none => exact absurd rfl nonempty
  | some first => rfl

/-- The tasks of a pool, of which `live` tells which are still allocated. -/
def taskMemory {n : Nat} {T : Type} (live : T → Bool) (pool : Pool n T) : Memory T where
  live
  links := pool.links
  list := pool.tasks

theorem pool_push {n : Nat} {T : Type} [DecidableEq T] {live : T → Bool} {pool : Pool n T} {tasks : List T} {task : T}
    (represents : Represents (taskMemory live pool) tasks) (allocated : live task = true) :
    (taskMemory live pool).listInsert (some task) = some (taskMemory live (pool.nThreadPoolPushTask task)) := by
  rw [represents.insert_eq allocated]
  rfl

theorem pool_serve {n : Nat} {T : Type} [DecidableEq T] {live : T → Bool} {pool : Pool n T} {tasks : List T} {task : T}
    (represents : Represents (taskMemory live pool) (task :: tasks)) {worker : Fin n} (on : pool.terminate worker = false) :
    (taskMemory live pool).listRemove (some task) = some (taskMemory live (pool.serve worker)) := by
  have head : pool.tasks = some task := represents.head
  have split : Represents (taskMemory live pool) ([] ++ task :: tasks) := represents
  rw [split.remove_eq, Pool.serve, head]
  simp [on, taskMemory, relinked, head]

end models

/-- Both macros keep a list well formed. A removal leaves its node without links and changes
the links of no node but that one and its two neighbours. -/
theorem macros_keep_lists [DecidableEq P] (memory : Memory P) (items : List P) (represents : Represents memory items) :
    (∀ item, memory.live item = true → item ∉ items →
      ∃ after, memory.listInsert (some item) = some after ∧ Represents after (item :: items)) ∧
    ∀ front item back, items = front ++ item :: back →
      ∃ after, memory.listRemove (some item) = some after ∧ Represents after (front ++ back) ∧
        after.links.prev item = none ∧ after.links.next item = none ∧
        ∀ q, q ≠ item → front.getLast? ≠ some q → back.head? ≠ some q →
          after.links.prev q = memory.links.prev q ∧ after.links.next q = memory.links.next q := by
  constructor
  · intro item live fresh
    exact represents.insert live fresh
  · intro front item back split
    subst split
    exact represents.remove

/-- The nodes 1, 2 and 3 in a list, and node 0 with links that mean nothing. -/
private def three : Memory Nat where
  live p := decide (p < 4)
  links := {
    next := fun p => if p = 3 then none else some (p + 1)
    prev := fun p => if p = 1 then none else some (p - 1) }
  list := some 1

theorem middle_removed : (∃ after, three.listInsert (some 0) = some after ∧ Represents after [0, 1, 2, 3]) ∧
    ∃ after, three.listRemove (some 2) = some after ∧ Represents after [1, 3] ∧
      after.links.prev 2 = none ∧ after.links.next 2 = none ∧ after.links.next 0 = some 1 := by
  have represents : Represents three [1, 2, 3] := ⟨by decide, rfl, rfl, rfl, rfl, rfl, rfl, rfl, trivial⟩
  obtain ⟨insert, remove⟩ := macros_keep_lists three [1, 2, 3] represents
  refine ⟨insert 0 (by decide) (by decide), ?_⟩
  obtain ⟨after, removed, kept, prev, next, frame⟩ := remove [1] 2 [3] rfl
  exact ⟨after, removed, kept, prev, next, (frame 0 (by decide) (by decide) (by decide)).2⟩

end NetPrograms.Proofs.ListMacros
