import Mathlib.Algebra.Order.Ring.Int
import Mathlib.Data.List.Perm.Subperm
import NetPrograms.AddressBook.Heap

/-! One list of nodes of an address book under allocation, insertion, search and
deletion, and the lists beside it. -/

namespace NetPrograms.Proofs.BookChains
open AddressBook

variable {P : Type}

structure Chain (heap : Heap P) (people : Option P) (items : List P) : Prop where
  linked : Linked heap.links people items
  live : ∀ p ∈ items, p ∈ heap.live

def Printable (heap : Heap P) (p : P) : Prop := (showPerson (heap.data p)).isSome

/-- The entry of a printable node. -/
def entryOf (heap : Heap P) (p : P) : Entry := (showPerson (heap.data p)).getD ⟨[], []⟩

theorem Printable.show {heap : Heap P} {p : P} (printable : Printable heap p) :
    showPerson (heap.data p) = some (entryOf heap p) := by
  obtain ⟨entry, shown⟩ := Option.isSome_iff_exists.mp printable
  rw [entryOf, shown, Option.getD_some]

theorem showPerson_eq_some {person : Person} {entry : Entry} (shown : showPerson person = some entry) :
    cstring person.name.cells = some entry.name ∧ cstring person.phone.cells = some entry.phone := by
  obtain ⟨name, named, rest⟩ := Option.bind_eq_some_iff.mp shown
  obtain ⟨phone, phoned, same⟩ := Option.bind_eq_some_iff.mp rest
  cases same
  exact ⟨named, phoned⟩

theorem mapM_total {α β : Type} {f : α → Option β} {g : α → β} {items : List α} (total : ∀ item ∈ items, f item = some (g item)) :
    items.mapM f = some (items.map g) := by
  induction items with
  | nil => rfl
  | cons item items ih =>
    rw [List.mapM_cons, total item List.mem_cons_self, ih fun other member => total other (List.mem_cons_of_mem item member)]
    rfl

namespace Chain
variable {heap : Heap P} {people : Option P} {items : List P} (chain : Chain heap people items)
include chain

theorem short : items.length ≤ heap.live.length :=
  (chain.linked.nodup.subperm chain.live).length_le

theorem entries (printable : ∀ p ∈ items, Printable heap p) : heap.entries people = some (items.map (entryOf heap)) := by
  unfold Heap.entries
  rw [chain.linked.path.toList chain.short]
  exact mapM_total fun p member => (printable p member).show

theorem search (printable : ∀ p ∈ items, Printable heap p) {name : Buffer UInt8 nameLength} {text : List UInt8}
    (named : cstring name.cells = some text) :
    heap.personSearch people name = some (items.find? fun p => (entryOf heap p).name = text) := by
  apply chain.linked.path.scan chain.short
  intro p member
  obtain ⟨here, -⟩ := showPerson_eq_some (printable p member).show
  obtain ⟨free, rest, cells⟩ := cstring_eq_some here
  obtain ⟨free', rest', cells'⟩ := cstring_eq_some named
  rw [cells, cells', strcmpZero_append free free']

theorem tick : Chain heap.tick people items := ⟨chain.linked, chain.live⟩

variable [DecidableEq P]

theorem insert {p : P} (fresh : p ∉ heap.live) (person : Person) :
    Chain ((heap.allocate p person).personInsert people p).1 ((heap.allocate p person).personInsert people p).2
      (p :: items) := by
  refine ⟨chain.linked.insert (fun member => fresh (chain.live p member)), ?_⟩
  intro q member
  rcases List.mem_cons.mp member with same | earlier
  · exact same ▸ List.mem_cons_self
  · exact List.mem_cons_of_mem p (chain.live q earlier)

theorem insert_other {other : Option P} {others : List P} (apart : Chain heap other others)
    (disjoint : ∀ q ∈ others, q ∉ items) {p : P} (fresh : p ∉ heap.live) (person : Person) :
    Chain ((heap.allocate p person).personInsert people p).1 other others := by
  refine ⟨chain.linked.insert_other apart.linked (fun member => fresh (apart.live p member)) disjoint, ?_⟩
  intro q member
  exact List.mem_cons_of_mem p (apart.live q member)

end Chain

section data
variable [DecidableEq P] (heap : Heap P) (people : Option P)

theorem delete_data (p : P) : ((heap.personDelete people p).1.free p).data = heap.data := by
  cases people <;> rfl

theorem delete_live (p : P) : ((heap.personDelete people p).1.free p).live = heap.live.erase p := by
  cases people <;> rfl

theorem insert_data {p q : P} (other : q ≠ p) (person : Person) :
    ((heap.allocate p person).personInsert people p).1.data q = heap.data q :=
  Function.update_of_ne other ..

theorem insert_data_self (p : P) (person : Person) :
    ((heap.allocate p person).personInsert people p).1.data p = person :=
  Function.update_self ..

end data

section delete
variable [DecidableEq P] {heap : Heap P} {people : Option P} {front back : List P} {p : P}
  (chain : Chain heap people (front ++ p :: back))
include chain

theorem personDelete_links : (heap.personDelete people p).1.links = (heap.links.listRemove p people).1 ∧
    (heap.personDelete people p).2 = (heap.links.listRemove p people).2 := by
  cases people with
  | none =>
    have head := chain.linked.head
    simp at head
  | some first => exact ⟨rfl, rfl⟩

theorem Chain.delete : Chain ((heap.personDelete people p).1.free p) (heap.personDelete people p).2 (front ++ back) := by
  obtain ⟨links, head⟩ := personDelete_links chain
  have removed := chain.linked.remove
  refine ⟨?_, ?_⟩
  · rw [head, Heap.free, links]
    exact removed
  · intro q member
    have apart : q ≠ p := by
      rintro rfl
      exact (List.nodup_middle.mp chain.linked.nodup).notMem member
    rw [delete_live]
    apply (List.mem_erase_of_ne apart).mpr
    exact chain.live q (List.perm_middle.mem_iff.mpr (List.mem_cons_of_mem p member))

theorem Chain.delete_other {other : Option P} {others : List P} (apart : Chain heap other others)
    (disjoint : ∀ q ∈ others, q ∉ front ++ p :: back) :
    Chain ((heap.personDelete people p).1.free p) other others := by
  obtain ⟨links, -⟩ := personDelete_links chain
  refine ⟨?_, ?_⟩
  · rw [Heap.free, links]
    exact chain.linked.remove_other apart.linked disjoint
  · intro q member
    have different : q ≠ p := by
      rintro rfl
      exact disjoint q member (List.mem_append_right front List.mem_cons_self)
    rw [delete_live]
    exact (List.mem_erase_of_ne different).mpr (apart.live q member)

end delete

end NetPrograms.Proofs.BookChains
