import NetPrograms.Proofs.BookEntries
import NetPrograms.Proofs.BookShape

/-! Both programs are the abstract book: the single list holds its entries in their
order and each bucket holds the part of its letter in that order. -/

namespace NetPrograms.Proofs.BookAgreement
open AddressBook BookChains BookEntries BookShape

variable {P : Type}

/-- What a search for a name that was entered finds. -/
theorem lookup {heap : Heap P} {people : Option P} {items : List P} {book : List Entry} (chain : Chain heap people items)
    (shown : Shown heap items book) (name : Name) :
    ∃ field, scanf name.bytes clearPerson.name = some field ∧ cstring field.cells = some name.bytes ∧
      heap.personSearch people field = some (items.find? fun p => (entryOf heap p).name = name.bytes) := by
  obtain ⟨field, scanned, named⟩ := scanf_fits name.short (Name.terminated name) clearPerson.name
  exact ⟨field, scanned, named, chain.search shown.printable named⟩

section contact

def ContactRep (cts : Contact P) (book : List Entry) : Prop :=
  ∃ items, Chain cts.heap cts.nnode items ∧ Shown cts.heap items book

theorem contact_search {cts : Contact P} {book : List Entry} (rep : ContactRep cts book) (name : Name) :
    ∃ reply, cts.searchEntry name.bytes = some reply ∧
      reply.outcome = ⟨(Recent.find Entry.name book name.bytes).isSome, Recent.find Entry.name book name.bytes⟩ := by
  obtain ⟨items, chain, shown⟩ := rep
  obtain ⟨field, scanned, -, searched⟩ := lookup chain shown name
  rw [shown.find]
  cases found : items.find? fun p => (entryOf cts.heap p).name = name.bytes with
  | none =>
    rw [found] at searched
    exact ⟨⟨-2, none⟩, by simp [Contact.searchEntry, scanned, searched], rfl⟩
  | some p =>
    rw [found] at searched
    have shows := (shown.printable p (List.mem_of_find?_eq_some found)).show
    exact ⟨⟨0, some (entryOf cts.heap p)⟩, by simp [Contact.searchEntry, scanned, searched, shows], rfl⟩

variable [DecidableEq P] {malloc : Malloc P} (succeeds : malloc.Succeeds)

include succeeds in
theorem contact_insert {cts : Contact P} {book : List Entry} (rep : ContactRep cts book) (name : Name) (phone : Phone) :
    ∃ after, cts.insertEntry malloc name.bytes phone.digits = some (after, ⟨0, none⟩) ∧
      ContactRep after (⟨name.bytes, phone.digits⟩ :: book) := by
  obtain ⟨items, chain, shown⟩ := rep
  obtain ⟨p, allocated⟩ := Option.isSome_iff_exists.mp (succeeds.node cts.heap.time cts.heap.live)
  obtain ⟨person, read, shows⟩ := readPerson_shown name phone
  have fresh := malloc.fresh _ _ _ allocated
  let list := (cts.heap.allocate p person).personInsert cts.nnode p
  refine ⟨⟨list.1, list.2, cts.count + 1⟩, ?_, p :: items, chain.insert fresh person, ?_⟩
  · simp [Contact.insertEntry, allocated, succeeds.person, read, list]
  · have same : ∀ q ∈ items, ((cts.heap.allocate p person).personInsert cts.nnode p).1.data q = cts.heap.data q := by
      intro q member
      apply insert_data
      rintro rfl
      exact fresh (chain.live q member)
    apply (shown.congr same).cons
    rw [insert_data_self, shows]

theorem contact_delete {cts : Contact P} {book : List Entry} (rep : ContactRep cts book) (name : Name) :
    ∃ after reply, cts.deleteEntry name.bytes = some (after, reply) ∧
      reply.outcome = ⟨(Recent.find Entry.name book name.bytes).isSome, none⟩ ∧
      ContactRep after (Recent.erase Entry.name book name.bytes) := by
  obtain ⟨items, chain, shown⟩ := rep
  obtain ⟨field, scanned, -, searched⟩ := lookup chain shown name
  rw [shown.find]
  cases found : items.find? fun p => (entryOf cts.heap p).name = name.bytes with
  | none =>
    rw [found] at searched
    refine ⟨cts, ⟨-2, none⟩, by simp [Contact.deleteEntry, scanned, searched], rfl, items, chain, ?_⟩
    rw [shown.missing found]
    exact shown
  | some p =>
    rw [found] at searched
    obtain ⟨front, back, rfl, left⟩ := shown.erase found
    let list := cts.heap.personDelete cts.nnode p
    refine ⟨{ cts with heap := list.1.free p, nnode := list.2 }, ⟨0, none⟩, ?_, rfl, front ++ back, chain.delete, ?_⟩
    · simp [Contact.deleteEntry, scanned, searched, list]
    · apply left.congr
      intro q _
      rw [delete_data]

include succeeds in
theorem contact_simulates (cts : Contact P) (book : List Entry) (op : BookOp) (rep : ContactRep cts book) :
    ∃ after, cts.bookStep malloc op = some (after, (bookStep book op).2) ∧ ContactRep after (bookStep book op).1 := by
  cases op with
  | insert name phone =>
    obtain ⟨after, taken, kept⟩ := contact_insert succeeds rep name phone
    exact ⟨after, by rw [Contact.bookStep, taken]; rfl, kept⟩
  | delete name =>
    obtain ⟨after, reply, taken, outcome, kept⟩ := contact_delete rep name
    exact ⟨after, by rw [Contact.bookStep, taken, bookStep, ← outcome]; rfl, kept⟩
  | search name =>
    obtain ⟨reply, taken, outcome⟩ := contact_search rep name
    exact ⟨cts, by rw [Contact.bookStep, taken, bookStep, ← outcome]; rfl, rep⟩

end contact

section alpha

/-- Each list shows the part of the book that has its letter. -/
def AlphaRep (cts : Alpha P) (book : List Entry) : Prop :=
  ∃ buckets, Shape cts buckets ∧ ∀ k, Shown cts.heap (buckets k) (Recent.part Entry.name getIndexByName book k)

theorem alpha_search {cts : Alpha P} {book : List Entry} (rep : AlphaRep cts book) (name : Name) :
    ∃ reply, cts.searchEntry name.bytes = some reply ∧
      reply.outcome = ⟨(Recent.find Entry.name book name.bytes).isSome, Recent.find Entry.name book name.bytes⟩ := by
  obtain ⟨buckets, shape, shown⟩ := rep
  obtain ⟨k, index⟩ := Name.index name
  obtain ⟨field, scanned, named, searched⟩ := lookup (shape.chain k) (shown k) name
  have indexed := (getIndexByName_cells named).trans index
  rw [← Recent.find_part index, (shown k).find]
  cases found : (buckets k).find? fun p => (entryOf cts.heap p).name = name.bytes with
  | none =>
    rw [found] at searched
    exact ⟨⟨-3, none⟩, by simp [Alpha.searchEntry, scanned, indexed, searched], rfl⟩
  | some p =>
    rw [found] at searched
    have shows := ((shown k).printable p (List.mem_of_find?_eq_some found)).show
    exact ⟨⟨0, some (entryOf cts.heap p)⟩, by simp [Alpha.searchEntry, scanned, indexed, searched, shows], rfl⟩

variable [DecidableEq P] {malloc : Malloc P} (succeeds : malloc.Succeeds)

include succeeds in
theorem alpha_insert {cts : Alpha P} {book : List Entry} (rep : AlphaRep cts book) (name : Name) (phone : Phone) :
    ∃ after, cts.insertEntry malloc name.bytes phone.digits = some (after, ⟨0, none⟩) ∧
      AlphaRep after (⟨name.bytes, phone.digits⟩ :: book) := by
  obtain ⟨buckets, shape, shown⟩ := rep
  obtain ⟨k, index⟩ := Name.index name
  obtain ⟨p, allocated⟩ := Option.isSome_iff_exists.mp (succeeds.node cts.heap.time cts.heap.live)
  obtain ⟨person, read, shows⟩ := readPerson_shown name phone
  have fresh := malloc.fresh _ _ _ allocated
  have indexed := (getIndexByName_cells (showPerson_eq_some shows).1).trans index
  refine ⟨cts.link k p person, ?_, _, shape.link fresh indexed, ?_⟩
  · simp [Alpha.insertEntry, allocated, succeeds.person, read, indexed]
  · have own : getIndexByName (Entry.name ⟨name.bytes, phone.digits⟩) = some k := index
    intro j
    have kept : Shown (cts.link k p person).heap (buckets j) (Recent.part Entry.name getIndexByName book j) := by
      apply (shown j).congr
      intro q member
      apply insert_data
      rintro rfl
      exact fresh ((shape.chain j).live q member)
    by_cases same : j = k
    · subst same
      rw [Function.update_self, Recent.part_cons_own own]
      apply kept.cons
      rw [Alpha.link, insert_data_self, shows]
    · rw [Function.update_of_ne same, Recent.part_cons_other own same]
      exact kept

theorem alpha_delete {cts : Alpha P} {book : List Entry} (rep : AlphaRep cts book) (name : Name) :
    ∃ after reply, cts.deleteEntry name.bytes = some (after, reply) ∧
      reply.outcome = ⟨(Recent.find Entry.name book name.bytes).isSome, none⟩ ∧
      AlphaRep after (Recent.erase Entry.name book name.bytes) := by
  obtain ⟨buckets, shape, shown⟩ := rep
  obtain ⟨k, index⟩ := Name.index name
  obtain ⟨field, scanned, named, searched⟩ := lookup (shape.chain k) (shown k) name
  have indexed := (getIndexByName_cells named).trans index
  rw [← Recent.find_part index, (shown k).find]
  cases found : (buckets k).find? fun p => (entryOf cts.heap p).name = name.bytes with
  | none =>
    rw [found] at searched
    refine ⟨cts, ⟨-3, none⟩, by simp [Alpha.deleteEntry, scanned, indexed, searched], rfl, buckets, shape, ?_⟩
    intro j
    by_cases same : j = k
    · subst same
      rw [Recent.part_erase_own index, (shown j).missing found]
      exact shown j
    · rw [Recent.part_erase_other index same]
      exact shown j
  | some p =>
    rw [found] at searched
    obtain ⟨front, back, whole, left⟩ := (shown k).erase found
    refine ⟨cts.unlink k p, ⟨0, none⟩, ?_, rfl, _, shape.unlink whole, ?_⟩
    · simp [Alpha.deleteEntry, scanned, indexed, searched]
    · have data : ∀ q, (cts.unlink k p).heap.data q = cts.heap.data q := fun q => congrFun (delete_data ..) q
      intro j
      by_cases same : j = k
      · subst same
        rw [Function.update_self, Recent.part_erase_own index]
        exact left.congr fun q _ => data q
      · rw [Function.update_of_ne same, Recent.part_erase_other index same]
        exact (shown j).congr fun q _ => data q

include succeeds in
theorem alpha_simulates (cts : Alpha P) (book : List Entry) (op : BookOp) (rep : AlphaRep cts book) :
    ∃ after, cts.bookStep malloc op = some (after, (bookStep book op).2) ∧ AlphaRep after (bookStep book op).1 := by
  cases op with
  | insert name phone =>
    obtain ⟨after, taken, kept⟩ := alpha_insert succeeds rep name phone
    exact ⟨after, by simp [Alpha.bookStep, BookOp.operation, Alpha.step, taken, bookStep, Reply.outcome], kept⟩
  | delete name =>
    obtain ⟨after, reply, taken, outcome, kept⟩ := alpha_delete rep name
    exact ⟨after, by simp [Alpha.bookStep, BookOp.operation, Alpha.step, taken, bookStep, outcome], kept⟩
  | search name =>
    obtain ⟨reply, taken, outcome⟩ := alpha_search rep name
    exact ⟨cts, by simp [Alpha.bookStep, BookOp.operation, Alpha.step, taken, bookStep, outcome], rep⟩

end alpha

/-- Each node of a list has a name with the letter of that list. -/
def Sorted (cts : Alpha P) : Prop :=
  ∀ k, ∃ items, Linked cts.heap.links (cts.heads k) items ∧
    ∀ p ∈ items, ∃ name, cstring (cts.heap.data p).name.cells = some name ∧ HasIndex name k

theorem AlphaRep.sorted {cts : Alpha P} {book : List Entry} (rep : AlphaRep cts book) : Sorted cts := by
  obtain ⟨buckets, shape, shown⟩ := rep
  intro k
  refine ⟨buckets k, (shape.chain k).linked, ?_⟩
  intro p member
  have named := (showPerson_eq_some ((shown k).printable p member).show).1
  refine ⟨_, named, (hasIndex_iff _ _).mp ?_⟩
  rw [← getIndexByName_cells named]
  exact shape.index k p member

variable {Q : Type} [DecidableEq P] [DecidableEq Q]

theorem books_agree (malloc : Malloc P) (malloc' : Malloc Q) (succeeds : malloc.Succeeds) (succeeds' : malloc'.Succeeds)
    (heap : Heap P) (heap' : Heap Q) (ops : List BookOp) :
    ∃ alpha contact,
      exec (answering (Alpha.bookStep malloc)) (Alpha.empty heap, []) ops = some (alpha, (answers bookStep [] ops).2) ∧
      exec (answering (Contact.bookStep malloc')) (Contact.empty heap', []) ops =
        some (contact, (answers bookStep [] ops).2) ∧
      Sorted alpha := by
  have emptyAlpha : AlphaRep (Alpha.empty heap) [] := by
    refine ⟨_, empty_shape heap, fun k => ⟨?_, rfl⟩⟩
    intro p member
    cases member
  have emptyContact : ContactRep (Contact.empty heap') [] := by
    refine ⟨[], ⟨Linked.empty _, ?_⟩, ?_, rfl⟩
    · intro p member
      cases member
    · intro p member
      cases member
  obtain ⟨alpha, reached, rep⟩ := exec_answers AlphaRep emptyAlpha (alpha_simulates succeeds) ops
  obtain ⟨contact, reached', -⟩ := exec_answers ContactRep emptyContact (contact_simulates succeeds') ops
  exact ⟨alpha, contact, reached, reached', rep.sorted⟩

def bob : Name := ⟨66, ascii "ob", by unfold IsLetter; decide, by decide, by decide⟩

def smallBob : Name := ⟨98, ascii "ob", by unfold IsLetter; decide, by decide, by decide⟩

def first : Phone := ⟨ascii "139", by decide, by decide⟩

def second : Phone := ⟨ascii "180", by decide, by decide⟩

/-- A second entry of one name hides the first until it is deleted. -/
def bobs : List BookOp := [.insert bob first, .insert smallBob first, .insert bob second, .delete bob, .search bob]

theorem bobs_agree : (∃ alpha contact,
      exec (answering (Alpha.bookStep counting)) (Alpha.empty countingHeap, []) bobs =
        some (alpha, (answers bookStep [] bobs).2) ∧
      exec (answering (Contact.bookStep counting)) (Contact.empty countingHeap, []) bobs =
        some (contact, (answers bookStep [] bobs).2) ∧
      Sorted alpha) ∧
    (answers bookStep [] bobs).2.getLast? = some ⟨true, some ⟨bob.bytes, first.digits⟩⟩ :=
  ⟨books_agree counting counting counting_succeeds counting_succeeds countingHeap countingHeap bobs, by decide⟩

end NetPrograms.Proofs.BookAgreement
