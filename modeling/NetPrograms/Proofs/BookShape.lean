import NetPrograms.AddressBook.Alpha
import NetPrograms.Proofs.BookEntries

/-! The lists of the bucketed book: each node is in the list of its first letter, so
that no node is in two of them. -/

namespace NetPrograms.Proofs.BookShape
open AddressBook BookChains BookEntries

variable {P : Type}

structure Shape (cts : Alpha P) (buckets : Fin alphaCount → List P) : Prop where
  chain : ∀ k, Chain cts.heap (cts.heads k) (buckets k)
  index : ∀ k, ∀ p ∈ buckets k, getIndexByName (cts.heap.data p).name.cells = some k

theorem empty_shape (heap : Heap P) : Shape (Alpha.empty heap) fun _ => [] := by
  refine ⟨fun _ => ⟨Linked.empty _, ?_⟩, ?_⟩
  · intro p member
    cases member
  · intro k p member
    cases member

namespace Shape
variable {cts : Alpha P} {buckets : Fin alphaCount → List P} (shape : Shape cts buckets)
include shape

theorem one_bucket {j k : Fin alphaCount} {p : P} (here : p ∈ buckets j) (there : p ∈ buckets k) : j = k :=
  Option.some.inj ((shape.index j p here).symm.trans (shape.index k p there))

theorem tick : Shape cts.tick buckets := ⟨fun k => (shape.chain k).tick, shape.index⟩

variable [DecidableEq P]

theorem link {k : Fin alphaCount} {p : P} (fresh : p ∉ cts.heap.live) {person : Person}
    (own : getIndexByName person.name.cells = some k) :
    Shape (cts.link k p person) (Function.update buckets k (p :: buckets k)) := by
  refine ⟨?_, ?_⟩
  · intro j
    by_cases same : j = k
    · subst same
      simpa [Alpha.link] using (shape.chain j).insert fresh person
    · have disjoint : ∀ q ∈ buckets j, q ∉ buckets k := fun q here there => same (shape.one_bucket here there)
      simpa [Alpha.link, same] using (shape.chain k).insert_other (shape.chain j) disjoint fresh person
  · intro j q member
    have old : ∀ {i}, q ∈ buckets i → (cts.link k p person).heap.data q = cts.heap.data q := by
      intro i inside
      apply insert_data
      rintro rfl
      exact fresh ((shape.chain i).live q inside)
    by_cases same : j = k
    · subst same
      rw [Function.update_self] at member
      rcases List.mem_cons.mp member with here | earlier
      · subst here
        rw [Alpha.link, insert_data_self]
        exact own
      · rw [old earlier]
        exact shape.index j q earlier
    · rw [Function.update_of_ne same] at member
      rw [old member]
      exact shape.index j q member

theorem unlink {k : Fin alphaCount} {front back : List P} {p : P} (whole : buckets k = front ++ p :: back) :
    Shape (cts.unlink k p) (Function.update buckets k (front ++ back)) := by
  have chain := shape.chain k
  rw [whole] at chain
  refine ⟨?_, ?_⟩
  · intro j
    by_cases same : j = k
    · subst same
      simpa [Alpha.unlink] using chain.delete
    · have disjoint : ∀ q ∈ buckets j, q ∉ front ++ p :: back := by
        rw [← whole]
        exact fun q here there => same (shape.one_bucket here there)
      simpa [Alpha.unlink, same] using chain.delete_other (shape.chain j) disjoint
  · intro j q member
    have data : (cts.unlink k p).heap.data = cts.heap.data := delete_data ..
    rw [data]
    by_cases same : j = k
    · subst same
      rw [Function.update_self] at member
      apply shape.index j q
      rw [whole]
      exact List.perm_middle.mem_iff.mpr (List.mem_cons_of_mem p member)
    · rw [Function.update_of_ne same] at member
      exact shape.index j q member

end Shape
/-- A shape whose nodes show entries that all meet a condition. -/
structure Filled (fits : Entry → Prop) (cts : Alpha P) (buckets : Fin alphaCount → List P) : Prop where
  shape : Shape cts buckets
  shown : ∀ k, ∀ p ∈ buckets k, ∃ entry, showPerson (cts.heap.data p) = some entry ∧ fits entry

theorem empty_filled (fits : Entry → Prop) (heap : Heap P) : Filled fits (Alpha.empty heap) fun _ => [] := by
  refine ⟨empty_shape heap, ?_⟩
  intro k p member
  cases member

namespace Filled
variable {fits : Entry → Prop} {cts : Alpha P} {buckets : Fin alphaCount → List P} (filled : Filled fits cts buckets)
include filled

theorem printable (k : Fin alphaCount) (p : P) (member : p ∈ buckets k) : Printable cts.heap p := by
  obtain ⟨entry, shown, -⟩ := filled.shown k p member
  rw [Printable, shown]
  rfl

theorem entries : cts.entries = some ((List.finRange alphaCount).flatMap fun k => (buckets k).map (entryOf cts.heap)) := by
  rw [Alpha.entries, mapM_total fun k _ => (filled.shape.chain k).entries (filled.printable k)]
  rfl

theorem entries_fit {book : List Entry} (same : cts.entries = some book) : ∀ entry ∈ book, fits entry := by
  rw [filled.entries] at same
  cases same
  intro entry member
  obtain ⟨k, -, inside⟩ := List.mem_flatMap.mp member
  obtain ⟨p, here, rfl⟩ := List.mem_map.mp inside
  obtain ⟨entry, shown, good⟩ := filled.shown k p here
  rw [entryOf, shown]
  exact good

theorem index {k : Fin alphaCount} {p : P} (member : p ∈ buckets k) : getIndexByName (entryOf cts.heap p).name = some k := by
  have named := (showPerson_eq_some (filled.printable k p member).show).1
  rw [← getIndexByName_cells named]
  exact filled.shape.index k p member

theorem tick : Filled fits cts.tick buckets := ⟨filled.shape.tick, filled.shown⟩

variable [DecidableEq P]

theorem link {k : Fin alphaCount} {p : P} (fresh : p ∉ cts.heap.live) {person : Person}
    (own : getIndexByName person.name.cells = some k) {entry : Entry} (shows : showPerson person = some entry)
    (good : fits entry) : Filled fits (cts.link k p person) (Function.update buckets k (p :: buckets k)) := by
  have kept : ∀ j, ∀ q ∈ buckets j, ∃ entry, showPerson ((cts.link k p person).heap.data q) = some entry ∧ fits entry := by
    intro j q member
    have other : q ≠ p := by
      rintro rfl
      exact fresh ((filled.shape.chain j).live q member)
    rw [Alpha.link, insert_data _ _ other]
    exact filled.shown j q member
  refine ⟨filled.shape.link fresh own, ?_⟩
  apply (Function.forall_update_iff buckets fun _ items => ∀ q ∈ items,
    ∃ entry, showPerson ((cts.link k p person).heap.data q) = some entry ∧ fits entry).mpr
  refine ⟨?_, fun j _ => kept j⟩
  intro q member
  rcases List.mem_cons.mp member with here | earlier
  · subst here
    rw [Alpha.link, insert_data_self]
    exact ⟨entry, shows, good⟩
  · exact kept k q earlier

theorem unlink {k : Fin alphaCount} {front back : List P} {p : P} (whole : buckets k = front ++ p :: back) :
    Filled fits (cts.unlink k p) (Function.update buckets k (front ++ back)) := by
  have kept : ∀ j, ∀ q ∈ buckets j, ∃ entry, showPerson ((cts.unlink k p).heap.data q) = some entry ∧ fits entry := by
    intro j q member
    rw [Alpha.unlink, delete_data]
    exact filled.shown j q member
  refine ⟨filled.shape.unlink whole, ?_⟩
  apply (Function.forall_update_iff buckets fun _ items => ∀ q ∈ items,
    ∃ entry, showPerson ((cts.unlink k p).heap.data q) = some entry ∧ fits entry).mpr
  refine ⟨?_, fun j _ => kept j⟩
  intro q member
  apply kept k q
  rw [whole]
  exact List.perm_middle.mem_iff.mpr (List.mem_cons_of_mem p member)

end Filled

/-- The person that a line of a file is read as. -/
def Parses (line : List UInt8) (person : Person) : Prop :=
  ∃ buffer length, fgets line = some buffer ∧ strlen buffer.cells = some length ∧
    Alpha.paraserToken buffer length clearPerson.name clearPerson.phone = some (0, person)

/-- What `load_entry` keeps: it only asks for memory and links new nodes, each with
the person of a line. -/
theorem loadLines_keeps [DecidableEq P] {malloc : Malloc P} (Inv : Alpha P → Prop) {lines : List (List UInt8)}
    (tick : ∀ cts, Inv cts → Inv cts.tick)
    (link : ∀ cts k p person line, Inv cts → p ∉ cts.heap.live → getIndexByName person.name.cells = some k →
      line ∈ lines → Parses line person → Inv (cts.link k p person))
    {cts after : Alpha P} {code : Int} (initial : Inv cts) (loaded : cts.loadLines malloc lines = some (after, code)) :
    Inv after := by
  induction lines generalizing cts with
  | nil =>
    cases loaded
    exact initial
  | cons line lines ih =>
    have later := fun cts k p person line initial fresh own member =>
      link cts k p person line initial fresh own (List.mem_cons_of_mem _ member)
    rw [Alpha.loadLines] at loaded
    obtain ⟨buffer, read, loaded⟩ := Option.bind_eq_some_iff.mp loaded
    obtain ⟨length, long, loaded⟩ := Option.bind_eq_some_iff.mp loaded
    obtain ⟨⟨status, person⟩, parsed, loaded⟩ := Option.bind_eq_some_iff.mp loaded
    dsimp only at loaded
    split at loaded
    next => exact ih later initial loaded
    next success =>
      obtain rfl : status = 0 := not_not.mp success
      split at loaded
      next => exact ih later initial loaded
      next index own =>
        split at loaded
        next =>
          cases loaded
          exact tick cts initial
        next p allocated =>
          split at loaded
          next =>
            apply ih later _ loaded
            exact link cts index p person line initial (malloc.fresh _ _ _ allocated) own List.mem_cons_self
              ⟨buffer, length, read, long, parsed⟩
          next =>
            cases loaded
            exact tick cts initial

end NetPrograms.Proofs.BookShape
