import Mathlib.Algebra.BigOperators.Fin
import NetPrograms.Proofs.BookEntries
import NetPrograms.Proofs.BookShape

/-! The count of the bucketed book is the number of its nodes as long as no entry is
deleted: `delete_entry` unlinks a node and keeps the count. -/

namespace NetPrograms.Proofs.BookCount
open AddressBook BookChains BookEntries BookShape

variable {P : Type}

def total (buckets : Fin alphaCount → List P) : Nat := ∑ k, (buckets k).length

def Counted (cts : Alpha P) : Prop :=
  ∃ buckets, (∀ k, Linked cts.heap.links (cts.heads k) (buckets k)) ∧ cts.count = total buckets

/-- A deletion names nobody in the book. -/
def Misses (cts : Alpha P) : Operation → Prop
  | .delete name => ∀ entry ∈ cts.entries.getD [], cstring (name ++ [0]) ≠ some entry.name
  | _ => True

instance (cts : Alpha P) (op : Operation) : Decidable (Misses cts op) :=
  match op with
  | .delete name => inferInstanceAs (Decidable (∀ entry ∈ cts.entries.getD [], cstring (name ++ [0]) ≠ some entry.name))
  | .insert .. | .search _ | .save _ | .load _ => inferInstanceAs (Decidable True)

theorem total_update (buckets : Fin alphaCount → List P) (k : Fin alphaCount) (items : List P) :
    total (Function.update buckets k items) + (buckets k).length = total buckets + items.length := by
  unfold total
  rw [← Finset.add_sum_erase _ _ (Finset.mem_univ k), ← Finset.add_sum_erase _ (fun k => (buckets k).length) (Finset.mem_univ k)]
  have rest : ∑ j ∈ Finset.univ.erase k, (Function.update buckets k items j).length =
      ∑ j ∈ Finset.univ.erase k, (buckets j).length := by
    apply Finset.sum_congr rfl
    intro j member
    rw [Function.update_of_ne (Finset.ne_of_mem_erase member)]
  rw [rest, Function.update_self]
  omega

/-- A state with the number of deletions that led to it. -/
structure Behind (cts : Alpha P) (buckets : Fin alphaCount → List P) (deleted : Nat) : Prop where
  filled : Filled (fun _ => True) cts buckets
  count : cts.count = total buckets + deleted

theorem empty_behind (heap : Heap P) : Behind (Alpha.empty heap) (fun _ => []) 0 :=
  ⟨empty_filled _ heap, by simp [total, Alpha.empty]⟩

section input

theorem scanf_cells {size : Nat} {word : List UInt8} {field filled : Buffer UInt8 size} (scanned : scanf word field = some filled) :
    ∃ text, cstring (word ++ [0]) = some text ∧ cstring filled.cells = some text := by
  obtain ⟨text, ended⟩ := cstring_isSome (List.mem_append_right word (List.mem_singleton_self 0))
  refine ⟨text, ended, ?_⟩
  obtain ⟨-, cells⟩ := Buffer.write_eq_some scanned
  rw [cells, Block.overlay_zero]
  exact cstring_prefix ended _

theorem readPerson_printable {name phone : List UInt8} {person : Person} (read : readPerson name phone = some person) :
    (showPerson person).isSome := by
  obtain ⟨first, scanned, read⟩ := Option.bind_eq_some_iff.mp read
  obtain ⟨second, scanned', same⟩ := Option.bind_eq_some_iff.mp read
  cases same
  obtain ⟨text, -, named⟩ := scanf_cells scanned
  obtain ⟨digits, -, phoned⟩ := scanf_cells scanned'
  simp [showPerson, named, phoned]

theorem parses_printable {line : List UInt8} {person : Person} (parsed : Parses line person) : (showPerson person).isSome := by
  obtain ⟨buffer, length, -, -, parsed⟩ := parsed
  unfold Alpha.paraserToken at parsed
  split at parsed
  next => cases parsed
  next =>
    obtain ⟨name, -, parsed⟩ := Option.bind_eq_some_iff.mp parsed
    obtain ⟨phone, -, parsed⟩ := Option.bind_eq_some_iff.mp parsed
    obtain ⟨shown, shows, same⟩ := Option.bind_eq_some_iff.mp parsed
    cases same
    rw [shows]
    rfl

end input

namespace Behind
variable {cts : Alpha P} {buckets : Fin alphaCount → List P} {deleted : Nat} (behind : Behind cts buckets deleted)
include behind

theorem counted_iff : Counted cts ↔ deleted = 0 := by
  have count := behind.count
  constructor
  · rintro ⟨others, linked, same⟩
    have equal : others = buckets := funext fun k => (linked k).unique (behind.filled.shape.chain k).linked
    rw [same, equal] at count
    omega
  · rintro rfl
    exact ⟨buckets, fun k => (behind.filled.shape.chain k).linked, by omega⟩

theorem tick : Behind cts.tick buckets deleted := ⟨behind.filled.tick, behind.count⟩

variable [DecidableEq P]

theorem link {k : Fin alphaCount} {p : P} (fresh : p ∉ cts.heap.live) {person : Person}
    (own : getIndexByName person.name.cells = some k) (shown : (showPerson person).isSome) :
    Behind (cts.link k p person) (Function.update buckets k (p :: buckets k)) deleted := by
  obtain ⟨entry, shows⟩ := Option.isSome_iff_exists.mp shown
  refine ⟨behind.filled.link fresh own shows trivial, ?_⟩
  have longer := total_update buckets k (p :: buckets k)
  have count := behind.count
  simp only [List.length_cons] at longer
  simp only [Alpha.link, count]
  omega

theorem unlink {k : Fin alphaCount} {front back : List P} {p : P} (whole : buckets k = front ++ p :: back) :
    Behind (cts.unlink k p) (Function.update buckets k (front ++ back)) (deleted + 1) := by
  refine ⟨behind.filled.unlink whole, ?_⟩
  have shorter := total_update buckets k (front ++ back)
  have count := behind.count
  rw [whole] at shorter
  simp only [List.length_append, List.length_cons] at shorter
  simp only [Alpha.unlink, count]
  omega

theorem insert {malloc : Malloc P} {name phone : List UInt8} {after : Alpha P} {reply : Reply}
    (taken : cts.insertEntry malloc name phone = some (after, reply)) : ∃ others, Behind after others deleted := by
  unfold Alpha.insertEntry at taken
  split at taken
  next =>
    cases taken
    exact ⟨buckets, behind.tick⟩
  next p allocated =>
    split at taken
    next =>
      obtain ⟨person, read, taken⟩ := Option.bind_eq_some_iff.mp taken
      split at taken
      next =>
        cases taken
        exact ⟨buckets, behind.tick⟩
      next k own =>
        cases taken
        exact ⟨_, behind.link (malloc.fresh _ _ _ allocated) own (readPerson_printable read)⟩
    next =>
      cases taken
      exact ⟨buckets, behind.tick⟩

theorem load {malloc : Malloc P} {file : Option (List UInt8)} {after : Alpha P} {code : Int}
    (taken : cts.loadEntry malloc file = some (after, code)) : ∃ others, Behind after others deleted := by
  cases file with
  | none =>
    cases taken
    exact ⟨buckets, behind⟩
  | some content =>
    apply loadLines_keeps (fun cts => ∃ others, Behind cts others deleted) _ _ ⟨buckets, behind⟩ taken
    · rintro cts ⟨others, behind⟩
      exact ⟨others, behind.tick⟩
    · rintro cts k p person line ⟨others, behind⟩ fresh own - parsed
      exact ⟨_, behind.link fresh own (parses_printable parsed)⟩

end Behind

section delete
variable {cts : Alpha P} {buckets : Fin alphaCount → List P} {deleted : Nat} (behind : Behind cts buckets deleted)
include behind

/-- Whom a deletion can name. -/
theorem misses_iff {word text : List UInt8} (named : cstring (word ++ [0]) = some text) :
    Misses cts (.delete word) ↔ ∀ k, ∀ p ∈ buckets k, (entryOf cts.heap p).name ≠ text := by
  simp only [Misses, behind.filled.entries, named, Option.getD_some]
  constructor
  · intro misses k p member same
    have shown : entryOf cts.heap p ∈ (buckets k).map (entryOf cts.heap) := List.mem_map_of_mem member
    exact misses _ (List.mem_flatMap.mpr ⟨k, List.mem_finRange k, shown⟩) (congrArg some same.symm)
  · intro others entry member same
    obtain ⟨k, -, inside⟩ := List.mem_flatMap.mp member
    obtain ⟨p, here, rfl⟩ := List.mem_map.mp inside
    exact others k p here (Option.some.inj same).symm

theorem delete_behind [DecidableEq P] {word : List UInt8} {after : Alpha P} {reply : Reply}
    (taken : cts.deleteEntry word = some (after, reply)) :
    ∃ others, Behind after others (if Misses cts (.delete word) then deleted else deleted + 1) := by
  obtain ⟨field, scanned, taken⟩ := Option.bind_eq_some_iff.mp taken
  obtain ⟨text, ended, named⟩ := scanf_cells scanned
  rw [getIndexByName_cells named] at taken
  split at taken
  next foreign =>
    cases taken
    have misses : Misses cts (.delete word) := by
      apply (misses_iff behind ended).mpr
      rintro k p member rfl
      rw [behind.filled.index member] at foreign
      cases foreign
    exact ⟨buckets, by rw [if_pos misses]; exact behind⟩
  next k own =>
    rw [(behind.filled.shape.chain k).search (behind.filled.printable k) named] at taken
    obtain ⟨found, same, taken⟩ := Option.bind_eq_some_iff.mp taken
    cases same
    split at taken
    next missing =>
      cases taken
      have misses : Misses cts (.delete word) := by
        apply (misses_iff behind ended).mpr
        rintro j p member rfl
        rw [behind.filled.index member] at own
        cases own
        simpa using List.find?_eq_none.mp missing p member
      exact ⟨buckets, by rw [if_pos misses]; exact behind⟩
    next p found =>
      cases taken
      have member := List.mem_of_find?_eq_some found
      obtain ⟨front, back, whole⟩ := List.append_of_mem member
      have hits : ¬ Misses cts (.delete word) := by
        rw [misses_iff behind ended]
        intro others
        exact others k p member (by simpa using List.find?_some found)
      exact ⟨_, by rw [if_neg hits]; exact behind.unlink whole⟩

theorem step_behind [DecidableEq P] {malloc : Malloc P} {op : Operation} {after : Alpha P} {reply : Reply}
    (taken : cts.step malloc op = some (after, reply)) :
    ∃ others, Behind after others (if Misses cts op then deleted else deleted + 1) := by
  cases op with
  | insert name phone => exact behind.insert taken
  | delete name => exact delete_behind behind taken
  | search name =>
    obtain ⟨reply, -, same⟩ := Option.bind_eq_some_iff.mp taken
    cases same
    exact ⟨buckets, behind⟩
  | save opened =>
    cases opened with
    | false =>
      cases taken
      exact ⟨buckets, behind⟩
    | true =>
      obtain ⟨content, -, same⟩ := Option.bind_eq_some_iff.mp taken
      cases same
      exact ⟨buckets, behind⟩
  | load file =>
    obtain ⟨⟨loaded, code⟩, read, same⟩ := Option.bind_eq_some_iff.mp taken
    cases same
    exact behind.load read

end delete

section run
variable [DecidableEq P] (malloc : Malloc P)

/-- The states of a run, without the replies. -/
def operate (cts : Alpha P) (op : Operation) : Option (Alpha P) := (cts.step malloc op).map Prod.fst

theorem operate_counted (before : Alpha P) (op : Operation) (after : Alpha P)
    (behind : ∃ buckets deleted, Behind before buckets deleted) (taken : operate malloc before op = some after) :
    (∃ buckets deleted, Behind after buckets deleted) ∧ (Counted after ↔ Counted before ∧ Misses before op) := by
  obtain ⟨buckets, deleted, behind⟩ := behind
  obtain ⟨⟨_, reply⟩, stepped, rfl⟩ := Option.map_eq_some_iff.mp taken
  obtain ⟨others, later⟩ := step_behind behind stepped
  refine ⟨⟨others, _, later⟩, ?_⟩
  rw [later.counted_iff, behind.counted_iff]
  split
  next misses => exact ⟨fun none => ⟨none, misses⟩, And.left⟩
  next hits => exact ⟨fun impossible => absurd impossible (Nat.succ_ne_zero deleted), fun met => absurd met.2 hits⟩

theorem counted_iff_no_deletion (heap : Heap P) (ops : List Operation) (last : Alpha P)
    (reached : exec (operate malloc) (Alpha.empty heap) ops = some last) :
    Counted last ↔ exec (meeting Misses (operate malloc)) (Alpha.empty heap) ops = some last := by
  have empty := empty_behind heap
  exact (exec_meeting_iff (fun cts => ∃ buckets deleted, Behind cts buckets deleted) Counted ⟨_, _, empty⟩
    (empty.counted_iff.mpr rfl) (operate_counted malloc) reached).2

/-- An entry is inserted and deleted under another name. -/
def kept : List Operation := [.insert (ascii "Bob") (ascii "139"), .delete (ascii "bob")]

theorem kept_counted : ∃ last, exec (operate counting) (Alpha.empty countingHeap) kept = some last ∧
    (Counted last ↔ exec (meeting Misses (operate counting)) (Alpha.empty countingHeap) kept = some last) ∧
    last.count = 1 :=
  ⟨_, rfl, counted_iff_no_deletion counting countingHeap kept _ rfl, rfl⟩

/-- The same entry is deleted under its name. -/
def dropped : List Operation := [.insert (ascii "Bob") (ascii "139"), .delete (ascii "Bob")]

theorem deletion_uncounted : ¬ ∀ (P : Type) [DecidableEq P] (malloc : Malloc P) (heap : Heap P) (ops : List Operation)
    (last : Alpha P), exec (operate malloc) (Alpha.empty heap) ops = some last → Counted last := by
  intro always
  have run : ∃ last, exec (operate counting) (Alpha.empty countingHeap) dropped = some last ∧
      (∀ k, last.heads k = none) ∧ last.count = 1 := ⟨_, rfl, by decide, rfl⟩
  obtain ⟨last, reached, heads, one⟩ := run
  obtain ⟨buckets, linked, count⟩ := always Nat counting countingHeap dropped last reached
  have empty : ∀ k, buckets k = [] := fun k => List.head?_eq_none_iff.mp ((linked k).head.symm.trans (heads k))
  rw [one] at count
  simp [total, empty] at count

end run
end NetPrograms.Proofs.BookCount
