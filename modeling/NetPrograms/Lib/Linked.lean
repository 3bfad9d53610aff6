import Mathlib.Algebra.Order.Ring.Int
import Mathlib.Data.List.Induction
import Mathlib.Data.List.Nodup
import Mathlib.Logic.Function.Basic

/-! Doubly linked lists whose links are fields of the elements themselves, under
insertion at the head and removal of any element. The links of an element that is
in no list are arbitrary, so several lists share one memory. -/

namespace NetPrograms

universe u
structure Links (P : Type u) where
  next : P → Option P
  prev : P → Option P

variable {P : Type u}

namespace Links
section operations
variable [DecidableEq P]

def setNext (links : Links P) (p : P) (target : Option P) : Links P :=
  { links with next := Function.update links.next p target }

def setPrev (links : Links P) (p : P) (target : Option P) : Links P :=
  { links with prev := Function.update links.prev p target }

/-- A write through a pointer that may be null. -/
def setNextOf (links : Links P) (p : Option P) (target : Option P) : Links P :=
  p.elim links (links.setNext · target)

def setPrevOf (links : Links P) (p : Option P) (target : Option P) : Links P :=
  p.elim links (links.setPrev · target)

/-- The new links and the new head. -/
def listInsert (links : Links P) (item : P) (list : Option P) : Links P × Option P :=
  let links := links.setPrev item none
  let links := links.setNext item list
  let links := links.setPrevOf list (some item)
  (links, some item)

def listRemove (links : Links P) (item : P) (list : Option P) : Links P × Option P :=
  let list := if list = some item then links.next item else list
  let links := links.setNextOf (links.prev item) (links.next item)
  let links := links.setPrevOf (links.next item) (links.prev item)
  let links := links.setNext item none
  let links := links.setPrev item none
  (links, list)

end operations


/-- The first element, from a pointer on, at which a test holds. The test may have
no result, and neither has a walk that takes more steps than it is given. -/
def scan (links : Links P) (test : P → Option Bool) : Nat → Option P → Option (Option P)
  | _, none => some none
  | 0, some _ => none
  | steps + 1, some p => (test p).bind fun found =>
    if found then
      some (some p)
    else
      links.scan test steps (links.next p)

/-- All elements from a pointer on. -/
def toList (links : Links P) : Nat → Option P → Option (List P)
  | _, none => some []
  | 0, some _ => none
  | steps + 1, some p => (links.toList steps (links.next p)).map (p :: ·)

end Links

/-- A part of a list, with the elements that stand before and behind it. -/
def Segment (links : Links P) : Option P → List P → Option P → Prop
  | _, [], _ => True
  | before, p :: rest, after =>
    links.prev p = before ∧ links.next p = rest.head?.or after ∧ Segment links (some p) rest after

namespace Segment
variable {links other : Links P} {before after : Option P} {items : List P}

theorem append {front back : List P} :
    Segment links before (front ++ back) after ↔
      Segment links before front (back.head?.or after) ∧ Segment links (front.getLast?.or before) back after := by
  induction front generalizing before with
  | nil => simp [Segment]
  | cons p rest ih =>
    have last : (p :: rest).getLast?.or before = rest.getLast?.or (some p) := by
      rw [List.getLast?_cons]
      cases rest.getLast? <;> rfl
    rw [last, List.cons_append, Segment, Segment, ih, List.head?_append, Option.or_assoc]
    simp only [and_assoc]

theorem congr (segment : Segment links before items after)
    (same : ∀ p ∈ items, other.prev p = links.prev p ∧ other.next p = links.next p) :
    Segment other before items after := by
  induction items generalizing before with
  | nil => trivial
  | cons p rest ih =>
    obtain ⟨back, on, tail⟩ := segment
    obtain ⟨samePrev, sameNext⟩ := same p List.mem_cons_self
    refine ⟨samePrev.trans back, sameNext.trans on, ?_⟩
    apply ih tail
    intro q member
    exact same q (List.mem_cons_of_mem p member)

section relink
variable [DecidableEq P]

/-- Only the link of the last element leads out of a segment at its end. -/
theorem setNextOf_last (segment : Segment links before items after) (nodup : items.Nodup) (target : Option P) :
    Segment (links.setNextOf items.getLast? target) before items target := by
  cases items using List.reverseRecOn with
  | nil => trivial
  | append_singleton front p =>
    rw [List.getLast?_append_of_ne_nil _ (by simp), List.getLast?_singleton]
    obtain ⟨start, back, -⟩ := Segment.append.mp segment
    refine Segment.append.mpr ⟨?_, back, by simp [Links.setNextOf, Links.setNext], trivial⟩
    apply Segment.congr start
    intro q member
    have behind : q ≠ p := by
      rintro rfl
      exact (List.nodup_append.mp nodup).2.2 q member q List.mem_cons_self rfl
    exact ⟨rfl, Function.update_of_ne behind ..⟩

/-- Only the link of the first element leads out of a segment at its start. -/
theorem setPrevOf_head (segment : Segment links before items after) (nodup : items.Nodup) (target : Option P) :
    Segment (links.setPrevOf items.head? target) target items after := by
  cases items with
  | nil => trivial
  | cons p rest =>
    obtain ⟨-, on, tail⟩ := segment
    refine ⟨by simp [Links.setPrevOf, Links.setPrev], on, ?_⟩
    apply Segment.congr tail
    intro q member
    have ahead : q ≠ p := fun same => (List.nodup_cons.mp nodup).1 (same ▸ member)
    exact ⟨Function.update_of_ne ahead .., rfl⟩

end relink
end Segment

namespace Links
variable [DecidableEq P] (links : Links P) {p : Option P} {q : P} (target : Option P)

@[simp] theorem setNextOf_prev : (links.setNextOf p target).prev = links.prev := by
  cases p <;> rfl

@[simp] theorem setPrevOf_next : (links.setPrevOf p target).next = links.next := by
  cases p <;> rfl

theorem setNextOf_next_ne (other : p ≠ some q) : (links.setNextOf p target).next q = links.next q := by
  cases p with
  | none => rfl
  | some p =>
    apply Function.update_of_ne
    rintro rfl
    exact other rfl

theorem setPrevOf_prev_ne (other : p ≠ some q) : (links.setPrevOf p target).prev q = links.prev q := by
  cases p with
  | none => rfl
  | some p =>
    apply Function.update_of_ne
    rintro rfl
    exact other rfl

theorem setNextOf_next_self : (links.setNextOf p (links.next q)).next q = links.next q := by
  cases p with
  | none => rfl
  | some p =>
    by_cases same : q = p
    · subst same
      exact Function.update_self ..
    · exact Function.update_of_ne same ..

/-- What a removal does to the links of the other elements. -/
theorem listRemove_ne {item : P} (list : Option P) (other : q ≠ item) :
    (links.listRemove item list).1.prev q = (links.setPrevOf (links.next item) (links.prev item)).prev q ∧
      (links.listRemove item list).1.next q = (links.setNextOf (links.prev item) (links.next item)).next q := by
  simp only [listRemove, setPrev, setNext, setNextOf_prev, setNextOf_next_self, Function.update_of_ne other, setPrevOf_next]
  refine ⟨?_, trivial⟩
  cases links.next item with
  | none => simp [setPrevOf]
  | some after => simp [setPrevOf, setPrev]

/-- What a removal does to the links of the element itself. -/
theorem listRemove_self (item : P) (list : Option P) :
    (links.listRemove item list).1.prev item = none ∧ (links.listRemove item list).1.next item = none := by
  simp [listRemove, setPrev, setNext]

end Links

/-- The elements met on the way from a pointer to the end of its list. -/
inductive Path (links : Links P) : Option P → List P → Prop where
  | done : Path links none []
  | step {p rest} (behind : Path links (links.next p) rest) : Path links (some p) (p :: rest)

theorem Segment.path {links : Links P} {before : Option P} {items : List P} (segment : Segment links before items none) :
    Path links items.head? items := by
  induction items generalizing before with
  | nil => exact .done
  | cons p rest ih =>
    obtain ⟨-, on, tail⟩ := segment
    rw [Option.or_none] at on
    exact .step (on ▸ ih tail)

namespace Path
variable {links : Links P} {list : Option P} {items : List P}

theorem unique (path : Path links list items) {again : List P} (same : Path links list again) : items = again := by
  induction path generalizing again with
  | done =>
    cases same
    rfl
  | step behind ih =>
    cases same with
    | step behind' => rw [ih behind']

theorem behind {front back : List P} {p : P} (path : Path links list (front ++ p :: back)) :
    Path links (some p) (p :: back) := by
  induction front generalizing list with
  | nil =>
    cases path with
    | step behind => exact .step behind
  | cons q front ih =>
    cases path with
    | step behind => exact ih behind

/-- A way that ends meets no element twice, since it would go on the same way. -/
theorem nodup (path : Path links list items) : items.Nodup := by
  induction path with
  | done => exact List.nodup_nil
  | @step p rest behind ih =>
    refine List.nodup_cons.mpr ⟨?_, ih⟩
    intro again
    obtain ⟨front, back, rfl⟩ := List.append_of_mem again
    have same := congrArg List.length (behind.behind.unique (.step behind))
    simp only [List.length_cons, List.length_append] at same
    omega

theorem scan (path : Path links list items) {test : P → Option Bool} {holds : P → Bool} {steps : Nat}
    (enough : items.length ≤ steps) (total : ∀ p ∈ items, test p = some (holds p)) :
    links.scan test steps list = some (items.find? holds) := by
  induction path generalizing steps with
  | done => cases steps <;> rfl
  | @step p rest behind ih =>
    cases steps with
    | zero => cases enough
    | succ steps =>
      rw [Links.scan, total p List.mem_cons_self, List.find?_cons]
      cases holds p with
      | true => rfl
      | false => exact ih (Nat.le_of_succ_le_succ enough) (fun q member => total q (List.mem_cons_of_mem p member))

theorem toList (path : Path links list items) {steps : Nat} (enough : items.length ≤ steps) :
    links.toList steps list = some items := by
  induction path generalizing steps with
  | done => cases steps <;> rfl
  | step behind ih =>
    cases steps with
    | zero => cases enough
    | succ steps => rw [Links.toList, ih (Nat.le_of_succ_le_succ enough), Option.map_some]

end Path

/-- The list of a head pointer, first element first. -/
structure Linked (links : Links P) (list : Option P) (items : List P) : Prop where
  head : list = items.head?
  nodup : items.Nodup
  segment : Segment links none items none

namespace Linked
variable {links other : Links P} {list : Option P} {items : List P}

theorem empty (links : Links P) : Linked links none [] := ⟨rfl, List.nodup_nil, trivial⟩

theorem congr (linked : Linked links list items)
    (same : ∀ p ∈ items, other.prev p = links.prev p ∧ other.next p = links.next p) : Linked other list items :=
  ⟨linked.head, linked.nodup, linked.segment.congr same⟩

theorem links_at {front back : List P} {p : P} (linked : Linked links list (front ++ p :: back)) :
    links.prev p = front.getLast? ∧ links.next p = back.head? := by
  obtain ⟨-, back, on, -⟩ := Segment.append.mp linked.segment
  exact ⟨back.trans Option.or_none, on.trans Option.or_none⟩

theorem path (linked : Linked links list items) : Path links list items := by
  rw [linked.head]
  exact linked.segment.path

theorem unique {again : List P} (linked : Linked links list items) (same : Linked links list again) :
    items = again :=
  linked.path.unique same.path

section operations
variable [DecidableEq P]

theorem insert (linked : Linked links list items) {item : P} (fresh : item ∉ items) :
    Linked (links.listInsert item list).1 (links.listInsert item list).2 (item :: items) := by
  refine ⟨rfl, List.nodup_cons.mpr ⟨fresh, linked.nodup⟩, ?_⟩
  obtain ⟨rfl, nodup, segment⟩ := linked
  have ahead : items.head? ≠ some item := fun same => fresh (List.mem_of_head? same)
  refine ⟨?_, ?_, ?_⟩
  · rw [Links.listInsert, Links.setPrevOf_prev_ne _ _ ahead]
    simp [Links.setNext, Links.setPrev]
  · simp [Links.listInsert, Links.setNext]
  · have moved : Segment ((links.setPrev item none).setNext item items.head?) none items none := by
      apply Segment.congr segment
      intro p member
      have other : p ≠ item := fun same => fresh (same ▸ member)
      exact ⟨Function.update_of_ne other .., Function.update_of_ne other ..⟩
    exact moved.setPrevOf_head nodup (some item)

/-- The elements inserted one after the other stand in the opposite order. -/
theorem insertAll {more : List P} (linked : Linked links list items) (nodup : more.Nodup)
    (fresh : ∀ item ∈ more, item ∉ items) :
    Linked (more.foldl (fun list item => list.1.listInsert item list.2) (links, list)).1
      (more.foldl (fun list item => list.1.listInsert item list.2) (links, list)).2 (more.reverse ++ items) := by
  induction more generalizing links list items with
  | nil => exact linked
  | cons item more ih =>
    obtain ⟨once, nodup⟩ := List.nodup_cons.mp nodup
    have here := linked.insert (fresh item List.mem_cons_self)
    rw [List.foldl_cons, List.reverse_cons, List.append_assoc]
    apply ih here nodup
    intro other member inside
    rcases List.mem_cons.mp inside with same | earlier
    · exact once (same ▸ member)
    · exact fresh other (List.mem_cons_of_mem item member) earlier

theorem remove {front back : List P} {item : P} (linked : Linked links list (front ++ item :: back)) :
    Linked (links.listRemove item list).1 (links.listRemove item list).2 (front ++ back) := by
  obtain ⟨prev, next⟩ := linked.links_at
  obtain ⟨rfl, nodup, segment⟩ := linked
  obtain ⟨nodupFront, nodupItem, disjoint⟩ := List.nodup_append.mp nodup
  obtain ⟨notBack, nodupBack⟩ := List.nodup_cons.mp nodupItem
  have apart : item ∉ front ++ back := by
    intro member
    rcases List.mem_append.mp member with before | behind
    · exact disjoint item before item List.mem_cons_self rfl
    · exact notBack behind
  refine ⟨?_, nodup.sublist (by simp), ?_⟩
  · simp only [Links.listRemove, next]
    cases front with
    | nil => simp
    | cons p front =>
      have other : p ≠ item := fun same => apart (by simp [same])
      simp [other]
  · obtain ⟨start, -, -, tail⟩ := Segment.append.mp segment
    have kept := fun q member => links.listRemove_ne ((front ++ item :: back).head?)
      (fun same : q = item => apart (same ▸ member))
    rw [prev, next] at kept
    refine Segment.append.mpr ⟨?_, ?_⟩
    · apply Segment.congr (start.setNextOf_last nodupFront (back.head?.or none))
      intro q member
      obtain ⟨samePrev, sameNext⟩ := kept q (List.mem_append_left back member)
      rw [samePrev, sameNext, Links.setNextOf_prev, Option.or_none]
      refine ⟨Links.setPrevOf_prev_ne links _ ?_, rfl⟩
      intro same
      exact disjoint q member q (List.mem_cons_of_mem item (List.mem_of_head? same)) rfl
    · apply Segment.congr (tail.setPrevOf_head nodupBack (front.getLast?.or none))
      intro q member
      obtain ⟨samePrev, sameNext⟩ := kept q (List.mem_append_right front member)
      rw [samePrev, sameNext, Links.setPrevOf_next, Option.or_none]
      refine ⟨rfl, Links.setNextOf_next_ne links _ ?_⟩
      intro same
      exact disjoint q (List.mem_of_getLast? same) q (List.mem_cons_of_mem item member) rfl

/-- A list that the element is not put into keeps its links. -/
theorem insert_other (linked : Linked links list items) {others : List P} {first : Option P} {item : P}
    (apart : Linked links first others) (fresh : item ∉ others) (disjoint : ∀ p ∈ others, p ∉ items) :
    Linked (links.listInsert item list).1 first others := by
  apply apart.congr
  intro p member
  have other : p ≠ item := fun same => fresh (same ▸ member)
  have behind : list ≠ some p := by
    rw [linked.head]
    exact fun same => disjoint p member (List.mem_of_head? same)
  refine ⟨(Links.setPrevOf_prev_ne _ _ behind).trans (Function.update_of_ne other ..), ?_⟩
  simp [Links.listInsert, Links.setNext, Links.setPrev, other]

/-- A removal changes no links but those of the element and of its neighbours. -/
theorem remove_frame {front back : List P} {item q : P} (linked : Linked links list (front ++ item :: back))
    (other : q ≠ item) (last : front.getLast? ≠ some q) (first : back.head? ≠ some q) :
    (links.listRemove item list).1.prev q = links.prev q ∧ (links.listRemove item list).1.next q = links.next q := by
  obtain ⟨prev, next⟩ := linked.links_at
  obtain ⟨samePrev, sameNext⟩ := links.listRemove_ne list other
  rw [samePrev, sameNext, prev, next]
  exact ⟨Links.setPrevOf_prev_ne links _ first, Links.setNextOf_next_ne links _ last⟩

theorem remove_other {front back : List P} {item : P} (linked : Linked links list (front ++ item :: back))
    {others : List P} {first : Option P} (apart : Linked links first others)
    (disjoint : ∀ p ∈ others, p ∉ front ++ item :: back) : Linked (links.listRemove item list).1 first others := by
  apply apart.congr
  intro p member
  have outside := disjoint p member
  apply linked.remove_frame
  · rintro rfl
    exact outside (List.mem_append_right front List.mem_cons_self)
  · intro same
    exact outside (List.mem_append_left _ (List.mem_of_getLast? same))
  · intro same
    exact outside (List.mem_append_right front (List.mem_cons_of_mem item (List.mem_of_head? same)))

end operations
end Linked
end NetPrograms
