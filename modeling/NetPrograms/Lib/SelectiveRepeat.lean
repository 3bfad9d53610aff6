import NetPrograms.Lib.Serial
import Mathlib.Data.List.Perm.Subperm

/-! Selective repeat over serial numbers. The sender numbers values as its window
allows and keeps them until they are acknowledged, one by one or all below a
number. The receiver takes what arrives within its window and puts it in order. -/

namespace NetPrograms.SelectiveRepeat
open Serial

universe u
variable {α : Type u}

/-- `queue` holds the values without a number, `buf` the others not acknowledged. -/
structure Sender (α : Type u) where
  una : UInt32 := 0
  nxt : UInt32 := 0
  buf : List (UInt32 × α) := []
  queue : List α := []

/-- `buf` holds what came early, `queue` what is in order and not yet read. -/
structure Receiver (α : Type u) where
  nxt : UInt32 := 0
  wnd : UInt32
  buf : List (UInt32 × α) := []
  queue : List (UInt32 × α) := []

/-- `count` successive numbers. -/
def successive : UInt32 → Nat → List UInt32
  | _, 0 => []
  | first, count + 1 => first :: successive (first + 1) count

@[simp] theorem successive_length (first : UInt32) (count : Nat) : (successive first count).length = count := by
  induction count generalizing first with
  | zero => rfl
  | succ count ih => simp [successive, ih]

theorem successive_add (first : UInt32) (count more : Nat) :
    successive first (count + more) = successive first count ++ successive (first + UInt32.ofNat count) more := by
  induction count generalizing first with
  | zero => simp [successive]
  | succ count ih =>
    have step : first + 1 + UInt32.ofNat count = first + UInt32.ofNat (count + 1) := by
      rw [UInt32.ofNat_add, UInt32.add_assoc, UInt32.add_comm 1]
      rfl
    rw [Nat.succ_add, successive, successive, ih, step, List.cons_append]

/-! The sender -/

/-- There are no more entries in order than there are numbers for them. -/
theorem length_le_of_ahead {buf : List (UInt32 × α)} {base : UInt32} {limit : Nat}
    (sorted : buf.Pairwise fun first second => ahead first.1 base < ahead second.1 base)
    (below : ∀ entry ∈ buf, ahead entry.1 base < limit) : buf.length ≤ limit := by
  have distinct : (buf.map fun entry => ahead entry.1 base).Nodup := by
    rw [List.Nodup, List.pairwise_map]
    exact sorted.imp Nat.ne_of_lt
  have inside : buf.map (fun entry => ahead entry.1 base) ⊆ List.range limit := by
    intro distance member
    obtain ⟨entry, held, rfl⟩ := List.mem_map.1 member
    exact List.mem_range.2 (below entry held)
  simpa using (List.subperm_of_subset distinct inside).length_le

namespace Sender

/-- The lowest number that is not acknowledged. -/
def shrink (s : Sender α) : Sender α := { s with una := (s.buf.head?.map Prod.fst).getD s.nxt }

/-- The search ends at a later number. -/
def remove (sn : UInt32) : List (UInt32 × α) → List (UInt32 × α)
  | [] => []
  | entry :: rest =>
    if sn = entry.1 then rest
    else if diff sn entry.1 < 0 then entry :: rest
    else entry :: remove sn rest

/-- A number outside the window is not looked for. -/
def acknowledge (sn : UInt32) (s : Sender α) : Sender α :=
  (if diff sn s.una < 0 ∨ diff sn s.nxt ≥ 0 then s else { s with buf := remove sn s.buf }).shrink

def cumulate (una : UInt32) (s : Sender α) : Sender α :=
  { s with buf := s.buf.dropWhile fun entry => diff una entry.1 > 0 }.shrink

/-- Its argument is what is left of the queue. -/
def number (cwnd : UInt32) : List α → Sender α → Sender α
  | [], s => { s with queue := [] }
  | value :: rest, s =>
    if diff s.nxt (s.una + cwnd) < 0 then
      number cwnd rest { s with nxt := s.nxt + 1, buf := s.buf ++ [(s.nxt, value)] }
    else { s with queue := value :: rest }

theorem remove_sublist (sn : UInt32) (buf : List (UInt32 × α)) : (remove sn buf).Sublist buf := by
  induction buf with
  | nil => exact List.Sublist.refl _
  | cons entry rest ih =>
    unfold remove
    split
    next => exact List.sublist_cons_self entry rest
    next =>
      split
      next => exact List.Sublist.refl _
      next => exact ih.cons_cons entry

theorem mem_remove {sn : UInt32} {buf : List (UInt32 × α)} {entry : UInt32 × α} (member : entry ∈ buf)
    (other : entry.1 ≠ sn) : entry ∈ remove sn buf := by
  induction buf with
  | nil => exact absurd member List.not_mem_nil
  | cons first rest ih =>
    unfold remove
    rcases List.mem_cons.1 member with rfl | later
    · rw [if_neg (Ne.symm other)]
      split <;> exact List.mem_cons_self
    · split
      next => exact later
      next =>
        split
        next => exact member
        next => exact List.mem_cons_of_mem _ (ih later)

/-- The induction along `number`: what holds before is kept by every number given. -/
theorem number_rule {P : Sender α → Prop} {cwnd : UInt32}
    (step : ∀ (s : Sender α) value rest, P { s with queue := value :: rest } → diff s.nxt (s.una + cwnd) < 0 →
      P { s with nxt := s.nxt + 1, buf := s.buf ++ [(s.nxt, value)], queue := rest })
    (rest : List α) (s : Sender α) (initial : P { s with queue := rest }) : P (number cwnd rest s) := by
  induction rest generalizing s with
  | nil => exact initial
  | cons value rest ih =>
    unfold number
    split
    next room => exact ih { s with nxt := s.nxt + 1, buf := s.buf ++ [(s.nxt, value)] } (step s value rest initial room)
    next => exact initial

/-- The values that get a number come from the head of the queue. -/
theorem number_queue (cwnd : UInt32) (s : Sender α) : ∃ taken, s.queue = taken ++ (number cwnd s.queue s).queue := by
  refine number_rule (P := fun after => ∃ taken, s.queue = taken ++ after.queue) ?_ s.queue s ⟨[], rfl⟩
  rintro before value rest ⟨taken, split⟩ -
  change s.queue = taken ++ value :: rest at split
  exact ⟨taken ++ [value], by simpa using split⟩

/-- Every value that the sender still has. -/
structure All (P : α → Prop) (s : Sender α) : Prop where
  queue : ∀ value ∈ s.queue, P value
  buf : ∀ entry ∈ s.buf, P entry.2

namespace All
variable {P : α → Prop} {s : Sender α}

theorem shrink (all : All P s) {buf : List (UInt32 × α)} (part : buf.Sublist s.buf) : All P { s with buf }.shrink :=
  ⟨all.queue, fun entry member => all.buf entry (part.subset member)⟩

theorem acknowledge (all : All P s) (sn : UInt32) : All P (s.acknowledge sn) := by
  unfold Sender.acknowledge
  split
  next => exact all.shrink (List.Sublist.refl s.buf)
  next => exact all.shrink (remove_sublist sn s.buf)

theorem cumulate (all : All P s) (una : UInt32) : All P (s.cumulate una) :=
  all.shrink (List.dropWhile_sublist _)

theorem number (all : All P s) (cwnd : UInt32) : All P (Sender.number cwnd s.queue s) := by
  refine number_rule (P := All P) ?_ s.queue s all
  intro s value rest all _
  refine ⟨fun other member => all.queue other (List.mem_cons_of_mem _ member), fun entry member => ?_⟩
  rcases List.mem_append.1 member with old | last
  · exact all.buf entry old
  · obtain rfl := List.mem_singleton.1 last
    exact all.queue value List.mem_cons_self

end All

/-- At most `limit` numbers are in use. They stand in order from `una` on. -/
structure Valid (limit : Nat) (s : Sender α) : Prop where
  half : limit < 2 ^ 31
  window : ahead s.nxt s.una ≤ limit
  sorted : s.buf.Pairwise fun first second => ahead first.1 s.una < ahead second.1 s.una
  below : ∀ entry ∈ s.buf, ahead entry.1 s.una < ahead s.nxt s.una
  first : s.una = (s.buf.head?.map Prod.fst).getD s.nxt

namespace Valid
variable {limit : Nat} {s : Sender α}

theorem start (half : limit < 2 ^ 31) (queue : List α) : Valid limit { queue } :=
  ⟨half, by simp, List.Pairwise.nil, by simp, rfl⟩

/-- Whatever is deleted, the window goes on to what is left. -/
theorem shrink (valid : Valid limit s) {buf : List (UInt32 × α)} (part : buf.Sublist s.buf) :
    Valid limit { s with buf }.shrink := by
  have within : ∀ entry ∈ buf, ahead entry.1 s.una < ahead s.nxt s.una := fun entry member =>
    valid.below entry (part.subset member)
  have sorted := valid.sorted.sublist part
  generalize same : { s with buf }.shrink = after
  obtain ⟨una, nxt, entries, queue⟩ := after
  obtain ⟨moved, rfl, rfl, rfl⟩ : (buf.head?.map Prod.fst).getD s.nxt = una ∧ s.nxt = nxt ∧ buf = entries ∧
      s.queue = queue := by
    simpa [Sender.shrink] using same
  have low : ahead una s.una ≤ ahead s.nxt s.una := by
    cases buf with
    | nil => simp [← moved]
    | cons entry rest => simpa [← moved] using (within entry List.mem_cons_self).le
  have lowest : ∀ entry ∈ buf, ahead una s.una ≤ ahead entry.1 s.una := by
    intro entry member
    cases buf with
    | nil => exact absurd member List.not_mem_nil
    | cons head rest =>
      obtain rfl : head.1 = una := by simpa using moved
      rcases List.mem_cons.1 member with rfl | later
      · exact le_rfl
      · exact (List.rel_of_pairwise_cons sorted later).le
  have last := ahead_of_base_le low
  have window := valid.window
  refine ⟨valid.half, ?_, ?_, ?_, moved.symm⟩
  · show ahead s.nxt una ≤ limit
    omega
  · refine sorted.imp_of_mem fun {first second} one two order => ?_
    have := ahead_of_base_le (lowest first one)
    have := ahead_of_base_le (lowest second two)
    show ahead first.1 una < ahead second.1 una
    omega
  · intro entry member
    have := ahead_of_base_le (lowest entry member)
    have := within entry member
    show ahead entry.1 una < ahead s.nxt una
    omega

theorem acknowledge (valid : Valid limit s) (sn : UInt32) : Valid limit (s.acknowledge sn) := by
  unfold Sender.acknowledge
  split
  next => exact valid.shrink (List.Sublist.refl s.buf)
  next => exact valid.shrink (remove_sublist sn s.buf)

theorem cumulate (valid : Valid limit s) (una : UInt32) : Valid limit (s.cumulate una) :=
  valid.shrink (List.dropWhile_sublist _)

theorem room (valid : Valid limit s) {cwnd : UInt32} (narrow : cwnd.toNat ≤ limit) :
    diff s.nxt (s.una + cwnd) < 0 ↔ ahead s.nxt s.una < cwnd.toNat := by
  have window := valid.window
  have half := valid.half
  have end_ := ahead_add s.una cwnd
  rw [@diff_of_ahead s.nxt (s.una + cwnd) s.una (by omega) (by omega), end_]
  omega

theorem number (valid : Valid limit s) {cwnd : UInt32} (narrow : cwnd.toNat ≤ limit) :
    Valid limit (Sender.number cwnd s.queue s) := by
  refine number_rule (P := Valid limit) ?_ s.queue s valid
  intro s value rest valid room
  have space := (valid.room narrow).1 room
  change ahead s.nxt s.una < cwnd.toNat at space
  have half := valid.half
  have next : ahead (s.nxt + 1) s.una = ahead s.nxt s.una + 1 := ahead_add_one (by omega)
  refine ⟨half, ?_, ?_, ?_, ?_⟩
  · show ahead (s.nxt + 1) s.una ≤ limit
    omega
  · refine List.pairwise_append.2 ⟨valid.sorted, List.pairwise_singleton _ _, ?_⟩
    intro entry member last one
    obtain rfl := List.mem_singleton.1 one
    exact valid.below entry member
  · intro entry member
    show ahead entry.1 s.una < ahead (s.nxt + 1) s.una
    rw [next]
    rcases List.mem_append.1 member with old | last
    · exact (valid.below entry old).trans (Nat.lt_succ_self _)
    · obtain rfl := List.mem_singleton.1 last
      exact Nat.lt_succ_self _
  · have first := valid.first
    change s.una = (s.buf.head?.map Prod.fst).getD s.nxt at first
    cases empty : s.buf with
    | nil => simpa [empty] using first
    | cons entry rest => simpa [empty] using first

/-- The search does not end before the number that it looks for. -/
theorem remove_ne {sn base : UInt32} {buf : List (UInt32 × α)} (near : ahead sn base < 2 ^ 31)
    (all : ∀ entry ∈ buf, ahead entry.1 base < 2 ^ 31)
    (sorted : buf.Pairwise fun first second => ahead first.1 base < ahead second.1 base) :
    ∀ entry ∈ remove sn buf, entry.1 ≠ sn := by
  induction buf with
  | nil => exact fun entry member => absurd member List.not_mem_nil
  | cons first rest ih =>
    obtain ⟨later, ordered⟩ := List.pairwise_cons.1 sorted
    unfold remove
    split
    next same =>
      intro entry member equal
      have order := later entry member
      rw [equal, ← same] at order
      exact Nat.lt_irrefl _ order
    next other =>
      split
      next passed =>
        rw [diff_of_ahead near (all first List.mem_cons_self)] at passed
        intro entry member equal
        rcases List.mem_cons.1 member with rfl | after
        · exact other equal.symm
        · have order := later entry after
          rw [equal] at order
          omega
      next =>
        intro entry member
        rcases List.mem_cons.1 member with rfl | after
        · exact Ne.symm other
        · exact ih (fun entry member => all entry (List.mem_cons_of_mem _ member)) ordered entry after

/-- What is acknowledged is forgotten. -/
theorem acknowledged (valid : Valid limit s) (sn : UInt32) : ∀ entry ∈ (s.acknowledge sn).buf, entry.1 ≠ sn := by
  have half := valid.half
  have window := valid.window
  have near : ∀ entry ∈ s.buf, ahead entry.1 s.una < 2 ^ 31 := by
    intro entry member
    have := valid.below entry member
    omega
  unfold Sender.acknowledge
  split
  next outside =>
    intro entry member equal
    have below := valid.below entry member
    have order := diff_of_ahead (near entry member) (by omega : ahead s.nxt s.una < 2 ^ 31)
    have positive := diff_nonneg_iff.2 (near entry member)
    rw [equal] at below order positive
    omega
  next inside =>
    have positive : ahead sn s.una < 2 ^ 31 := diff_nonneg_iff.1 (by omega)
    exact remove_ne positive near valid.sorted

theorem length (valid : Valid limit s) : s.buf.length ≤ limit := by
  refine (length_le_of_ahead valid.sorted valid.below).trans valid.window

end Valid
end Sender

/-! The receiver -/

namespace Receiver

/-- Its argument is what is left of `buf`. -/
def move : List (UInt32 × α) → Receiver α → Receiver α
  | [], r => { r with buf := [] }
  | entry :: rest, r =>
    if entry.1 = r.nxt ∧ UInt32.ofNat r.queue.length < r.wnd then
      move rest { r with nxt := r.nxt + 1, queue := r.queue ++ [entry] }
    else { r with buf := entry :: rest }

/-- The list has its newest entry first. -/
def place (entry : UInt32 × α) : List (UInt32 × α) → Option (List (UInt32 × α))
  | [] => some [entry]
  | other :: older =>
    if other.1 = entry.1 then none
    else if diff entry.1 other.1 > 0 then some (entry :: other :: older)
    else (place entry older).map (other :: ·)

def insert (entry : UInt32 × α) (buf : List (UInt32 × α)) : List (UInt32 × α) :=
  match place entry buf.reverse with
  | some newestFirst => newestFirst.reverse
  | none => buf

def accept (entry : UInt32 × α) (r : Receiver α) : Receiver α :=
  if diff entry.1 (r.nxt + r.wnd) ≥ 0 ∨ diff entry.1 r.nxt < 0 then r
  else move (insert entry r.buf) r

/-- The reader takes values from the head of the queue, which may make room. -/
def take (count : Nat) (r : Receiver α) : Receiver α := move r.buf { r with queue := r.queue.drop count }

/-- What the buffer holds before is not looked at. -/
theorem move_buf (rest : List (UInt32 × α)) (r : Receiver α) (buf : List (UInt32 × α)) :
    move rest { r with buf } = move rest r := by
  induction rest generalizing r with
  | nil => rfl
  | cons entry rest ih =>
    unfold move
    split
    next => exact ih { r with nxt := r.nxt + 1, queue := r.queue ++ [entry] }
    next => rfl

/-- The induction along `move`. -/
theorem move_rule {P : Receiver α → Prop}
    (step : ∀ (r : Receiver α) entry rest, P { r with buf := entry :: rest } → entry.1 = r.nxt →
      UInt32.ofNat r.queue.length < r.wnd → P { r with nxt := r.nxt + 1, queue := r.queue ++ [entry], buf := rest })
    (rest : List (UInt32 × α)) (r : Receiver α) (initial : P { r with buf := rest }) : P (move rest r) := by
  induction rest generalizing r with
  | nil => exact initial
  | cons entry rest ih =>
    unfold move
    split
    next ready => exact ih { r with nxt := r.nxt + 1, queue := r.queue ++ [entry] } (step r entry rest initial ready.1 ready.2)
    next => exact initial

theorem queue_move (rest : List (UInt32 × α)) (r : Receiver α) : r.queue <+: (move rest r).queue := by
  refine move_rule (P := fun after => r.queue <+: after.queue) ?_ rest r (List.prefix_refl _)
  intro after entry rest held _ _
  exact held.trans (List.prefix_append _ _)

theorem queue_accept (entry : UInt32 × α) (r : Receiver α) : r.queue <+: (r.accept entry).queue := by
  unfold accept
  split
  next => exact List.prefix_refl _
  next => exact queue_move _ r

theorem mem_place {entry : UInt32 × α} {older placed : List (UInt32 × α)} (found : place entry older = some placed)
    {other : UInt32 × α} : other ∈ placed ↔ other = entry ∨ other ∈ older := by
  induction older generalizing placed with
  | nil =>
    obtain rfl : [entry] = placed := by simpa [place] using found
    simp
  | cons first older ih =>
    unfold place at found
    split at found
    next => exact absurd found (by simp)
    next =>
      split at found
      next =>
        obtain rfl := Option.some.inj found
        simp
      next =>
        obtain ⟨rest, deeper, rfl⟩ := Option.map_eq_some_iff.1 found
        rw [List.mem_cons, ih deeper, List.mem_cons]
        exact or_left_comm

theorem place_none {entry : UInt32 × α} {older : List (UInt32 × α)} (found : place entry older = none) :
    ∃ other ∈ older, other.1 = entry.1 := by
  induction older with
  | nil => exact absurd found (by simp [place])
  | cons first older ih =>
    unfold place at found
    split at found
    next same => exact ⟨first, List.mem_cons_self, same⟩
    next =>
      split at found
      next => exact absurd found (by simp)
      next =>
        obtain ⟨other, member, same⟩ := ih (by simpa using found)
        exact ⟨other, List.mem_cons_of_mem _ member, same⟩

theorem mem_insert {entry other : UInt32 × α} {buf : List (UInt32 × α)} (member : other ∈ insert entry buf) :
    other = entry ∨ other ∈ buf := by
  unfold insert at member
  split at member
  next placed found =>
    rw [List.mem_reverse, mem_place found, List.mem_reverse] at member
    exact member
  next => exact Or.inr member

theorem mem_insert_of_mem {entry other : UInt32 × α} {buf : List (UInt32 × α)} (member : other ∈ buf) :
    other ∈ insert entry buf := by
  unfold insert
  split
  next placed found =>
    rw [List.mem_reverse, mem_place found, List.mem_reverse]
    exact Or.inr member
  next => exact member

theorem exists_mem_insert (entry : UInt32 × α) (buf : List (UInt32 × α)) :
    ∃ other ∈ insert entry buf, other.1 = entry.1 := by
  unfold insert
  split
  next placed found => exact ⟨entry, List.mem_reverse.2 ((mem_place found).2 (Or.inl rfl)), rfl⟩
  next found =>
    obtain ⟨other, member, same⟩ := place_none found
    exact ⟨other, List.mem_reverse.1 member, same⟩

/-- Entries of one half circle keep their order. -/
theorem place_sorted {entry : UInt32 × α} {base : UInt32} {older placed : List (UInt32 × α)}
    (found : place entry older = some placed) (near : ahead entry.1 base < 2 ^ 31)
    (all : ∀ other ∈ older, ahead other.1 base < 2 ^ 31)
    (sorted : older.Pairwise fun first second => ahead second.1 base < ahead first.1 base) :
    placed.Pairwise fun first second => ahead second.1 base < ahead first.1 base := by
  induction older generalizing placed with
  | nil =>
    obtain rfl : [entry] = placed := by simpa [place] using found
    exact List.pairwise_singleton _ _
  | cons first older ih =>
    obtain ⟨head, tail⟩ := List.pairwise_cons.1 sorted
    have order := diff_of_ahead near (all first List.mem_cons_self)
    unfold place at found
    split at found
    next => exact absurd found (by simp)
    next other =>
      split at found
      next later =>
        obtain rfl := Option.some.inj found
        have before : ahead first.1 base < ahead entry.1 base := by omega
        refine List.pairwise_cons.2 ⟨?_, sorted⟩
        intro second member
        rcases List.mem_cons.1 member with rfl | deeper
        · exact before
        · exact (head second deeper).trans before
      next earlier =>
        obtain ⟨rest, placed, rfl⟩ := Option.map_eq_some_iff.1 found
        have apart : ahead first.1 base ≠ ahead entry.1 base := fun same => other (ahead_inj.1 same)
        have after : ahead entry.1 base < ahead first.1 base := by omega
        refine List.pairwise_cons.2
          ⟨?_, ih placed (fun other member => all other (List.mem_cons_of_mem _ member)) tail⟩
        intro second member
        rcases (mem_place placed).1 member with rfl | deeper
        · exact after
        · exact head second deeper

theorem insert_sorted {entry : UInt32 × α} {base : UInt32} {buf : List (UInt32 × α)}
    (near : ahead entry.1 base < 2 ^ 31) (all : ∀ other ∈ buf, ahead other.1 base < 2 ^ 31)
    (sorted : buf.Pairwise fun first second => ahead first.1 base < ahead second.1 base) :
    (insert entry buf).Pairwise fun first second => ahead first.1 base < ahead second.1 base := by
  unfold insert
  split
  next placed found =>
    rw [List.pairwise_reverse]
    exact place_sorted found near (fun other member => all other (List.mem_reverse.1 member))
      (List.pairwise_reverse.2 sorted)
  next => exact sorted

/-- Neither list holds more than `bound` entries. What came early stands in order
within the window, and what is in order ends before it without a gap. -/
structure Valid (bound : Nat) (r : Receiver α) : Prop where
  half : bound < 2 ^ 31
  wnd : r.wnd.toNat ≤ bound
  held : r.queue.length ≤ bound
  sorted : r.buf.Pairwise fun first second => ahead first.1 r.nxt < ahead second.1 r.nxt
  inside : ∀ entry ∈ r.buf, ahead entry.1 r.nxt < bound
  ready : r.queue.map Prod.fst = successive (r.nxt - UInt32.ofNat r.queue.length) r.queue.length

namespace Valid
variable {bound : Nat} {r : Receiver α}

theorem start {wnd : UInt32} (half : bound < 2 ^ 31) (narrow : wnd.toNat ≤ bound) :
    Valid bound ({ wnd } : Receiver α) :=
  ⟨half, narrow, Nat.zero_le _, List.Pairwise.nil, by simp, rfl⟩

theorem move (rest : List (UInt32 × α)) (valid : Valid bound { r with buf := rest }) : Valid bound (move rest r) := by
  refine move_rule (P := Valid bound) ?_ rest r valid
  intro r entry rest valid next room
  have held := valid.held
  have wnd := valid.wnd
  have half := valid.half
  have inside := valid.inside
  change r.queue.length ≤ bound at held
  change r.wnd.toNat ≤ bound at wnd
  have exact : (UInt32.ofNat r.queue.length).toNat = r.queue.length := UInt32.toNat_ofNat_of_lt' (by
    show r.queue.length < 4294967296
    omega)
  have space : r.queue.length < r.wnd.toNat := by
    rw [← exact]
    exact UInt32.lt_iff_toNat_lt.1 room
  obtain ⟨head, tail⟩ := List.pairwise_cons.1 valid.sorted
  have step : ∀ other ∈ rest, ahead other.1 (r.nxt + 1) + 1 = ahead other.1 r.nxt := by
    intro other member
    have above := head other member
    refine ahead_base_add_one fun same => ?_
    change ahead entry.1 r.nxt < ahead other.1 r.nxt at above
    rw [next, same, ahead_self] at above
    exact absurd above (Nat.lt_irrefl 0)
  refine ⟨half, wnd, ?_, ?_, ?_, ?_⟩
  · show (r.queue ++ [entry]).length ≤ bound
    rw [List.length_append, List.length_singleton]
    omega
  · refine tail.imp_of_mem fun {first second} one two order => ?_
    have := step first one
    have := step second two
    change ahead first.1 r.nxt < ahead second.1 r.nxt at order
    show ahead first.1 (r.nxt + 1) < ahead second.1 (r.nxt + 1)
    omega
  · intro other member
    have one := step other member
    have below := inside other (List.mem_cons_of_mem _ member)
    change ahead other.1 r.nxt < bound at below
    show ahead other.1 (r.nxt + 1) < bound
    omega
  · have before := valid.ready
    change r.queue.map Prod.fst = successive (r.nxt - UInt32.ofNat r.queue.length) r.queue.length at before
    have from_ : r.nxt + 1 - UInt32.ofNat (r.queue.length + 1) = r.nxt - UInt32.ofNat r.queue.length := by
      rw [UInt32.ofNat_add]
      have one : UInt32.ofNat 1 = 1 := rfl
      rw [one]
      grind
    have last : r.nxt - UInt32.ofNat r.queue.length + UInt32.ofNat r.queue.length = entry.1 := by
      rw [next]
      grind
    show (r.queue ++ [entry]).map Prod.fst =
      successive (r.nxt + 1 - UInt32.ofNat (r.queue ++ [entry]).length) (r.queue ++ [entry]).length
    rw [List.length_append, List.length_singleton, from_, successive_add, last, List.map_append, before]
    rfl

theorem accept (valid : Valid bound r) (entry : UInt32 × α) : Valid bound (r.accept entry) := by
  unfold Receiver.accept
  split
  next => exact valid
  next inside =>
    have half := valid.half
    have wnd := valid.wnd
    have near : ahead entry.1 r.nxt < 2 ^ 31 := diff_nonneg_iff.1 (by omega)
    have end_ := ahead_add r.nxt r.wnd
    have below := @diff_of_ahead entry.1 (r.nxt + r.wnd) r.nxt near (by omega)
    refine move _ ⟨half, wnd, valid.held, ?_, ?_, valid.ready⟩
    · exact insert_sorted near (fun other member => (valid.inside other member).trans half) valid.sorted
    · intro other member
      rcases mem_insert member with rfl | old
      · show ahead other.1 r.nxt < bound
        omega
      · exact valid.inside other old

theorem take (valid : Valid bound r) (count : Nat) : Valid bound (r.take count) := by
  refine move _ ⟨valid.half, valid.wnd, ?_, valid.sorted, valid.inside, ?_⟩
  · have held := valid.held
    show (r.queue.drop count).length ≤ bound
    rw [List.length_drop]
    omega
  · show (r.queue.drop count).map Prod.fst =
      successive (r.nxt - UInt32.ofNat (r.queue.drop count).length) (r.queue.drop count).length
    rw [List.map_drop, valid.ready, List.length_drop]
    rcases Nat.le_total count r.queue.length with within | past
    · obtain ⟨left, size⟩ := Nat.exists_eq_add_of_le within
      have from_ : r.nxt - UInt32.ofNat r.queue.length + UInt32.ofNat count =
          r.nxt - UInt32.ofNat (r.queue.length - count) := by
        rw [size, Nat.add_sub_cancel_left, UInt32.ofNat_add]
        grind
      rw [← from_, show successive (r.nxt - UInt32.ofNat r.queue.length) r.queue.length =
        successive (r.nxt - UInt32.ofNat r.queue.length) (count + (r.queue.length - count)) by rw [Nat.add_sub_cancel' within],
        successive_add, List.drop_left' (successive_length _ _)]
    · rw [Nat.sub_eq_zero_of_le past, List.drop_of_length_le (by simpa using past)]
      rfl

theorem length (valid : Valid bound r) : r.buf.length ≤ bound :=
  length_le_of_ahead valid.sorted valid.inside

end Valid
end Receiver
end NetPrograms.SelectiveRepeat
