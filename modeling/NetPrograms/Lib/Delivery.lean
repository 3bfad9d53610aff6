import NetPrograms.Lib.SelectiveRepeat
import Mathlib.Data.List.Sort
import Mathlib.Data.List.TakeWhile

/-! What a receiver reads from a sender over selective repeat. The messages between
them may be lost, repeated and reordered. As long as the numbers do not come round
to the second half of the circle, the receiver reads what was sent in its order, and
the sender forgets nothing that the receiver does not have. -/

namespace NetPrograms.SelectiveRepeat
open Serial

universe u
variable {α : Type u}

/-- The value with this index has arrived. -/
def Receiver.Has (r : Receiver α) (index : Nat) : Prop :=
  index < r.nxt.toNat ∨ ∃ entry ∈ r.buf, entry.1.toNat = index

/-- What a receiver has it never loses, nor does it go back. -/
structure Receiver.Grows (before after : Receiver α) : Prop where
  nxt : before.nxt.toNat ≤ after.nxt.toNat
  has : ∀ index, before.Has index → after.Has index

theorem Receiver.Grows.refl (r : Receiver α) : Grows r r := ⟨le_rfl, fun _ has => has⟩

theorem Receiver.Grows.trans {first second third : Receiver α} (left : Grows first second)
    (right : Grows second third) : Grows first third :=
  ⟨left.nxt.trans right.nxt, fun index has => right.has index (left.has index has)⟩

/-- `sent` holds all values that were given a number, and `read` those that the
reader at the other side has taken. -/
structure Link (sent read : List α) (s : Sender α) (r : Receiver α) : Prop where
  small : sent.length < 2 ^ 31
  nxt : s.nxt.toNat = sent.length
  una : s.una.toNat ≤ sent.length
  carried : ∀ entry ∈ s.buf, sent[entry.1.toNat]? = some entry.2
  expected : r.nxt.toNat ≤ sent.length
  early : ∀ entry ∈ r.buf, sent[entry.1.toNat]? = some entry.2
  inOrder : read ++ r.queue.map Prod.snd = sent.take r.nxt.toNat
  kept : ∀ index < sent.length, (∃ entry ∈ s.buf, entry.1.toNat = index) ∨ r.Has index

namespace Link
variable {sent read : List α} {s : Sender α} {r : Receiver α}

theorem start (queue : List α) (wnd : UInt32) : Link [] [] ({ queue } : Sender α) { wnd } := by
  refine ⟨by simp, rfl, Nat.le_refl 0, by simp, Nat.le_refl 0, by simp, rfl, ?_⟩
  intro index inside
  exact absurd inside (Nat.not_lt_zero index)

theorem sender (link : Link sent read s r) {after : Sender α} (nxt : after.nxt = s.nxt) (una : after.una = s.una)
    (buf : after.buf = s.buf) : Link sent read after r :=
  ⟨link.small, nxt ▸ link.nxt, una ▸ link.una, buf ▸ link.carried, link.expected, link.early, link.inOrder, buf ▸ link.kept⟩

theorem receiver (link : Link sent read s r) (after : Receiver α) (nxt : after.nxt = r.nxt) (buf : after.buf = r.buf)
    (queue : after.queue = r.queue) : Link sent read s after ∧ Receiver.Grows r after := by
  have same : ∀ index, after.Has index ↔ r.Has index := by
    intro index
    rw [Receiver.Has, Receiver.Has, nxt, buf]
  exact ⟨⟨link.small, link.nxt, link.una, link.carried, nxt ▸ link.expected, buf ▸ link.early, nxt ▸ queue ▸ link.inOrder,
    fun index inside => (link.kept index inside).imp_right (same index).2⟩, nxt ▸ le_rfl, fun index => (same index).2⟩

theorem index_lt (link : Link sent read s r) {sn : UInt32} {value : α} (genuine : sent[sn.toNat]? = some value) :
    sn.toNat < sent.length ∧ sn.toNat < 2 ^ 31 := by
  obtain ⟨inside, -⟩ := List.getElem?_eq_some_iff.1 genuine
  exact ⟨inside, inside.trans link.small⟩

/-- Numbers within the bound compare as they are. -/
theorem diff_eq (link : Link sent read s r) {later earlier : UInt32} (first : later.toNat ≤ sent.length)
    (second : earlier.toNat ≤ sent.length) : diff later earlier = (later.toNat : Int) - earlier.toNat :=
  diff_of_lt (first.trans_lt link.small) (second.trans_lt link.small)

/-- Only what the receiver has may be deleted. -/
theorem shrink (link : Link sent read s r) {buf : List (UInt32 × α)} (part : buf.Sublist s.buf)
    (deleted : ∀ entry ∈ s.buf, entry ∈ buf ∨ r.Has entry.1.toNat) : Link sent read { s with buf }.shrink r := by
  refine ⟨link.small, link.nxt, ?_, fun entry member => link.carried entry (part.subset member), link.expected,
    link.early, link.inOrder, ?_⟩
  · show ((buf.head?.map Prod.fst).getD s.nxt).toNat ≤ sent.length
    cases buf with
    | nil => exact link.nxt.le
    | cons entry rest => exact (link.index_lt (link.carried entry (part.subset List.mem_cons_self))).1.le
  · intro index inside
    rcases link.kept index inside with ⟨entry, member, same⟩ | has
    · rcases deleted entry member with left | has
      · exact Or.inl ⟨entry, left, same⟩
      · exact Or.inr (same ▸ has)
    · exact Or.inr has

/-- The receiver acknowledges all numbers below its own. -/
theorem cumulate (link : Link sent read s r) {una : UInt32} (known : una.toNat ≤ r.nxt.toNat) :
    Link sent read (s.cumulate una) r := by
  refine link.shrink (List.dropWhile_sublist _) fun entry member => ?_
  have bound := (link.index_lt (link.carried entry member)).1
  have order := link.diff_eq (known.trans link.expected) bound.le
  have parts := List.takeWhile_append_dropWhile (p := fun entry : UInt32 × α => decide (diff una entry.1 > 0)) (l := s.buf)
  rw [← parts] at member
  rcases List.mem_append.1 member with before | after
  · have acknowledged := List.mem_takeWhile_imp before
    rw [decide_eq_true_eq, order] at acknowledged
    exact Or.inr (Or.inl (by omega))
  · exact Or.inl after

theorem acknowledge (link : Link sent read s r) {sn : UInt32} (has : r.Has sn.toNat) :
    Link sent read (s.acknowledge sn) r := by
  unfold Sender.acknowledge
  split
  next => exact link.shrink (List.Sublist.refl s.buf) fun entry member => Or.inl member
  next =>
    refine link.shrink (Sender.remove_sublist sn s.buf) fun entry member => ?_
    by_cases same : entry.1 = sn
    · exact Or.inr (same ▸ has)
    · exact Or.inl (Sender.mem_remove member same)

/-- A value that is given the next number. -/
theorem next (link : Link sent read s r) (value : α) (small : (sent ++ [value]).length < 2 ^ 31) :
    Link (sent ++ [value]) read { s with nxt := s.nxt + 1, buf := s.buf ++ [(s.nxt, value)] } r := by
  have length : (sent ++ [value]).length = sent.length + 1 := List.length_append
  have step : (s.nxt + 1).toNat = sent.length + 1 := by
    have one : UInt32.toNat 1 = 1 := rfl
    rw [UInt32.toNat_add, link.nxt, one]
    omega
  have older : ∀ {index : Nat} {other : α}, sent[index]? = some other → (sent ++ [value])[index]? = some other := by
    intro index other found
    obtain ⟨inside, -⟩ := List.getElem?_eq_some_iff.1 found
    rwa [List.getElem?_append_left inside]
  refine ⟨small, ?_, ?_, ?_, ?_, fun entry member => older (link.early entry member), ?_, ?_⟩
  · rw [length]
    exact step
  · have una := link.una
    show s.una.toNat ≤ (sent ++ [value]).length
    omega
  · intro entry member
    rcases List.mem_append.1 member with old | last
    · exact older (link.carried entry old)
    · obtain rfl := List.mem_singleton.1 last
      rw [link.nxt]
      exact List.getElem?_concat_length
  · have expected := link.expected
    omega
  · rw [List.take_append_of_le_length link.expected]
    exact link.inOrder
  · intro index inside
    by_cases old : index < sent.length
    · rcases link.kept index old with ⟨entry, member, same⟩ | has
      · exact Or.inl ⟨entry, List.mem_append_left _ member, same⟩
      · exact Or.inr has
    · refine Or.inl ⟨(s.nxt, value), List.mem_append_right _ List.mem_cons_self, ?_⟩
      rw [link.nxt]
      omega

theorem number (link : Link sent read s r) (cwnd : UInt32) :
    ∃ taken, s.queue = taken ++ (Sender.number cwnd s.queue s).queue ∧
      ((sent ++ taken).length < 2 ^ 31 → Link (sent ++ taken) read (Sender.number cwnd s.queue s) r) := by
  refine Sender.number_rule (P := fun after => ∃ taken, s.queue = taken ++ after.queue ∧
    ((sent ++ taken).length < 2 ^ 31 → Link (sent ++ taken) read after r)) ?_ s.queue s
    ⟨[], rfl, fun _ => by simpa using link⟩
  rintro before value rest ⟨taken, split, linked⟩ -
  change s.queue = taken ++ value :: rest at split
  refine ⟨taken ++ [value], by simpa using split, fun small => ?_⟩
  rw [← List.append_assoc] at small ⊢
  have shorter : (sent ++ taken).length < 2 ^ 31 := by
    rw [List.length_append] at small
    omega
  have before := linked shorter
  exact ⟨(before.next value small).small, (before.next value small).nxt, (before.next value small).una,
    (before.next value small).carried, (before.next value small).expected, (before.next value small).early,
    (before.next value small).inOrder, (before.next value small).kept⟩

/-- Nothing that has arrived is lost on its way to the reader. -/
theorem move (rest : List (UInt32 × α)) (link : Link sent read s { r with buf := rest }) :
    Link sent read s (Receiver.move rest r) ∧ Receiver.Grows { r with buf := rest } (Receiver.move rest r) := by
  refine Receiver.move_rule (P := fun after => Link sent read s after ∧ Receiver.Grows { r with buf := rest } after) ?_
    rest r ⟨link, Receiver.Grows.refl _⟩
  rintro r entry rest ⟨link, grows⟩ next -
  have genuine := link.early entry List.mem_cons_self
  obtain ⟨inside, value⟩ := List.getElem?_eq_some_iff.1 genuine
  have index : entry.1.toNat = r.nxt.toNat := congrArg UInt32.toNat next
  have small := link.small
  have step : (r.nxt + 1).toNat = r.nxt.toNat + 1 := by
    have one : UInt32.toNat 1 = 1 := rfl
    rw [UInt32.toNat_add, one]
    omega
  have more : Receiver.Grows { r with buf := entry :: rest }
      { r with nxt := r.nxt + 1, queue := r.queue ++ [entry], buf := rest } := by
    constructor
    · show r.nxt.toNat ≤ (r.nxt + 1).toNat
      omega
    · rintro other (below | ⟨found, member, same⟩)
      · refine Or.inl ?_
        change other < r.nxt.toNat at below
        show other < (r.nxt + 1).toNat
        omega
      · rcases List.mem_cons.1 member with rfl | later
        · refine Or.inl ?_
          show other < (r.nxt + 1).toNat
          omega
        · exact Or.inr ⟨found, later, same⟩
  refine ⟨⟨small, link.nxt, link.una, link.carried, ?_, ?_, ?_, ?_⟩, grows.trans more⟩
  · show (r.nxt + 1).toNat ≤ sent.length
    omega
  · exact fun other member => link.early other (List.mem_cons_of_mem _ member)
  · have before := link.inOrder
    change read ++ r.queue.map Prod.snd = sent.take r.nxt.toNat at before
    show read ++ (r.queue ++ [entry]).map Prod.snd = sent.take (r.nxt + 1).toNat
    rw [step, List.map_append, ← List.append_assoc, before, List.take_add_one, ← index, genuine]
    rfl
  · intro other below
    exact (link.kept other below).imp_right (more.has other)

theorem insert (link : Link sent read s r) {entry : UInt32 × α} (genuine : sent[entry.1.toNat]? = some entry.2) :
    Link sent read s { r with buf := Receiver.insert entry r.buf } ∧
      Receiver.Grows r { r with buf := Receiver.insert entry r.buf } := by
  have more : Receiver.Grows r { r with buf := Receiver.insert entry r.buf } := by
    refine ⟨le_rfl, fun index has => has.imp_right ?_⟩
    rintro ⟨other, member, same⟩
    exact ⟨other, Receiver.mem_insert_of_mem member, same⟩
  refine ⟨⟨link.small, link.nxt, link.una, link.carried, link.expected, ?_, link.inOrder, ?_⟩, more⟩
  · intro other member
    rcases Receiver.mem_insert member with rfl | old
    · exact genuine
    · exact link.early other old
  · intro index below
    exact (link.kept index below).imp_right (more.has index)

theorem accept (link : Link sent read s r) {entry : UInt32 × α} (genuine : sent[entry.1.toNat]? = some entry.2) :
    Link sent read s (r.accept entry) ∧ Receiver.Grows r (r.accept entry) := by
  unfold Receiver.accept
  split
  next => exact ⟨link, Receiver.Grows.refl r⟩
  next =>
    obtain ⟨inserted, grows⟩ := link.insert genuine
    obtain ⟨moved, more⟩ := move _ inserted
    exact ⟨moved, grows.trans more⟩

/-- What lies before the end of the window is there afterwards. -/
theorem accept_has (link : Link sent read s r) {entry : UInt32 × α} (genuine : sent[entry.1.toNat]? = some entry.2)
    (before : diff entry.1 (r.nxt + r.wnd) < 0) : (r.accept entry).Has entry.1.toNat := by
  obtain ⟨inside, -⟩ := link.index_lt genuine
  by_cases old : diff entry.1 r.nxt < 0
  · refine ((link.accept genuine).2.has _ (Or.inl ?_))
    rw [link.diff_eq inside.le link.expected] at old
    omega
  · unfold Receiver.accept
    rw [if_neg (by omega)]
    refine (move _ (link.insert genuine).1).2.has _ (Or.inr ?_)
    obtain ⟨other, member, same⟩ := Receiver.exists_mem_insert entry r.buf
    exact ⟨other, member, congrArg UInt32.toNat same⟩

theorem take (link : Link sent read s r) (count : Nat) :
    Link sent (read ++ (r.queue.take count).map Prod.snd) s (r.take count) ∧ Receiver.Grows r (r.take count) := by
  have dropped : Link sent (read ++ (r.queue.take count).map Prod.snd) s { r with queue := r.queue.drop count } := by
    refine ⟨link.small, link.nxt, link.una, link.carried, link.expected, link.early, ?_, link.kept⟩
    rw [List.append_assoc, ← List.map_append, List.take_append_drop]
    exact link.inOrder
  obtain ⟨moved, grows⟩ := move (r := { r with queue := r.queue.drop count }) r.buf dropped
  exact ⟨moved, grows.nxt, grows.has⟩

/-- When nothing is left to acknowledge, all that was sent has arrived. -/
theorem arrived (link : Link sent read s r) (done : s.buf = []) : ∀ index < sent.length, r.Has index := by
  intro index inside
  rcases link.kept index inside with ⟨entry, member, -⟩ | has
  · rw [done] at member
    exact absurd member List.not_mem_nil
  · exact has

/-- Then what the receiver holds goes on where the reader is. -/
theorem complete {bound : Nat} (link : Link sent read s r) (valid : r.Valid bound) (done : s.buf = []) :
    read ++ (r.queue ++ r.buf).map Prod.snd = sent := by
  have half := valid.half
  have position : ∀ entry ∈ r.buf, entry.1.toNat = r.nxt.toNat + ahead entry.1 r.nxt := by
    intro entry member
    have near := valid.inside entry member
    have := (link.index_lt (link.early entry member)).2
    have := link.expected.trans_lt link.small
    rw [ahead_eq] at near ⊢
    omega
  have sorted : (r.buf.map fun entry => entry.1.toNat).Pairwise (· < ·) := by
    rw [List.pairwise_map]
    refine valid.sorted.imp_of_mem fun {first second} one two order => ?_
    rw [position first one, position second two]
    exact Nat.add_lt_add_left order _
  have indices : r.buf.map (fun entry => entry.1.toNat) = List.range' r.nxt.toNat (sent.length - r.nxt.toNat) := by
    refine sorted.eq_of_mem_iff (List.pairwise_lt_range' ..) fun index => ?_
    rw [List.mem_range'_1, List.mem_map]
    have expected := link.expected
    constructor
    · rintro ⟨entry, member, rfl⟩
      have inside := (link.index_lt (link.early entry member)).1
      have from_ := position entry member
      omega
    · intro between
      rcases link.arrived done index (by omega) with below | there
      · omega
      · exact there
  have values : r.buf.map Prod.snd = sent.drop r.nxt.toNat := by
    refine List.ext_getElem? fun place => ?_
    have index := congrArg (·[place]?) indices
    simp only [List.getElem?_map] at index ⊢
    rw [List.getElem?_drop]
    cases found : r.buf[place]? with
    | none =>
      rw [found, Option.map_none, eq_comm, List.getElem?_eq_none_iff, List.length_range'] at index
      rw [Option.map_none, eq_comm, List.getElem?_eq_none_iff]
      omega
    | some entry =>
      rw [found, Option.map_some, eq_comm] at index
      obtain ⟨inside, there⟩ := List.getElem?_eq_some_iff.1 index
      rw [List.getElem_range', Nat.one_mul] at there
      rw [Option.map_some, there]
      exact (link.early entry (List.mem_of_getElem? found)).symm
  rw [List.map_append, ← List.append_assoc, link.inOrder, values, List.take_append_drop]

end Link
end NetPrograms.SelectiveRepeat
