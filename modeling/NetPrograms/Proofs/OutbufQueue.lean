import NetPrograms.Lib.Fifo
import NetPrograms.P2p.Outbuf

/-! The send buffer refines a first-in first-out channel. Compaction, a failed
allocation and a partial send are all invisible in the channel, and no call ever
leaves the allocated block. -/

namespace NetPrograms.Proofs.OutbufQueue
open P2p

theorem sizeAdd_of_le {a b : Nat} (first : a ≤ ptrdiffMax) (second : b ≤ ptrdiffMax) :
    sizeAdd a b = a + b := by
  unfold sizeAdd ptrdiffMax at *
  omega

theorem sizeSub_of_le {a b : Nat} (le : b ≤ a) (bound : a ≤ ptrdiffMax) : sizeSub a b = a - b := by
  unfold sizeSub ptrdiffMax at *
  omega

structure Holds (b : Outbuf) (queue : Fifo UInt8) : Prop where
  ordered : b.off ≤ b.len
  inside : b.len ≤ b.data.length
  bounded : b.data.length ≤ ptrdiffMax
  unsent : Block.slice b.data b.off (b.len - b.off) = queue.pending

theorem Holds.initial : Holds outbufInit Fifo.empty := ⟨by decide, by decide, by decide, rfl⟩

theorem Holds.pending_length {b : Outbuf} {queue : Fifo UInt8} (held : Holds b queue) :
    queue.pending.length = b.len - b.off := by
  have inside := held.inside
  rw [← held.unsent, Block.slice_length]
  omega

theorem Holds.read_request {b : Outbuf} {queue : Fifo UInt8} (held : Holds b queue) :
    Block.read b.data b.off (sizeSub b.len b.off) = some queue.pending := by
  obtain ⟨ordered, inside, bounded, unsent⟩ := held
  rw [sizeSub_of_le ordered (Nat.le_trans inside bounded), Block.read_of_le (by omega), unsent]

theorem Holds.advance {b : Outbuf} {queue : Fifo UInt8} (held : Holds b queue) (count : Nat)
    (requested : count ≤ queue.pending.length) :
    Holds { b with off := sizeAdd b.off count } (queue.take count) := by
  have length := held.pending_length
  obtain ⟨ordered, inside, bounded, unsent⟩ := held
  have moved : sizeAdd b.off count = b.off + count := sizeAdd_of_le (by omega) (by omega)
  rw [moved]
  refine ⟨show b.off + count ≤ b.len by omega, inside, bounded, ?_⟩
  rw [ Fifo.take_pending, ← unsent, Block.slice, Block.slice, List.drop_take, List.drop_drop]
  exact congrArg (List.take · _) (Nat.sub_sub _ _ _).symm

theorem Holds.finish {b : Outbuf} {queue : Fifo UInt8} (held : Holds b queue) (done : b.len ≤ b.off) :
    Holds { b with off := 0, len := 0 } queue := by
  have none : b.len - b.off = 0 := by omega
  refine ⟨Nat.le_refl _, Nat.zero_le _, held.bounded, ?_⟩
  simpa [Block.slice, none] using held.unsent

/-- Compaction always succeeds, and afterwards nothing of the block is sent. -/
theorem compact_holds {b : Outbuf} {queue : Fifo UInt8} (held : Holds b queue) :
    ∃ after, outbufCompact b = some after ∧ Holds after queue ∧ after.off = 0 := by
  unfold outbufCompact
  split
  next fresh => exact ⟨b, rfl, held, fresh⟩
  next started =>
    split
    next done => exact ⟨_, rfl, held.finish done, rfl⟩
    next rest =>
      have count := held.pending_length
      have inside := held.inside
      have fits : 0 + queue.pending.length ≤ b.data.length := by omega
      rw [held.read_request, sizeSub_of_le held.ordered (Nat.le_trans inside held.bounded)]
      simp only [Option.bind_eq_bind, Option.bind_some, Block.write_of_le fits]
      refine ⟨_, rfl, ⟨Nat.zero_le _, ?_, ?_, ?_⟩, rfl⟩
      · rw [Block.overlay_length fits]
        exact Nat.le_trans (Nat.sub_le _ _) inside
      · rw [Block.overlay_length fits]
        exact held.bounded
      · rw [Nat.sub_zero, ← count]
        exact Block.slice_overlay (Nat.zero_le _)

private theorem realloc_some {block result : List UInt8} {size : Nat} {answer : Option (Nat → UInt8)}
    (granted : realloc block size answer = some result) :
    size ≤ ptrdiffMax ∧ result.length = size ∧ ∀ count, count ≤ size → count ≤ block.length →
      result.take count = block.take count := by
  unfold realloc at granted
  split at granted
  · cases granted
  next fresh =>
    split at granted
    next bound =>
      cases granted
      refine ⟨bound, by simp, ?_⟩
      intro count less within
      apply List.ext_getElem (by simp; omega)
      intro index first second
      have lower : index < block.length := by simp at second; omega
      simp [lower]
    · cases granted

private theorem append_unsent {b : Outbuf} {queue : Fifo UInt8} {nd items : List UInt8} (held : Holds b queue)
    (same : nd.take b.len = b.data.take b.len) (fits : b.len + items.length ≤ nd.length) :
    Block.slice (Block.overlay nd b.len items) b.off (b.len + items.length - b.off) = (queue.put items).pending := by
  have ordered := held.ordered
  have old : Block.slice (Block.overlay nd b.len items) b.off (b.len - b.off) = queue.pending := by
    rw [← held.unsent, Block.slice, Block.slice, ← List.drop_take, ← List.drop_take]
    rw [Block.take_overlay (Nat.le_refl _) (by omega), same]
  rw [show b.len + items.length - b.off = (b.len - b.off) + items.length by omega, Block.slice_append, old,
    Nat.add_sub_cancel' ordered, Block.slice_overlay (by omega), Fifo.put_pending]

/-- An append that returns 0 has put its argument at the end of the channel; one
that returns -1 has left the channel as it was, even when it had compacted. -/
theorem append_holds {b : Outbuf} {queue : Fifo UInt8} (held : Holds b queue) (p : CObject)
    (answer : Option (Nat → UInt8)) :
    ∃ after ret, outbufAppend b p answer = some (after, ret) ∧
      (ret = 0 ∧ Holds after (queue.put p.bytes) ∨ ret = -1 ∧ Holds after queue) := by
  unfold outbufAppend
  by_cases empty : p.bytes.length = 0
  · have none : p.bytes = [] := List.length_eq_zero_iff.mp empty
    refine ⟨b, 0, by simp [empty], Or.inl ⟨rfl, ?_⟩⟩
    exact ⟨held.ordered, held.inside, held.bounded, by simp [none, held.unsent]⟩
  · obtain ⟨packed, compacted, kept⟩ : ∃ packed,
        (if 0 < b.off ∧ sizeSub b.len b.off < b.len then outbufCompact b else some b) = some packed ∧
          Holds packed queue := by
      split
      · obtain ⟨after, done, kept, -⟩ := compact_holds held
        exact ⟨after, done, kept⟩
      · exact ⟨b, rfl, held⟩
    simp only [empty, if_false, compacted, Option.bind_eq_bind, Option.bind_some]
    have used : packed.len ≤ ptrdiffMax := Nat.le_trans kept.inside kept.bounded
    have total : sizeAdd packed.len p.bytes.length = packed.len + p.bytes.length := sizeAdd_of_le used p.fits
    rw [total]
    cases granted : realloc packed.data (packed.len + p.bytes.length) answer with
    | none => exact ⟨packed, -1, rfl, Or.inr ⟨rfl, kept⟩⟩
    | some nd =>
      obtain ⟨bound, size, same⟩ := realloc_some granted
      have fits : packed.len + p.bytes.length ≤ nd.length := by omega
      simp only [Block.write_of_le fits, Option.bind_some]
      refine ⟨_, 0, rfl, Or.inl ⟨rfl, ?_, ?_, ?_, ?_⟩⟩
      · exact Nat.le_trans kept.ordered (Nat.le_add_right _ _)
      · rw [Block.overlay_length fits]; omega
      · rw [Block.overlay_length fits]; omega
      · exact append_unsent kept (same packed.len (by omega) kept.inside) fits

/-- `send` takes a prefix of the channel; nothing is taken by EAGAIN, EINTR, 0
or an error, and the offset returns to 0 only when nothing is left to send. -/
theorem flush_holds {b : Outbuf} {queue : Fifo UInt8} (held : Holds b queue) (results : List SendResult) :
    ∃ after accepted ret, outbufFlushFd b results = some (after, accepted, ret) ∧
      ∃ later, Holds after later ∧ later.entered = queue.entered ∧ later.taken = queue.taken ++ accepted := by
  induction results generalizing b queue with
  | nil =>
    unfold outbufFlushFd
    split
    · exact ⟨b, [], none, rfl, queue, held, rfl, by simp⟩
    next done => exact ⟨_, [], some 0, rfl, queue, held.finish (by omega), rfl, by simp⟩
  | cons result results ih =>
    unfold outbufFlushFd
    split
    next more =>
      cases result with
      | sent room =>
        have count := held.pending_length
        have inside := held.inside
        simp only [held.read_request, Option.bind_eq_bind, Option.bind_some]
        obtain ⟨after, accepted, ret, done, later, kept, entered, taken⟩ :=
          ih (held.advance (min (room + 1) queue.pending.length) (Nat.min_le_right _ _))
        rw [done]
        refine ⟨after, _, ret, rfl, later, kept, entered, ?_⟩
        rw [taken, Fifo.take_taken, List.append_assoc]
      | eintr => exact ih held
      | eagain => exact ⟨b, [], some 1, rfl, queue, held, rfl, by simp⟩
      | zero | failed => exact ⟨b, [], some (-1), rfl, queue, held, rfl, by simp⟩
    next done => exact ⟨_, [], some 0, rfl, queue, held.finish (by omega), rfl, by simp⟩

structure Refines (s : OutbufHistory) (queue : Fifo UInt8) : Prop where
  holds : Holds s.buf queue
  accepted : s.accepted = queue.taken
  appended : s.appended = queue.entered

theorem step_refines {s : OutbufHistory} {queue : Fifo UInt8} (refines : Refines s queue) (call : OutbufCall) :
    ∃ after later, s.step call = some after ∧ Refines after later := by
  obtain ⟨held, accepted, appended⟩ := refines
  cases call with
  | append p answer =>
    obtain ⟨buf, ret, done, result⟩ := append_holds held p answer
    simp only [OutbufHistory.step, done, Option.bind_eq_bind, Option.bind_some]
    rcases result with ⟨rfl, kept⟩ | ⟨rfl, kept⟩
    · exact ⟨_, queue.put p.bytes, rfl, kept, accepted, by simp [appended]⟩
    · exact ⟨_, queue, rfl, kept, accepted, by simp [appended]⟩
  | flush results =>
    obtain ⟨buf, sent, ret, done, later, kept, entered, taken⟩ := flush_holds held results
    simp only [OutbufHistory.step, done, Option.bind_eq_bind, Option.bind_some]
    exact ⟨_, later, rfl, kept, by simp [accepted, taken], by simp [appended, entered]⟩

/-- Whatever the calls are and whatever `send` and `realloc` answer, the buffer
stays inside its block, and the bytes accepted by `send` followed by the unsent
ones are exactly the arguments of the appends that succeeded, in order. -/
theorem outbuf_is_fifo (calls : List OutbufCall) :
    ∃ last, exec OutbufHistory.step OutbufHistory.init calls = some last ∧
      last.buf.off ≤ last.buf.len ∧ last.buf.len ≤ last.buf.data.length ∧
      last.accepted ++ Block.slice last.buf.data last.buf.off (last.buf.len - last.buf.off) =
        last.appended := by
  have initial : Refines OutbufHistory.init Fifo.empty := ⟨Holds.initial, rfl, rfl⟩
  obtain ⟨last, reached, queue, refines⟩ := exec_total (fun s => ∃ queue, Refines s queue) calls
    ⟨_, initial⟩ (fun before call ⟨_, refines⟩ => by
      obtain ⟨after, later, done, kept⟩ := step_refines refines call
      exact ⟨after, done, later, kept⟩)
  refine ⟨last, reached, refines.holds.ordered, refines.holds.inside, ?_⟩
  rw [refines.accepted, refines.holds.unsent, refines.appended, queue.conserved]

end NetPrograms.Proofs.OutbufQueue
