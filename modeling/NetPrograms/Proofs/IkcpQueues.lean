import NetPrograms.Ikcp.Peers
import NetPrograms.Proofs.IkcpViews

/-! What `ikcp_send` queues and what `ikcp_recv` takes. -/

namespace NetPrograms.Ikcp
open SelectiveRepeat

/-! The message at the head -/

theorem takeMessage_append (segs : List Segment) : (takeMessage segs).1 ++ (takeMessage segs).2 = segs := by
  induction segs with
  | nil => rfl
  | cons seg rest ih =>
    rw [takeMessage]
    split
    next => rfl
    next => exact congrArg (seg :: ·) ih

theorem takeMessage_eq (segs : List Segment) :
    (takeMessage segs).1 = segs.take (takeMessage segs).1.length ∧
      (takeMessage segs).2 = segs.drop (takeMessage segs).1.length := by
  have whole := takeMessage_append segs
  generalize takeMessage segs = parts at whole ⊢
  rw [← whole]
  simp

/-- A message whose pieces count down is as long as its first piece says. -/
theorem takeMessage_length {seg : Segment} {rest : List Segment} (counting : Piece.Counting ((seg :: rest).map Segment.piece))
    (there : seg.frg.toNat ≤ rest.length) : (takeMessage (seg :: rest)).1.length = seg.frg.toNat + 1 := by
  induction rest generalizing seg with
  | nil =>
    have last : seg.frg = 0 := UInt32.toNat_inj.1 (Nat.le_zero.1 there)
    rw [takeMessage, if_pos last, last]
    rfl
  | cons next rest ih =>
    by_cases last : seg.frg = 0
    · rw [takeMessage, if_pos last, last]
      rfl
    · have positive : seg.piece.left ≠ 0 := fun zero => last (UInt32.toNat_inj.1 zero)
      have step : seg.frg.toNat = next.frg.toNat + 1 := (List.isChain_cons_cons.1 counting).1 positive
      have later := ih (List.isChain_cons_cons.1 counting).2 (by simpa [step] using there)
      rw [takeMessage, if_neg last, step, ← later]
      rfl

theorem bytes_piece (segs : List Segment) : bytes segs = Piece.bytes (segs.map Segment.piece) := by
  simp [bytes, Piece.bytes, List.flatMap_map, Segment.piece]

namespace Ikcpcb
variable {kcp : Ikcpcb}

/-! `ikcp_recv` -/

theorem Counted.takeFirst (counted : Counted kcp) (len : Int) : Counted (kcp.takeFirst len) := by
  unfold Ikcpcb.takeFirst
  split
  next => exact counted
  next =>
    refine ⟨counted.rcvBuf, counted.sndBuf, ?_, counted.sndQueue⟩
    have whole := congrArg List.length (takeMessage_append kcp.rcvQueue)
    rw [List.length_append] at whole
    show kcp.nrcvQue - UInt32.ofNat (takeMessage kcp.rcvQueue).1.length = UInt32.ofNat (takeMessage kcp.rcvQueue).2.length
    rw [counted.rcvQueue, ← whole, UInt32.ofNat_add]
    grind

theorem takeFirst_eq (kcp : Ikcpcb) (len : Int) :
    kcp.takeFirst len = { kcp with rcvQueue := (kcp.takeFirst len).rcvQueue, nrcvQue := (kcp.takeFirst len).nrcvQue } := by
  unfold takeFirst
  split <;> rfl

theorem takeFirst_queue (kcp : Ikcpcb) (len : Int) :
    (kcp.takeFirst len).rcvQueue = kcp.rcvQueue.drop (if len < 0 then 0 else (takeMessage kcp.rcvQueue).1.length) := by
  unfold takeFirst
  split
  next => rfl
  next => exact (takeMessage_eq kcp.rcvQueue).2

theorem recvCheck_le (kcp : Ikcpcb) (len : Int) : kcp.recvCheck len ≤ 0 := by
  unfold recvCheck
  split
  next => decide
  next =>
    split
    next => decide
    next =>
      by_cases long : kcp.ikcpPeeksize > (if len < 0 then -len else len)
      · rw [if_pos long]
        decide
      · rw [if_neg long]

/-- A call of `ikcp_recv` that has a result. -/
theorem ikcpRecv_some {len : Int} (result : 0 ≤ (kcp.ikcpRecv len).1) :
    kcp.recvCheck len = 0 ∧ (kcp.ikcpRecv len).1 = (bytes (takeMessage kcp.rcvQueue).1).length ∧
      (kcp.ikcpRecv len).2.1 = bytes (takeMessage kcp.rcvQueue).1 ∧
      ∃ probe, (kcp.ikcpRecv len).2.2 = { moveReady kcp.rcvBuf (kcp.takeFirst len) with probe } := by
  by_cases passed : kcp.recvCheck len = 0
  · rw [ikcpRecv, if_neg (not_not_intro passed)]
    exact ⟨passed, rfl, rfl, _, rfl⟩
  · have code := recvCheck_le kcp len
    rw [ikcpRecv, if_pos passed] at result
    exact absurd (Int.le_antisymm code result) passed

/-- A call of `ikcp_recv` that has none changes nothing. -/
theorem ikcpRecv_none {len : Int} (result : (kcp.ikcpRecv len).1 < 0) : (kcp.ikcpRecv len).2.2 = kcp := by
  by_cases passed : kcp.recvCheck len = 0
  · rw [ikcpRecv, if_neg (not_not_intro passed)] at result
    exact absurd result (Int.not_lt.2 (Int.natCast_nonneg _))
  · rw [ikcpRecv, if_pos passed]

theorem ikcpRecv_taken (counted : Counted kcp) {len : Int} (result : 0 ≤ (kcp.ikcpRecv len).1) :
    (kcp.ikcpRecv len).2.2.receiver = kcp.receiver.take (if len < 0 then 0 else (takeMessage kcp.rcvQueue).1.length) := by
  obtain ⟨-, -, -, probe, after⟩ := ikcpRecv_some result
  rw [after]
  refine (moveReady_receiver kcp.rcvBuf (counted.takeFirst len).rcvQueue).trans ?_
  have queue := congrArg (List.map Segment.entry) (takeFirst_queue kcp len)
  rw [takeFirst_eq] at queue ⊢
  rw [List.map_drop] at queue
  exact congrArg (fun queue => Receiver.move kcp.receiver.buf { kcp.receiver with queue }) queue

theorem ikcpRecv_receiver (counted : Counted kcp) (len : Int) :
    (kcp.ikcpRecv len).2.2.receiver = kcp.receiver ∨
      (kcp.ikcpRecv len).2.2.receiver =
        kcp.receiver.take (if len < 0 then 0 else (takeMessage kcp.rcvQueue).1.length) := by
  by_cases result : 0 ≤ (kcp.ikcpRecv len).1
  · exact Or.inr (ikcpRecv_taken counted result)
  · rw [ikcpRecv_none (Int.not_le.1 result)]
    exact Or.inl rfl

theorem ikcpRecv_frame (kcp : Ikcpcb) (len : Int) :
    (kcp.ikcpRecv len).2.2.sender = kcp.sender ∧ (kcp.ikcpRecv len).2.2.acklist = kcp.acklist ∧
      (kcp.ikcpRecv len).2.2.conv = kcp.conv := by
  by_cases result : 0 ≤ (kcp.ikcpRecv len).1
  · obtain ⟨-, -, -, probe, after⟩ := ikcpRecv_some result
    rw [after, moveReady_eq, takeFirst_eq]
    exact ⟨rfl, rfl, rfl⟩
  · rw [ikcpRecv_none (Int.not_le.1 result)]
    exact ⟨rfl, rfl, rfl⟩

theorem Counted.recv (counted : Counted kcp) (len : Int) : Counted (kcp.ikcpRecv len).2.2 := by
  by_cases result : 0 ≤ (kcp.ikcpRecv len).1
  · obtain ⟨-, -, -, probe, after⟩ := ikcpRecv_some result
    have taken : Counted { kcp.takeFirst len with rcvBuf := kcp.rcvBuf } := by
      have taken := counted.takeFirst len
      rw [takeFirst_eq] at taken ⊢
      exact taken
    have moved := Counted.moveReady kcp.rcvBuf taken
    rw [after]
    exact ⟨moved.rcvBuf, moved.sndBuf, moved.rcvQueue, moved.sndQueue⟩
  · rw [ikcpRecv_none (Int.not_le.1 result)]
    exact counted

/-! `ikcp_send` -/

theorem sendFragments_eq (kcp : Ikcpcb) (buffer : List UInt8) :
    (kcp.sendFragments buffer).2 =
      { kcp with
        sndQueue := (kcp.sendFragments buffer).2.sndQueue
        nsndQue := (kcp.sendFragments buffer).2.nsndQue } := by
  unfold sendFragments
  dsimp only
  split <;> rfl

theorem appendLast_eq (kcp : Ikcpcb) (buffer : List UInt8) :
    kcp.appendLast buffer = { kcp with sndQueue := (kcp.appendLast buffer).sndQueue } := by
  unfold appendLast
  split
  next => split <;> rfl
  next => rfl

theorem ikcpSend_eq (kcp : Ikcpcb) (buffer : List UInt8) :
    (kcp.ikcpSend buffer).2 =
      { kcp with
        sndQueue := (kcp.ikcpSend buffer).2.sndQueue
        nsndQue := (kcp.ikcpSend buffer).2.nsndQue } := by
  unfold ikcpSend
  dsimp only
  split
  next =>
    split
    next =>
      dsimp only
      rw [appendLast_eq]
    next => rw [sendFragments_eq, appendLast_eq]
  next => exact sendFragments_eq kcp buffer

theorem fragments_length (mss : UInt32) (stream : Int32) (count : Nat) (buffer : List UInt8) :
    (fragments mss stream count buffer).length = count := by
  induction count generalizing buffer with
  | zero => rfl
  | succ count ih => simp [fragments, ih]

theorem Counted.sendFragments (counted : Counted kcp) (buffer : List UInt8) : Counted (kcp.sendFragments buffer).2 := by
  unfold Ikcpcb.sendFragments
  dsimp only
  split
  next => exact counted
  next =>
    refine ⟨counted.rcvBuf, counted.sndBuf, counted.rcvQueue, ?_⟩
    refine Eq.trans ?_ (congrArg UInt32.ofNat List.length_append.symm)
    rw [fragments_length, UInt32.ofNat_add, counted.sndQueue]

theorem Counted.appendLast (counted : Counted kcp) (buffer : List UInt8) : Counted (kcp.appendLast buffer) := by
  unfold Ikcpcb.appendLast
  split
  next old found =>
    split
    next =>
      refine ⟨counted.rcvBuf, counted.sndBuf, counted.rcvQueue, ?_⟩
      have nonempty : kcp.sndQueue.length ≠ 0 := by
        intro zero
        rw [List.length_eq_zero_iff.1 zero] at found
        exact absurd found (by simp)
      show kcp.nsndQue = UInt32.ofNat (kcp.sndQueue.dropLast ++ [_]).length
      rw [List.length_append, List.length_dropLast, List.length_singleton, Nat.sub_add_cancel (Nat.pos_of_ne_zero nonempty)]
      exact counted.sndQueue
    next => exact counted
  next => exact counted

theorem Counted.send (counted : Counted kcp) (buffer : List UInt8) : Counted (kcp.ikcpSend buffer).2 := by
  unfold Ikcpcb.ikcpSend
  dsimp only
  split
  next =>
    split
    next => exact counted.appendLast buffer
    next => exact (counted.appendLast buffer).sendFragments _
  next => exact counted.sendFragments buffer

/-! The pieces that a buffer is cut into -/

end Ikcpcb

variable {mss : UInt32} {stream : Int32} {count : Nat} {buffer : List UInt8}

theorem fragments_counting (few : count < 2 ^ 32) : Piece.Counting ((fragments mss stream count buffer).map Segment.piece) := by
  induction count generalizing buffer with
  | zero => exact List.IsChain.nil
  | succ count ih =>
    have rest := @ih (buffer.drop (min buffer.length mss.toNat)) (by omega)
    cases count with
    | zero => exact List.IsChain.singleton _
    | succ count =>
      refine List.isChain_cons_cons.2 ⟨?_, rest⟩
      intro inner
      simp only [Segment.piece] at inner ⊢
      by_cases message : stream = 0
      · have first : (UInt32.ofNat (count + 1)).toNat = count + 1 := UInt32.toNat_ofNat_of_lt' (show count + 1 < 2 ^ 32 by omega)
        have second : (UInt32.ofNat count).toNat = count := UInt32.toNat_ofNat_of_lt' (show count < 2 ^ 32 by omega)
        rw [if_pos message, if_pos message, first, second]
      · rw [if_neg message] at inner
        exact absurd rfl inner

theorem fragments_whole : Piece.Whole ((fragments mss stream count buffer).map Segment.piece) := by
  induction count generalizing buffer with
  | zero => exact Piece.Whole.nil
  | succ count ih =>
    rw [fragments, List.map_cons]
    cases count with
    | zero =>
      intro piece last
      obtain rfl := Option.some.inj last
      show (if stream = 0 then UInt32.ofNat 0 else 0).toNat = 0
      split <;> rfl
    | succ count =>
      have rest := @ih (buffer.drop (min buffer.length mss.toNat))
      rw [← List.singleton_append]
      exact rest.append (by simp [fragments])

theorem fragments_bytes (enough : buffer.length ≤ count * mss.toNat) :
    Piece.bytes ((fragments mss stream count buffer).map Segment.piece) = buffer := by
  induction count generalizing buffer with
  | zero =>
    obtain rfl := List.length_eq_zero_iff.1 (Nat.le_zero.1 (Nat.zero_mul _ ▸ enough))
    rfl
  | succ count ih =>
    have rest := @ih (buffer.drop (min buffer.length mss.toNat)) (by
      rw [List.length_drop]
      rw [Nat.succ_mul] at enough
      omega)
    have head : Piece.bytes ((fragments mss stream (count + 1) buffer).map Segment.piece) =
        buffer.take (min buffer.length mss.toNat) ++
          Piece.bytes ((fragments mss stream count (buffer.drop (min buffer.length mss.toNat))).map Segment.piece) := by
      simp [fragments, Piece.bytes, Segment.piece]
    rw [head, rest, List.take_append_drop]

theorem fragments_assemble (few : count + 1 < 2 ^ 32) :
    Piece.assemble ((fragments mss 0 (count + 1) buffer).map Segment.piece) =
      [Piece.bytes ((fragments mss 0 (count + 1) buffer).map Segment.piece)] := by
  have counting := @fragments_counting mss 0 (count + 1) buffer few
  have length := Ikcpcb.fragments_length mss 0 count (buffer.drop (min buffer.length mss.toNat))
  rw [fragments, List.map_cons] at counting ⊢
  generalize first : Segment.piece _ = piece at counting ⊢
  have left : piece.left = count := by
    rw [← first]
    exact UInt32.toNat_ofNat_of_lt' (show count < 2 ^ 32 by omega)
  have message := (Piece.assemble_message counting (by rw [left, List.length_map, length])).1
  rw [left, List.take_of_length_le (by simp [length])] at message
  exact message

theorem fragments_cut (few : count < 2 ^ 32) (enough : buffer.length ≤ count * mss.toNat) :
    Piece.Cut ((fragments mss stream count buffer).map Segment.piece) buffer :=
  ⟨fragments_counting few, fragments_whole, fragments_bytes enough⟩

theorem fragments_small (few : count ≤ 128) :
    ∀ seg ∈ fragments mss stream count buffer, seg.frg.toNat < 128 ∧ seg.data.length ≤ mss.toNat := by
  induction count generalizing buffer with
  | zero => exact fun seg member => absurd member List.not_mem_nil
  | succ count ih =>
    intro seg member
    rcases List.mem_cons.1 member with rfl | later
    · constructor
      · show (if stream = 0 then UInt32.ofNat count else 0).toNat < 128
        split
        next =>
          rw [UInt32.toNat_ofNat_of_lt' (show count < 2 ^ 32 by omega)]
          omega
        next => decide
      · show (buffer.take (min buffer.length mss.toNat)).length ≤ mss.toNat
        rw [List.length_take]
        omega
    · exact ih (by omega) seg later

namespace Ikcpcb
variable {kcp : Ikcpcb}

theorem sendCount_enough (positive : 0 < kcp.mss.toNat) (len : Nat) : len ≤ kcp.sendCount len * kcp.mss.toNat := by
  unfold sendCount
  split
  next => omega
  next =>
    have up := Nat.lt_mul_div_succ (len + kcp.mss.toNat - 1) positive
    rw [Nat.mul_succ, Nat.mul_comm] at up
    omega

theorem sendCount_pos (positive : 0 < kcp.mss.toNat) (len : Nat) : 0 < kcp.sendCount len := by
  unfold sendCount
  split
  next => exact Nat.one_pos
  next => exact Nat.div_pos (by omega) positive

/-- What `sendFragments` does when it does not fail. -/
theorem sendFragments_cases (positive : 0 < kcp.mss.toNat) (buffer : List UInt8) :
    (kcp.sendFragments buffer = (-2, kcp)) ∨
      ∃ count, count + 1 < 128 ∧ buffer.length ≤ (count + 1) * kcp.mss.toNat ∧ (kcp.sendFragments buffer).1 = 0 ∧
        (kcp.sendFragments buffer).2.sndQueue = kcp.sndQueue ++ fragments kcp.mss kcp.stream (count + 1) buffer := by
  by_cases much : kcp.sendCount buffer.length ≥ ikcpWndRcv.toNat
  · exact Or.inl (if_pos much)
  · have enough := sendCount_enough positive buffer.length
    obtain ⟨count, same⟩ := Nat.exists_eq_add_one_of_ne_zero (Nat.ne_of_gt (sendCount_pos positive buffer.length))
    rw [same] at enough much
    change ¬ count + 1 ≥ 128 at much
    refine Or.inr ⟨count, by omega, enough, ?_⟩
    have few : ¬ count + 1 ≥ ikcpWndRcv.toNat := much
    have some_ : ¬ count + 1 = 0 := Nat.succ_ne_zero count
    rw [sendFragments]
    simp only [same, if_neg few, if_neg some_, and_self]

/-! What is queued is what the calls have accepted -/

/-- A piece whose number fits in a header, with less data than the bound. -/
def Slim (bound : Nat) (piece : Piece UInt8) : Prop := piece.left < 128 ∧ piece.data.length < bound

/-- Pieces whose numbers are given already, and those in the queue. -/
def pieces (numbered : List (Piece UInt8)) (kcp : Ikcpcb) : List (Piece UInt8) :=
  numbered ++ kcp.sndQueue.map Segment.piece

variable {bound : Nat} {numbered : List (Piece UInt8)} {data : List UInt8}

theorem sendFragments_cut (positive : 0 < kcp.mss.toNat) (cut : Piece.Cut (kcp.pieces numbered) data) (buffer : List UInt8) :
    Piece.Cut ((kcp.sendFragments buffer).2.pieces numbered)
      (data ++ if (kcp.sendFragments buffer).1 = 0 then buffer else []) := by
  rcases sendFragments_cases positive buffer with failed | ⟨count, few, enough, result, queue⟩
  · rw [failed, if_neg (by decide : (-2 : Int) ≠ 0), List.append_nil]
    exact cut
  · rw [if_pos result, pieces, queue, List.map_append, ← List.append_assoc]
    exact cut.append (fragments_cut (by omega) enough)

theorem sendFragments_slim (positive : 0 < kcp.mss.toNat) (short : kcp.mss.toNat < bound) (buffer : List UInt8)
    (slim : ∀ piece ∈ kcp.pieces numbered, Slim bound piece) :
    ∀ piece ∈ (kcp.sendFragments buffer).2.pieces numbered, Slim bound piece := by
  rcases sendFragments_cases positive buffer with failed | ⟨count, few, -, -, queue⟩
  · rw [failed]
    exact slim
  · rw [pieces, queue, List.map_append, ← List.append_assoc]
    intro piece member
    rcases List.mem_append.1 member with old | cut
    · exact slim piece old
    · obtain ⟨seg, inside, rfl⟩ := List.mem_map.1 cut
      have small := fragments_small (by omega) seg inside
      exact ⟨small.1, small.2.trans_lt short⟩

/-- What becomes of the last segment in stream mode. -/
theorem appendLast_cases (kcp : Ikcpcb) (buffer : List UInt8) :
    (kcp.appendLast buffer = kcp ∧ kcp.extend buffer = 0) ∨
      ∃ before old, kcp.sndQueue = before ++ [old] ∧ old.len < kcp.mss ∧
        kcp.extend buffer = min buffer.length (kcp.mss - old.len).toNat ∧
        (kcp.appendLast buffer).sndQueue = before ++ [{ data := old.data ++ buffer.take (kcp.extend buffer) }] := by
  unfold appendLast extend
  cases found : kcp.sndQueue.getLast? with
  | none => exact Or.inl ⟨rfl, rfl⟩
  | some old =>
    dsimp only
    split
    next room => exact Or.inr ⟨kcp.sndQueue.dropLast, old, (List.dropLast_append_getLast? old found).symm, room, rfl, rfl⟩
    next => exact Or.inl ⟨rfl, rfl⟩

theorem appendLast_cut (cut : Piece.Cut (kcp.pieces numbered) data) (buffer : List UInt8) :
    Piece.Cut ((kcp.appendLast buffer).pieces numbered) (data ++ buffer.take (kcp.extend buffer)) := by
  rcases appendLast_cases kcp buffer with ⟨same, zero⟩ | ⟨before, old, queue, -, -, after⟩
  · rw [same, zero, List.take_zero, List.append_nil]
    exact cut
  · rw [pieces, after, List.map_append, ← List.append_assoc]
    rw [pieces, queue, List.map_append, ← List.append_assoc] at cut
    exact cut.extend _

theorem appendLast_slim (short : kcp.mss.toNat < bound) (narrow : bound ≤ 2 ^ 32) (buffer : List UInt8)
    (slim : ∀ piece ∈ kcp.pieces numbered, Slim bound piece) :
    ∀ piece ∈ (kcp.appendLast buffer).pieces numbered, Slim bound piece := by
  rcases appendLast_cases kcp buffer with ⟨same, -⟩ | ⟨before, old, queue, room, size, after⟩
  · rw [same]
    exact slim
  · rw [pieces, queue, List.map_append, ← List.append_assoc] at slim
    rw [pieces, after, List.map_append, ← List.append_assoc]
    intro piece member
    rcases List.mem_append.1 member with early | last
    · exact slim piece (List.mem_append_left _ early)
    · obtain rfl := List.mem_singleton.1 last
      have least : old.data.length < bound := (slim old.piece (List.mem_append_right _ List.mem_cons_self)).2
      have length : old.len.toNat = old.data.length := UInt32.toNat_ofNat_of_lt' (least.trans_le narrow)
      have difference := UInt32.toNat_sub_of_le _ _ (UInt32.le_of_lt room)
      have below := UInt32.lt_iff_toNat_lt.1 room
      refine ⟨(by decide : (0 : UInt32).toNat < 128), ?_⟩
      show (old.data ++ buffer.take (kcp.extend buffer)).length < bound
      rw [List.length_append, List.length_take, size]
      omega

/-- Every byte that a call accepts is queued behind the others, and no other. -/
theorem ikcpSend_cut (positive : 0 < kcp.mss.toNat) (cut : Piece.Cut (kcp.pieces numbered) data) (buffer : List UInt8) :
    Piece.Cut ((kcp.ikcpSend buffer).2.pieces numbered) (data ++ (kcp.accepts buffer).flatten) := by
  by_cases stream : kcp.stream ≠ 0
  · have appended := appendLast_cut cut buffer
    have whole := List.take_append_drop (kcp.extend buffer) buffer
    rw [accepts, ikcpSend, if_pos stream, if_pos stream]
    dsimp only
    by_cases ended : (buffer.drop (kcp.extend buffer)).length = 0
    · rw [List.length_eq_zero_iff.1 ended, List.append_nil] at whole
      rw [if_pos ended, if_pos rfl, List.flatten_singleton]
      rwa [whole] at appended
    · have room : 0 < (kcp.appendLast buffer).mss.toNat := by
        rw [appendLast_eq]
        exact positive
      have further := sendFragments_cut room appended (buffer.drop (kcp.extend buffer))
      rw [if_neg ended]
      split at further
      next result =>
        rw [List.append_assoc, whole] at further
        rwa [if_pos result, List.flatten_singleton]
      next result =>
        rw [List.append_nil] at further
        rwa [if_neg result, List.flatten_singleton]
  · have further := sendFragments_cut positive cut buffer
    rw [accepts, ikcpSend, if_neg stream, if_neg stream]
    split at further
    next result => rwa [if_pos result, List.flatten_singleton]
    next result => rwa [if_neg result]

theorem ikcpSend_slim (positive : 0 < kcp.mss.toNat) (short : kcp.mss.toNat < bound) (narrow : bound ≤ 2 ^ 32) (buffer : List UInt8)
    (slim : ∀ piece ∈ kcp.pieces numbered, Slim bound piece) :
    ∀ piece ∈ (kcp.ikcpSend buffer).2.pieces numbered, Slim bound piece := by
  have appended := appendLast_slim short narrow buffer slim
  have same : (kcp.appendLast buffer).mss = kcp.mss := by rw [appendLast_eq]
  unfold ikcpSend
  split
  next =>
    dsimp only
    split
    next => exact appended
    next => exact sendFragments_slim (same ▸ positive) (same ▸ short) _ appended
  next => exact sendFragments_slim positive short buffer slim

/-- Outside of stream mode a call queues a message of its own, or nothing. -/
theorem ikcpSend_message (positive : 0 < kcp.mss.toNat) (cut : Piece.Cut (kcp.pieces numbered) data) (messages : kcp.stream = 0)
    (buffer : List UInt8) :
    Piece.assemble ((kcp.ikcpSend buffer).2.pieces numbered) = Piece.assemble (kcp.pieces numbered) ++ kcp.accepts buffer := by
  have off : ¬ kcp.stream ≠ 0 := not_not_intro messages
  rw [accepts, ikcpSend, if_neg off, if_neg off]
  rcases sendFragments_cases positive buffer with failed | ⟨count, few, enough, result, queue⟩
  · rw [failed, if_neg (by decide : (-2 : Int) ≠ 0), List.append_nil]
  · rw [if_pos result, pieces, queue, List.map_append, ← List.append_assoc, ← pieces, Piece.assemble_append cut.whole, messages,
      fragments_assemble (by omega), fragments_bytes enough]

theorem ikcpSend_length (kcp : Ikcpcb) (buffer : List UInt8) : kcp.sndQueue.length ≤ (kcp.ikcpSend buffer).2.sndQueue.length := by
  have cutting : ∀ (kcp : Ikcpcb) (buffer : List UInt8), kcp.sndQueue.length ≤ (kcp.sendFragments buffer).2.sndQueue.length := by
    intro kcp buffer
    unfold sendFragments
    dsimp only
    split
    next => exact le_rfl
    next =>
      rw [List.length_append]
      exact Nat.le_add_right _ _
  have appended : (kcp.appendLast buffer).sndQueue.length = kcp.sndQueue.length := by
    rcases appendLast_cases kcp buffer with ⟨same, -⟩ | ⟨before, old, queue, -, -, after⟩
    · rw [same]
    · rw [queue, after, List.length_append, List.length_append]
      rfl
  unfold ikcpSend
  split
  next =>
    dsimp only
    split
    next => exact appended.ge
    next => exact appended.ge.trans (cutting _ _)
  next => exact cutting kcp buffer

/-! What is read is a message -/

theorem peeksize_of_recvCheck {len : Int} (passed : kcp.recvCheck len = 0) : ¬ kcp.ikcpPeeksize < 0 := by
  intro negative
  unfold recvCheck at passed
  rw [if_pos negative] at passed
  split at passed <;> exact absurd passed (by decide)

/-- The message at the head is missing a piece, or it is there and has the size that
`ikcp_peeksize` gives. -/
theorem peeksize_cases (counted : Counted kcp) (held : kcp.rcvQueue.length < 2 ^ 31)
    (slim : ∀ seg ∈ kcp.rcvQueue, Slim bound seg.piece) :
    kcp.ikcpPeeksize < 0 ∧ (∀ seg rest, kcp.rcvQueue = seg :: rest → rest.length < seg.frg.toNat) ∨
      kcp.ikcpPeeksize = (bytes (takeMessage kcp.rcvQueue).1).length ∧
        ∃ seg rest, kcp.rcvQueue = seg :: rest ∧ seg.frg.toNat ≤ rest.length := by
  have counter := counted.rcvQueue
  unfold ikcpPeeksize
  cases queue : kcp.rcvQueue with
  | nil => exact Or.inl ⟨(by decide : (-1 : Int) < 0), fun seg rest some_ => by cases some_⟩
  | cons seg rest =>
    rw [queue] at slim held counter
    dsimp only
    by_cases last : seg.frg = 0
    · refine Or.inr ⟨?_, seg, rest, rfl, ?_⟩
      · rw [if_pos last, takeMessage, if_pos last]
        simp [bytes]
      · rw [last]
        exact Nat.zero_le _
    · have small : seg.frg.toNat < 128 := (slim seg List.mem_cons_self).1
      have length : kcp.nrcvQue.toNat = rest.length + 1 := by
        rw [counter]
        exact UInt32.toNat_ofNat_of_lt' (held.trans (by decide))
      have next : (seg.frg + 1).toNat = seg.frg.toNat + 1 := by
        have one : UInt32.toNat 1 = 1 := rfl
        rw [UInt32.toNat_add, one]
        omega
      by_cases few : kcp.nrcvQue < seg.frg + 1
      · rw [if_neg last, if_pos few]
        refine Or.inl ⟨by decide, ?_⟩
        intro first others same
        obtain ⟨rfl, rfl⟩ := List.cons.inj same
        have missing := UInt32.lt_iff_toNat_lt.1 few
        omega
      · rw [if_neg last, if_neg few]
        have enough := mt UInt32.lt_iff_toNat_lt.2 few
        exact Or.inr ⟨rfl, seg, rest, rfl, by omega⟩

theorem takeMessage_assemble (counted : Counted kcp) (held : kcp.rcvQueue.length < 2 ^ 31)
    (counting : Piece.Counting (kcp.rcvQueue.map Segment.piece)) (slim : ∀ seg ∈ kcp.rcvQueue, Slim bound seg.piece)
    (there : ¬ kcp.ikcpPeeksize < 0) :
    Piece.assemble ((takeMessage kcp.rcvQueue).1.map Segment.piece) = [bytes (takeMessage kcp.rcvQueue).1] ∧
      Piece.Whole ((takeMessage kcp.rcvQueue).1.map Segment.piece) := by
  rcases peeksize_cases counted held slim with ⟨missing, -⟩ | ⟨-, seg, rest, queue, complete⟩
  · exact absurd missing there
  · rw [queue] at counting ⊢
    have first := (takeMessage_eq (seg :: rest)).1
    rw [takeMessage_length counting complete] at first
    have message := Piece.assemble_message counting (complete.trans_eq (List.length_map _).symm)
    have cut : ((takeMessage (seg :: rest)).1).map Segment.piece =
        (seg.piece :: rest.map Segment.piece).take (seg.piece.left + 1) := by
      rw [first, List.map_take]
      rfl
    rw [bytes_piece, cut]
    exact message

/-- Without its last pieces the message at the head is not among the messages. -/
theorem assemble_missing (counted : Counted kcp) (held : kcp.rcvQueue.length < 2 ^ 31)
    (counting : Piece.Counting (kcp.rcvQueue.map Segment.piece)) (slim : ∀ seg ∈ kcp.rcvQueue, Slim bound seg.piece)
    (missing : kcp.ikcpPeeksize < 0) : Piece.assemble (kcp.rcvQueue.map Segment.piece) = [] := by
  rcases peeksize_cases counted held slim with ⟨-, short⟩ | ⟨size, -⟩
  · cases queue : kcp.rcvQueue with
    | nil => rfl
    | cons seg rest =>
      rw [queue] at counting
      exact Piece.assemble_short counting ((List.length_map _).trans_lt (short seg rest queue))
  · rw [size] at missing
    exact absurd missing (Int.not_lt.2 (Int.natCast_nonneg _))

end Ikcpcb
end NetPrograms.Ikcp
