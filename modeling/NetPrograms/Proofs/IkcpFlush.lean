import NetPrograms.Proofs.IkcpViews

/-! What `ikcp_flush` does: it numbers queued segments as the window allows, keeps
what it has numbered, and lays acknowledgements, probes and the segments that are
due in the buffer. -/

namespace NetPrograms.Ikcp
open SelectiveRepeat

namespace Ikcpcb
variable {kcp : Ikcpcb}

/-! Numbering -/

theorem moveQueued_eq (wnd cwnd : UInt32) (rest : List Segment) (kcp : Ikcpcb) :
    moveQueued wnd cwnd rest kcp =
      { kcp with
        sndQueue := (moveQueued wnd cwnd rest kcp).sndQueue
        nsndQue := (moveQueued wnd cwnd rest kcp).nsndQue
        nsndBuf := (moveQueued wnd cwnd rest kcp).nsndBuf
        sndNxt := (moveQueued wnd cwnd rest kcp).sndNxt
        sndBuf := (moveQueued wnd cwnd rest kcp).sndBuf } := by
  induction rest generalizing kcp with
  | nil => rfl
  | cons seg rest ih =>
    unfold moveQueued
    split
    next => exact ih _
    next => rfl

theorem moveQueued_sender (wnd cwnd : UInt32) (rest : List Segment) (kcp : Ikcpcb) :
    (moveQueued wnd cwnd rest kcp).sender = Sender.number cwnd (rest.map Segment.piece) kcp.sender := by
  induction rest generalizing kcp with
  | nil => rfl
  | cons seg rest ih =>
    by_cases room : itimediff kcp.sndNxt (kcp.sndUna + cwnd) < 0
    · have also : Serial.diff kcp.sender.nxt (kcp.sender.una + cwnd) < 0 := room
      rw [moveQueued, if_pos room, ih, List.map_cons, Sender.number, if_pos also]
      simp [sender, Segment.entry, Segment.piece]
    · have also : ¬ Serial.diff kcp.sender.nxt (kcp.sender.una + cwnd) < 0 := room
      rw [moveQueued, if_neg room, List.map_cons, Sender.number, if_neg also]
      rfl

theorem Counted.moveQueued (wnd cwnd : UInt32) (rest : List Segment) (counted : Counted { kcp with sndQueue := rest }) :
    Counted (moveQueued wnd cwnd rest kcp) := by
  induction rest generalizing kcp with
  | nil => exact counted
  | cons seg rest ih =>
    unfold Ikcpcb.moveQueued
    split
    next =>
      refine ih ⟨counted.rcvBuf, ?_, counted.rcvQueue, ?_⟩
      · have before := counted.sndBuf
        change kcp.nsndBuf = UInt32.ofNat kcp.sndBuf.length at before
        show kcp.nsndBuf + 1 = UInt32.ofNat (kcp.sndBuf ++ [_]).length
        rw [List.length_append, UInt32.ofNat_add, before]
        rfl
      · have before := counted.sndQueue
        change kcp.nsndQue = UInt32.ofNat (rest.length + 1) at before
        show kcp.nsndQue - 1 = UInt32.ofNat rest.length
        rw [before, UInt32.ofNat_add]
        have one : UInt32.ofNat 1 = 1 := rfl
        rw [one]
        grind
    next => exact counted

theorem probeWindow_eq (kcp : Ikcpcb) :
    kcp.probeWindow =
      { kcp with
        probeWait := kcp.probeWindow.probeWait
        tsProbe := kcp.probeWindow.tsProbe
        probe := kcp.probeWindow.probe } := by
  unfold probeWindow
  split
  next =>
    split
    next => rfl
    next => split <;> rfl
  next => rfl

theorem flushQueued_eq (kcp : Ikcpcb) :
    kcp.flushQueued =
      { kcp with
        acklist := []
        probe := 0
        probeWait := kcp.flushQueued.probeWait
        tsProbe := kcp.flushQueued.tsProbe
        sndQueue := kcp.flushQueued.sndQueue
        nsndQue := kcp.flushQueued.nsndQue
        nsndBuf := kcp.flushQueued.nsndBuf
        sndNxt := kcp.flushQueued.sndNxt
        sndBuf := kcp.flushQueued.sndBuf } := by
  unfold flushQueued
  rw [moveQueued_eq, probeWindow_eq]

theorem flushQueued_sender (kcp : Ikcpcb) :
    kcp.flushQueued.sender = Sender.number kcp.sendWindow kcp.sender.queue kcp.sender := by
  unfold flushQueued
  dsimp only
  rw [probeWindow_eq, moveQueued_sender]
  rfl

theorem Counted.flushQueued (counted : Counted kcp) : Counted kcp.flushQueued := by
  unfold Ikcpcb.flushQueued
  dsimp only
  rw [probeWindow_eq]
  exact Counted.moveQueued _ _ kcp.sndQueue ⟨counted.rcvBuf, counted.sndBuf, counted.rcvQueue, counted.sndQueue⟩

/-! The loop over the numbered segments -/

/-- The segment after its round. -/
def transmit (kcp : Ikcpcb) (wnd : UInt32) (segment : Segment) : Segment :=
  if kcp.due segment = .no then segment else { kcp.schedule segment with ts := kcp.current, wnd, una := kcp.rcvNxt }

def sent (kcp : Ikcpcb) (segs : List Segment) : List Segment := segs.filter fun segment => kcp.due segment ≠ .no

theorem schedule_eq (kcp : Ikcpcb) (segment : Segment) :
    kcp.schedule segment =
      { segment with
        xmit := (kcp.schedule segment).xmit
        rto := (kcp.schedule segment).rto
        resendts := (kcp.schedule segment).resendts
        fastack := (kcp.schedule segment).fastack } := by
  unfold schedule
  split <;> rfl

/-- A round leaves alone what the segment carries. -/
theorem transmit_eq (kcp : Ikcpcb) (wnd : UInt32) (segment : Segment) :
    (kcp.transmit wnd segment).entry = segment.entry ∧ (kcp.transmit wnd segment).conv = segment.conv ∧
      (kcp.transmit wnd segment).cmd = segment.cmd ∧ (kcp.transmit wnd segment).size = segment.size := by
  unfold transmit
  split
  next => exact ⟨rfl, rfl, rfl, rfl⟩
  next =>
    rw [schedule_eq]
    exact ⟨rfl, rfl, rfl, rfl⟩

theorem flushSegment_fold (kcp : Ikcpcb) (wnd : UInt32) (segs : List Segment) (flushing : Flushing) :
    (segs.foldl (kcp.flushSegment wnd) flushing).passed = flushing.passed ++ segs.map (kcp.transmit wnd) ∧
      (segs.foldl (kcp.flushSegment wnd) flushing).packing =
        ((kcp.sent segs).map (kcp.transmit wnd)).foldl kcp.lay flushing.packing := by
  induction segs generalizing flushing with
  | nil => exact ⟨(List.append_nil _).symm, rfl⟩
  | cons segment segs ih =>
    obtain ⟨passed, packing⟩ := ih (kcp.flushSegment wnd flushing segment)
    rw [List.foldl_cons, passed, packing]
    by_cases kept : kcp.due segment = .no
    · simp [flushSegment, sent, transmit, kept]
    · simp [flushSegment, sent, transmit, kept]

theorem flushData_passed (kcp : Ikcpcb) :
    kcp.flushData.passed = kcp.flushQueued.sndBuf.map (kcp.flushQueued.transmit kcp.ikcpWndUnused) := by
  unfold flushData
  exact (flushSegment_fold _ _ _ _).1.trans (List.nil_append _)

/-- Acknowledgements and probes carry no data, and say where the receiver is. -/
theorem control_header (kcp : Ikcpcb) : ∀ seg ∈ kcp.control, seg.conv = kcp.conv ∧ seg.una = kcp.rcvNxt ∧ seg.data = [] ∧
    (seg.cmd = ikcpCmdAck ∧ (seg.sn, seg.ts) ∈ kcp.acklist ∨ seg.cmd = ikcpCmdWask ∨ seg.cmd = ikcpCmdWins) := by
  have base : ∀ seg ∈ kcp.header :: kcp.acks, seg.conv = kcp.conv ∧ seg.una = kcp.rcvNxt ∧ seg.data = [] := by
    intro seg member
    rcases List.mem_cons.1 member with rfl | ack
    · exact ⟨rfl, rfl, rfl⟩
    · obtain ⟨⟨sn, ts⟩, -, rfl⟩ := List.mem_map.1 ack
      exact ⟨rfl, rfl, rfl⟩
  have last : kcp.acks.getLastD kcp.header ∈ kcp.header :: kcp.acks := by
    rw [List.getLastD_eq_getLast?]
    cases found : kcp.acks.getLast? with
    | none => exact List.mem_cons_self
    | some seg => exact List.mem_cons_of_mem _ (List.mem_of_getLast? found)
  obtain ⟨conv, una, data⟩ := base _ last
  intro seg member
  rcases List.mem_append.1 member with ack | asked
  · obtain ⟨conv, una, data⟩ := base seg (List.mem_cons_of_mem _ ack)
    obtain ⟨⟨sn, ts⟩, listed, rfl⟩ := List.mem_map.1 ack
    exact ⟨conv, una, data, Or.inl ⟨rfl, listed⟩⟩
  · rcases List.mem_append.1 asked with wask | wins
    · split at wask
      next =>
        obtain rfl := List.mem_singleton.1 wask
        exact ⟨conv, una, data, Or.inr (Or.inl rfl)⟩
      next => exact absurd wask List.not_mem_nil
    · split at wins
      next =>
        obtain rfl := List.mem_singleton.1 wins
        exact ⟨conv, una, data, Or.inr (Or.inr rfl)⟩
      next => exact absurd wins List.not_mem_nil

/-- The segments of a call, in the order in which they are laid in the buffer. -/
def emitted (kcp : Ikcpcb) : List Segment :=
  kcp.control ++ (kcp.flushQueued.sent kcp.flushQueued.sndBuf).map (kcp.flushQueued.transmit kcp.ikcpWndUnused)

theorem flushData_packing (kcp : Ikcpcb) :
    kcp.flushData.packing = kcp.emitted.foldl (Packing.add Segment.size kcp.mtu.toNat) {} := by
  have same : kcp.flushQueued.lay = kcp.lay := by
    rw [flushQueued_eq]
    rfl
  unfold flushData emitted
  rw [(flushSegment_fold _ _ _ _).2, List.foldl_append, same]
  rfl

/-! The whole call -/

/-- Two control blocks that differ in the congestion window only. -/
def SameButCwnd (kcp other : Ikcpcb) : Prop :=
  other = { kcp with ssthresh := other.ssthresh, cwnd := other.cwnd, incr := other.incr }

theorem SameButCwnd.trans {first second third : Ikcpcb} (left : SameButCwnd first second) (right : SameButCwnd second third) :
    SameButCwnd first third := by
  unfold SameButCwnd at left right ⊢
  rw [left] at right
  exact right

theorem shrinkCwnd_eq (kcp : Ikcpcb) (cwnd : UInt32) (change : Nat) (lost : Bool) :
    SameButCwnd kcp (kcp.shrinkCwnd cwnd change lost) := by
  have first : SameButCwnd kcp (if change ≠ 0 then kcp.reduceCwnd else kcp) := by
    split <;> rfl
  refine first.trans ?_
  unfold shrinkCwnd
  dsimp only
  generalize (if change ≠ 0 then kcp.reduceCwnd else kcp) = middle
  have second : SameButCwnd middle (if lost = true then middle.collapseCwnd cwnd else middle) := by
    split <;> rfl
  refine second.trans ?_
  generalize (if lost = true then middle.collapseCwnd cwnd else middle) = last
  unfold openCwnd
  split <;> rfl

theorem ikcpFlush_idle (idle : kcp.updated = 0) : kcp.ikcpFlush = (kcp, {}) := if_pos idle

theorem ikcpFlush_packing (running : kcp.updated ≠ 0) :
    kcp.ikcpFlush.2 = (kcp.emitted.foldl (Packing.add Segment.size kcp.mtu.toNat) {}).close := by
  rw [ikcpFlush, if_neg running, ← flushData_packing]

/-- The segments of a flush, as the groups that are sent off. -/
theorem ikcpFlush_groups (running : kcp.updated ≠ 0) :
    (∀ group ∈ kcp.ikcpFlush.2.closed, group ≠ []) ∧ kcp.ikcpFlush.2.closed.flatten = kcp.emitted := by
  rw [ikcpFlush_packing running]
  refine ⟨Packing.closed_ne_nil_foldl (by simp), ?_⟩
  rw [Packing.closed_flatten, Packing.items_foldl, Packing.items, List.flatten_nil, List.nil_append, List.nil_append]

theorem ikcpFlush_eq (running : kcp.updated ≠ 0) : SameButCwnd kcp.flushed kcp.ikcpFlush.1 := by
  rw [ikcpFlush, if_neg running]
  exact shrinkCwnd_eq _ _ _ _

theorem flushed_sender (kcp : Ikcpcb) : kcp.flushed.sender = Sender.number kcp.sendWindow kcp.sender.queue kcp.sender := by
  have entries : kcp.flushData.passed.map Segment.entry = kcp.flushQueued.sndBuf.map Segment.entry := by
    rw [flushData_passed, List.map_map]
    exact List.map_congr_left fun segment _ => (transmit_eq _ _ segment).1
  rw [← flushQueued_sender, sender, sender, flushed, entries]

theorem flushed_frame (kcp : Ikcpcb) :
    kcp.flushed.receiver = kcp.receiver ∧ kcp.flushed.acklist = [] ∧ kcp.flushed.conv = kcp.conv := by
  unfold flushed
  rw [flushQueued_eq]
  exact ⟨rfl, rfl, rfl⟩

theorem Counted.flushed (counted : Counted kcp) : Counted kcp.flushed := by
  have queued := counted.flushQueued
  refine ⟨queued.rcvBuf, ?_, queued.rcvQueue, queued.sndQueue⟩
  show kcp.flushQueued.nsndBuf = UInt32.ofNat kcp.flushData.passed.length
  rw [flushData_passed, List.length_map]
  exact queued.sndBuf

theorem ikcpFlush_spec (counted : Counted kcp) (running : kcp.updated ≠ 0) :
    let after := kcp.ikcpFlush.1
    Counted after ∧ after.conv = kcp.conv ∧
      after.sender = Sender.number kcp.sendWindow kcp.sender.queue kcp.sender ∧ after.receiver = kcp.receiver ∧
      after.acklist = [] := by
  have counted := counted.flushed
  obtain ⟨receiver, acklist, conv⟩ := flushed_frame kcp
  dsimp only
  rw [ikcpFlush_eq running]
  exact ⟨⟨counted.rcvBuf, counted.sndBuf, counted.rcvQueue, counted.sndQueue⟩, conv, flushed_sender kcp, receiver, acklist⟩

end Ikcpcb
end NetPrograms.Ikcp
