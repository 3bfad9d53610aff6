import NetPrograms.Proofs.IkcpBounds
import NetPrograms.Proofs.IkcpWindows

/-! How long datagrams get, and how far `ikcp_flush` writes into its buffer. -/

namespace NetPrograms.Ikcp
open SelectiveRepeat

/-- A segment with this piece is not longer than the bound. -/
def Within (bound : Nat) (piece : Piece UInt8) : Prop := Ikcpcb.Slim (bound - 23) piece

theorem Within.size {bound : Nat} {seg : Segment} (within : Within bound seg.piece) : seg.size ≤ bound := by
  have short : seg.data.length < bound - 23 := within.2
  have size : seg.size = 24 + seg.data.length := rfl
  omega

/-- What `ikcp_setmtu` does not check: that the size of the new buffer can be told,
and that the segments which wait are within the limit for the new MTU. -/
def Call.Roomy (limit : Nat → Nat) (kcp : Ikcpcb) : Call → Prop
  | .setmtu mtu =>
    mtu.toInt < 50 ∨ (mtu.toInt.toNat + ikcpOverhead.toNat) * 3 < 2 ^ 32 ∧
      ∀ seg ∈ kcp.sndQueue ++ kcp.sndBuf, seg.size ≤ limit mtu.toInt.toNat
  | _ => True

instance (limit : Nat → Nat) (kcp : Ikcpcb) (call : Call) : Decidable (call.Roomy limit kcp) := by
  cases call <;> unfold Call.Roomy <;> infer_instance

structure Sized (limit : Nat → Nat) (kcp : Ikcpcb) : Prop where
  bounded : Bounded kcp
  counted : kcp.Counted
  buffer : kcp.buffer.toNat = (kcp.mtu.toNat + ikcpOverhead.toNat) * 3
  pieces : kcp.sender.All (Within (limit kcp.mtu.toNat))

namespace Sized
variable {limit : Nat → Nat} {kcp : Ikcpcb}

theorem create (conv : UInt32) : Sized limit (ikcpCreate conv) := by
  refine ⟨Bounded.create conv, Ikcpcb.counted_create conv, ?_, ?_, ?_⟩
  · exact (by decide : ((ikcpMtuDef + ikcpOverhead) * 3).toNat = (ikcpMtuDef.toNat + ikcpOverhead.toNat) * 3)
  · exact fun value member => absurd member List.not_mem_nil
  · exact fun entry member => absurd member List.not_mem_nil

/-- A call that leaves MTU and buffer as they are, and queues nothing. -/
theorem congr (sized : Sized limit kcp) {after : Ikcpcb} (bounded : Bounded after) (counted : after.Counted)
    (settings : after.settings = kcp.settings)
    (pieces : kcp.sender.All (Within (limit kcp.mtu.toNat)) → after.sender.All (Within (limit kcp.mtu.toNat))) :
    Sized limit after := by
  obtain ⟨mtu, -, buffer, -⟩ := Settings.mk.inj settings
  refine ⟨bounded, counted, ?_, ?_⟩
  · rw [mtu, buffer]
    exact sized.buffer
  · rw [mtu]
    exact pieces sized.pieces

theorem inputSegment (sized : Sized limit kcp) (flag : Option UInt32) (seg : Segment) :
    Sized limit (Ikcpcb.inputSegment (kcp, flag) seg).1 := by
  obtain ⟨counted, -, sender, -, -⟩ := Ikcpcb.inputSegment_spec sized.counted flag seg
  refine sized.congr (sized.bounded.inputSegment flag seg) counted ?_ fun all => ?_
  · rw [← Ikcpcb.steady_settings, Ikcpcb.inputSegment_steady, Ikcpcb.steady_settings]
  · rw [sender]
    split
    next => exact (all.cumulate _).acknowledge _
    next => exact all.cumulate _

theorem finishInput (sized : Sized limit kcp) (flag : Option UInt32) (prevUna : UInt32) :
    Sized limit (Ikcpcb.finishInput prevUna (kcp, flag)) := by
  obtain ⟨counted, -, sender, -, -⟩ := Ikcpcb.finishInput_spec sized.counted prevUna flag
  refine sized.congr (sized.bounded.finishInput flag prevUna) counted ?_ fun all => ?_
  · rw [← Ikcpcb.steady_settings, Ikcpcb.finishInput_steady, Ikcpcb.steady_settings]
  · rw [sender]
    exact all

theorem flush (sized : Sized limit kcp) : Sized limit kcp.ikcpFlush.1 := by
  by_cases idle : kcp.updated = 0
  · rw [Ikcpcb.ikcpFlush_idle idle]
    exact sized
  · obtain ⟨counted, -, sender, -, -⟩ := Ikcpcb.ikcpFlush_spec sized.counted idle
    refine sized.congr sized.bounded.flush counted kcp.ikcpFlush_settings fun all => ?_
    rw [sender]
    exact all.number _

theorem tick (sized : Sized limit kcp) (current updated tsFlush : UInt32) :
    Sized limit { kcp with current, updated, tsFlush } := by
  obtain ⟨rcvBuf, sndBuf, rcvQueue, sndQueue⟩ := sized.counted
  exact ⟨sized.bounded.congr rfl rfl rfl rfl, ⟨rcvBuf, sndBuf, rcvQueue, sndQueue⟩, sized.buffer, sized.pieces⟩

theorem send (sized : Sized limit kcp) (least : ∀ mtu, mtu ≤ limit mtu)
    (most : ∀ mtu, limit mtu ≤ (mtu + ikcpOverhead.toNat) * 3) (buffer : List UInt8) :
    Sized limit (kcp.ikcpSend buffer).2 := by
  have overhead : ikcpOverhead.toNat = 24 := rfl
  have mtu := sized.bounded.mtu
  have lower := least kcp.mtu.toNat
  have upper := most kcp.mtu.toNat
  have allocated := kcp.buffer.toNat_lt
  rw [sized.buffer] at allocated
  have mss : kcp.mss.toNat = kcp.mtu.toNat - 24 := by
    rw [sized.bounded.mss, UInt32.toNat_sub, overhead]
    omega
  have queued : ∀ piece ∈ (kcp.ikcpSend buffer).2.pieces [], Within (limit kcp.mtu.toNat) piece :=
    Ikcpcb.ikcpSend_slim (by omega) (by omega) (by omega) buffer sized.pieces.queue
  have bounded := sized.bounded.send buffer
  have counted := sized.counted.send buffer
  rw [Ikcpcb.ikcpSend_eq] at bounded counted queued ⊢
  exact sized.congr bounded counted rfl fun all => ⟨queued, all.buf⟩

theorem recv (sized : Sized limit kcp) (len : Int) : Sized limit (kcp.ikcpRecv len).2.2 := by
  refine sized.congr (sized.bounded.recv len) (sized.counted.recv len) (kcp.ikcpRecv_settings len) fun all => ?_
  rw [(Ikcpcb.ikcpRecv_frame kcp len).1]
  exact all

theorem setmtu (sized : Sized limit kcp) {mtu : Int32} (roomy : (Call.setmtu mtu).Roomy limit kcp) :
    Sized limit (kcp.ikcpSetmtu mtu).2 := by
  have bounded := sized.bounded.setmtu mtu
  by_cases small : mtu < 50 ∨ mtu < ikcpOverhead.toInt32
  · rw [Ikcpcb.ikcpSetmtu, if_pos small]
    exact sized
  · have least : ¬ mtu.toInt < 50 := fun short => small (Or.inl (Int32.lt_iff_toInt_lt.2 short))
    obtain ⟨room, fits⟩ := roomy.resolve_left least
    have same := Serial.toNat_toUInt32 (by omega : 0 ≤ mtu.toInt)
    have length : mtu.toInt.toNat = mtu.toUInt32.toNat := by omega
    rw [length] at room fits
    rw [Ikcpcb.ikcpSetmtu, if_neg small] at bounded ⊢
    have counted := sized.counted
    have sum : (mtu.toUInt32 + ikcpOverhead).toNat = mtu.toUInt32.toNat + ikcpOverhead.toNat := by
      rw [UInt32.toNat_add]
      omega
    have three : ((3 : UInt32)).toNat = 3 := rfl
    have within : ∀ seg ∈ kcp.sndQueue ++ kcp.sndBuf, seg.frg.toNat < 128 → Within (limit mtu.toUInt32.toNat) seg.piece := by
      intro seg member few
      have size := fits seg member
      have parts : seg.size = 24 + seg.data.length := rfl
      have shorter : seg.data.length < limit mtu.toUInt32.toNat - 23 := by omega
      exact ⟨few, shorter⟩
    refine ⟨bounded, ⟨counted.rcvBuf, counted.sndBuf, counted.rcvQueue, counted.sndQueue⟩, ?_, ?_, ?_⟩
    · show ((mtu.toUInt32 + ikcpOverhead) * 3).toNat = (mtu.toUInt32.toNat + ikcpOverhead.toNat) * 3
      rw [UInt32.toNat_mul, sum, three, Nat.mod_eq_of_lt room]
    · intro piece member
      obtain ⟨seg, inside, rfl⟩ := List.mem_map.1 member
      exact within seg (List.mem_append_left _ inside) (sized.pieces.queue _ member).1
    · intro entry member
      obtain ⟨seg, inside, rfl⟩ := List.mem_map.1 member
      exact within seg (List.mem_append_right _ inside) (sized.pieces.buf _ member).1

theorem call (sized : Sized limit kcp) (least : ∀ mtu, mtu ≤ limit mtu)
    (most : ∀ mtu, limit mtu ≤ (mtu + ikcpOverhead.toNat) * 3) {call : Call} (roomy : call.Roomy limit kcp) {after : Ikcpcb}
    (taken : kcp.call call = some after) : Sized limit after := by
  have bounded := sized.bounded.call taken
  obtain ⟨rcvBuf, sndBuf, rcvQueue, sndQueue⟩ := sized.counted
  obtain ⟨⟨other, packing⟩, run, rfl⟩ := Option.map_eq_some_iff.1 taken
  cases call with
  | send buffer =>
    obtain ⟨rfl, rfl⟩ := Prod.mk.inj (Option.some.inj run)
    exact sized.send least most buffer
  | recv len =>
    obtain ⟨rfl, rfl⟩ := Prod.mk.inj (Option.some.inj run)
    exact sized.recv len
  | input data =>
    obtain ⟨⟨code, middle⟩, input, same⟩ := Option.map_eq_some_iff.1 run
    obtain ⟨rfl, rfl⟩ := Prod.mk.inj same
    exact ikcpInput_rule sized (fun middle flag seg held _ => held.inputSegment flag seg)
      (fun middle flag prevUna held => held.finishInput flag prevUna) input
  | update current =>
    rw [Call.run, Option.some_inj] at run
    rw [← run]
    obtain ⟨updated, tsFlush, -, quiet | flush⟩ := kcp.ikcpUpdate_cases current
    · rw [quiet]
      exact sized.tick current updated tsFlush
    · rw [flush]
      exact (sized.tick current updated tsFlush).flush
  | flush =>
    rw [Call.run, Option.some_inj] at run
    rw [← run]
    exact sized.flush
  | setmtu mtu =>
    obtain ⟨rfl, rfl⟩ := Prod.mk.inj (Option.some.inj run)
    exact sized.setmtu roomy
  | interval | nodelay | wndsize | stream =>
    obtain ⟨rfl, rfl⟩ := Prod.mk.inj (Option.some.inj run)
    exact ⟨bounded, ⟨rcvBuf, sndBuf, rcvQueue, sndQueue⟩, sized.buffer, sized.pieces⟩

theorem run {conv : UInt32} {calls : List Call} (least : ∀ mtu, mtu ≤ limit mtu)
    (most : ∀ mtu, limit mtu ≤ (mtu + ikcpOverhead.toNat) * 3)
    (reached : exec (meeting (fun kcp call => call.Roomy limit kcp) Ikcpcb.call) (ikcpCreate conv) calls = some kcp) :
    Sized limit kcp :=
  (Run.of_exec reached).invariant (Sized limit) (create conv) fun _ _ _ sized taken =>
    sized.call least most (meeting_eq_some taken).1 (meeting_eq_some taken).2

/-- Nothing that a flush sends is longer than the limit. -/
theorem emitted (sized : Sized limit kcp) (least : ∀ mtu, mtu ≤ limit mtu) : ∀ seg ∈ kcp.emitted, seg.size ≤ limit kcp.mtu.toNat := by
  have room := sized.bounded.mtu.1.trans (least _)
  intro seg member
  rcases List.mem_append.1 member with control | data
  · have header : seg.size = 24 := by
      rw [Segment.size, (kcp.control_header seg control).2.2.1]
      rfl
    omega
  · obtain ⟨segment, chosen, rfl⟩ := List.mem_map.1 data
    obtain ⟨before, -⟩ := List.mem_filter.1 chosen
    obtain ⟨-, -, -, size⟩ := Ikcpcb.transmit_eq kcp.flushQueued kcp.ikcpWndUnused segment
    rw [size]
    have numbered := sized.pieces.number kcp.sendWindow
    rw [← Ikcpcb.flushQueued_sender] at numbered
    exact (numbered.buf segment.entry (List.mem_map_of_mem before)).size

theorem flush_fits (sized : Sized limit kcp) (least : ∀ mtu, mtu ≤ limit mtu) :
    Packing.Fits Segment.size (limit kcp.mtu.toNat) kcp.ikcpFlush.2 := by
  by_cases idle : kcp.updated = 0
  · rw [Ikcpcb.ikcpFlush_idle idle]
    exact Packing.Fits.empty
  · rw [Ikcpcb.ikcpFlush_packing idle]
    exact (Packing.Fits.foldl Packing.Fits.empty (least _) (sized.emitted least)).close

/-- No group of segments is longer than the limit, nor does anything pass it on its
way through the buffer. -/
theorem fits (sized : Sized limit kcp) (least : ∀ mtu, mtu ≤ limit mtu) {call : Call} {after : Ikcpcb}
    {packing : Packing Segment} (run : call.run kcp = some (after, packing)) :
    Packing.Fits Segment.size (limit kcp.mtu.toNat) packing := by
  cases call with
  | update current =>
    rw [Call.run, Option.some_inj] at run
    obtain ⟨updated, tsFlush, -, quiet | flush⟩ := kcp.ikcpUpdate_cases current
    · rw [quiet] at run
      rw [← (Prod.mk.inj run).2]
      exact Packing.Fits.empty
    · rw [flush] at run
      have flushed := (sized.tick current updated tsFlush).flush_fits least
      rw [run] at flushed
      exact flushed
  | flush =>
    have flushed := sized.flush_fits least
    rw [Call.run, Option.some_inj] at run
    rw [run] at flushed
    exact flushed
  | input data =>
    obtain ⟨⟨code, middle⟩, -, same⟩ := Option.map_eq_some_iff.1 run
    rw [← (Prod.mk.inj same).2]
    exact Packing.Fits.empty
  | send | recv | setmtu | interval | nodelay | wndsize | stream =>
    rw [← (Prod.mk.inj (Option.some.inj run)).2]
    exact Packing.Fits.empty

end Sized

theorem encodeSegments_total (segs : List Segment) : (encodeSegments segs).length = Packing.total Segment.size segs := by
  induction segs with
  | nil => rfl
  | cons seg segs ih =>
    have first : (encodeSegments (seg :: segs)).length = (encodeSegment seg).length + (encodeSegments segs).length :=
      List.length_append
    rw [first, ih, encodeSegment_length]
    rfl

/-- The MTU is set to 50 before anything waits. -/
def waiting : List Call := [.setmtu 50, .nodelay 0 10 0 1, .send (List.replicate 26 1), .send [2]]

theorem waiting_roomy (limit : Nat → Nat) :
    exec (meeting (fun kcp call => call.Roomy limit kcp) Ikcpcb.call) (ikcpCreate 7) waiting =
      exec Ikcpcb.call (ikcpCreate 7) waiting := by
  have room : (Call.setmtu 50).Roomy limit (ikcpCreate 7) :=
    Or.inr ⟨by decide, fun seg member => absurd member List.not_mem_nil⟩
  rw [waiting, exec_cons, exec_cons, meeting, if_pos room]
  rfl

/-- While a new MTU is never shorter than a segment that waits, no datagram is longer
than the MTU. -/
theorem datagrams_fit {conv : UInt32} {calls : List Call} {kcp after : Ikcpcb} {call : Call} {packing : Packing Segment}
    (reached : exec (meeting (fun kcp call => call.Roomy id kcp) Ikcpcb.call) (ikcpCreate conv) calls = some kcp)
    (run : call.run kcp = some (after, packing)) : ∀ datagram ∈ datagrams packing, datagram.length ≤ kcp.mtu.toNat := by
  have sized : Sized id kcp := Sized.run (fun _ => le_rfl) (fun mtu => show mtu ≤ _ by omega) reached
  intro datagram member
  obtain ⟨group, inside, rfl⟩ := List.mem_map.1 member
  rw [encodeSegments_total]
  exact (sized.fits (fun _ => le_rfl) run).closed group inside

/-- Two segments do not go together into one datagram. -/
theorem datagrams_fit_two : ∃ kcp after packing,
    exec (meeting (fun kcp call => call.Roomy id kcp) Ikcpcb.call) (ikcpCreate 7) waiting = some kcp ∧
      (Call.update 0).run kcp = some (after, packing) ∧ (datagrams packing).length = 2 ∧
        ∀ datagram ∈ datagrams packing, datagram.length ≤ 50 :=
  ⟨_, _, _, waiting_roomy id, rfl, by decide, @datagrams_fit 7 waiting _ _ (.update 0) _ (waiting_roomy id) rfl⟩

/-- While no segment that waits is longer than the new buffer, nothing is written
past the end of a buffer. -/
theorem buffer_kept {conv : UInt32} {calls : List Call} {kcp after : Ikcpcb} {call : Call} {packing : Packing Segment}
    (reached : exec (meeting (fun kcp call => call.Roomy (fun mtu => (mtu + ikcpOverhead.toNat) * 3) kcp) Ikcpcb.call)
      (ikcpCreate conv) calls = some kcp)
    (run : call.run kcp = some (after, packing)) : packing.high ≤ kcp.buffer.toNat := by
  have least : ∀ mtu, mtu ≤ (mtu + ikcpOverhead.toNat) * 3 := fun mtu => by omega
  have sized := Sized.run least (fun _ => le_rfl) reached
  rw [sized.buffer]
  exact (sized.fits least run).high

theorem buffer_kept_two : ∃ kcp after packing,
    exec (meeting (fun kcp call => call.Roomy (fun mtu => (mtu + ikcpOverhead.toNat) * 3) kcp) Ikcpcb.call) (ikcpCreate 7)
        waiting = some kcp ∧
      (Call.update 0).run kcp = some (after, packing) ∧ packing.high = 50 ∧ packing.high ≤ kcp.buffer.toNat :=
  ⟨_, _, _, waiting_roomy _, rfl, by decide, @buffer_kept 7 waiting _ _ (.update 0) _ (waiting_roomy _) rfl⟩

/-- A segment of 223 bytes waits while the MTU is set to 50. -/
theorem buffer_overrun :
    ((exec Ikcpcb.call (ikcpCreate 1) [.update 0, .send (List.replicate 199 0), .setmtu 50]).map fun kcp =>
      (kcp.buffer.toNat, (kcp.ikcpUpdate 100).2.high)) = some (222, 223) := by
  decide +kernel

end NetPrograms.Ikcp
