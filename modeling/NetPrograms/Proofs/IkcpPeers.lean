import NetPrograms.Lib.Delivery
import NetPrograms.Proofs.IkcpSettings
import NetPrograms.Proofs.IkcpWindows

/-! What two control blocks make of a network that loses, repeats and reorders
their datagrams. -/

namespace NetPrograms.Ikcp
open SelectiveRepeat

/-- What an endpoint may send: it acknowledges what it has, and pushes what it has
numbered. -/
structure Genuine (numbered : List (Piece UInt8)) (r : Receiver (Piece UInt8)) (seg : Segment) : Prop where
  una : seg.una.toNat ≤ r.nxt.toNat
  acked : seg.cmd = ikcpCmdAck → r.Has seg.sn.toNat
  pushed : seg.cmd = ikcpCmdPush → numbered[seg.sn.toNat]? = some seg.piece

theorem Genuine.mono {numbered : List (Piece UInt8)} {r after : Receiver (Piece UInt8)} {seg : Segment}
    (genuine : Genuine numbered r seg) (grows : Receiver.Grows r after) (more : List (Piece UInt8)) :
    Genuine (numbered ++ more) after seg := by
  refine ⟨genuine.una.trans grows.nxt, fun ack => grows.has _ (genuine.acked ack), fun push => ?_⟩
  have found := genuine.pushed push
  obtain ⟨inside, -⟩ := List.getElem?_eq_some_iff.1 found
  rwa [List.getElem?_append_left inside]

/-- The network does not change it. -/
theorem Genuine.onWire {conv : UInt32} {numbered : List (Piece UInt8)} {r : Receiver (Piece UInt8)} {seg : Segment}
    (genuine : Genuine numbered r seg) (acceptable : seg.Acceptable conv)
    (slim : ∀ piece ∈ numbered, Ikcpcb.Slim (2 ^ 31) piece) : Genuine numbered r seg.onWire := by
  have cmd : seg.onWire.cmd = seg.cmd := Segment.knownCmd_onWire acceptable.cmd
  refine ⟨genuine.una, fun ack => genuine.acked (cmd ▸ ack), fun push => ?_⟩
  have found := genuine.pushed (cmd ▸ push)
  have narrow : seg.frg.toNat < 128 := (slim _ (List.mem_of_getElem? found)).1
  have frg : seg.frg.toUInt8.toUInt32.toNat = seg.frg.toNat := by
    rw [UInt8.toNat_toUInt32, UInt32.toNat_toUInt8]
    omega
  refine found.trans (congrArg some ?_)
  show (⟨seg.frg.toNat, seg.data⟩ : Piece UInt8) = ⟨seg.frg.toUInt8.toUInt32.toNat, seg.data⟩
  rw [frg]

/-- A datagram holds nothing but such segments. -/
def Outgoing (conv : UInt32) (numbered : List (Piece UInt8)) (r : Receiver (Piece UInt8)) (datagram : List UInt8) : Prop :=
  ∃ segs ≠ [], datagram = encodeSegments segs ∧ ∀ seg ∈ segs, seg.Acceptable conv ∧ Genuine numbered r seg

theorem Outgoing.mono {conv : UInt32} {numbered : List (Piece UInt8)} {r after : Receiver (Piece UInt8)}
    {datagram : List UInt8} (outgoing : Outgoing conv numbered r datagram) (grows : Receiver.Grows r after)
    (more : List (Piece UInt8)) : Outgoing conv (numbered ++ more) after datagram := by
  obtain ⟨segs, some_, same, all⟩ := outgoing
  exact ⟨segs, some_, same, fun seg member => ⟨(all seg member).1, (all seg member).2.mono grows more⟩⟩

def Stamped (conv : UInt32) (segs : List Segment) : Prop := ∀ seg ∈ segs, seg.conv = conv ∧ seg.cmd = ikcpCmdPush

structure Sound (conv : UInt32) (e : Endpoint) : Prop where
  windows : Windows (2 ^ 31 - 1) e.kcp
  own : e.kcp.conv = conv
  mss : 0 < e.kcp.mss.toNat ∧ e.kcp.mss.toNat < 2 ^ 31
  cut : Piece.Cut (e.kcp.pieces e.numbered) e.accepted.flatten
  slim : ∀ piece ∈ e.kcp.pieces e.numbered, Ikcpcb.Slim (2 ^ 31) piece
  stamped : Stamped conv e.kcp.sndBuf
  acknowledged : ∀ ack ∈ e.kcp.acklist, e.kcp.receiver.Has ack.1.toNat
  output : ∀ datagram ∈ e.output, Outgoing conv e.numbered e.kcp.receiver datagram

/-- What `b` has received is the beginning of what `a` has numbered. -/
def Linked (a b : Endpoint) : Prop :=
  ∃ read, Link a.numbered read a.kcp.sender b.kcp.receiver ∧ Piece.Whole read ∧ Piece.assemble read = b.delivered

/-! A flush -/

namespace Ikcpcb
variable {conv : UInt32} {kcp : Ikcpcb}

theorem moveQueued_stamped (wnd cwnd : UInt32) (rest : List Segment) (stamped : Stamped kcp.conv kcp.sndBuf) :
    Stamped kcp.conv (moveQueued wnd cwnd rest kcp).sndBuf := by
  induction rest generalizing kcp with
  | nil => exact stamped
  | cons newseg rest ih =>
    unfold moveQueued
    split
    next =>
      refine ih ?_
      intro seg member
      rcases List.mem_append.1 member with old | last
      · exact stamped seg old
      · obtain rfl := List.mem_singleton.1 last
        exact ⟨rfl, rfl⟩
    next => exact stamped

theorem flushQueued_stamped (stamped : Stamped kcp.conv kcp.sndBuf) : Stamped kcp.conv kcp.flushQueued.sndBuf := by
  unfold flushQueued
  dsimp only
  rw [probeWindow_eq]
  refine moveQueued_stamped _ _ _ ?_
  exact stamped

theorem ikcpFlush_stamped (stamped : Stamped kcp.conv kcp.sndBuf) : Stamped kcp.conv kcp.ikcpFlush.1.sndBuf := by
  by_cases idle : kcp.updated = 0
  · rw [ikcpFlush_idle idle]
    exact stamped
  · have queued := flushQueued_stamped stamped
    rw [ikcpFlush_eq idle]
    show Stamped kcp.conv kcp.flushData.passed
    rw [flushData_passed]
    intro seg member
    obtain ⟨segment, before, rfl⟩ := List.mem_map.1 member
    obtain ⟨-, same, push, -⟩ := transmit_eq kcp.flushQueued kcp.ikcpWndUnused segment
    exact ⟨same.trans (queued segment before).1, push.trans (queued segment before).2⟩

theorem control_genuine (numbered : List (Piece UInt8)) (acknowledged : ∀ ack ∈ kcp.acklist, kcp.receiver.Has ack.1.toNat) :
    ∀ seg ∈ kcp.control, seg.Acceptable kcp.conv ∧ Genuine numbered kcp.receiver seg := by
  intro seg member
  obtain ⟨conv, una, data, cause⟩ := kcp.control_header seg member
  have empty : seg.data.length < 2 ^ 31 := by
    rw [data]
    decide
  rcases cause with ⟨ack, listed⟩ | wask | wins
  · refine ⟨⟨conv, Or.inr (Or.inl ack), empty⟩, una ▸ le_rfl, fun _ => acknowledged _ listed, fun push => ?_⟩
    rw [ack] at push
    exact absurd push (by decide)
  · refine ⟨⟨conv, Or.inr (Or.inr (Or.inl wask)), empty⟩, una ▸ le_rfl, fun ack => ?_, fun push => ?_⟩
    · rw [wask] at ack
      exact absurd ack (by decide)
    · rw [wask] at push
      exact absurd push (by decide)
  · refine ⟨⟨conv, Or.inr (Or.inr (Or.inr wins)), empty⟩, una ▸ le_rfl, fun ack => ?_, fun push => ?_⟩
    · rw [wins] at ack
      exact absurd ack (by decide)
    · rw [wins] at push
      exact absurd push (by decide)

theorem emitted_genuine (numbered : List (Piece UInt8)) (stamped : Stamped kcp.conv kcp.sndBuf)
    (acknowledged : ∀ ack ∈ kcp.acklist, kcp.receiver.Has ack.1.toNat)
    (carried : ∀ entry ∈ kcp.flushQueued.sender.buf, numbered[entry.1.toNat]? = some entry.2)
    (slim : ∀ piece ∈ numbered, Slim (2 ^ 31) piece) :
    ∀ seg ∈ kcp.emitted, seg.Acceptable kcp.conv ∧ Genuine numbered kcp.receiver seg := by
  intro seg member
  rcases List.mem_append.1 member with control | data
  · exact control_genuine numbered acknowledged seg control
  · obtain ⟨segment, chosen, rfl⟩ := List.mem_map.1 data
    obtain ⟨before, due⟩ := List.mem_filter.1 chosen
    obtain ⟨entry, conv, cmd, -⟩ := transmit_eq kcp.flushQueued kcp.ikcpWndUnused segment
    have stamp := flushQueued_stamped stamped segment before
    have found := carried segment.entry (List.mem_map_of_mem before)
    rw [← entry] at found
    have una : (kcp.flushQueued.transmit kcp.ikcpWndUnused segment).una = kcp.rcvNxt := by
      rw [transmit, if_neg (of_decide_eq_true due), flushQueued_eq]
    have short := (slim _ (List.mem_of_getElem? found)).2
    refine ⟨⟨conv.trans stamp.1, ?_, short⟩, ?_, ?_, fun _ => found⟩
    · rw [cmd, stamp.2]
      decide
    · rw [una]
      exact le_rfl
    · intro ack
      rw [cmd, stamp.2] at ack
      exact absurd ack (by decide)

end Ikcpcb

/-! A call on one side -/

namespace Endpoint

def after (e : Endpoint) (call : Call) (kcp : Ikcpcb) (packing : Packing Segment) : Endpoint :=
  { kcp
    accepted := e.accepting call
    delivered := e.delivering call
    numbered := e.numbering kcp
    output := e.output ++ datagrams packing }

theorem act_some {e after : Endpoint} {call : Call} (acted : e.act call = some after) :
    ∃ kcp packing, call.run e.kcp = some (kcp, packing) ∧ after = e.after call kcp packing := by
  obtain ⟨⟨kcp, packing⟩, run, same⟩ := Option.map_eq_some_iff.1 acted
  exact ⟨kcp, packing, run, same.symm⟩

/-- No number is given when the queue does not get shorter. -/
theorem numbering_eq (e : Endpoint) {kcp : Ikcpcb} (long : e.kcp.sndQueue.length ≤ kcp.sndQueue.length) :
    e.numbering kcp = e.numbered := by
  rw [numbering, Nat.sub_eq_zero_of_le long, List.take_zero, List.map_nil, List.append_nil]

end Endpoint

theorem Call.narrow_half (call : Call) : call.Narrow (2 ^ 31 - 1) := by
  cases call with
  | wndsize sndwnd rcvwnd =>
    have bound := rcvwnd.toInt_lt
    show rcvwnd.toInt ≤ (2 ^ 31 - 1 : Nat)
    omega
  | send | recv | input | update | flush | setmtu | interval | nodelay | stream => trivial

theorem Windows.of_run {kcp after : Ikcpcb} {call : Call} {packing : Packing Segment} (windows : Windows (2 ^ 31 - 1) kcp)
    (run : call.run kcp = some (after, packing)) : Windows (2 ^ 31 - 1) after := by
  obtain ⟨other, called, kept⟩ := windows.call (by decide) call.narrow_half
  have same : kcp.call call = some after := by rw [Ikcpcb.call, run, Option.map_some]
  rw [same] at called
  rwa [Option.some.inj called]

theorem Sound.quiet {conv : UInt32} {e : Endpoint} {call : Call} {kcp : Ikcpcb} (sound : Sound conv e)
    (windows : Windows (2 ^ 31 - 1) kcp) (own : kcp.conv = e.kcp.conv)
    (mss : 0 < kcp.mss.toNat ∧ kcp.mss.toNat < 2 ^ 31) (long : e.kcp.sndQueue.length ≤ kcp.sndQueue.length)
    (cut : Piece.Cut (kcp.pieces e.numbered) (e.accepting call).flatten)
    (slim : ∀ piece ∈ kcp.pieces e.numbered, Ikcpcb.Slim (2 ^ 31) piece) (stamped : Stamped conv kcp.sndBuf)
    (grows : Receiver.Grows e.kcp.receiver kcp.receiver)
    (acknowledged : ∀ ack ∈ kcp.acklist, kcp.receiver.Has ack.1.toNat) : Sound conv (e.after call kcp {}) := by
  have output : e.output ++ datagrams {} = e.output := List.append_nil _
  unfold Endpoint.after
  rw [e.numbering_eq long, output]
  refine ⟨windows, own.trans sound.own, mss, cut, slim, stamped, acknowledged, ?_⟩
  intro datagram member
  have before := (sound.output datagram member).mono grows []
  rwa [List.append_nil] at before

/-- A call that touches neither the window of either machine nor what it has
received. -/
structure Still (kcp after : Ikcpcb) : Prop where
  conv : after.conv = kcp.conv
  sndNxt : after.sndNxt = kcp.sndNxt
  sndUna : after.sndUna = kcp.sndUna
  sndBuf : after.sndBuf = kcp.sndBuf
  rcvNxt : after.rcvNxt = kcp.rcvNxt
  rcvBuf : after.rcvBuf = kcp.rcvBuf
  rcvQueue : after.rcvQueue = kcp.rcvQueue
  acklist : after.acklist = kcp.acklist

structure Coupled (conv : UInt32) (a b : Endpoint) : Prop where
  left : Sound conv a
  right : Sound conv b
  forth : Linked a b
  back : Linked b a

namespace Coupled
variable {conv : UInt32} {a b : Endpoint} {call : Call} {kcp : Ikcpcb}

theorem symm (coupled : Coupled conv a b) : Coupled conv b a := ⟨coupled.right, coupled.left, coupled.back, coupled.forth⟩

theorem still (coupled : Coupled conv a b) (windows : Windows (2 ^ 31 - 1) kcp) (still : Still a.kcp kcp)
    (mss : 0 < kcp.mss.toNat ∧ kcp.mss.toNat < 2 ^ 31) (long : a.kcp.sndQueue.length ≤ kcp.sndQueue.length)
    (cut : Piece.Cut (kcp.pieces a.numbered) (a.accepting call).flatten)
    (slim : ∀ piece ∈ kcp.pieces a.numbered, Ikcpcb.Slim (2 ^ 31) piece) (delivered : a.delivering call = a.delivered) :
    Coupled conv (a.after call kcp {}) b := by
  have entries : ∀ {segs other : List Segment}, segs = other → segs.map Segment.entry = other.map Segment.entry :=
    fun same => congrArg _ same
  obtain ⟨read, link, whole, assembled⟩ := coupled.back
  obtain ⟨received, grows⟩ := link.receiver kcp.receiver still.rcvNxt (entries still.rcvBuf) (entries still.rcvQueue)
  have sound := coupled.left
  refine ⟨?_, coupled.right, ?_, read, received, whole, assembled.trans delivered.symm⟩
  · refine sound.quiet windows still.conv mss long cut slim (still.sndBuf.symm ▸ sound.stamped) grows ?_
    exact fun ack member => grows.has _ (sound.acknowledged ack (still.acklist ▸ member))
  · obtain ⟨read, link, rest⟩ := coupled.forth
    refine ⟨read, ?_, rest⟩
    show Link (a.numbering kcp) read kcp.sender b.kcp.receiver
    rw [a.numbering_eq long]
    exact link.sender still.sndNxt still.sndUna (entries still.sndBuf)

theorem idle (coupled : Coupled conv a b) (windows : Windows (2 ^ 31 - 1) kcp) (still : Still a.kcp kcp)
    (mss : 0 < kcp.mss.toNat ∧ kcp.mss.toNat < 2 ^ 31) (queue : kcp.sndQueue = a.kcp.sndQueue)
    (accepted : a.accepting call = a.accepted) (delivered : a.delivering call = a.delivered) :
    Coupled conv (a.after call kcp {}) b := by
  have pieces : kcp.pieces a.numbered = a.kcp.pieces a.numbered := by rw [Ikcpcb.pieces, Ikcpcb.pieces, queue]
  refine coupled.still windows still mss (congrArg List.length queue).ge ?_ (pieces ▸ coupled.left.slim) delivered
  rw [pieces, accepted]
  exact coupled.left.cut

theorem send (coupled : Coupled conv a b) (buffer : List UInt8) :
    Coupled conv (a.after (.send buffer) (a.kcp.ikcpSend buffer).2 {}) b := by
  have sound := coupled.left
  have settings := congrArg Settings.mss (a.kcp.ikcpSend_settings buffer)
  have still : Still a.kcp (a.kcp.ikcpSend buffer).2 := by
    rw [Ikcpcb.ikcpSend_eq]
    exact ⟨rfl, rfl, rfl, rfl, rfl, rfl, rfl, rfl⟩
  refine coupled.still (sound.windows.send buffer) still ?_ (a.kcp.ikcpSend_length buffer) ?_
    (Ikcpcb.ikcpSend_slim sound.mss.1 sound.mss.2 (by decide) buffer sound.slim) rfl
  · change (a.kcp.ikcpSend buffer).2.mss = a.kcp.mss at settings
    rw [settings]
    exact sound.mss
  · show Piece.Cut _ (a.accepted ++ a.kcp.accepts buffer).flatten
    rw [List.flatten_append]
    exact Ikcpcb.ikcpSend_cut sound.mss.1 sound.cut buffer

/-! Reading -/

theorem receiver_values (kcp : Ikcpcb) : kcp.receiver.queue.map Prod.snd = kcp.rcvQueue.map Segment.piece := by
  simp [Ikcpcb.receiver, Segment.entry]

/-- What lies in the queue was cut by the other side. -/
theorem received {read : List (Piece UInt8)} (right : Sound conv b)
    (link : Link b.numbered read b.kcp.sender a.kcp.receiver) :
    Piece.Counting (a.kcp.rcvQueue.map Segment.piece) ∧ ∀ seg ∈ a.kcp.rcvQueue, Ikcpcb.Slim (2 ^ 31) seg.piece := by
  have inOrder := link.inOrder
  rw [receiver_values] at inOrder
  constructor
  · have counting := right.cut.counting
    rw [Ikcpcb.pieces, ← List.take_append_drop a.kcp.receiver.nxt.toNat b.numbered, ← inOrder, List.append_assoc,
      List.append_assoc] at counting
    exact counting.right_of_append.left_of_append
  · intro seg member
    refine right.slim _ (List.mem_append_left _ (List.mem_of_mem_take (i := a.kcp.receiver.nxt.toNat) ?_))
    rw [← inOrder]
    exact List.mem_append_right _ (List.mem_map_of_mem member)

theorem taken_values (kcp : Ikcpcb) :
    (kcp.receiver.queue.take (takeMessage kcp.rcvQueue).1.length).map Prod.snd = (takeMessage kcp.rcvQueue).1.map Segment.piece := by
  conv_rhs => rw [(takeMessage_eq kcp.rcvQueue).1]
  rw [List.map_take, receiver_values, List.map_take]

theorem reading (coupled : Coupled conv a b) {len : Int} {read : List (Piece UInt8)}
    (result : 0 ≤ (a.kcp.ikcpRecv len).1) (link : Link b.numbered read b.kcp.sender a.kcp.receiver)
    (whole : Piece.Whole read) (assembled : Piece.assemble read = a.delivered) :
    let taken := a.kcp.receiver.queue.take (if len < 0 then 0 else (takeMessage a.kcp.rcvQueue).1.length)
    Piece.Whole (read ++ taken.map Prod.snd) ∧
      Piece.assemble (read ++ taken.map Prod.snd) = a.delivered ++ a.kcp.delivers len := by
  obtain ⟨passed, -, message, -⟩ := Ikcpcb.ikcpRecv_some result
  dsimp only
  rw [Ikcpcb.delivers]
  by_cases peek : len < 0
  · rw [if_pos peek, List.take_zero, List.map_nil, List.append_nil, if_neg (by omega), List.append_nil]
    exact ⟨whole, assembled⟩
  · have windows := coupled.left.windows
    have held := windows.receiving.held
    change (a.kcp.rcvQueue.map Segment.entry).length ≤ _ at held
    rw [List.length_map] at held
    obtain ⟨counting, slim⟩ := received coupled.right link
    obtain ⟨one, ended⟩ := Ikcpcb.takeMessage_assemble windows.counted (by omega) counting slim
      (Ikcpcb.peeksize_of_recvCheck passed)
    rw [if_neg peek, if_pos ⟨Int.not_lt.1 peek, result⟩, taken_values, Piece.assemble_append whole, assembled, one, message]
    refine ⟨?_, rfl⟩
    cases some_ : (takeMessage a.kcp.rcvQueue).1 with
    | nil =>
      rw [List.map_nil, List.append_nil]
      exact whole
    | cons seg rest =>
      rw [some_] at ended
      exact ended.append (List.cons_ne_nil _ _)

theorem recv (coupled : Coupled conv a b) (len : Int) :
    Coupled conv (a.after (.recv len) (a.kcp.ikcpRecv len).2.2 {}) b := by
  have sound := coupled.left
  obtain ⟨sender, acklist, own⟩ := Ikcpcb.ikcpRecv_frame a.kcp len
  by_cases result : 0 ≤ (a.kcp.ikcpRecv len).1
  · obtain ⟨read, link, whole, assembled⟩ := coupled.back
    obtain ⟨further, grows⟩ := link.take (if len < 0 then 0 else (takeMessage a.kcp.rcvQueue).1.length)
    rw [← Ikcpcb.ikcpRecv_taken sound.windows.counted result] at further grows
    have still : (a.kcp.ikcpRecv len).2.2.sndBuf = a.kcp.sndBuf ∧ (a.kcp.ikcpRecv len).2.2.sndQueue = a.kcp.sndQueue ∧
        (a.kcp.ikcpRecv len).2.2.mss = a.kcp.mss := by
      obtain ⟨-, -, -, probe, after⟩ := Ikcpcb.ikcpRecv_some result
      rw [after, Ikcpcb.moveReady_eq, Ikcpcb.takeFirst_eq]
      exact ⟨rfl, rfl, rfl⟩
    obtain ⟨sndBuf, queue, mss⟩ := still
    have long := (congrArg List.length queue).ge
    have pieces : (a.kcp.ikcpRecv len).2.2.pieces a.numbered = a.kcp.pieces a.numbered := by
      rw [Ikcpcb.pieces, Ikcpcb.pieces, queue]
    refine ⟨?_, coupled.right, ?_, _, further, coupled.reading result link whole assembled⟩
    · refine sound.quiet (sound.windows.recv len) own (mss ▸ sound.mss) long ?_ ?_ (sndBuf ▸ sound.stamped) grows ?_
      · rw [pieces]
        exact sound.cut
      · rw [pieces]
        exact sound.slim
      · exact fun ack member => grows.has _ (sound.acknowledged ack (acklist ▸ member))
    · obtain ⟨other, forth, rest⟩ := coupled.forth
      refine ⟨other, ?_, rest⟩
      show Link (a.numbering _) other (a.kcp.ikcpRecv len).2.2.sender b.kcp.receiver
      rw [a.numbering_eq long, sender]
      exact forth
  · rw [Ikcpcb.ikcpRecv_none (Int.not_le.1 result)]
    refine coupled.idle sound.windows ⟨rfl, rfl, rfl, rfl, rfl, rfl, rfl, rfl⟩ sound.mss rfl rfl ?_
    show a.delivered ++ a.kcp.delivers len = a.delivered
    rw [Ikcpcb.delivers, if_neg fun both => result both.2, List.append_nil]

/-! Options -/

/-- There is room for data in every segment. -/
theorem mss_setmtu {mtu : Int32} (accepted : ¬ (mtu < 50 ∨ mtu < ikcpOverhead.toInt32)) :
    0 < (mtu.toUInt32 - ikcpOverhead).toNat ∧ (mtu.toUInt32 - ikcpOverhead).toNat < 2 ^ 31 := by
  have least : ¬ mtu.toInt < 50 := fun short => accepted (Or.inl (Int32.lt_iff_toInt_lt.2 short))
  have signed := Serial.toNat_toUInt32 (by omega : 0 ≤ mtu.toInt)
  have bound := mtu.toInt_lt
  have overhead : ikcpOverhead.toNat = 24 := rfl
  rw [UInt32.toNat_sub, overhead]
  omega

/-! Sending -/

theorem flush_outgoing {numbered : List (Piece UInt8)} (running : a.kcp.updated ≠ 0)
    (genuine : ∀ seg ∈ a.kcp.emitted, seg.Acceptable conv ∧ Genuine numbered a.kcp.receiver seg) :
    ∀ datagram ∈ datagrams a.kcp.ikcpFlush.2, Outgoing conv numbered a.kcp.receiver datagram := by
  intro datagram member
  obtain ⟨group, inside, rfl⟩ := List.mem_map.1 member
  obtain ⟨some_, all⟩ := Ikcpcb.ikcpFlush_groups running
  refine ⟨group, some_ group inside, rfl, fun seg in_ => genuine seg ?_⟩
  rw [← all]
  exact List.mem_flatten.2 ⟨group, inside, in_⟩

theorem flush_numbering (running : a.kcp.updated ≠ 0) {read : List (Piece UInt8)} {r : Receiver (Piece UInt8)}
    (counted : a.kcp.Counted) (link : Link a.numbered read a.kcp.sender r)
    (small : (a.numbering a.kcp.ikcpFlush.1).length < 2 ^ 31) :
    Link (a.numbering a.kcp.ikcpFlush.1) read a.kcp.ikcpFlush.1.sender r ∧
      a.kcp.ikcpFlush.1.pieces (a.numbering a.kcp.ikcpFlush.1) = a.kcp.pieces a.numbered := by
  obtain ⟨-, -, sender, -, -⟩ := Ikcpcb.ikcpFlush_spec counted running
  obtain ⟨taken, queue, further⟩ := link.number a.kcp.sendWindow
  rw [← sender] at queue further
  change a.kcp.sndQueue.map Segment.piece = taken ++ a.kcp.ikcpFlush.1.sndQueue.map Segment.piece at queue
  have lengths := congrArg List.length queue
  rw [List.length_append, List.length_map, List.length_map] at lengths
  have numbered : a.numbering a.kcp.ikcpFlush.1 = a.numbered ++ taken := by
    rw [Endpoint.numbering, List.map_take, queue, List.take_left' (by omega)]
  rw [numbered] at small ⊢
  exact ⟨further small, by rw [Ikcpcb.pieces, Ikcpcb.pieces, queue, List.append_assoc]⟩

theorem flush_genuine (coupled : Coupled conv a b) (running : a.kcp.updated ≠ 0)
    (small : (a.numbering a.kcp.ikcpFlush.1).length < 2 ^ 31) :
    ∀ seg ∈ a.kcp.emitted, seg.Acceptable conv ∧ Genuine (a.numbering a.kcp.ikcpFlush.1) a.kcp.receiver seg := by
  have sound := coupled.left
  obtain ⟨-, -, sender, -, -⟩ := Ikcpcb.ikcpFlush_spec sound.windows.counted running
  obtain ⟨read, link, -⟩ := coupled.forth
  obtain ⟨numbered, pieces⟩ := flush_numbering running sound.windows.counted link small
  have slim := sound.slim
  rw [← pieces] at slim
  have genuine := Ikcpcb.emitted_genuine (a.numbering a.kcp.ikcpFlush.1) (sound.own ▸ sound.stamped)
    sound.acknowledged (by rw [Ikcpcb.flushQueued_sender, ← sender]; exact numbered.carried)
    fun piece member => slim piece (List.mem_append_left _ member)
  rwa [sound.own] at genuine

theorem flush (coupled : Coupled conv a b) (small : (a.numbering a.kcp.ikcpFlush.1).length < 2 ^ 31) :
    Coupled conv (a.after .flush a.kcp.ikcpFlush.1 a.kcp.ikcpFlush.2) b := by
  have sound := coupled.left
  by_cases running : a.kcp.updated = 0
  · rw [Ikcpcb.ikcpFlush_idle running]
    exact coupled.idle sound.windows ⟨rfl, rfl, rfl, rfl, rfl, rfl, rfl, rfl⟩ sound.mss rfl rfl rfl
  · obtain ⟨-, own, -, receiver, acklist⟩ := Ikcpcb.ikcpFlush_spec sound.windows.counted running
    obtain ⟨read, link, rest⟩ := coupled.forth
    obtain ⟨numbered, pieces⟩ := flush_numbering running sound.windows.counted link small
    have slim := sound.slim
    rw [← pieces] at slim
    have mss := congrArg Settings.mss a.kcp.ikcpFlush_settings
    change a.kcp.ikcpFlush.1.mss = a.kcp.mss at mss
    refine ⟨⟨sound.windows.flush, own.trans sound.own, mss ▸ sound.mss, ?_, slim, ?_, ?_, ?_⟩, coupled.right,
      ⟨read, numbered, rest⟩, ?_⟩
    · show Piece.Cut (a.kcp.ikcpFlush.1.pieces (a.numbering a.kcp.ikcpFlush.1)) a.accepted.flatten
      rw [pieces]
      exact sound.cut
    · have stamped : Stamped a.kcp.conv a.kcp.ikcpFlush.1.sndBuf := Ikcpcb.ikcpFlush_stamped (sound.own ▸ sound.stamped)
      rwa [sound.own] at stamped
    · intro ack member
      change ack ∈ a.kcp.ikcpFlush.1.acklist at member
      rw [acklist] at member
      exact absurd member List.not_mem_nil
    · intro datagram member
      show Outgoing conv (a.numbering a.kcp.ikcpFlush.1) a.kcp.ikcpFlush.1.receiver datagram
      rw [receiver]
      rcases List.mem_append.1 member with old | new
      · exact (sound.output datagram old).mono (Receiver.Grows.refl _) _
      · exact flush_outgoing running (coupled.flush_genuine running small) datagram new
    · obtain ⟨other, back, delivered⟩ := coupled.back
      refine ⟨other, ?_, delivered⟩
      show Link b.numbered other b.kcp.sender a.kcp.ikcpFlush.1.receiver
      rw [receiver]
      exact back

theorem update (coupled : Coupled conv a b) (current : UInt32)
    (small : (a.numbering (a.kcp.ikcpUpdate current).1).length < 2 ^ 31) :
    Coupled conv (a.after (.update current) (a.kcp.ikcpUpdate current).1 (a.kcp.ikcpUpdate current).2) b := by
  have sound := coupled.left
  obtain ⟨counted, sending, receiving, remote⟩ := sound.windows
  obtain ⟨updated, tsFlush, -, quiet | flushed⟩ := a.kcp.ikcpUpdate_cases current
  · rw [quiet]
    exact coupled.idle ⟨⟨counted.rcvBuf, counted.sndBuf, counted.rcvQueue, counted.sndQueue⟩, sending, receiving, remote⟩
      ⟨rfl, rfl, rfl, rfl, rfl, rfl, rfl, rfl⟩ sound.mss rfl rfl rfl
  · rw [flushed] at small ⊢
    have ticked : Coupled conv { a with kcp := { a.kcp with current, updated, tsFlush } } b :=
      ⟨⟨⟨⟨counted.rcvBuf, counted.sndBuf, counted.rcvQueue, counted.sndQueue⟩, sending, receiving, remote⟩, sound.own,
        sound.mss, sound.cut, sound.slim, sound.stamped, sound.acknowledged, sound.output⟩, coupled.right, coupled.forth,
        coupled.back⟩
    exact ticked.flush small

theorem option (coupled : Coupled conv a b) {packing : Packing Segment} (moves : ¬ call.Moves)
    (run : call.run a.kcp = some (kcp, packing)) : Coupled conv (a.after call kcp packing) b := by
  have sound := coupled.left
  have windows := sound.windows.of_run run
  cases call with
  | send | recv | input | update | flush => exact absurd trivial moves
  | setmtu mtu =>
    obtain ⟨rfl, rfl⟩ := Prod.mk.inj (Option.some.inj run)
    by_cases small : mtu < 50 ∨ mtu < ikcpOverhead.toInt32
    · rw [Ikcpcb.ikcpSetmtu, if_pos small]
      exact coupled.idle sound.windows ⟨rfl, rfl, rfl, rfl, rfl, rfl, rfl, rfl⟩ sound.mss rfl rfl rfl
    · have mss : 0 < (mtu.toUInt32 - ikcpOverhead).toNat ∧ (mtu.toUInt32 - ikcpOverhead).toNat < 2 ^ 31 := mss_setmtu small
      rw [Ikcpcb.ikcpSetmtu, if_neg small] at windows ⊢
      exact coupled.idle windows ⟨rfl, rfl, rfl, rfl, rfl, rfl, rfl, rfl⟩ mss rfl rfl rfl
  | interval | nodelay | wndsize | stream =>
    obtain ⟨rfl, rfl⟩ := Prod.mk.inj (Option.some.inj run)
    exact coupled.idle windows ⟨rfl, rfl, rfl, rfl, rfl, rfl, rfl, rfl⟩ sound.mss rfl rfl rfl

end Coupled

/-! A datagram that comes in -/

namespace Ikcpcb
variable {kcp : Ikcpcb}

/-- Segments are only deleted. -/
theorem inputSegment_sndBuf (kcp : Ikcpcb) (flag : Option UInt32) (seg : Segment) :
    (inputSegment (kcp, flag) seg).1.sndBuf.Sublist kcp.sndBuf := by
  refine inputSegment_rule (P := fun after => after.sndBuf.Sublist kcp.sndBuf) flag ?_ ?_ ?_ fun _ part => part
  · unfold inputHeader
    rw [ikcpShrinkBuf_eq]
    exact List.dropWhile_sublist _
  · intro middle part
    have measured : (middle.measure seg.ts).sndBuf = middle.sndBuf := by rw [measure_eq]
    rw [inputAck_eq, ikcpShrinkBuf_eq]
    refine List.Sublist.trans ?_ part
    show ((middle.measure seg.ts).ikcpParseAck seg.sn).sndBuf.Sublist middle.sndBuf
    rw [← measured]
    unfold ikcpParseAck
    split
    next => exact deleteAcked_sublist _ _
    next => exact List.Sublist.refl _
  · intro middle part
    rw [inputPush_eq]
    exact part

theorem finishInput_stamped {conv : UInt32} (stamped : Stamped conv kcp.sndBuf) (flag : Option UInt32) (prevUna : UInt32) :
    Stamped conv (finishInput prevUna (kcp, flag)).sndBuf := by
  have skipped : ∀ (sn : UInt32) (segs : List Segment), Stamped conv segs → Stamped conv (skipAcked sn segs) := by
    intro sn segs
    induction segs with
    | nil => exact id
    | cons seg rest ih =>
      intro stamped
      unfold skipAcked
      split
      next => exact stamped
      next =>
        have later := ih fun seg member => stamped seg (List.mem_cons_of_mem _ member)
        intro other member
        rcases List.mem_cons.1 member with rfl | old
        · split <;> exact stamped seg List.mem_cons_self
        · exact later other old
  have fast : ∀ maxack, Stamped conv (kcp.ikcpParseFastack maxack).sndBuf := by
    intro maxack
    unfold ikcpParseFastack
    split
    next => exact skipped maxack _ stamped
    next => exact stamped
  have grown : ∀ kcp : Ikcpcb, kcp.growCwnd.sndBuf = kcp.sndBuf := by
    intro kcp
    rw [growCwnd_eq]
  unfold finishInput
  cases flag with
  | none =>
    dsimp only
    split
    next => exact (grown kcp).symm ▸ stamped
    next => exact stamped
  | some maxack =>
    dsimp only
    split
    next => exact (grown _).symm ▸ fast maxack
    next => exact fast maxack

end Ikcpcb

/-- The control block of `a` while it takes in a datagram of `b`. -/
structure Absorbing (conv : UInt32) (a b : Endpoint) (kcp : Ikcpcb) : Prop where
  windows : Windows (2 ^ 31 - 1) kcp
  own : kcp.conv = a.kcp.conv
  steady : kcp.steady = a.kcp.steady
  queue : kcp.sender.queue = a.kcp.sender.queue
  stamped : Stamped conv kcp.sndBuf
  forth : Linked { a with kcp } b
  back : Linked b { a with kcp }
  grows : Receiver.Grows a.kcp.receiver kcp.receiver
  acknowledged : ∀ ack ∈ kcp.acklist, kcp.receiver.Has ack.1.toNat

namespace Absorbing
variable {conv : UInt32} {a b : Endpoint} {kcp : Ikcpcb}

theorem segment (absorbing : Absorbing conv a b kcp) (flag : Option UInt32) {seg : Segment} (wire : seg.onWire = seg)
    (genuine : Genuine b.numbered b.kcp.receiver seg) : Absorbing conv a b (Ikcpcb.inputSegment (kcp, flag) seg).1 := by
  obtain ⟨-, own, sender, receiver, acklist⟩ := Ikcpcb.inputSegment_spec absorbing.windows.counted flag seg
  obtain ⟨read, forth, delivered⟩ := absorbing.forth
  obtain ⟨other, back, received⟩ := absorbing.back
  have cumulated := forth.cumulate genuine.una
  have queue : (kcp.sender.cumulate seg.una).queue = kcp.sender.queue := rfl
  have acked : ((kcp.sender.cumulate seg.una).acknowledge seg.sn).queue = kcp.sender.queue := by
    unfold Sender.acknowledge
    split <;> rfl
  have took : Link b.numbered other b.kcp.sender (Ikcpcb.inputSegment (kcp, flag) seg).1.receiver ∧
      Receiver.Grows kcp.receiver (Ikcpcb.inputSegment (kcp, flag) seg).1.receiver := by
    rw [receiver]
    split
    next push => exact back.accept (genuine.pushed push)
    next => exact ⟨back, Receiver.Grows.refl _⟩
  refine ⟨absorbing.windows.inputSegment flag wire, own.trans absorbing.own,
    (Ikcpcb.inputSegment_steady kcp flag seg).trans absorbing.steady, ?_,
    fun seg member => absorbing.stamped seg ((Ikcpcb.inputSegment_sndBuf _ _ _).subset member), ⟨read, ?_, delivered⟩,
    ⟨other, took.1, received⟩, absorbing.grows.trans took.2, ?_⟩
  · rw [sender]
    split
    next => exact acked.trans absorbing.queue
    next => exact queue.trans absorbing.queue
  · show Link a.numbered read (Ikcpcb.inputSegment (kcp, flag) seg).1.sender b.kcp.receiver
    rw [sender]
    split
    next ack => exact cumulated.acknowledge (genuine.acked ack)
    next => exact cumulated
  · intro ack member
    rw [acklist] at member
    rcases List.mem_append.1 member with old | new
    · exact took.2.has _ (absorbing.acknowledged ack old)
    · split at new
      next push =>
        unfold Ikcpcb.pushed at new
        split at new
        next before =>
          obtain rfl := List.mem_singleton.1 new
          rw [receiver, if_pos push]
          exact back.accept_has (genuine.pushed push) before
        next => exact absurd new List.not_mem_nil
      next => exact absurd new List.not_mem_nil

theorem segments {segs : List Segment} (state : Ikcpcb × Option UInt32) (absorbing : Absorbing conv a b state.1)
    (genuine : ∀ seg ∈ segs, seg.onWire = seg ∧ Genuine b.numbered b.kcp.receiver seg) :
    Absorbing conv a b (segs.foldl Ikcpcb.inputSegment state).1 := by
  induction segs generalizing state with
  | nil => exact absorbing
  | cons seg segs ih =>
    obtain ⟨wire, first⟩ := genuine seg List.mem_cons_self
    exact ih _ (absorbing.segment state.2 wire first) fun seg member => genuine seg (List.mem_cons_of_mem _ member)

theorem finish (absorbing : Absorbing conv a b kcp) (flag : Option UInt32) (prevUna : UInt32) :
    Absorbing conv a b (Ikcpcb.finishInput prevUna (kcp, flag)) := by
  obtain ⟨-, own, sender, receiver, acklist⟩ := Ikcpcb.finishInput_spec absorbing.windows.counted prevUna flag
  obtain ⟨read, forth, delivered⟩ := absorbing.forth
  obtain ⟨other, back, received⟩ := absorbing.back
  refine ⟨absorbing.windows.finishInput flag prevUna, own.trans absorbing.own,
    (Ikcpcb.finishInput_steady kcp flag prevUna).trans absorbing.steady,
    (congrArg Sender.queue sender).trans absorbing.queue, Ikcpcb.finishInput_stamped absorbing.stamped flag prevUna,
    ⟨read, ?_, delivered⟩, ⟨other, ?_, received⟩, ?_, ?_⟩
  · show Link a.numbered read (Ikcpcb.finishInput prevUna (kcp, flag)).sender b.kcp.receiver
    rw [sender]
    exact forth
  · show Link b.numbered other b.kcp.sender (Ikcpcb.finishInput prevUna (kcp, flag)).receiver
    rw [receiver]
    exact back
  · rw [receiver]
    exact absorbing.grows
  · rw [receiver, acklist]
    exact absorbing.acknowledged

end Absorbing

namespace Coupled
variable {conv : UInt32} {a b : Endpoint}

/-- A datagram with segments of the other side is taken in as a whole. -/
theorem absorbs (coupled : Coupled conv a b) {segs : List Segment} (some_ : segs ≠ [])
    (all : ∀ seg ∈ segs, seg.Acceptable conv ∧ Genuine b.numbered b.kcp.receiver seg) :
    (Call.input (encodeSegments segs)).run a.kcp =
        some (Ikcpcb.finishInput a.kcp.sndUna (inputSegments a.kcp (segs.map Segment.onWire)), {}) ∧
      Absorbing conv a b a.kcp ∧
      ∀ seg ∈ segs.map Segment.onWire, seg.onWire = seg ∧ Genuine b.numbered b.kcp.receiver seg := by
  have sound := coupled.left
  have slim : ∀ piece ∈ b.numbered, Ikcpcb.Slim (2 ^ 31) piece := fun piece member =>
    coupled.right.slim piece (List.mem_append_left _ member)
  refine ⟨?_, ⟨sound.windows, rfl, rfl, rfl, sound.stamped, coupled.forth, coupled.back, Receiver.Grows.refl _,
    sound.acknowledged⟩, ?_⟩
  · rw [Call.run, ikcpInput_encode a.kcp some_ fun seg member => sound.own.symm ▸ (all seg member).1]
    rfl
  · intro seg member
    obtain ⟨original, inside, rfl⟩ := List.mem_map.1 member
    obtain ⟨acceptable, genuine⟩ := all original inside
    exact ⟨original.onWire_onWire, genuine.onWire acceptable slim⟩

/-- Whatever of the other side's datagrams comes in, and whenever. -/
theorem deliver (coupled : Coupled conv a b) {datagram : List UInt8} (sent : datagram ∈ b.output) {kcp : Ikcpcb}
    {packing : Packing Segment} (run : (Call.input datagram).run a.kcp = some (kcp, packing)) :
    Coupled conv (a.after (.input datagram) kcp packing) b := by
  have sound := coupled.left
  obtain ⟨segs, some_, rfl, all⟩ := coupled.right.output datagram sent
  obtain ⟨input, start, wire⟩ := coupled.absorbs some_ all
  have absorbed := Absorbing.finish (Absorbing.segments (a.kcp, none) start wire)
    (inputSegments a.kcp (segs.map Segment.onWire)).2 a.kcp.sndUna
  rw [input] at run
  obtain ⟨rfl, rfl⟩ := Prod.mk.inj (Option.some.inj run)
  change Absorbing conv a b (Ikcpcb.finishInput a.kcp.sndUna (inputSegments a.kcp (segs.map Segment.onWire))) at absorbed
  generalize Ikcpcb.finishInput a.kcp.sndUna (inputSegments a.kcp (segs.map Segment.onWire)) = kcp at absorbed
  have pieces : kcp.pieces a.numbered = a.kcp.pieces a.numbered := by
    rw [Ikcpcb.pieces, Ikcpcb.pieces]
    exact congrArg (a.numbered ++ ·) absorbed.queue
  have lengths := congrArg List.length absorbed.queue
  change (kcp.sndQueue.map Segment.piece).length = (a.kcp.sndQueue.map Segment.piece).length at lengths
  rw [List.length_map, List.length_map] at lengths
  have mss := congrArg Ikcpcb.mss absorbed.steady
  change kcp.mss = a.kcp.mss at mss
  obtain ⟨read, forth, delivered⟩ := absorbed.forth
  refine ⟨?_, coupled.right, ⟨read, ?_, delivered⟩, absorbed.back⟩
  · refine sound.quiet absorbed.windows absorbed.own (mss ▸ sound.mss) lengths.ge ?_ ?_ absorbed.stamped absorbed.grows
      absorbed.acknowledged
    · rw [pieces]
      exact sound.cut
    · rw [pieces]
      exact sound.slim
  · show Link (a.numbering kcp) read kcp.sender b.kcp.receiver
    rw [a.numbering_eq lengths.ge]
    exact forth

/-- A program's own call. -/
theorem act (coupled : Coupled conv a b) {call : Call} {after : Endpoint} (acted : a.act call = some after)
    (own : ∀ data, call ≠ .input data) (small : after.numbered.length < 2 ^ 31) : Coupled conv after b := by
  obtain ⟨kcp, packing, run, rfl⟩ := Endpoint.act_some acted
  cases call with
  | input data => exact absurd rfl (own data)
  | send buffer =>
    obtain ⟨rfl, rfl⟩ := Prod.mk.inj (Option.some.inj run)
    exact coupled.send buffer
  | recv len =>
    obtain ⟨rfl, rfl⟩ := Prod.mk.inj (Option.some.inj run)
    exact coupled.recv len
  | update current =>
    rw [Call.run, Option.some_inj] at run
    obtain ⟨rfl, rfl⟩ := (Prod.ext_iff.1 run)
    exact coupled.update current small
  | flush =>
    rw [Call.run, Option.some_inj] at run
    obtain ⟨rfl, rfl⟩ := (Prod.ext_iff.1 run)
    exact coupled.flush small
  | setmtu | interval | nodelay | wndsize | stream => exact coupled.option id run

end Coupled
end NetPrograms.Ikcp
