import NetPrograms.Lib.Run
import NetPrograms.Proofs.IkcpPeers

/-! What the programs at both ends can rely on, whatever the network does. -/

namespace NetPrograms.Ikcp
open SelectiveRepeat

/-! The queue of a sender only loses its head, unless something is sent -/

theorem inputSegment_queue {kcp : Ikcpcb} (counted : kcp.Counted) (flag : Option UInt32) (seg : Segment) :
    (Ikcpcb.inputSegment (kcp, flag) seg).1.sender.queue = kcp.sender.queue := by
  obtain ⟨-, -, sender, -, -⟩ := Ikcpcb.inputSegment_spec counted flag seg
  rw [sender]
  split
  next =>
    unfold Sender.acknowledge
    split <;> rfl
  next => rfl

theorem Call.run_queue {kcp after : Ikcpcb} {call : Call} {packing : Packing Segment} (counted : kcp.Counted)
    (run : call.run kcp = some (after, packing)) (other : ∀ buffer, call ≠ .send buffer) :
    ∃ taken, kcp.sender.queue = taken ++ after.sender.queue := by
  have flushed : ∀ kcp : Ikcpcb, kcp.Counted → ∃ taken, kcp.sender.queue = taken ++ kcp.ikcpFlush.1.sender.queue := by
    intro kcp counted
    by_cases idle : kcp.updated = 0
    · rw [Ikcpcb.ikcpFlush_idle idle]
      exact ⟨[], rfl⟩
    · rw [(Ikcpcb.ikcpFlush_spec counted idle).2.2.1]
      exact Sender.number_queue _ _
  cases call with
  | send buffer => exact absurd rfl (other buffer)
  | recv len =>
    obtain ⟨rfl, rfl⟩ := Prod.mk.inj (Option.some.inj run)
    exact ⟨[], congrArg Sender.queue (Ikcpcb.ikcpRecv_frame kcp len).1.symm⟩
  | input data =>
    obtain ⟨⟨code, middle⟩, input, same⟩ := Option.map_eq_some_iff.1 run
    obtain ⟨rfl, rfl⟩ := Prod.mk.inj same
    have kept := ikcpInput_rule (P := fun middle => middle.Counted ∧ middle.sender.queue = kcp.sender.queue) ⟨counted, rfl⟩
      (fun middle flag seg held _ => ⟨(Ikcpcb.inputSegment_spec held.1 flag seg).1,
        (inputSegment_queue held.1 flag seg).trans held.2⟩)
      (fun middle flag prevUna held => ⟨(Ikcpcb.finishInput_spec held.1 prevUna flag).1,
        (congrArg Sender.queue (Ikcpcb.finishInput_spec held.1 prevUna flag).2.2.1).trans held.2⟩) input
    exact ⟨[], kept.2.symm⟩
  | update current =>
    rw [Call.run, Option.some_inj] at run
    obtain ⟨rfl, rfl⟩ := Prod.ext_iff.1 run
    obtain ⟨updated, tsFlush, -, quiet | flush⟩ := kcp.ikcpUpdate_cases current
    · rw [quiet]
      exact ⟨[], rfl⟩
    · rw [flush]
      have ticked : ({ kcp with current, updated, tsFlush } : Ikcpcb).Counted :=
        ⟨counted.rcvBuf, counted.sndBuf, counted.rcvQueue, counted.sndQueue⟩
      exact flushed _ ticked
  | flush =>
    rw [Call.run, Option.some_inj] at run
    obtain ⟨rfl, rfl⟩ := Prod.ext_iff.1 run
    exact flushed kcp counted
  | setmtu mtu =>
    obtain ⟨rfl, rfl⟩ := Prod.mk.inj (Option.some.inj run)
    unfold Ikcpcb.ikcpSetmtu
    split <;> exact ⟨[], rfl⟩
  | interval | nodelay | wndsize | stream =>
    obtain ⟨rfl, rfl⟩ := Prod.mk.inj (Option.some.inj run)
    exact ⟨[], rfl⟩

/-- So the pieces stay, whether they have a number or not. -/
theorem Endpoint.act_pieces {e after : Endpoint} {call : Call} (counted : e.kcp.Counted) (acted : e.act call = some after)
    (other : ∀ buffer, call ≠ .send buffer) : after.kcp.pieces after.numbered = e.kcp.pieces e.numbered := by
  obtain ⟨kcp, packing, run, rfl⟩ := act_some acted
  obtain ⟨taken, queue⟩ := Call.run_queue counted run other
  change e.kcp.sndQueue.map Segment.piece = taken ++ kcp.sndQueue.map Segment.piece at queue
  have lengths := congrArg List.length queue
  rw [List.length_append, List.length_map, List.length_map] at lengths
  show kcp.pieces (e.numbering kcp) = _
  rw [numbering, List.map_take, Ikcpcb.pieces, Ikcpcb.pieces, queue, List.take_left' (by omega), List.append_assoc]

/-- Outside of stream mode the pieces are those of the messages. -/
structure Framed (e : Endpoint) : Prop where
  stream : e.kcp.stream = 0
  messages : Piece.assemble (e.kcp.pieces e.numbered) = e.accepted

theorem Framed.act {conv : UInt32} {e after : Endpoint} {call : Call} (framed : Framed e) (sound : Sound conv e)
    (acted : e.act call = some after) (off : ∀ on, call ≠ .stream on) : Framed after := by
  have counted := sound.windows.counted
  obtain ⟨kcp, packing, run, same⟩ := Endpoint.act_some acted
  have stream : kcp.stream = e.kcp.stream := by
    by_cases moves : call.Moves
    · exact congrArg Settings.stream (Call.run_settings moves run)
    · cases call with
      | send | recv | input | update | flush => exact absurd trivial moves
      | setmtu mtu =>
        obtain ⟨rfl, rfl⟩ := Prod.mk.inj (Option.some.inj run)
        unfold Ikcpcb.ikcpSetmtu
        split <;> rfl
      | interval | nodelay | wndsize =>
        obtain ⟨rfl, rfl⟩ := Prod.mk.inj (Option.some.inj run)
        rfl
      | stream on => exact absurd rfl (off on)
  subst same
  refine ⟨stream.trans framed.stream, ?_⟩
  cases call with
  | send buffer =>
    obtain ⟨rfl, rfl⟩ := Prod.mk.inj (Option.some.inj run)
    have numbered := e.numbering_eq (e.kcp.ikcpSend_length buffer)
    show Piece.assemble ((e.kcp.ikcpSend buffer).2.pieces (e.numbering _)) = e.accepted ++ e.kcp.accepts buffer
    rw [numbered, Ikcpcb.ikcpSend_message sound.mss.1 sound.cut framed.stream, framed.messages]
  | recv | input | update | flush | setmtu | interval | nodelay | wndsize | stream =>
    rw [Endpoint.act_pieces counted acted fun buffer same => by cases same]
    exact framed.messages

theorem Framed.arrives {a b : Endpoint} (framed : Framed a) (linked : Linked a b) :
    b.delivered ++ Piece.assemble (b.kcp.rcvQueue.map Segment.piece) <+: a.accepted := by
  obtain ⟨read, link, whole, assembled⟩ := linked
  rw [← assembled, ← Coupled.receiver_values, ← Piece.assemble_append whole, ← framed.messages, Ikcpcb.pieces,
    ← List.take_append_drop b.kcp.receiver.nxt.toNat a.numbered, ← link.inOrder, List.append_assoc]
  exact Piece.assemble_isPrefix _ _

namespace Peers
variable {conv : UInt32} {peers after : Peers} {event : Event} {events : List Event}

/-- Fewer than half of all numbers are given. -/
def Few (peers : Peers) : Prop := ∀ side, (peers.at_ side).numbered.length < 2 ^ 31

theorem at_put (peers : Peers) (e : Endpoint) (side : Side) : (peers.put e side).at_ side = e := by
  cases side <;> rfl

theorem at_put_other (peers : Peers) (e : Endpoint) (side : Side) :
    (peers.put e side).at_ side.other = peers.at_ side.other := by
  cases side <;> rfl

theorem step_call {side : Side} {call : Call} (own : ∀ data, call ≠ .input data) :
    peers.step (.call side call) = ((peers.at_ side).act call).map (peers.put · side) := by
  cases call with
  | input data => exact absurd rfl (own data)
  | send | recv | update | flush | setmtu | interval | nodelay | wndsize | stream => rfl

/-- One side has acted: it has made a call of its own, or a datagram of the other
side has come in. -/
theorem step_cases (taken : peers.step event = some after) :
    ∃ side call e, (peers.at_ side).act call = some e ∧ after = peers.put e side ∧
      ((event = .call side call ∧ ∀ data, call ≠ .input data) ∨
        ∃ datagram ∈ (peers.at_ side.other).output, event = .deliver side datagram ∧ call = .input datagram) := by
  cases event with
  | call side call =>
    have own : ∀ data, call ≠ .input data := by
      rintro data rfl
      exact absurd taken (by simp [step])
    rw [step_call own] at taken
    obtain ⟨e, acted, same⟩ := Option.map_eq_some_iff.1 taken
    exact ⟨side, call, e, acted, same.symm, Or.inl ⟨rfl, own⟩⟩
  | deliver side datagram =>
    by_cases sent : datagram ∈ (peers.at_ side.other).output
    · rw [step, if_pos sent] at taken
      obtain ⟨e, acted, same⟩ := Option.map_eq_some_iff.1 taken
      exact ⟨side, _, e, acted, same.symm, Or.inr ⟨datagram, sent, rfl, rfl⟩⟩
    · rw [step, if_neg sent] at taken
      exact absurd taken (by simp)

theorem Few.before (few : after.Few) (taken : peers.step event = some after) : peers.Few := by
  obtain ⟨side, call, e, acted, rfl, -⟩ := step_cases taken
  obtain ⟨kcp, packing, -, rfl⟩ := Endpoint.act_some acted
  have own := few side
  have other := few side.other
  rw [at_put] at own
  rw [at_put_other] at other
  change ((peers.at_ side).numbering kcp).length < 2 ^ 31 at own
  rw [Endpoint.numbering, List.length_append] at own
  have first : (peers.at_ side).numbered.length < 2 ^ 31 := by omega
  intro any
  cases side <;> cases any
  · exact first
  · exact other
  · exact other
  · exact first

/-- Both directions are in order, seen from either side. -/
def Orderly (conv : UInt32) (peers : Peers) : Prop := ∀ side, Coupled conv (peers.at_ side) (peers.at_ side.other)

theorem Orderly.of_put {side : Side} {e : Endpoint} (coupled : Coupled conv e (peers.at_ side.other)) :
    Orderly conv (peers.put e side) := by
  intro any
  cases side <;> cases any
  · exact coupled
  · exact coupled.symm
  · exact coupled.symm
  · exact coupled

theorem Orderly.start (conv : UInt32) : Orderly conv (start conv) := by
  have mss : 0 < (ikcpMtuDef - ikcpOverhead).toNat ∧ (ikcpMtuDef - ikcpOverhead).toNat < 2 ^ 31 := by decide
  have sound : Sound conv { kcp := ikcpCreate conv } := by
    refine ⟨Windows.create conv (by decide) (by decide), rfl, mss, Piece.Cut.nil, ?_, ?_, ?_, ?_⟩
    · exact fun piece member => absurd member List.not_mem_nil
    · exact fun seg member => absurd member List.not_mem_nil
    · exact fun ack member => absurd member List.not_mem_nil
    · exact fun datagram member => absurd member List.not_mem_nil
  have linked : Linked { kcp := ikcpCreate conv } { kcp := ikcpCreate conv } :=
    ⟨[], Link.start [] ikcpWndRcv, Piece.Whole.nil, rfl⟩
  intro side
  cases side <;> exact ⟨sound, sound, linked, linked⟩

theorem Orderly.step (orderly : Orderly conv peers) (taken : peers.step event = some after) (few : after.Few) :
    Orderly conv after := by
  obtain ⟨side, call, e, acted, rfl, own | ⟨datagram, sent, -, rfl⟩⟩ := step_cases taken
  · have small := few side
    rw [at_put] at small
    exact Orderly.of_put ((orderly side).act acted own.2 small)
  · obtain ⟨kcp, packing, run, rfl⟩ := Endpoint.act_some acted
    exact Orderly.of_put ((orderly side).deliver sent run)

theorem Orderly.run (reached : exec Peers.step (Peers.start conv) events = some peers) (few : peers.Few) :
    Orderly conv peers := by
  induction events using List.reverseRecOn generalizing peers with
  | nil =>
    obtain rfl := Option.some.inj reached
    exact Orderly.start conv
  | append_singleton events event ih =>
    rw [exec_snoc] at reached
    obtain ⟨before, earlier, taken⟩ := Option.bind_eq_some_iff.1 reached
    exact (ih earlier (few.before taken)).step taken few

/-- What the calls of one program keep, whatever comes in. -/
theorem side_rule {P : Endpoint → Prop} {C : Call → Prop} {side : Side} (initial : P { kcp := ikcpCreate conv })
    (input : ∀ datagram, C (.input datagram))
    (kept : ∀ e call after, Sound conv e → P e → C call → e.act call = some after → P after)
    (reached : exec Peers.step (Peers.start conv) events = some peers) (few : peers.Few)
    (calls : ∀ call, .call side call ∈ events → C call) : P (peers.at_ side) := by
  induction events using List.reverseRecOn generalizing peers with
  | nil =>
    obtain rfl := Option.some.inj reached
    cases side <;> exact initial
  | append_singleton events event ih =>
    rw [exec_snoc] at reached
    obtain ⟨before, earlier, taken⟩ := Option.bind_eq_some_iff.1 reached
    have held := ih earlier (few.before taken) fun call member => calls call (List.mem_append_left _ member)
    have orderly := Orderly.run earlier (few.before taken)
    obtain ⟨acting, call, e, acted, rfl, cause⟩ := step_cases taken
    by_cases same : acting = side
    · subst same
      rw [at_put]
      refine kept _ call _ (orderly acting).left held ?_ acted
      rcases cause with ⟨rfl, -⟩ | ⟨datagram, -, -, rfl⟩
      · exact calls call (by simp)
      · exact input datagram
    · cases acting <;> cases side
      · exact absurd rfl same
      · exact held
      · exact held
      · exact absurd rfl same

theorem framed_run (reached : exec Peers.step (Peers.start conv) events = some peers) (few : peers.Few) {side : Side}
    (off : ∀ on, .call side (.stream on) ∉ events) : Framed (peers.at_ side) := by
  refine side_rule (C := fun call => ∀ on, call ≠ .stream on) ⟨rfl, rfl⟩ (fun _ _ => Call.noConfusion) ?_ reached few ?_
  · exact fun e call after sound framed off acted => framed.act sound acted off
  · rintro call member on rfl
    exact off on member

/-- The bytes that come out at one end are the first of those that went in at the
other, each once and in their order. -/
theorem bytes_in_order (reached : exec Peers.step (Peers.start conv) events = some peers) (few : peers.Few) (side : Side) :
    (peers.at_ side.other).delivered.flatten <+: (peers.at_ side).accepted.flatten := by
  obtain ⟨left, -, ⟨read, link, whole, assembled⟩, -⟩ := Orderly.run reached few side
  rw [← assembled, Piece.assemble_flatten whole, ← left.cut.bytes, Ikcpcb.pieces,
    ← List.take_append_drop (peers.at_ side.other).kcp.receiver.nxt.toNat (peers.at_ side).numbered, ← link.inOrder,
    Piece.bytes_append, Piece.bytes_append, Piece.bytes_append, List.append_assoc, List.append_assoc]
  exact ⟨_, rfl⟩

private def push (sn : UInt32) (data : List UInt8) : Segment := { conv := 7, cmd := ikcpCmdPush, wnd := 128, sn, data }

private def ack (sn : UInt32) : Segment := { conv := 7, cmd := ikcpCmdAck, wnd := 127, sn, una := 2 }

/-- Two messages cross the network, the second one first and twice. One of them is
read, and both are acknowledged. -/
def exchange : List Event :=
  [.call .left (.setmtu 50), .call .left (.nodelay 1 10 2 1), .call .left (.send [1, 2]), .call .left (.send [3]),
    .call .left (.update 0), .deliver .right (encodeSegment (push 1 [3])), .deliver .right (encodeSegment (push 1 [3])),
    .deliver .right (encodeSegment (push 0 [1, 2])), .call .right (.recv 10), .call .right (.update 0),
    .deliver .left (encodeSegments [ack 1, ack 1, ack 0])]

theorem bytes_in_order_exchange : ∃ peers, exec Peers.step (Peers.start 7) exchange = some peers ∧
    peers.right.delivered = [[1, 2]] ∧ peers.right.delivered.flatten <+: peers.left.accepted.flatten := by
  refine ⟨_, rfl, rfl, @bytes_in_order 7 _ exchange rfl ?_ .left⟩
  intro side
  cases side <;> decide

/-- So do the messages, unless the sender uses stream mode. -/
theorem messages_in_order (reached : exec Peers.step (Peers.start conv) events = some peers) (few : peers.Few) {side : Side}
    (off : ∀ on, .call side (.stream on) ∉ events) :
    (peers.at_ side.other).delivered <+: (peers.at_ side).accepted :=
  (List.prefix_append _ _).trans ((framed_run reached few off).arrives (Orderly.run reached few side).forth)

theorem messages_in_order_exchange : ∃ peers, exec Peers.step (Peers.start 7) exchange = some peers ∧
    peers.right.delivered = [[1, 2]] ∧ peers.right.delivered <+: peers.left.accepted := by
  refine ⟨_, rfl, rfl, @messages_in_order 7 _ exchange rfl ?_ .left ?_⟩
  · intro side
    cases side <;> decide
  · intro on
    simp [exchange]

/-- When a sender has nothing left to do, all that it has accepted is at the other
end, where it is delivered or lies ready in order. -/
theorem nothing_lost (reached : exec Peers.step (Peers.start conv) events = some peers) (few : peers.Few) {side : Side}
    (queued : (peers.at_ side).kcp.sndQueue.length < 2 ^ 31) (done : (peers.at_ side).kcp.ikcpWaitsnd = 0) :
    (peers.at_ side).accepted.flatten = (peers.at_ side.other).delivered.flatten ++
      bytes ((peers.at_ side.other).kcp.rcvQueue ++ (peers.at_ side.other).kcp.rcvBuf) := by
  obtain ⟨left, right, ⟨read, link, whole, assembled⟩, -⟩ := Orderly.run reached few side
  obtain ⟨sndBuf, sndQueue⟩ := Ikcpcb.waitsnd_zero left.windows queued done
  have complete := link.complete right.windows.receiving (congrArg (List.map Segment.entry) sndBuf)
  have received : ((peers.at_ side.other).kcp.receiver.queue ++ (peers.at_ side.other).kcp.receiver.buf).map Prod.snd =
      ((peers.at_ side.other).kcp.rcvQueue ++ (peers.at_ side.other).kcp.rcvBuf).map Segment.piece := by
    have values : Prod.snd ∘ Segment.entry = Segment.piece := rfl
    simp [Ikcpcb.receiver, values]
  rw [received] at complete
  rw [← left.cut.bytes, Ikcpcb.pieces, sndQueue, List.map_nil, List.append_nil, ← complete, Piece.bytes_append, bytes_piece,
    ← assembled, Piece.assemble_flatten whole]

theorem nothing_lost_exchange : ∃ peers, exec Peers.step (Peers.start 7) exchange = some peers ∧
    peers.left.accepted.flatten = peers.right.delivered.flatten ++ bytes (peers.right.kcp.rcvQueue ++ peers.right.kcp.rcvBuf) ∧
      peers.left.accepted = [[1, 2], [3]] := by
  refine ⟨_, rfl, @nothing_lost 7 _ exchange rfl ?_ .left (by decide) (by decide), rfl⟩
  intro side
  cases side <;> decide

end Peers
end NetPrograms.Ikcp
