import NetPrograms.Kcp.Chat
import NetPrograms.Proofs.IkcpDelivery
import NetPrograms.Proofs.SessionCalls

/-! The queues of messages that the chat programs are modelled on. Every run of two
control blocks, with the calls that a session makes, is a run of these queues. -/

namespace NetPrograms.Ikcp
open SelectiveRepeat
open Kcp (KcpSession)

/-- The calls of a session. `ikcp_send` takes an `int`, and nothing sets the size of
the segments or stream mode. -/
def Call.OfSession : Call → Prop
  | .send buffer => buffer.length < 2 ^ 31
  | .setmtu _ | .stream _ => False
  | _ => True

/-! What a control block holds for a session -/

namespace Ikcpcb
variable {kcp after : Ikcpcb}

def messages (kcp : Ikcpcb) : List (List UInt8) := Piece.assemble (kcp.rcvQueue.map Segment.piece)

theorem messages_isPrefix (queue : kcp.receiver.queue <+: after.receiver.queue) : kcp.messages <+: after.messages := by
  obtain ⟨more, grown⟩ := queue
  have pieces := congrArg (List.map Prod.snd) grown
  rw [List.map_append, Coupled.receiver_values, Coupled.receiver_values] at pieces
  rw [messages, messages, ← pieces]
  exact Piece.assemble_isPrefix _ _

/-- The pieces are those of whole messages, but for the last one. -/
structure Readable (kcp : Ikcpcb) : Prop where
  counted : kcp.Counted
  held : kcp.rcvQueue.length < 2 ^ 31
  counting : Piece.Counting (kcp.rcvQueue.map Segment.piece)
  slim : ∀ seg ∈ kcp.rcvQueue, Slim (2 ^ 31) seg.piece

theorem Readable.messages_eq (readable : Readable kcp) (there : ¬ kcp.ikcpPeeksize < 0) :
    kcp.messages = bytes (takeMessage kcp.rcvQueue).1 :: Piece.assemble ((takeMessage kcp.rcvQueue).2.map Segment.piece) := by
  obtain ⟨one, whole⟩ := takeMessage_assemble readable.counted readable.held readable.counting readable.slim there
  rw [messages, ← takeMessage_append kcp.rcvQueue, List.map_append, Piece.assemble_append whole, takeMessage_append, one]
  rfl

theorem ikcpRecv_refused {len : Int} (refused : kcp.recvCheck len ≠ 0) : kcp.ikcpRecv len = (kcp.recvCheck len, [], kcp) :=
  if_pos refused

/-- A session is given the next message or none. It has one result for a queue that is
empty and for one in which no message is complete. -/
theorem Readable.recv (readable : Readable kcp) {n : Nat} (buffer : Buffer UInt8 n) :
    let answer := Kcp.ikcpRecv kcp.messages buffer
    ((kcp.ikcpRecv n).1 = answer.1 ∨ (kcp.ikcpRecv n).1 = -2 ∧ answer.1 = -1) ∧
      answer.2.1.cells = Block.overlay buffer.cells 0 (kcp.ikcpRecv n).2.1 ∧
      answer.2.2 <+: (kcp.ikcpRecv n).2.2.messages := by
  have size : ¬ (n : Int) < 0 := Int.not_lt.2 (Int.natCast_nonneg n)
  by_cases missing : kcp.ikcpPeeksize < 0
  · have none_ : kcp.messages = [] :=
      assemble_missing readable.counted readable.held readable.counting readable.slim missing
    have refused : kcp.recvCheck n = -1 ∨ kcp.recvCheck n = -2 := by
      rw [recvCheck, if_pos missing]
      by_cases empty : kcp.rcvQueue = []
      · exact Or.inl (if_pos empty)
      · exact Or.inr (if_neg empty)
    rw [ikcpRecv_refused (by omega), none_, Kcp.ikcpRecv]
    refine ⟨refused.imp_right fun code => ⟨code, rfl⟩, ?_, List.nil_prefix⟩
    simp [Block.overlay_zero]
  · have some_ : kcp.rcvQueue ≠ [] := by
      intro empty
      rw [ikcpPeeksize, empty] at missing
      exact missing (by decide : (-1 : Int) < 0)
    have first := readable.messages_eq missing
    have length : kcp.ikcpPeeksize = (bytes (takeMessage kcp.rcvQueue).1).length := by
      rcases peeksize_cases readable.counted readable.held readable.slim with ⟨short, -⟩ | ⟨length, -⟩
      · exact absurd short missing
      · exact length
    have check : kcp.recvCheck n = if n < (bytes (takeMessage kcp.rcvQueue).1).length then -3 else 0 := by
      rw [recvCheck, if_neg some_, if_neg missing, if_neg size, length]
      exact if_congr Int.ofNat_lt rfl rfl
    rw [first, Kcp.ikcpRecv]
    by_cases fits : (bytes (takeMessage kcp.rcvQueue).1).length ≤ n
    · rw [if_neg (Nat.not_lt.2 fits)] at check
      have result : 0 ≤ (kcp.ikcpRecv n).1 := by
        rw [ikcpRecv, if_neg (not_not_intro check)]
        exact Int.natCast_nonneg _
      obtain ⟨-, code, message, -⟩ := ikcpRecv_some result
      rw [dif_pos fits, code, message]
      refine ⟨Or.inl rfl, rfl, ?_⟩
      have taken := ikcpRecv_taken readable.counted result
      rw [if_neg size] at taken
      have rest : kcp.receiver.queue.drop (takeMessage kcp.rcvQueue).1.length <+: (kcp.ikcpRecv n).2.2.receiver.queue := by
        rw [taken]
        exact Receiver.queue_move _ { kcp.receiver with queue := _ }
      rw [(takeMessage_eq kcp.rcvQueue).2]
      exact @messages_isPrefix { kcp with rcvQueue := kcp.rcvQueue.drop _ } _ (by simpa [receiver] using rest)
    · rw [if_pos (Nat.lt_of_not_le fits)] at check
      rw [dif_neg fits, ikcpRecv_refused (by omega), check, first]
      refine ⟨Or.inl rfl, ?_, List.prefix_refl _⟩
      simp [Block.overlay_zero]

theorem ikcpSend_session (stream : kcp.stream = 0) (mss : kcp.mss = ikcpMtuDef - ikcpOverhead) (queue : List (List UInt8))
    (buffer : List UInt8) :
    Kcp.ikcpSend queue buffer buffer.length = ((kcp.ikcpSend buffer).1, queue ++ kcp.accepts buffer) := by
  have off : ¬ kcp.stream ≠ 0 := not_not_intro stream
  have size : kcp.mss.toNat = Kcp.mss := congrArg UInt32.toNat mss
  have positive : ¬ (buffer.length : Int) < 0 := Int.not_lt.2 (Int.natCast_nonneg _)
  have count : (if (buffer.length : Int) ≤ Kcp.mss then 1 else (buffer.length + Kcp.mss - 1) / Kcp.mss) =
      kcp.sendCount buffer.length := by
    rw [sendCount, size]
    exact if_congr Int.ofNat_le rfl rfl
  rw [accepts, if_neg off, ikcpSend, if_neg off, Kcp.ikcpSend, if_neg positive, Int.toNat_natCast, List.take_length, count,
    sendFragments]
  by_cases many : Kcp.ikcpWndRcv ≤ kcp.sendCount buffer.length
  · have refused : kcp.sendCount buffer.length ≥ ikcpWndRcv.toNat := many
    rw [if_pos many, if_pos refused, if_neg (by decide : ¬ (-2 : Int) = 0), List.append_nil]
  · have passed : ¬ kcp.sendCount buffer.length ≥ ikcpWndRcv.toNat := many
    rw [if_neg many, if_neg passed, if_pos rfl]

end Ikcpcb

theorem Call.run_arrives {kcp after : Ikcpcb} {call : Call} {packing : Packing Segment} (counted : kcp.Counted)
    (run : call.run kcp = some (after, packing)) (unread : ∀ len, 0 ≤ len → call ≠ .recv len) :
    kcp.receiver.queue <+: after.receiver.queue := by
  have flushed : ∀ kcp : Ikcpcb, kcp.Counted → kcp.ikcpFlush.1.receiver = kcp.receiver := by
    intro kcp counted
    by_cases idle : kcp.updated = 0
    · rw [Ikcpcb.ikcpFlush_idle idle]
    · exact (Ikcpcb.ikcpFlush_spec counted idle).2.2.2.1
  have same : after.receiver.queue = kcp.receiver.queue → kcp.receiver.queue <+: after.receiver.queue := fun same =>
    same ▸ List.prefix_refl _
  cases call with
  | send buffer =>
    obtain ⟨rfl, rfl⟩ := Prod.mk.inj (Option.some.inj run)
    apply same
    rw [Ikcpcb.ikcpSend_eq]
    rfl
  | recv len =>
    obtain ⟨rfl, rfl⟩ := Prod.mk.inj (Option.some.inj run)
    have look : len < 0 := Int.not_le.1 fun reads => unread len reads rfl
    rcases Ikcpcb.ikcpRecv_receiver counted len with kept | taken
    · exact same (congrArg Receiver.queue kept)
    · rw [taken, if_pos look]
      exact Receiver.queue_move _ kcp.receiver
  | input data =>
    obtain ⟨⟨code, middle⟩, input, found⟩ := Option.map_eq_some_iff.1 run
    obtain ⟨rfl, rfl⟩ := Prod.mk.inj found
    refine (ikcpInput_rule (P := fun middle => middle.Counted ∧ kcp.receiver.queue <+: middle.receiver.queue)
      ⟨counted, List.prefix_refl _⟩ ?_ ?_ input).2
    · intro middle flag seg held _
      obtain ⟨count, -, -, receiver, -⟩ := Ikcpcb.inputSegment_spec held.1 flag seg
      refine ⟨count, held.2.trans ?_⟩
      rw [receiver]
      split
      next => exact Receiver.queue_accept _ _
      next => exact List.prefix_refl _
    · intro middle flag prevUna held
      obtain ⟨count, -, -, receiver, -⟩ := Ikcpcb.finishInput_spec held.1 prevUna flag
      exact ⟨count, receiver ▸ held.2⟩
  | update current =>
    rw [Call.run, Option.some_inj] at run
    obtain ⟨rfl, rfl⟩ := Prod.ext_iff.1 run
    obtain ⟨updated, tsFlush, -, quiet | flush⟩ := kcp.ikcpUpdate_cases current
    · exact same (by rw [quiet]; rfl)
    · have ticked : ({ kcp with current, updated, tsFlush } : Ikcpcb).Counted :=
        ⟨counted.rcvBuf, counted.sndBuf, counted.rcvQueue, counted.sndQueue⟩
      apply same
      rw [flush, flushed _ ticked]
      rfl
  | flush =>
    rw [Call.run, Option.some_inj] at run
    obtain ⟨rfl, rfl⟩ := Prod.ext_iff.1 run
    exact same (congrArg Receiver.queue (flushed kcp counted))
  | setmtu mtu =>
    obtain ⟨rfl, rfl⟩ := Prod.mk.inj (Option.some.inj run)
    apply same
    unfold Ikcpcb.ikcpSetmtu
    split <;> rfl
  | interval | nodelay | wndsize | stream =>
    obtain ⟨rfl, rfl⟩ := Prod.mk.inj (Option.some.inj run)
    exact List.prefix_refl _

/-! One side of the connection -/

/-- Its session: what `ikcp_send` took, and the messages that can be read. -/
def Endpoint.session (e : Endpoint) (session : KcpSession) : KcpSession :=
  { session with rcvQueue := e.kcp.messages, sndQueue := e.accepted }

def Call.onSession (session : KcpSession) : Call → KcpSession
  | .send buffer => (session.send buffer).2
  | .recv len =>
    if len < 0 then session
    else { session with rcvQueue := (Kcp.ikcpRecv session.rcvQueue (Buffer.fill 0 : Buffer UInt8 len.toNat)).2.2 }
  | _ => session

structure Plain (e : Endpoint) : Prop extends Framed e where
  mss : e.kcp.mss = ikcpMtuDef - ikcpOverhead

theorem Plain.act {conv : UInt32} {e after : Endpoint} {call : Call} (plain : Plain e) (sound : Sound conv e)
    (allowed : call.OfSession) (acted : e.act call = some after) : Plain after := by
  refine ⟨plain.toFramed.act sound acted ?_, ?_⟩
  · rintro on rfl
    exact allowed
  · obtain ⟨kcp, packing, run, rfl⟩ := Endpoint.act_some acted
    show kcp.mss = _
    refine Eq.trans ?_ plain.mss
    by_cases moves : call.Moves
    · exact congrArg Settings.mss (Call.run_settings moves run)
    · cases call with
      | send | recv | input | update | flush => exact absurd trivial moves
      | setmtu | stream => exact allowed.elim
      | interval | nodelay | wndsize =>
        obtain ⟨rfl, rfl⟩ := Prod.mk.inj (Option.some.inj run)
        rfl

theorem Coupled.readable {conv : UInt32} {a b : Endpoint} (coupled : Coupled conv a b) : a.kcp.Readable := by
  obtain ⟨read, link, -, -⟩ := coupled.back
  obtain ⟨counting, slim⟩ := received coupled.right link
  have held := coupled.left.windows.receiving.held
  change (a.kcp.rcvQueue.map Segment.entry).length ≤ _ at held
  rw [List.length_map] at held
  exact ⟨coupled.left.windows.counted, by omega, counting, slim⟩

theorem Plain.send {e : Endpoint} (plain : Plain e) (session : KcpSession) {buffer : List UInt8} (short : buffer.length < 2 ^ 31) :
    (e.session session).send buffer =
      ((e.kcp.ikcpSend buffer).1, { e.session session with sndQueue := e.accepted ++ e.kcp.accepts buffer }) := by
  rw [KcpSession.send, Proofs.SessionCalls.intOfSize_of_lt short, Ikcpcb.ikcpSend_session plain.stream plain.mss]
  rfl

theorem Coupled.session_act {conv : UInt32} {a b after : Endpoint} (coupled : Coupled conv a b) (plain : Plain a)
    (session : KcpSession) {call : Call} (allowed : call.OfSession) (acted : a.act call = some after) :
    ∃ arrived, after.session session =
      { call.onSession (a.session session) with rcvQueue := (call.onSession (a.session session)).rcvQueue ++ arrived } := by
  have readable := coupled.readable
  obtain ⟨kcp, packing, run, rfl⟩ := Endpoint.act_some acted
  have arrives (unread : ∀ len, 0 ≤ len → call ≠ .recv len) : ∃ arrived, a.kcp.messages ++ arrived = kcp.messages :=
    Ikcpcb.messages_isPrefix (Call.run_arrives readable.counted run unread)
  cases call with
  | send buffer =>
    obtain ⟨arrived, messages⟩ := arrives fun len _ => Call.noConfusion
    refine ⟨arrived, ?_⟩
    rw [Call.onSession, plain.send session allowed]
    exact congrArg (fun rcvQueue => { session with rcvQueue, sndQueue := a.accepted ++ a.kcp.accepts buffer }) messages.symm
  | recv len =>
    by_cases look : len < 0
    · obtain ⟨arrived, messages⟩ := arrives (by rintro _ reads ⟨⟩; exact absurd look (Int.not_lt.2 reads))
      rw [Call.onSession, if_pos look]
      exact ⟨arrived, congrArg (fun rcvQueue => { session with rcvQueue, sndQueue := a.accepted }) messages.symm⟩
    · obtain ⟨rfl, rfl⟩ := Prod.mk.inj (Option.some.inj run)
      obtain ⟨-, -, arrived, messages⟩ := readable.recv (Buffer.fill 0 : Buffer UInt8 len.toNat)
      rw [Int.toNat_of_nonneg (Int.not_lt.1 look)] at messages
      rw [Call.onSession, if_neg look]
      exact ⟨arrived, congrArg (fun rcvQueue => { session with rcvQueue, sndQueue := a.accepted }) messages.symm⟩
  | input | update | flush | interval | nodelay | wndsize =>
    obtain ⟨arrived, messages⟩ := arrives fun len _ => Call.noConfusion
    exact ⟨arrived, congrArg (fun rcvQueue => { session with rcvQueue, sndQueue := a.accepted }) messages.symm⟩
  | setmtu | stream => exact allowed.elim

/-! A whole run -/

def Event.onSession (side : Side) (session : KcpSession) : Event → KcpSession
  | .call acting own => if acting = side then own.onSession session else session
  | .deliver _ _ => session

/-- What a session sees of an event: its own calls, and messages that arrive. -/
def Seen (side : Side) (before : KcpSession) (event : Event) (after : KcpSession) : Prop :=
  ∃ arrived, after =
    { event.onSession side before with rcvQueue := (event.onSession side before).rcvQueue ++ arrived }

namespace Peers
variable {conv : UInt32} {peers after : Peers} {event : Event} {events : List Event}

theorem plain_run (reached : exec Peers.step (Peers.start conv) events = some peers) (few : peers.Few)
    (calls : ∀ side call, .call side call ∈ events → call.OfSession) (side : Side) : Plain (peers.at_ side) :=
  side_rule (C := Call.OfSession) ⟨⟨rfl, rfl⟩, rfl⟩ (fun _ => trivial)
    (fun _ _ _ sound plain allowed acted => plain.act sound allowed acted) reached few (calls side)

theorem session_step (orderly : Orderly conv peers) (plain : ∀ side, Plain (peers.at_ side)) (taken : peers.step event = some after)
    (calls : ∀ side call, event = .call side call → call.OfSession) (session : KcpSession) (side : Side) :
    Seen side ((peers.at_ side).session session) event ((after.at_ side).session session) := by
  obtain ⟨acting, call, e, acted, rfl, cause⟩ := step_cases taken
  by_cases own : acting = side
  · subst own
    rw [at_put]
    have allowed : call.OfSession ∧
        event.onSession acting ((peers.at_ acting).session session) = call.onSession ((peers.at_ acting).session session) := by
      rcases cause with ⟨rfl, -⟩ | ⟨datagram, -, rfl, rfl⟩
      · exact ⟨calls acting call rfl, if_pos rfl⟩
      · exact ⟨trivial, rfl⟩
    rw [Seen, allowed.2]
    exact (orderly acting).session_act (plain acting) session allowed.1 acted
  · have other : side = acting.other := by
      cases acting <;> cases side
      · exact absurd rfl own
      · rfl
      · rfl
      · exact absurd rfl own
    have unseen : event.onSession side ((peers.at_ side).session session) = (peers.at_ side).session session := by
      rcases cause with ⟨rfl, -⟩ | ⟨datagram, -, rfl, -⟩
      · exact if_neg own
      · rfl
    rw [Seen, unseen, other, at_put_other]
    exact ⟨[], by rw [List.append_nil]⟩

/-- In every run of two control blocks a session has the queues of its model: what it
sends is queued or refused by that model, what it reads is the next message, and else
messages arrive. They are the next ones that the other side has queued. -/
theorem session_runs (session : KcpSession) (reached : exec Peers.step (Peers.start conv) events = some peers) (few : peers.Few)
    (calls : ∀ side call, .call side call ∈ events → call.OfSession) (side : Side) :
    Run (Seen side) { session with rcvQueue := [], sndQueue := [] } events ((peers.at_ side).session session) ∧
      (∀ buffer, buffer.length < 2 ^ 31 →
        ((peers.at_ side).kcp.ikcpSend buffer).1 = (((peers.at_ side).session session).send buffer).1) ∧
      (∀ (n : Nat) (buffer : Buffer UInt8 n),
        let answer := Kcp.ikcpRecv ((peers.at_ side).session session).rcvQueue buffer
        (((peers.at_ side).kcp.ikcpRecv n).1 = answer.1 ∨ ((peers.at_ side).kcp.ikcpRecv n).1 = -2 ∧ answer.1 = -1) ∧
          answer.2.1.cells = Block.overlay buffer.cells 0 ((peers.at_ side).kcp.ikcpRecv n).2.1) ∧
      (peers.at_ side).delivered ++ ((peers.at_ side).session session).rcvQueue <+:
        ((peers.at_ side.other).session session).sndQueue := by
  have coupled := Orderly.run reached few
  have plain := plain_run reached few calls
  refine ⟨?_, ?_, ?_, ?_⟩
  · clear coupled plain
    induction events using List.reverseRecOn generalizing peers with
    | nil =>
      obtain rfl := Option.some.inj reached
      cases side <;> exact .start
    | append_singleton events event ih =>
      rw [exec_snoc] at reached
      obtain ⟨before, earlier, taken⟩ := Option.bind_eq_some_iff.1 reached
      have others := fun side call member => calls side call (List.mem_append_left _ member)
      refine .next (ih earlier (few.before taken) others) ?_
      refine session_step (Orderly.run earlier (few.before taken)) (plain_run earlier (few.before taken) others) taken ?_ session side
      rintro acting call rfl
      exact calls acting call (by simp)
  · intro buffer short
    rw [(plain side).send session short]
  · intro n buffer
    obtain ⟨code, cells, -⟩ := (coupled side).readable.recv buffer
    exact ⟨code, cells⟩
  · exact (plain side.other).arrives (coupled side).back

theorem ikcpGetconv_buffer (buf : Buffer UInt8 Kcp.bodySize) : ikcpGetconv buf.cells = some (Kcp.ChatServer.getConv buf) := by
  have there : ¬ buf.cells.length < 4 := by
    rw [buf.size]
    decide
  rw [ikcpGetconv, ikcpDecode32u, if_neg there]
  rfl

/-- The server looks a datagram up under the number that both control blocks have. -/
theorem getConv_run (reached : exec Peers.step (Peers.start conv) events = some peers) (few : peers.Few) {side : Side}
    {datagram more : List UInt8} (sent : datagram ∈ (peers.at_ side).output) {buf : Buffer UInt8 Kcp.bodySize}
    (stored : buf.cells = datagram ++ more) : Kcp.ChatServer.getConv buf = conv := by
  obtain ⟨segs, some_, rfl, all⟩ := (Orderly.run reached few side).left.output datagram sent
  obtain ⟨seg, rest, rfl⟩ := List.exists_cons_of_ne_nil some_
  obtain ⟨behind, first⟩ : ∃ behind, encodeSegments (seg :: rest) ++ more = ikcpEncode32u seg.conv ++ behind := by
    simp only [encodeSegments, List.flatMap_cons, encodeSegment, ikcpEncodeSeg, List.append_assoc]
    exact ⟨_, rfl⟩
  have found := ikcpGetconv_buffer buf
  rw [stored, first, ikcpGetconv, ikcpDecode32u_encode] at found
  exact (Option.some.inj found).symm.trans (all seg List.mem_cons_self).1.conv

private def data (sn : UInt32) (data : List UInt8) : Segment := { conv := 7, cmd := ikcpCmdPush, wnd := 128, sn, data }

/-- Two messages come in one datagram, and one of them is read. -/
def twoMessages : List Event :=
  [.call .left (.nodelay 1 10 2 1), .call .left (.send [1, 2]), .call .left (.send [3]), .call .left (.update 0),
    .deliver .right (encodeSegments [data 0 [1, 2], data 1 [3]]), .call .right (.recv 4096)]

private def fresh : KcpSession := { kcpOpt := { conv := 7 }, addr := ⟨(127, 0, 0, 1), 8000⟩ }

theorem session_runs_two : ∃ peers, exec Peers.step (Peers.start 7) twoMessages = some peers ∧
    Run (Seen .right) fresh twoMessages { fresh with rcvQueue := [[3]] } ∧
      (peers.right.kcp.ikcpRecv (1 : Nat)).2.1 = [3] ∧ peers.right.delivered ++ [[3]] <+: [[1, 2], [3]] := by
  have calls : ∀ side call, .call side call ∈ twoMessages → call.OfSession := by
    intro side call member
    simp only [twoMessages, List.mem_cons, List.not_mem_nil, or_false, reduceCtorEq, false_or, Event.call.injEq] at member
    rcases member with ⟨-, rfl⟩ | ⟨-, rfl⟩ | ⟨-, rfl⟩ | ⟨-, rfl⟩ | ⟨-, rfl⟩ <;> simp [Call.OfSession]
  have few : ∀ peers, exec Peers.step (Peers.start 7) twoMessages = some peers → peers.Few := by
    rintro _ ⟨⟩ side
    cases side <;> decide
  obtain ⟨run, -, -, order⟩ := @session_runs 7 _ twoMessages fresh rfl (few _ rfl) calls .right
  exact ⟨_, rfl, run, rfl, order⟩

end Peers
end NetPrograms.Ikcp
