import NetPrograms.Ikcp.Calls
import NetPrograms.Lib.Run
import NetPrograms.Proofs.IkcpFlush
import NetPrograms.Proofs.IkcpQueues
import NetPrograms.Proofs.IkcpWire

/-! The windows over all calls. Whatever datagrams come in, in whatever order, the
numbered segments stand in the order of their numbers within the window of the peer,
and the received ones within the own window. -/

namespace NetPrograms.Ikcp
open SelectiveRepeat

/-- A header announces no window above this. -/
def wndLimit : Nat := 65535

/-- The control block as two valid machines, which its counters agree with. -/
structure Windows (bound : Nat) (kcp : Ikcpcb) : Prop where
  counted : kcp.Counted
  sending : Sender.Valid wndLimit kcp.sender
  receiving : Receiver.Valid bound kcp.receiver
  remote : kcp.rmtWnd.toNat ≤ wndLimit

namespace Windows
variable {bound : Nat} {kcp : Ikcpcb}

theorem create (conv : UInt32) (half : bound < 2 ^ 31) (narrow : 128 ≤ bound) : Windows bound (ikcpCreate conv) :=
  ⟨Ikcpcb.counted_create conv, Sender.Valid.start (by decide) [], Receiver.Valid.start half narrow,
    (by decide : ikcpWndRcv.toNat ≤ wndLimit)⟩

/-- Only counters, windows and the two machines matter. -/
theorem congr (windows : Windows bound kcp) {after : Ikcpcb} (counted : after.Counted) (sender : after.sender = kcp.sender)
    (receiver : after.receiver = kcp.receiver) (remote : after.rmtWnd = kcp.rmtWnd) : Windows bound after :=
  ⟨counted, sender ▸ windows.sending, receiver ▸ windows.receiving, remote ▸ windows.remote⟩

/-- A call that sets options only. -/
theorem options (windows : Windows bound kcp) {after : Ikcpcb} (sender : after.sender = kcp.sender)
    (receiver : after.receiver = kcp.receiver) (remote : after.rmtWnd = kcp.rmtWnd)
    (buffers : after.nrcvBuf = kcp.nrcvBuf ∧ after.nsndBuf = kcp.nsndBuf)
    (queues : after.nrcvQue = kcp.nrcvQue ∧ after.nsndQue = kcp.nsndQue) : Windows bound after := by
  obtain ⟨rcvBuf, sndBuf, rcvQueue, sndQueue⟩ := windows.counted
  have received := congrArg (fun r => (r.buf.length, r.queue.length)) receiver
  have sent := congrArg (fun s => (s.buf.length, s.queue.length)) sender
  simp only [Ikcpcb.receiver, Ikcpcb.sender, List.length_map, Prod.mk.injEq] at received sent
  refine windows.congr ⟨?_, ?_, ?_, ?_⟩ sender receiver remote
  · rw [buffers.1, received.1, rcvBuf]
  · rw [buffers.2, sent.1, sndBuf]
  · rw [queues.1, received.2, rcvQueue]
  · rw [queues.2, sent.2, sndQueue]

/-! `ikcp_input` -/

theorem wnd_onWire {seg : Segment} (wire : seg.onWire = seg) : seg.wnd.toNat ≤ wndLimit := by
  have field := congrArg Segment.wnd wire
  change seg.wnd.toUInt16.toUInt32 = seg.wnd at field
  have small := seg.wnd.toUInt16.toNat_lt
  rw [← field, UInt16.toNat_toUInt32]
  exact Nat.le_of_lt_succ small

theorem inputSegment_rmtWnd (state : Ikcpcb × Option UInt32) (seg : Segment) :
    (Ikcpcb.inputSegment state seg).1.rmtWnd = seg.wnd := by
  refine Ikcpcb.inputSegment_rule (P := fun after => after.rmtWnd = seg.wnd) state.2 ?_ ?_ ?_ fun _ same => same
  · rw [Ikcpcb.inputHeader_eq]
  · intro kcp same
    rw [Ikcpcb.inputAck_fields]
    exact same
  · intro kcp same
    rw [Ikcpcb.inputPush_eq]
    exact same

theorem inputSegment (windows : Windows bound kcp) (flag : Option UInt32) {seg : Segment} (wire : seg.onWire = seg) :
    Windows bound (Ikcpcb.inputSegment (kcp, flag) seg).1 := by
  obtain ⟨counted, -, sender, receiver, -⟩ := Ikcpcb.inputSegment_spec windows.counted flag seg
  refine ⟨counted, ?_, ?_, ?_⟩
  · rw [sender]
    split
    next => exact (windows.sending.cumulate _).acknowledge _
    next => exact windows.sending.cumulate _
  · rw [receiver]
    split
    next => exact windows.receiving.accept _
    next => exact windows.receiving
  · rw [inputSegment_rmtWnd]
    exact wnd_onWire wire

theorem finishInput (windows : Windows bound kcp) (flag : Option UInt32) (prevUna : UInt32) :
    Windows bound (Ikcpcb.finishInput prevUna (kcp, flag)) := by
  obtain ⟨counted, -, sender, receiver, -⟩ := Ikcpcb.finishInput_spec windows.counted prevUna flag
  refine windows.congr counted sender receiver ?_
  rw [Ikcpcb.finishInput_eq]

/-- Every datagram has its result, and leaves the windows as they should be. -/
theorem input (windows : Windows bound kcp) (data : List UInt8) :
    ∃ code after, ikcpInput kcp data data.length = some (code, after) ∧ Windows bound after := by
  obtain ⟨code, after, result⟩ := ikcpInput_some kcp data
  refine ⟨code, after, result, ikcpInput_rule windows ?_ ?_ result⟩
  · exact fun kcp flag seg windows wire => windows.inputSegment flag wire
  · exact fun kcp flag prevUna windows => windows.finishInput flag prevUna

/-! The other calls -/

theorem send (windows : Windows bound kcp) (buffer : List UInt8) : Windows bound (kcp.ikcpSend buffer).2 := by
  have counted := windows.counted.send buffer
  have valid := windows.sending
  rw [Ikcpcb.ikcpSend_eq] at counted ⊢
  exact ⟨counted, ⟨valid.half, valid.window, valid.sorted, valid.below, valid.first⟩, windows.receiving, windows.remote⟩

theorem recv (windows : Windows bound kcp) (len : Int) : Windows bound (kcp.ikcpRecv len).2.2 := by
  obtain ⟨sender, -, -⟩ := Ikcpcb.ikcpRecv_frame kcp len
  refine ⟨windows.counted.recv len, sender ▸ windows.sending, ?_, ?_⟩
  · rcases Ikcpcb.ikcpRecv_receiver windows.counted len with same | taken
    · rw [same]
      exact windows.receiving
    · rw [taken]
      exact windows.receiving.take _
  · by_cases result : 0 ≤ (kcp.ikcpRecv len).1
    · obtain ⟨-, -, -, probe, after⟩ := Ikcpcb.ikcpRecv_some result
      rw [after, Ikcpcb.moveReady_eq, Ikcpcb.takeFirst_eq]
      exact windows.remote
    · rw [Ikcpcb.ikcpRecv_none (Int.not_le.1 result)]
      exact windows.remote

theorem sendWindow_le (kcp : Ikcpcb) : kcp.sendWindow ≤ kcp.rmtWnd := by
  have low : ∀ a b : UInt32, imin a b ≤ b := by
    intro a b
    unfold imin
    split
    next le => exact le
    next => exact UInt32.le_refl b
  unfold Ikcpcb.sendWindow
  dsimp only
  split
  next => exact UInt32.le_trans (low _ _) (low _ _)
  next => exact low _ _

theorem flush (windows : Windows bound kcp) : Windows bound kcp.ikcpFlush.1 := by
  by_cases idle : kcp.updated = 0
  · rw [Ikcpcb.ikcpFlush_idle idle]
    exact windows
  · obtain ⟨counted, -, sender, receiver, -⟩ := Ikcpcb.ikcpFlush_spec windows.counted idle
    have narrow : kcp.sendWindow.toNat ≤ wndLimit :=
      (UInt32.le_iff_toNat_le.1 (sendWindow_le kcp)).trans windows.remote
    refine ⟨counted, ?_, receiver ▸ windows.receiving, ?_⟩
    · rw [sender]
      exact windows.sending.number narrow
    · rw [Ikcpcb.ikcpFlush_eq idle]
      show kcp.flushQueued.rmtWnd.toNat ≤ wndLimit
      rw [Ikcpcb.flushQueued_eq]
      exact windows.remote

theorem update (windows : Windows bound kcp) (current : UInt32) : Windows bound (kcp.ikcpUpdate current).1 := by
  obtain ⟨counted, sending, receiving, remote⟩ := windows
  have ticked : Windows bound (kcp.start current).resync :=
    ⟨⟨counted.rcvBuf, counted.sndBuf, counted.rcvQueue, counted.sndQueue⟩, sending, receiving, remote⟩
  unfold Ikcpcb.ikcpUpdate
  dsimp only
  split
  next =>
    refine flush ⟨?_, sending, receiving, remote⟩
    exact ⟨counted.rcvBuf, counted.sndBuf, counted.rcvQueue, counted.sndQueue⟩
  next => exact ticked

theorem imax_le {rcvwnd : Int32} (positive : rcvwnd > 0) (narrow : rcvwnd.toInt ≤ bound) (least : 128 ≤ bound) :
    (imax rcvwnd.toUInt32 ikcpWndRcv).toNat ≤ bound := by
  have signed : 0 < rcvwnd.toInt := Int32.lt_iff_toInt_lt.1 positive
  have same := Serial.toNat_toUInt32 signed.le
  unfold imax
  split
  next => omega
  next => exact least

theorem wndsize (windows : Windows bound kcp) (sndwnd : Int32) {rcvwnd : Int32} (narrow : rcvwnd.toInt ≤ bound)
    (least : 128 ≤ bound) : Windows bound (kcp.ikcpWndsize sndwnd rcvwnd) := by
  obtain ⟨counted, sending, receiving, remote⟩ := windows
  refine ⟨⟨counted.rcvBuf, counted.sndBuf, counted.rcvQueue, counted.sndQueue⟩, sending,
    ⟨receiving.half, ?_, receiving.held, receiving.sorted, receiving.inside, receiving.ready⟩, remote⟩
  show (if rcvwnd > 0 then imax rcvwnd.toUInt32 ikcpWndRcv else kcp.rcvWnd).toNat ≤ bound
  split
  next positive => exact imax_le positive narrow least
  next => exact receiving.wnd

end Windows

/-- The window that a call asks for is within the bound. -/
def Call.Narrow (bound : Nat) : Call → Prop
  | .wndsize _ rcvwnd => rcvwnd.toInt ≤ bound
  | _ => True

namespace Windows
variable {bound : Nat} {kcp : Ikcpcb}

theorem call (windows : Windows bound kcp) (least : 128 ≤ bound) {call : Call} (narrow : call.Narrow bound) :
    ∃ after, kcp.call call = some after ∧ Windows bound after := by
  cases call with
  | send buffer => exact ⟨_, rfl, windows.send buffer⟩
  | recv len => exact ⟨_, rfl, windows.recv len⟩
  | input data =>
    obtain ⟨code, after, result, kept⟩ := windows.input data
    exact ⟨after, by simp [Ikcpcb.call, Call.run, result], kept⟩
  | update current => exact ⟨_, rfl, windows.update current⟩
  | flush => exact ⟨_, rfl, windows.flush⟩
  | setmtu mtu =>
    refine ⟨_, rfl, ?_⟩
    show Windows bound (kcp.ikcpSetmtu mtu).2
    unfold Ikcpcb.ikcpSetmtu
    split
    next => exact windows
    next => exact windows.options rfl rfl rfl ⟨rfl, rfl⟩ ⟨rfl, rfl⟩
  | interval time => exact ⟨_, rfl, windows.options rfl rfl rfl ⟨rfl, rfl⟩ ⟨rfl, rfl⟩⟩
  | nodelay mode time resend nc => exact ⟨_, rfl, windows.options rfl rfl rfl ⟨rfl, rfl⟩ ⟨rfl, rfl⟩⟩
  | wndsize sndwnd rcvwnd => exact ⟨_, rfl, windows.wndsize sndwnd narrow least⟩
  | stream on => exact ⟨_, rfl, windows.options rfl rfl rfl ⟨rfl, rfl⟩ ⟨rfl, rfl⟩⟩

/-- Every run of calls goes through, and keeps the windows. -/
theorem every_run (conv : UInt32) {calls : List Call} (half : bound < 2 ^ 31) (least : 128 ≤ bound)
    (narrow : ∀ call ∈ calls, call.Narrow bound) :
    ∃ kcp, exec Ikcpcb.call (ikcpCreate conv) calls = some kcp ∧ Windows bound kcp := by
  induction calls using List.reverseRecOn with
  | nil => exact ⟨_, rfl, create conv half least⟩
  | append_singleton calls call ih =>
    obtain ⟨before, reached, windows⟩ := ih fun call member => narrow call (List.mem_append_left _ member)
    obtain ⟨after, taken, kept⟩ := windows.call least (narrow call (List.mem_append_right _ List.mem_cons_self))
    exact ⟨after, exec_next reached taken, kept⟩

theorem every_run_wider : ∃ kcp, exec Ikcpcb.call (ikcpCreate 7)
    [.wndsize 32 200, .update 0, .input [7, 0, 0, 0, 81, 0, 1, 0, 9, 9, 9, 9, 150, 0, 0, 0, 0, 0, 0, 0, 1, 0, 0, 0, 5]] =
      some kcp ∧ Windows 200 kcp := by
  refine every_run 7 (by decide) (by decide) fun call member => ?_
  simp only [List.mem_cons, List.not_mem_nil, or_false] at member
  rcases member with rfl | rfl | rfl
  · exact (by decide : (200 : Int32).toInt ≤ (200 : Nat))
  · trivial
  · trivial

end Windows

/-- The sum of the counters is 0 only when both lists are empty. -/
theorem Ikcpcb.waitsnd_zero {bound : Nat} {kcp : Ikcpcb} (windows : Windows bound kcp) (queued : kcp.sndQueue.length < 2 ^ 31)
    (done : kcp.ikcpWaitsnd = 0) : kcp.sndBuf = [] ∧ kcp.sndQueue = [] := by
  have inFlight := windows.sending.length
  change (kcp.sndBuf.map Segment.entry).length ≤ 65535 at inFlight
  rw [List.length_map] at inFlight
  have counter : kcp.nsndBuf + kcp.nsndQue = UInt32.ofNat (kcp.sndBuf.length + kcp.sndQueue.length) := by
    rw [windows.counted.sndBuf, windows.counted.sndQueue, UInt32.ofNat_add]
  have exact_ : (kcp.nsndBuf + kcp.nsndQue).toNat = kcp.sndBuf.length + kcp.sndQueue.length := by
    rw [counter]
    exact UInt32.toNat_ofNat_of_lt' (show kcp.sndBuf.length + kcp.sndQueue.length < 2 ^ 32 by omega)
  have signed : kcp.ikcpWaitsnd = _ := Serial.toInt_toInt32 (kcp.nsndBuf + kcp.nsndQue)
  rw [done, exact_] at signed
  have both : kcp.sndBuf.length = 0 ∧ kcp.sndQueue.length = 0 := by
    split at signed <;> omega
  exact ⟨List.length_eq_zero_iff.1 both.1, List.length_eq_zero_iff.1 both.2⟩

end NetPrograms.Ikcp
