import NetPrograms.Ikcp.Calls
import NetPrograms.Proofs.IkcpFlush
import NetPrograms.Proofs.IkcpQueues
import NetPrograms.Proofs.IkcpWire

/-! What each call changes at all. The options are changed only by the calls that
set them. -/

namespace NetPrograms.Ikcp

namespace Ikcpcb
variable {kcp : Ikcpcb}

/-- The clock has come round, and then there may be a flush. -/
theorem ikcpUpdate_cases (kcp : Ikcpcb) (current : UInt32) :
    ∃ updated tsFlush, updated ≠ 0 ∧
      (kcp.ikcpUpdate current = ({ kcp with current, updated, tsFlush }, {}) ∨
        kcp.ikcpUpdate current = ({ kcp with current, updated, tsFlush } : Ikcpcb).ikcpFlush) := by
  have running : (if kcp.updated = 0 then 1 else kcp.updated) ≠ 0 := by
    split
    next => decide
    next running => exact running
  by_cases time : itimediff current (kcp.start current).resync.tsFlush ≥ 0
  · exact ⟨_, _, running, Or.inr (if_pos time)⟩
  · exact ⟨_, _, running, Or.inl (if_neg time)⟩

/-- All that no datagram changes. -/
def steady (kcp : Ikcpcb) : Ikcpcb :=
  { kcp with
    rmtWnd := 0, sndUna := 0, sndBuf := [], nsndBuf := 0, rxSrtt := 0, rxRttval := 0, rxRto := 0, acklist := [],
    rcvBuf := [], nrcvBuf := 0, rcvQueue := [], nrcvQue := 0, rcvNxt := 0, probe := 0, cwnd := 0, incr := 0 }

theorem inputSegment_steady (kcp : Ikcpcb) (flag : Option UInt32) (seg : Segment) :
    (inputSegment (kcp, flag) seg).1.steady = kcp.steady := by
  refine inputSegment_rule (P := fun after => after.steady = kcp.steady) flag ?_ ?_ ?_ fun _ same => same
  · rw [inputHeader_eq]
    rfl
  · intro middle same
    rw [inputAck_fields]
    exact same
  · intro middle same
    rw [inputPush_eq]
    exact same

theorem finishInput_steady (kcp : Ikcpcb) (flag : Option UInt32) (prevUna : UInt32) :
    (finishInput prevUna (kcp, flag)).steady = kcp.steady := by
  rw [finishInput_eq]
  rfl

theorem ikcpInput_steady {kcp after : Ikcpcb} {data : List UInt8} {code : Int}
    (input : ikcpInput kcp data data.length = some (code, after)) : after.steady = kcp.steady := by
  refine ikcpInput_rule (P := fun middle => middle.steady = kcp.steady) rfl ?_ ?_ input
  · exact fun middle flag seg same _ => (middle.inputSegment_steady flag seg).trans same
  · exact fun middle flag prevUna same => (middle.finishInput_steady flag prevUna).trans same

theorem ikcpFlush_frame (kcp : Ikcpcb) :
    kcp.ikcpFlush.1 =
      { kcp with
        acklist := kcp.ikcpFlush.1.acklist
        probe := kcp.ikcpFlush.1.probe
        probeWait := kcp.ikcpFlush.1.probeWait
        tsProbe := kcp.ikcpFlush.1.tsProbe
        sndQueue := kcp.ikcpFlush.1.sndQueue
        nsndQue := kcp.ikcpFlush.1.nsndQue
        sndBuf := kcp.ikcpFlush.1.sndBuf
        nsndBuf := kcp.ikcpFlush.1.nsndBuf
        sndNxt := kcp.ikcpFlush.1.sndNxt
        xmit := kcp.ikcpFlush.1.xmit
        state := kcp.ikcpFlush.1.state
        ssthresh := kcp.ikcpFlush.1.ssthresh
        cwnd := kcp.ikcpFlush.1.cwnd
        incr := kcp.ikcpFlush.1.incr } := by
  by_cases idle : kcp.updated = 0
  · rw [ikcpFlush_idle idle]
  · rw [ikcpFlush_eq idle, flushed, flushQueued_eq]

end Ikcpcb

structure Settings where
  mtu : UInt32
  mss : UInt32
  buffer : UInt32
  sndWnd : UInt32
  rcvWnd : UInt32
  interval : UInt32
  nodelay : UInt32
  rxMinrto : Int32
  fastresend : Int32
  fastlimit : Int32
  deadLink : UInt32
  nocwnd : Int32
  stream : Int32

namespace Ikcpcb
variable {kcp : Ikcpcb}

def settings (kcp : Ikcpcb) : Settings :=
  { mtu := kcp.mtu, mss := kcp.mss, buffer := kcp.buffer, sndWnd := kcp.sndWnd, rcvWnd := kcp.rcvWnd,
    interval := kcp.interval, nodelay := kcp.nodelay, rxMinrto := kcp.rxMinrto, fastresend := kcp.fastresend,
    fastlimit := kcp.fastlimit, deadLink := kcp.deadLink, nocwnd := kcp.nocwnd, stream := kcp.stream }

theorem ikcpSend_settings (kcp : Ikcpcb) (buffer : List UInt8) : (kcp.ikcpSend buffer).2.settings = kcp.settings := by
  rw [ikcpSend_eq]
  rfl

theorem ikcpRecv_settings (kcp : Ikcpcb) (len : Int) : (kcp.ikcpRecv len).2.2.settings = kcp.settings := by
  by_cases result : 0 ≤ (kcp.ikcpRecv len).1
  · obtain ⟨-, -, -, probe, after⟩ := ikcpRecv_some result
    rw [after, moveReady_eq, takeFirst_eq]
    rfl
  · rw [ikcpRecv_none (Int.not_le.1 result)]

theorem steady_settings (kcp : Ikcpcb) : kcp.steady.settings = kcp.settings := rfl

theorem ikcpFlush_settings (kcp : Ikcpcb) : kcp.ikcpFlush.1.settings = kcp.settings := by
  rw [ikcpFlush_frame]
  rfl

theorem ikcpUpdate_settings (kcp : Ikcpcb) (current : UInt32) : (kcp.ikcpUpdate current).1.settings = kcp.settings := by
  obtain ⟨updated, tsFlush, -, quiet | flush⟩ := ikcpUpdate_cases kcp current
  · rw [quiet]
    rfl
  · rw [flush, ikcpFlush_settings]
    rfl

end Ikcpcb

/-- The calls that move data. -/
def Call.Moves : Call → Prop
  | .send _ | .recv _ | .input _ | .update _ | .flush => True
  | .setmtu _ | .interval _ | .nodelay .. | .wndsize .. | .stream _ => False

theorem Call.run_settings {kcp after : Ikcpcb} {call : Call} {packing : Packing Segment} (moves : call.Moves)
    (run : call.run kcp = some (after, packing)) : after.settings = kcp.settings := by
  cases call with
  | send buffer =>
    obtain ⟨rfl, rfl⟩ := Prod.mk.inj (Option.some.inj run)
    exact kcp.ikcpSend_settings buffer
  | recv len =>
    obtain ⟨rfl, rfl⟩ := Prod.mk.inj (Option.some.inj run)
    exact kcp.ikcpRecv_settings len
  | input data =>
    obtain ⟨⟨code, middle⟩, input, same⟩ := Option.map_eq_some_iff.1 run
    obtain ⟨rfl, rfl⟩ := Prod.mk.inj same
    rw [← Ikcpcb.steady_settings, Ikcpcb.ikcpInput_steady input, Ikcpcb.steady_settings]
  | update current =>
    have after_ : (kcp.ikcpUpdate current).1 = after := congrArg Prod.fst (Option.some.inj run)
    exact after_ ▸ kcp.ikcpUpdate_settings current
  | flush =>
    have after_ : kcp.ikcpFlush.1 = after := congrArg Prod.fst (Option.some.inj run)
    exact after_ ▸ kcp.ikcpFlush_settings
  | setmtu | interval | nodelay | wndsize | stream => exact moves.elim

end NetPrograms.Ikcp
