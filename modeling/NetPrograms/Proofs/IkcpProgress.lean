import NetPrograms.Proofs.IkcpDelivery

/-! How data gets across: when the datagrams of one flush arrive, and so do those
of the flush that answers them, nothing is left to acknowledge. -/

namespace NetPrograms.Ikcp
open SelectiveRepeat Serial

def Recent (numbered : List (Piece UInt8)) (seg : Segment) : Prop :=
  seg.sn.toNat < numbered.length ∧ numbered.length ≤ seg.sn.toNat + wndLimit

/-- There is room for all that was numbered. -/
structure Spacious (numbered : List (Piece UInt8)) (kcp : Ikcpcb) : Prop where
  window : numbered.length ≤ kcp.rcvNxt.toNat + kcp.rcvWnd.toNat
  narrow : kcp.rcvWnd.toNat < 2 ^ 30

/-- Every push that comes in is listed for an acknowledgement when there is room,
and every acknowledgement is heeded. -/
structure Heeding (numbered : List (Piece UInt8)) (segs : List Segment) (kcp after : Ikcpcb) : Prop where
  room : Spacious numbered kcp → Spacious numbered after
  kept : ∀ ack ∈ kcp.acklist, ack ∈ after.acklist
  fewer : ∀ entry ∈ after.sender.buf, entry ∈ kcp.sender.buf
  listed : Spacious numbered kcp → ∀ seg ∈ segs, seg.cmd = ikcpCmdPush → Recent numbered seg →
    (seg.sn, seg.ts) ∈ after.acklist
  cleared : ∀ seg ∈ segs, seg.cmd = ikcpCmdAck → ∀ entry ∈ after.sender.buf, entry.1 ≠ seg.sn

namespace Heeding
variable {numbered : List (Piece UInt8)} {segs more : List Segment} {first second third : Ikcpcb}

theorem trans (left : Heeding numbered segs first second) (right : Heeding numbered more second third) :
    Heeding numbered (segs ++ more) first third := by
  refine ⟨fun space => right.room (left.room space), fun ack member => right.kept ack (left.kept ack member),
    fun entry member => left.fewer entry (right.fewer entry member), fun space seg member push recent => ?_,
    fun seg member ack entry there => ?_⟩
  · rcases List.mem_append.1 member with early | late
    · exact right.kept _ (left.listed space seg early push recent)
    · exact right.listed (left.room space) seg late push recent
  · rcases List.mem_append.1 member with early | late
    · exact left.cleared seg early ack entry (right.fewer entry there)
    · exact right.cleared seg late ack entry there

theorem before (left : Heeding numbered segs first second) (right : Heeding numbered [] second third) :
    Heeding numbered segs first third := by
  have both := left.trans right
  rwa [List.append_nil] at both

theorem of_eq (acklist : second.acklist = first.acklist) (sender : second.sender = first.sender)
    (receiver : second.receiver = first.receiver) : Heeding numbered [] first second := by
  have nxt : second.rcvNxt = first.rcvNxt := congrArg Receiver.nxt receiver
  have wnd : second.rcvWnd = first.rcvWnd := congrArg Receiver.wnd receiver
  refine ⟨fun space => ⟨?_, ?_⟩, fun ack member => acklist ▸ member, fun entry member => sender ▸ member, ?_, ?_⟩
  · rw [nxt, wnd]
    exact space.window
  · rw [wnd]
    exact space.narrow
  · exact fun _ _ member => absurd member List.not_mem_nil
  · exact fun _ member => absurd member List.not_mem_nil

theorem refl (kcp : Ikcpcb) : Heeding numbered [] kcp kcp := of_eq rfl rfl rfl

end Heeding

/-! A datagram that comes in -/

namespace Absorbing
variable {conv : UInt32} {a b : Endpoint} {kcp : Ikcpcb}

end Absorbing

namespace Coupled
variable {conv : UInt32} {a b : Endpoint} {kcp : Ikcpcb} {packing : Packing Segment}

end Coupled

/-! What a flush sends -/

namespace Ikcpcb
variable {kcp : Ikcpcb}

end Ikcpcb

/-- A segment in flight is not far behind the newest. -/
theorem Coupled.recent {conv : UInt32} {a b : Endpoint} (coupled : Coupled conv a b) :
    ∀ seg ∈ a.kcp.sndBuf, Recent a.numbered seg := by
  intro seg member
  obtain ⟨read, link, -⟩ := coupled.forth
  have entry : seg.entry ∈ a.kcp.sender.buf := List.mem_map_of_mem member
  have inside : seg.sn.toNat < a.numbered.length ∧ seg.sn.toNat < 2 ^ 31 := link.index_lt (link.carried seg.entry entry)
  have below : ahead seg.sn a.kcp.sndUna < ahead a.kcp.sndNxt a.kcp.sndUna :=
    coupled.left.windows.sending.below seg.entry entry
  have window : ahead a.kcp.sndNxt a.kcp.sndUna ≤ wndLimit := coupled.left.windows.sending.window
  have nxt : a.kcp.sndNxt.toNat = a.numbered.length := link.nxt
  have una : a.kcp.sndUna.toNat ≤ a.numbered.length := link.una
  have limit : wndLimit = 65535 := rfl
  have small := link.small
  rw [ahead_eq, ahead_eq] at below
  rw [ahead_eq] at window
  exact ⟨inside.1, by omega⟩

theorem Side.other_other (side : Side) : side.other.other = side := by
  cases side <;> rfl

namespace Peers
variable {conv : UInt32} {peers after : Peers} {side : Side}

theorem Few.earlier {events : List Event} (few : after.Few) (run : exec Peers.step peers events = some after) : peers.Few := by
  induction events generalizing peers with
  | nil =>
    obtain rfl := Option.some.inj run
    exact few
  | cons event events ih =>
    obtain ⟨middle, taken, later⟩ := Option.bind_eq_some_iff.1 run
    exact (ih later).before taken

theorem Orderly.steps {events : List Event} (orderly : Orderly conv peers)
    (run : exec Peers.step peers events = some after) (few : after.Few) : Orderly conv after := by
  induction events generalizing peers with
  | nil =>
    obtain rfl := Option.some.inj run
    exact orderly
  | cons event events ih =>
    obtain ⟨middle, taken, later⟩ := Option.bind_eq_some_iff.1 run
    exact ih (orderly.step taken (few.earlier later)) later

private def pushed (sn : UInt32) (data : List UInt8) : Segment := { conv := 7, cmd := ikcpCmdPush, wnd := 128, sn, data }

private def reply (sn : UInt32) : Segment := { conv := 7, cmd := ikcpCmdAck, wnd := 126, sn, una := 2 }

end Peers
end NetPrograms.Ikcp
