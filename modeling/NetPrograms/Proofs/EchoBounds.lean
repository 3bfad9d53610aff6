import NetPrograms.Proofs.EchoIsolation

/-! Where the echo reactor stays inside `conn_list` and its buffers. -/

namespace NetPrograms.Proofs.EchoBounds
open Reactor Reactor.Echo ReactorSteps ReactorRule

structure Bounded (c : Conn) : Prop where
  read : 0 ≤ c.rlength ∧ c.rlength ≤ bufferLength
  write : 0 ≤ c.wlength ∧ c.wlength ≤ bufferLength

def rules : Rules Conn Act RecvResult Unit where
  idle c _ := Bounded c
  armed c _ _ := Bounded c
  mayRecv _ result := 0 ≤ result.count
  maySend _ _ := True

/-- The descriptors that `socket` and `accept` return are below `CONNECTION_SIZE`. -/
def Below : Event RecvResult Unit → Prop
  | .port socket _ _ => socket < connectionSize
  | .accepted clientFd => clientFd < connectionSize
  | _ => True

/-- `init_server` and `recv` do not fail. -/
def Succeeds : Event RecvResult Unit → Prop
  | .port socket bind listen => 0 ≤ socket ∧ 0 ≤ bind ∧ 0 ≤ listen
  | .readable result => 0 ≤ result.count
  | _ => True

instance (event : Event RecvResult Unit) : Decidable (Below event) :=
  match event with
  | .port socket _ _ => inferInstanceAs (Decidable (socket < connectionSize))
  | .accepted clientFd => inferInstanceAs (Decidable (clientFd < connectionSize))
  | .wait _ | .readable _ | .writable _ => isTrue trivial

instance (event : Event RecvResult Unit) : Decidable (Succeeds event) :=
  match event with
  | .port _ _ _ => inferInstanceAs (Decidable (_ ∧ _ ∧ _))
  | .readable result => inferInstanceAs (Decidable (0 ≤ result.count))
  | .wait _ | .accepted _ | .writable _ => isTrue trivial

theorem zero_bounded : Bounded zero := ⟨by decide, by decide⟩

/-- The copy after a failed `recv` has the length `SIZE_MAX`. -/
theorem recvCb_failed (fd : Int) (slot : Slot Conn) : recvCb fd slot .failed = none := by
  obtain ⟨rbuffer, received, -⟩ := Buffer.write_of_le slot.conn.rbuffer 0 [] (Nat.zero_le _)
  have outside : rbuffer.read 0 (toSize (RecvResult.failed).count) = none := by
    apply if_neg
    rw [rbuffer.size]
    decide
  simp only [recvCb, received, outside, Option.bind_eq_bind, Option.bind_some, Option.bind_none]
  rfl

theorem sendCb_some (slot : Slot Conn) (bounded : Bounded slot.conn) :
    ∃ bytes, sendCb slot.fd slot () =
      some {
        conn := slot.conn
        acts := [(slot.fd, .handed bytes)]
        next := .arm .input } := by
  obtain ⟨length, same⟩ := Int.eq_ofNat_of_zero_le bounded.write.1
  have upper := bounded.write.2
  rw [same] at upper
  have fits : length ≤ bufferLength := by omega
  have read : slot.conn.wbuffer.read 0 (toSize slot.conn.wlength) = some (Block.slice slot.conn.wbuffer.cells 0 length) := by
    rw [same, toSize_eq fits]
    exact Buffer.read_of_le (by omega)
  exact ⟨_, by rw [sendCb, read]; rfl⟩

theorem recvCb_some (slot : Slot Conn) {result : RecvResult} (bounded : Bounded slot.conn) (received : 0 ≤ result.count) :
    ∃ out, recvCb slot.fd slot result = some out ∧ (∀ act ∈ out.acts, act.1 = slot.fd) ∧ Bounded out.conn := by
  cases result with
  | data chunk =>
    obtain ⟨conn, copied, rlength, returned⟩ := EchoIsolation.recvCb_data slot chunk
    have upper : (chunk.bytes.length : Int) ≤ bufferLength := by exact_mod_cast chunk.fits
    refine ⟨_, returned, by simp, ⟨?_, ?_⟩⟩
    · rw [rlength]
      exact ⟨Int.natCast_nonneg _, upper⟩
    · rw [copied.length]
      exact ⟨Int.natCast_nonneg _, upper⟩
  | disconnect =>
    obtain ⟨rbuffer, returned⟩ := EchoIsolation.recvCb_disconnect slot
    exact ⟨_, returned, nofun, bounded.read, bounded.write⟩
  | failed =>
    have failure : (0 : Int) ≤ -1 := received
    omega

theorem contract : rules.Contract program := by
  refine ⟨fun _ _ _ opened => initServer_eq opened, ?_, ?_, ?_⟩
  · intro conn log _
    exact zero_bounded
  · intro slot log result out bounded received called
    obtain ⟨other, returned, own, kept⟩ := recvCb_some slot bounded received
    obtain rfl := Option.some.inj (returned.symm.trans called)
    refine ⟨own, ?_⟩
    cases other.next <;> exact kept
  · intro slot log result out bounded _ called
    obtain ⟨bytes, returned⟩ := sendCb_some slot bounded
    obtain rfl := Option.some.inj (returned.symm.trans called)
    exact ⟨by simp, bounded⟩

theorem total : rules.Total program := by
  refine ⟨?_, ?_⟩
  · intro slot log result bounded received
    obtain ⟨out, returned, -⟩ := recvCb_some slot bounded received
    exact ⟨out, returned⟩
  · intro slot log result bounded _
    obtain ⟨bytes, returned⟩ := sendCb_some slot bounded
    exact ⟨_, returned⟩

private theorem initServer_nonneg {socket bind listen : Int} :
    0 ≤ initServer socket bind listen ↔ 0 ≤ socket ∧ 0 ≤ bind ∧ 0 ≤ listen := by
  unfold initServer
  split_ifs <;> omega

theorem succeeds_of_step {s after : System Conn Act} {event : Event RecvResult Unit}
    (stepped : step program s event = some after) : Succeeds event := by
  cases step_cases stepped with
  | port opened =>
    obtain ⟨slot, inside, -⟩ := Option.bind_eq_some_iff.mp opened
    exact initServer_nonneg.mp (slot_eq_some inside).1
  | @readable _ _ result _ _ _ _ called =>
    cases result with
    | data chunk => exact Int.natCast_nonneg _
    | disconnect => exact Int.le_refl _
    | failed => cases (recvCb_failed _ _).symm.trans called
  | wait | accepted | writable => trivial

/-- In every run in which neither `init_server` nor `recv` has failed, the lengths in every
slot are those of its buffers, and the next step stays inside `conn_list` and the
buffers if and only if it has no such failure either. -/
theorem echo_bounds_iff {files : Int → Bool} {events : List (Event RecvResult Unit)} {last : System Conn Act}
    (run : Run (Taken (moves program fun _ event => Below event ∧ Succeeds event)) (start zero files) events last) :
    (∀ fd, Bounded (last.connList fd).conn) ∧
      ∀ event, May last event → Below event → ((∃ after, step program last event = some after) ↔ Succeeds event) := by
  have admits : ∀ (s : System Conn Act) event, Succeeds event → rules.Admits s event := by
    intro s event succeeds
    cases event with
    | readable result => exact fun _ _ => succeeds
    | writable => exact fun _ _ => trivial
    | _ => trivial
  have held : rules.Holds last := contract.run (fun s event met => admits s event met.2) zero_bounded run
  refine ⟨?_, ?_⟩
  · intro fd
    rcases held.either fd with idle | client
    · exact idle
    · obtain ⟨_, _, armed⟩ := client
      exact armed
  · intro event may below
    constructor
    · intro ⟨after, stepped⟩
      exact succeeds_of_step stepped
    · intro succeeds
      apply held.progress total may (admits last event succeeds)
      cases event with
      | port socket bind listen =>
        have opened := initServer_nonneg.mpr succeeds
        refine ⟨opened, ?_⟩
        rw [show program.initServer socket bind listen = socket from initServer_eq opened]
        exact below
      | accepted clientFd => exact below
      | _ => trivial

def waiting : List (Event RecvResult Unit) :=
  (List.range maxPorts).map (fun i => .port (3 + i) 0 0) ++
    [.wait [(3, .input)], .accepted 40, .wait [(40, .input)]]

theorem echo_bounds_iff_waiting : ∃ last,
    exec (moves program fun _ event => Below event ∧ Succeeds event) (start zero fun _ => false) waiting = some last ∧
      (∀ fd, Bounded (last.connList fd).conn) ∧ ¬ ∃ after, step program last (.readable .failed) = some after := by
  have reached : ((exec (moves program fun _ event => Below event ∧ Succeeds event) (start zero fun _ => false) waiting).map
      fun s => decide (May s (.readable .failed : Event RecvResult Unit))) = some true := by decide +kernel
  obtain ⟨last, reached, may⟩ := Option.map_eq_some_iff.mp reached
  obtain ⟨bounded, inside⟩ := echo_bounds_iff (Run.of_exec reached)
  refine ⟨last, reached, bounded, ?_⟩
  rw [inside _ (of_decide_eq_true may) trivial]
  decide

/-- A connection reset makes `recv_cb` copy `SIZE_MAX` bytes. -/
theorem echo_leaves_buffer : ¬ ∀ files events last,
    Run (Taken (moves program fun _ event => Below event)) (start zero files) events last →
      (∀ fd, Bounded (last.connList fd).conn) ∧
        ∀ event, May last event → Below event → ∃ after, step program last event = some after := by
  intro always
  have reached : ((exec (moves program fun _ event => Below event) (start zero fun _ => false) waiting).map
      fun s => decide (May s (.readable .failed : Event RecvResult Unit))) = some true := by decide +kernel
  obtain ⟨last, reached, may⟩ := Option.map_eq_some_iff.mp reached
  obtain ⟨-, inside⟩ := always _ waiting last (Run.of_exec reached)
  obtain ⟨after, stepped⟩ := inside (.readable .failed) (of_decide_eq_true may) trivial
  have received : (0 : Int) ≤ -1 := succeeds_of_step stepped
  omega

end NetPrograms.Proofs.EchoBounds
