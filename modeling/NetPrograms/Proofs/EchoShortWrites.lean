import NetPrograms.Proofs.EchoBounds
import NetPrograms.Reactor.EchoSends

/-! Which runs of the echo reactor get every chunk out before they read again.
`send_cb` watches for input whatever `send` returned. -/

namespace NetPrograms.Proofs.EchoShortWrites
open Reactor Reactor.Echo Reactor.EchoSends ReactorSteps ReactorRule EchoIsolation

def progress (log : List EchoSends.Act) : List UInt8 × List UInt8 :=
  log.foldl (fun (chunk, sent) act =>
    match act with
    | .call (.received bytes) => (bytes, [])
    | .call (.handed _) => (chunk, sent)
    | .accepted bytes => (chunk, sent ++ bytes)) ([], [])

/-- All of the chunk is sent when the connection is watched for input, and the rest of
it is queued while it is watched for output. -/
def Delivered (c : Conn) (log : List EchoSends.Act) : Interest → Prop
  | .input => (progress log).2 = (progress log).1
  | .output => ∃ unsent, (progress log).1 = (progress log).2 ++ unsent ∧ Copied c unsent

def AllDelivered (s : System Conn EchoSends.Act) : Prop :=
  ∀ fd event, s.interest fd = some event → (s.connList fd).recvCallback = some .recvCb →
    Delivered (s.connList fd).conn (s.log fd) event

def Whole (c : Conn) : SendResult → Prop
  | .sent room => c.wlength ≤ room + 1
  | .again => False

instance (c : Conn) (result : SendResult) : Decidable (Whole c result) :=
  match result with
  | .sent room => inferInstanceAs (Decidable (c.wlength ≤ room + 1))
  | .again => isFalse id

/-- The first entry of the batch is the connection that the callback is called for. -/
def WholeSend (s : System Conn EchoSends.Act) : Event RecvResult SendResult → Prop
  | .writable result => ∀ entry ∈ s.batch.head?, Whole (s.connList entry.1).conn result
  | _ => True

instance (s : System Conn EchoSends.Act) (event : Event RecvResult SendResult) : Decidable (WholeSend s event) :=
  match event with
  | .writable result => inferInstanceAs (Decidable (∀ entry ∈ s.batch.head?, Whole (s.connList entry.1).conn result))
  | .port _ _ _ | .wait _ | .accepted _ | .readable _ => isTrue trivial

def rules : Rules Conn EchoSends.Act RecvResult SendResult where
  idle _ _ := True
  armed c log
    | .input => (progress log).2 = (progress log).1
    | .output => ∃ unsent, unsent ≠ [] ∧ (progress log).1 = (progress log).2 ++ unsent ∧ Copied c unsent
  mayRecv _ _ := True
  maySend := Whole

theorem progress_received (log : List EchoSends.Act) (bytes : List UInt8) :
    progress (log ++ [.call (.received bytes)]) = (bytes, []) := by
  simp [progress]

theorem progress_sent (log : List EchoSends.Act) (handed accepted : List UInt8) :
    progress (log ++ [.call (.handed handed), .accepted accepted]) = ((progress log).1, (progress log).2 ++ accepted) := by
  simp [progress]

theorem sendCb_eq (slot : Slot Conn) (result : SendResult) {unsent : List UInt8} (copied : Copied slot.conn unsent) :
    EchoSends.sendCb slot.fd slot result = some {
      conn := slot.conn
      acts := [(slot.fd, .call (.handed unsent)), (slot.fd, .accepted (result.taken unsent))]
      next := .arm .input } := by
  have read : slot.conn.wbuffer.read 0 (toSize slot.conn.wlength) = some unsent := by
    have fits := copied.fits
    rw [copied.length, toSize_eq fits, Buffer.read_of_le (by omega), Block.slice_zero, copied.stored]
  simp only [EchoSends.sendCb, Echo.sendCb, read, Option.bind_eq_bind, Option.bind_some]
  rfl

/-- A whole send takes what is queued, and a short one less. -/
theorem whole_iff {c : Conn} {unsent : List UInt8} (copied : Copied c unsent) (some_ : unsent ≠ []) (result : SendResult) :
    Whole c result ↔ result.taken unsent = unsent := by
  cases result with
  | sent room =>
    rw [Whole, copied.length, SendResult.taken, List.take_eq_self_iff]
    omega
  | again =>
    constructor
    · intro none
      cases none
    · intro none
      exact absurd none.symm some_

theorem contract : rules.Contract EchoSends.program := by
  refine ⟨fun _ _ _ opened => initServer_eq opened, ?_, ?_, ?_⟩
  · intro conn log _
    rfl
  · intro slot log result out _ _ called
    obtain ⟨out, echoed, rfl⟩ := Option.map_eq_some_iff.mp called
    cases result with
    | data chunk =>
      obtain ⟨conn, copied, -, returned⟩ := recvCb_data slot chunk
      obtain rfl := Option.some.inj (returned.symm.trans echoed)
      refine ⟨by simp [calls], chunk.bytes, chunk.nonempty, ?_, copied⟩
      simp [calls, progress_received]
    | disconnect =>
      obtain ⟨rbuffer, returned⟩ := recvCb_disconnect slot
      obtain rfl := Option.some.inj (returned.symm.trans echoed)
      exact ⟨nofun, trivial⟩
    | failed => cases (EchoBounds.recvCb_failed _ _).symm.trans echoed
  · intro slot log result out armed whole called
    obtain ⟨unsent, some_, rest, copied⟩ := armed
    obtain rfl := Option.some.inj ((sendCb_eq slot result copied).symm.trans called)
    refine ⟨by simp, ?_⟩
    simp only [List.map_cons, List.map_nil]
    change (progress _).2 = (progress _).1
    rw [progress_sent, (whole_iff copied some_ result).mp whole, rest]

theorem delivered_of_holds {s : System Conn EchoSends.Act} (held : rules.Holds s) : AllDelivered s := by
  intro fd event watched client
  obtain ⟨-, -, armed⟩ := (held.registered fd event watched).client client
  cases event with
  | input => exact armed
  | output =>
    obtain ⟨unsent, -, rest, copied⟩ := armed
    exact ⟨unsent, rest, copied⟩

/-- After a short send the connection is watched for input with a part of its chunk
not sent. -/
theorem short_undelivered {s after : System Conn EchoSends.Act} {event : Event RecvResult SendResult} (held : rules.Holds s)
    (stepped : step EchoSends.program s event = some after) (short : ¬ WholeSend s event) : ¬ AllDelivered after := by
  cases step_cases stepped with
  | port | wait | accepted | readable => exact absurd trivial short
  | @writable fd batch result out head inside _ called =>
    have watched := held.reported (fd, .output) (head ▸ List.mem_cons_self)
    obtain ⟨client, same, unsent, some_, rest, copied⟩ := (held.registered fd .output watched).output
    have returned := sendCb_eq (s.connList fd) result copied
    rw [same] at returned
    obtain rfl := Option.some.inj (returned.symm.trans called)
    have notWhole : result.taken unsent ≠ unsent := by
      rw [Ne, ← whole_iff copied some_]
      intro whole
      apply short
      intro entry first
      rw [head] at first
      obtain rfl := Option.some.inj first
      exact whole
    have armed := (@finish_own _ _ { s with batch } fd .output watched
      ⟨(s.connList fd).conn, [(fd, .call (.handed unsent)), (fd, .accepted (result.taken unsent))], .arm .input⟩).1
    intro delivered
    have all := delivered fd .input armed (by rw [finish_connList, Function.update_self]; exact client)
    rw [finish_connList, finish_log, Function.update_self, noted_own (by simp)] at all
    simp only [Delivered, List.map_cons, List.map_nil, progress_sent, rest, List.append_cancel_left_eq] at all
    exact notWhole all

/-- In a run of the reactor every chunk is sent before its connection is watched for
input again exactly when every `send` takes all that it is called with. -/
theorem echo_delivers_iff (files : Int → Bool) (events : List (Event RecvResult SendResult)) (last : System Conn EchoSends.Act)
    (reached : exec (moves EchoSends.program fun _ _ => True) (start zero files) events = some last) :
    Throughout (moves EchoSends.program fun _ _ => True) AllDelivered (start zero files) events ↔
      exec (meeting WholeSend (moves EchoSends.program fun _ _ => True)) (start zero files) events = some last := by
  have initial : rules.Holds (start zero files) := Rules.Holds.start files trivial
  refine (throughout_iff_meeting rules.Holds AllDelivered initial (delivered_of_holds initial) ?_ reached).2
  intro before event after held taken
  obtain ⟨⟨may, -⟩, stepped⟩ := meeting_eq_some taken
  by_cases whole : WholeSend before event
  · have admits : rules.Admits before event := by
      cases event with
      | writable => exact whole
      | readable => exact fun _ _ => trivial
      | port | wait | accepted => trivial
    have kept := held.step contract may admits stepped
    exact ⟨⟨fun _ => whole, fun _ => delivered_of_holds kept⟩, fun _ => kept⟩
  · have undelivered := short_undelivered held stepped whole
    exact ⟨⟨fun delivered => absurd delivered undelivered, fun met => absurd met whole⟩,
      fun delivered => absurd delivered undelivered⟩

theorem hi_nonempty : ([104, 105] : List UInt8) ≠ [] := by decide

theorem hi_fits : ([104, 105] : List UInt8).length ≤ bufferLength := by decide

/-- The ports are opened, a client is accepted, and `send` is called with its two
bytes. -/
def visitWith (result : SendResult) : List (Event RecvResult SendResult) :=
  (List.range maxPorts).map (fun i => .port (3 + i) 0 0) ++
    [.wait [(3, .input)], .accepted 40, .wait [(40, .input)],
      .readable (.data ⟨[104, 105], hi_nonempty, hi_fits⟩), .wait [(40, .output)], .writable result]

theorem echo_delivers_iff_visit : ∃ last,
    exec (moves EchoSends.program fun _ _ => True) (start zero fun _ => false) (visitWith (.sent 1)) = some last ∧
      (Throughout (moves EchoSends.program fun _ _ => True) AllDelivered (start zero fun _ => false) (visitWith (.sent 1)) ↔
        exec (meeting WholeSend (moves EchoSends.program fun _ _ => True)) (start zero fun _ => false)
          (visitWith (.sent 1)) = some last) := by
  have ends : (exec (moves EchoSends.program fun _ _ => True) (start zero fun _ => false) (visitWith (.sent 1))).isSome := by
    decide +kernel
  obtain ⟨last, reached⟩ := Option.isSome_iff_exists.mp ends
  exact ⟨last, reached, echo_delivers_iff _ _ last reached⟩

/-- Of two bytes `send` accepts one, and the connection is watched for input. -/
theorem echo_drops_byte : ∃ last,
    exec (moves EchoSends.program fun _ _ => True) (start zero fun _ => false) (visitWith (.sent 0)) = some last ∧
      ¬ AllDelivered last := by
  have ends : ((exec (moves EchoSends.program fun _ _ => True) (start zero fun _ => false) (visitWith (.sent 0))).map
      fun s => (s.interest 40, (s.connList 40).recvCallback, progress (s.log 40))) =
        some (some .input, some .recvCb, [104, 105], [104]) := by decide +kernel
  obtain ⟨last, reached, same⟩ := Option.map_eq_some_iff.mp ends
  obtain ⟨watched, client, log⟩ : last.interest 40 = some .input ∧ (last.connList 40).recvCallback = some .recvCb ∧
      progress (last.log 40) = ([104, 105], [104]) := by simpa using same
  refine ⟨last, reached, ?_⟩
  intro delivered
  have all := delivered 40 .input watched client
  simp only [Delivered, log] at all
  cases all

end NetPrograms.Proofs.EchoShortWrites
