import NetPrograms.Proofs.ReactorReceipts
import NetPrograms.Proofs.ReactorRule
import NetPrograms.Reactor.Echo

/-! The echo reactor hands to `send` on each connection what `recv` returned on it. -/

namespace NetPrograms.Proofs.EchoIsolation
open Reactor Reactor.Echo ReactorSteps ReactorRule ReactorReceipts

/-- Each chunk is received and handed over before the next one is received. -/
def rounds (chunks : List (List UInt8)) : List Act :=
  chunks.flatMap fun bytes => [.received bytes, .handed bytes]

theorem rounds_snoc (chunks : List (List UInt8)) (bytes : List UInt8) :
    rounds (chunks ++ [bytes]) = rounds chunks ++ [.received bytes, .handed bytes] := by
  simp [rounds]

structure Copied (c : Conn) (bytes : List UInt8) : Prop where
  length : c.wlength = bytes.length
  fits : bytes.length ≤ bufferLength
  stored : c.wbuffer.cells.take bytes.length = bytes

/-- At most one chunk is pending, and it is pending while the descriptor is watched for output. -/
def rules : Rules Conn Act RecvResult Unit where
  idle _ log := ∃ chunks, log = rounds chunks
  armed c log
    | .input => ∃ chunks, log = rounds chunks
    | .output => ∃ chunks bytes, log = rounds chunks ++ [.received bytes] ∧ Copied c bytes
  mayRecv _ result := 0 ≤ result.count
  maySend _ _ := True

theorem recvCb_data (slot : Slot Conn) (chunk : Chunk) : ∃ conn, Copied conn chunk.bytes ∧ conn.rlength = chunk.bytes.length ∧
    recvCb slot.fd slot (.data chunk) =
      some {
        conn
        acts := [(slot.fd, .received chunk.bytes)]
        next := .arm .output } := by
  have fits := chunk.fits
  have some : (RecvResult.data chunk).count ≠ 0 := by
    have positive := List.length_pos_iff.mpr chunk.nonempty
    simp only [RecvResult.count]
    omega
  obtain ⟨rbuffer, received, cells⟩ := Buffer.write_of_le slot.conn.rbuffer 0 chunk.bytes (by omega)
  have copied : rbuffer.read 0 (toSize (RecvResult.data chunk).count) = Option.some chunk.bytes := by
    have size : toSize (RecvResult.data chunk).count = chunk.bytes.length := toSize_eq fits
    rw [size, Buffer.read_of_le (by omega), cells, Block.slice_zero, Block.overlay_zero, List.take_left]
  obtain ⟨wbuffer, written, stored⟩ := Buffer.write_of_le slot.conn.wbuffer 0 chunk.bytes (by omega)
  refine ⟨⟨rbuffer, chunk.bytes.length, wbuffer, chunk.bytes.length⟩, ⟨rfl, fits, ?_⟩, rfl, ?_⟩
  · simp only [stored, Block.overlay_zero, List.take_left]
  · simp only [recvCb, received, some, copied, written, if_false, Option.bind_eq_bind, Option.bind_some]
    rfl

theorem recvCb_disconnect (slot : Slot Conn) : ∃ rbuffer,
    recvCb slot.fd slot .disconnect =
      some {
        conn := { slot.conn with rbuffer }
        acts := []
        next := .close } := by
  obtain ⟨rbuffer, written, -⟩ := Buffer.write_of_le slot.conn.rbuffer 0 [] (Nat.zero_le _)
  refine ⟨rbuffer, ?_⟩
  simp only [recvCb, written, Option.bind_eq_bind, Option.bind_some]
  rfl

theorem contract : rules.Contract program := by
  refine ⟨?_, ?_, ?_, ?_⟩
  · exact fun socket bind listen opened => initServer_eq opened
  · intro conn log _
    exact ⟨[], rfl⟩
  · intro slot log result out armed received called
    obtain ⟨chunks, rfl⟩ := armed
    cases result with
    | data chunk =>
      obtain ⟨conn, copied, -, returned⟩ := recvCb_data slot chunk
      obtain rfl := Option.some.inj (returned.symm.trans called)
      exact ⟨by simp, chunks, chunk.bytes, rfl, copied⟩
    | disconnect =>
      obtain ⟨rbuffer, returned⟩ := recvCb_disconnect slot
      obtain rfl := Option.some.inj (returned.symm.trans called)
      exact ⟨nofun, chunks, List.append_nil _⟩
    | failed =>
      have failure : (0 : Int) ≤ -1 := received
      omega
  · intro slot log result out armed _ called
    obtain ⟨chunks, bytes, rfl, length, fits, stored⟩ := armed
    have read : slot.conn.wbuffer.read 0 (toSize slot.conn.wlength) = some bytes := by
      rw [length, toSize_eq fits, Buffer.read_of_le (by omega), Block.slice_zero, stored]
    obtain ⟨handed, again, rest⟩ := Option.bind_eq_some_iff.mp called
    obtain rfl := Option.some.inj (read.symm.trans again)
    obtain rfl := Option.some.inj rest
    refine ⟨by simp, chunks ++ [bytes], ?_⟩
    rw [rounds_snoc]
    simp

def receipt : Act → Option (List UInt8)
  | .received bytes => some bytes
  | .handed _ => none

theorem receipts : Receipts program bytesOf receipt := by
  refine ⟨?_, ?_⟩
  · intro fd slot result out called
    obtain ⟨rbuffer, -, rest⟩ := Option.bind_eq_some_iff.mp called
    cases result with
    | data chunk =>
      have some : (RecvResult.data chunk).count ≠ 0 := by
        have positive := List.length_pos_iff.mpr chunk.nonempty
        simp only [RecvResult.count]
        omega
      rw [if_neg some] at rest
      obtain ⟨copied, -, rest⟩ := Option.bind_eq_some_iff.mp rest
      obtain ⟨wbuffer, -, rest⟩ := Option.bind_eq_some_iff.mp rest
      obtain rfl := Option.some.inj rest
      exact ⟨by simp, rfl⟩
    | disconnect =>
      obtain rfl := Option.some.inj rest
      exact ⟨nofun, rfl⟩
    | failed =>
      -- The length -1 is a `size_t` that `memcpy` cannot read.
      obtain ⟨copied, read, -⟩ := Option.bind_eq_some_iff.mp rest
      have inside := (Block.read_eq_some read).1
      rw [rbuffer.size] at inside
      exact absurd inside (by decide)
  · intro fd slot result out called
    obtain ⟨bytes, -, rest⟩ := Option.bind_eq_some_iff.mp called
    obtain rfl := Option.some.inj rest
    simp [receipt]

theorem rounds_receipts (chunks : List (List UInt8)) : (rounds chunks).filterMap receipt = chunks := by
  induction chunks with
  | nil => rfl
  | cons bytes chunks ih =>
    show bytes :: (rounds chunks).filterMap receipt = _
    rw [ih]

/-- In every run in which `recv` does not fail, what was handed to `send` on a connection
since it was accepted is what `recv` returned on it, chunk by chunk, up to one chunk
that is pending while the connection is watched for output. -/
theorem echo_isolation {files : Int → Bool} {events : List (Event RecvResult Unit)} {last : System Conn Act}
    (run : Run (Taken (moves program fun _ event => event.received)) (start zero files) events last) (fd : Int) :
    (last.interest fd ≠ some .output → last.log fd = rounds (heard bytesOf fd events)) ∧
      (last.interest fd = some .output → ∃ chunks bytes, heard bytesOf fd events = chunks ++ [bytes] ∧
        last.log fd = rounds chunks ++ [.received bytes]) := by
  have held : rules.Holds last := by
    apply contract.run _ ⟨[], rfl⟩ run
    intro s event received
    cases event with
    | readable result => exact fun _ _ => received
    | writable => exact fun _ _ => trivial
    | _ => trivial
  rw [← receipts.run run fd]
  refine ⟨?_, ?_⟩
  · intro settled
    have answered : ∃ chunks, last.log fd = rounds chunks := by
      rcases held.either fd with idle | ⟨event, known, armed⟩
      · exact idle
      · cases event with
        | input => exact armed
        | output => exact absurd known settled
    obtain ⟨chunks, same⟩ := answered
    rw [same, rounds_receipts]
  · intro pending
    obtain ⟨-, -, chunks, bytes, same, -⟩ := (held.registered fd .output pending).output
    refine ⟨chunks, bytes, ?_, same⟩
    rw [same, List.filterMap_append, rounds_receipts]
    rfl

/-- The ports are opened. Two clients send at the same time, the first one leaves, and the
next client on its descriptor sends twice and has one chunk pending. -/
def visits : List (Event RecvResult Unit) :=
  (List.range maxPorts).map (fun i => .port (3 + i) 0 0) ++
    [.wait [(3, .input)], .accepted 40, .wait [(3, .input)], .accepted 41, .wait [(40, .input), (41, .input)],
      .readable (.data ⟨[72, 111], by decide, by decide⟩), .readable (.data ⟨[89], by decide, by decide⟩),
      .wait [(41, .output), (40, .output)], .writable (), .writable (), .wait [(40, .input)], .readable .disconnect,
      .wait [(3, .input)], .accepted 40, .wait [(40, .input)], .readable (.data ⟨[65], by decide, by decide⟩),
      .wait [(40, .output)], .writable (), .wait [(40, .input)], .readable (.data ⟨[66, 67], by decide, by decide⟩)]

theorem echo_isolation_visits : ∃ last,
    exec (moves program fun _ event => event.received) (start zero fun _ => false) visits = some last ∧
      last.log 41 = [.received [89], .handed [89]] ∧
      last.log 40 = [.received [65], .handed [65], .received [66, 67]] := by
  have reached : ((exec (moves program fun _ event => event.received) (start zero fun _ => false) visits).map
      fun s => (s.interest 40, s.interest 41)) = some (some .output, some .input) := by decide +kernel
  obtain ⟨last, reached, interest⟩ := Option.map_eq_some_iff.mp reached
  obtain ⟨pending, settled⟩ := Prod.mk.inj interest
  have first : heard bytesOf 41 visits = [[89]] := by decide
  have second : heard bytesOf 40 visits = [[65]] ++ [[66, 67]] := by decide
  refine ⟨last, reached, ?_, ?_⟩
  · rw [(echo_isolation (Run.of_exec reached) 41).1 (by rw [settled]; decide), first]
    rfl
  · obtain ⟨chunks, bytes, same, log⟩ := (echo_isolation (Run.of_exec reached) 40).2 pending
    rw [second] at same
    obtain ⟨rfl, last⟩ := List.append_inj' same rfl
    obtain rfl := (List.cons.inj last).1
    exact log

end NetPrograms.Proofs.EchoIsolation
