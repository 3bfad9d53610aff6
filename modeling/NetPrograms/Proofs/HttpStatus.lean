import NetPrograms.Proofs.ReactorReceipts
import NetPrograms.Proofs.ReactorRule
import NetPrograms.Reactor.Webserver

/-! The response state of the webserver when its system calls succeed: what `status`
says agrees with what was put on the connection and with the event that is armed. -/

namespace NetPrograms.Proofs.HttpStatus
open Reactor Reactor.Webserver ReactorSteps ReactorRule ReactorReceipts

variable {file : File}

/-- What is put on a connection for one request. -/
def response (file : File) : List Act := [.sent (header file.content.length), .body file.content]

/-- Each request is answered in full before the next one is received. -/
def rounds (file : File) (requests : List (List UInt8)) : List Act :=
  requests.flatMap fun bytes => .received bytes :: response file

theorem rounds_snoc (requests : List (List UInt8)) (bytes : List UInt8) :
    rounds file (requests ++ [bytes]) = rounds file requests ++ .received bytes :: response file := by
  simp [rounds]

/-- The system calls of a `send_cb` succeed in full. -/
structure Full (file : File) (calls : Calls) : Prop where
  opened : 0 ≤ calls.opened
  fstat : 0 ≤ calls.fstat
  sendfile : calls.sendfile = file.content.length
  send : calls.send = (header file.content.length).length

instance (file : File) (calls : Calls) : Decidable (Full file calls) :=
  decidable_of_iff (0 ≤ calls.opened ∧ 0 ≤ calls.fstat ∧ calls.sendfile = file.content.length ∧
      calls.send = (header file.content.length).length)
    ⟨fun ⟨opened, fstat, sendfile, send⟩ => ⟨opened, fstat, sendfile, send⟩,
      fun ⟨opened, fstat, sendfile, send⟩ => ⟨opened, fstat, sendfile, send⟩⟩

/-- The response that is in progress has come as far as `status` says. -/
def InProgress (file : File) (c : Conn) (log : List Act) : Prop :=
  ∃ requests bytes, ∃ step : Nat, c.status = step ∧ step ≤ 2 ∧
    log = rounds file requests ++ .received bytes :: (response file).take step

def rules (file : File) : Rules Conn Act RecvResult Calls where
  idle c log := c.status = 0 ∧ ∃ requests, log = rounds file requests
  armed c log
    | .input => c.status = 0 ∧ c.wlength = 0 ∧ ∃ requests, log = rounds file requests
    | .output => InProgress file c log
  mayRecv _ _ := True
  maySend _ calls := Full file calls

theorem header_fits (file : File) : (header file.content.length).length < bufferLength := by
  have numeral : (digits file.content.length).length ≤ 19 := by
    apply digits_length (by decide)
    have small := file.small
    omega
  unfold header
  rw [List.length_append, List.length_append]
  have front : (ascii ("HTTP/1.1 200 OK\r\n" ++ "Content-Type: text/html\r\n" ++ "Accept-Ranges: bytes\r\n" ++
    "Content-Length: ")).length = 80 := by decide
  have back : (ascii ("\r\n" ++ "Date: Mon, 04 Aug 2025 17:48:00 GMT\r\n\r\n")).length = 41 := by decide
  rw [front, back]
  show _ < 1024
  omega

/-- What `send` is given while the buffer holds the header. -/
theorem header_read {wbuffer : Buffer UInt8 bufferLength}
    (stored : wbuffer.cells.take (header file.content.length).length = header file.content.length) :
    wbuffer.read 0 (toSize ((header file.content.length).length : Int)) = some (header file.content.length) := by
  have fits := header_fits file
  rw [toSize_eq (Nat.le_of_lt fits), Buffer.read_of_le (by omega), Block.slice_zero, stored]

section
variable {slot : Slot Conn} {calls : Calls}

section
variable (opened : 0 ≤ calls.opened) (fstat : 0 ≤ calls.fstat)
include opened fstat

/-- `http_response` writes the header to the buffer, with the zero of `sprintf` behind it. -/
theorem httpResponse_header (status : slot.conn.status = 0) : ∃ wbuffer : Buffer UInt8 bufferLength,
    wbuffer.cells.take (header file.content.length).length = header file.content.length ∧
      httpResponse file slot calls =
        some ({ slot.conn with wbuffer, wlength := (header file.content.length).length, status := 1 }, [],
          ((header file.content.length).length : Int)) := by
  have fits := header_fits file
  obtain ⟨wbuffer, written, cells⟩ := Buffer.write_of_le slot.conn.wbuffer 0 (header file.content.length ++ [0])
    (by rw [List.length_append, List.length_singleton]; omega)
  rw [Block.overlay_zero, List.append_assoc] at cells
  refine ⟨wbuffer, by rw [cells, List.take_left], ?_⟩
  simp only [httpResponse, Int.not_lt.mpr opened, Int.not_lt.mpr fstat, status, written, if_true, if_false,
    Option.bind_eq_bind, Option.bind_some]

theorem httpResponse_body (status : slot.conn.status = 1) :
    httpResponse file slot calls =
      some ({ slot.conn with status := 2 }, [(slot.fd, .body (file.content.take calls.sendfile.toNat))],
        slot.conn.wlength) := by
  simp only [httpResponse, Int.not_lt.mpr opened, Int.not_lt.mpr fstat, status, if_true, if_false]
  rfl

theorem httpResponse_finish (status : slot.conn.status = 2) :
    httpResponse file slot calls =
      some ({ slot.conn with wbuffer := Buffer.fill 0, wlength := 0, status := 0 }, [], 0) := by
  simp only [httpResponse, Int.not_lt.mpr opened, Int.not_lt.mpr fstat, status, if_true, if_false]
  rfl

/-- The header is written to the buffer and sent. -/
theorem sendCb_header (status : slot.conn.status = 0) :
    ∃ conn : Conn, conn.status = 1 ∧ conn.wlength = (header file.content.length).length ∧
      conn.wbuffer.cells.take (header file.content.length).length = header file.content.length ∧
      sendCb file slot.fd slot calls =
        some {
          conn
          acts := [(slot.fd, .sent ((header file.content.length).take calls.send.toNat))]
          next := .arm .output } := by
  obtain ⟨wbuffer, stored, responded⟩ := @httpResponse_header file _ _ opened fstat status
  have read := header_read stored
  let conn : Conn := { slot.conn with
    wbuffer
    wlength := (header file.content.length).length
    status := 1 }
  refine ⟨conn, rfl, rfl, stored, ?_⟩
  simp only [sendCb, responded, read, if_true, Option.bind_eq_bind, Option.bind_some]
  rfl

theorem sendCb_body (status : slot.conn.status = 1) :
    sendCb file slot.fd slot calls =
      some {
        conn := { slot.conn with status := 2 }
        acts := [(slot.fd, .body (file.content.take calls.sendfile.toNat))]
        next := .arm .output } := by
  rw [sendCb, httpResponse_body opened fstat status]
  rfl

theorem sendCb_finish (status : slot.conn.status = 2) :
    sendCb file slot.fd slot calls =
      some {
        conn := { slot.conn with wbuffer := Buffer.fill 0, wlength := 0, status := 0 }
        acts := []
        next := .arm .input } := by
  rw [sendCb, httpResponse_finish opened fstat status]
  rfl

end

theorem recvCb_data (slot : Slot Conn) (chunk : Chunk) : ∃ conn : Conn, conn.status = 0 ∧ conn.wlength = 0 ∧
    recvCb slot.fd slot (.data chunk) =
      some {
        conn
        acts := [(slot.fd, .received chunk.bytes)]
        next := .arm .output } := by
  have fits := chunk.fits
  obtain ⟨rbuffer, written, -⟩ := Buffer.write_of_le (Buffer.fill 0 : Buffer UInt8 bufferLength) 0 chunk.bytes (by omega)
  let conn := httpRequest { slot.conn with
    rbuffer
    rlength := (RecvResult.data chunk).count }
  refine ⟨conn, rfl, rfl, ?_⟩
  simp only [recvCb, written, Option.bind_eq_bind, Option.bind_some]
  rfl

end

theorem contract : (rules file).Contract (program file) := by
  refine ⟨fun _ _ _ opened => initServer_eq opened, ?_, ?_, ?_⟩
  · intro conn log idle
    exact ⟨idle.1, rfl, [], rfl⟩
  · intro slot log result out armed _ called
    obtain ⟨status, -, requests, rfl⟩ := armed
    cases result with
    | data chunk =>
      obtain ⟨conn, fresh, -, returned⟩ := recvCb_data slot chunk
      obtain rfl := Option.some.inj (returned.symm.trans called)
      exact ⟨by simp, requests, chunk.bytes, 0, fresh, by decide, rfl⟩
    | disconnect =>
      obtain rfl := Option.some.inj called
      exact ⟨nofun, status, requests, List.append_nil _⟩
    | failed =>
      obtain rfl := Option.some.inj called
      exact ⟨nofun, status, requests, List.append_nil _⟩
  · intro slot log calls out armed full called
    obtain ⟨requests, bytes, step, status, progress, rfl⟩ := armed
    -- one step of the response each
    obtain rfl | rfl | rfl : step = 0 ∨ step = 1 ∨ step = 2 := by omega
    · obtain ⟨conn, sent, -, -, returned⟩ := @sendCb_header file slot calls full.opened full.fstat status
      obtain rfl := Option.some.inj (returned.symm.trans called)
      refine ⟨by simp, requests, bytes, 1, sent, by decide, ?_⟩
      simp [full.send, response]
    · obtain rfl := Option.some.inj ((sendCb_body full.opened full.fstat status).symm.trans called)
      refine ⟨by simp, requests, bytes, 2, rfl, by decide, ?_⟩
      simp [full.sendfile, response]
    · obtain rfl := Option.some.inj ((sendCb_finish full.opened full.fstat status).symm.trans called)
      refine ⟨by simp, rfl, rfl, requests ++ [bytes], ?_⟩
      simp [rounds_snoc, response]

/-- The condition on a run: what `send_cb` calls succeeds in full. -/
def Succeeds (file : File) : Event RecvResult Calls → Prop
  | .writable calls => Full file calls
  | _ => True

instance (file : File) (event : Event RecvResult Calls) : Decidable (Succeeds file event) :=
  match event with
  | .writable calls => inferInstanceAs (Decidable (Full file calls))
  | .port _ _ _ | .wait _ | .accepted _ | .readable _ => isTrue trivial

def receipt : Act → Option (List UInt8)
  | .received bytes => some bytes
  | .sent _ | .body _ => none

theorem httpResponse_silent {slot : Slot Conn} {calls : Calls} {conn : Conn} {acts : List (Int × Act)} {value : Int}
    (responded : httpResponse file slot calls = some (conn, acts, value)) : ∀ act ∈ acts, receipt act.2 = none := by
  simp only [httpResponse] at responded
  split_ifs at responded
  -- open, fstat, the three states, and any other status
  · obtain ⟨rfl, rfl, rfl⟩ := Option.some.inj responded
    exact nofun
  · obtain ⟨rfl, rfl, rfl⟩ := Option.some.inj responded
    exact nofun
  · obtain ⟨wbuffer, -, responded⟩ := Option.bind_eq_some_iff.mp responded
    obtain ⟨rfl, rfl, rfl⟩ := Option.some.inj responded
    exact nofun
  · obtain ⟨rfl, rfl, rfl⟩ := Option.some.inj responded
    simp [receipt]
  · obtain ⟨rfl, rfl, rfl⟩ := Option.some.inj responded
    exact nofun
  · obtain ⟨rfl, rfl, rfl⟩ := Option.some.inj responded
    exact nofun

theorem receipts : Receipts (program file) bytesOf receipt := by
  refine ⟨?_, ?_⟩
  · intro fd slot result out called
    cases result with
    | data chunk =>
      obtain ⟨rbuffer, -, rest⟩ := Option.bind_eq_some_iff.mp called
      obtain rfl := Option.some.inj rest
      exact ⟨by simp, rfl⟩
    | disconnect | failed =>
      obtain rfl := Option.some.inj called
      exact ⟨nofun, rfl⟩
  · intro fd slot calls out called
    obtain ⟨⟨conn, acts, value⟩, responded, rest⟩ := Option.bind_eq_some_iff.mp called
    have silent := httpResponse_silent responded
    dsimp only at rest
    split_ifs at rest
    · obtain ⟨bytes, -, rest⟩ := Option.bind_eq_some_iff.mp rest
      obtain rfl := Option.some.inj rest
      intro act member
      rcases List.mem_append.mp member with before | sent
      · exact silent act before
      · obtain rfl := List.mem_singleton.mp sent
        rfl
    all_goals
      obtain rfl := Option.some.inj rest
      exact silent

theorem rounds_receipts (requests : List (List UInt8)) : (rounds file requests).filterMap receipt = requests := by
  induction requests with
  | nil => rfl
  | cons bytes requests ih =>
    show bytes :: (rounds file requests).filterMap receipt = _
    rw [ih]

theorem response_receipts (step : Nat) : ((response file).take step).filterMap receipt = [] := by
  rw [List.filterMap_eq_nil_iff]
  intro act member
  have inside := List.mem_of_mem_take member
  simp only [response, List.mem_cons, List.not_mem_nil, or_false] at inside
  rcases inside with rfl | rfl <;> rfl

/-- In every run in which the calls of `send_cb` succeed in full, a client that is armed
for `EPOLLIN` has status 0, nothing to send and an answer in full to each chunk that
`recv` returned since it was accepted, and what a connection lacks of that is the rest
of its last answer. -/
theorem http_status {files : Int → Bool} {events : List (Event RecvResult Calls)} {last : System Conn Act}
    (run : Run (Taken (moves (program file) fun _ event => Succeeds file event)) (start zero files) events last) :
    ∀ fd, (last.connList fd).recvCallback = some .recvCb →
      (last.interest fd = some .input → (last.connList fd).conn.status = 0 ∧ (last.connList fd).conn.wlength = 0 ∧
        last.log fd = rounds file (heard bytesOf fd events)) ∧
      (last.interest fd = some .output → ∃ requests bytes, heard bytesOf fd events = requests ++ [bytes] ∧
        ∃ step : Nat, (last.connList fd).conn.status = step ∧ step ≤ 2 ∧
          last.log fd = rounds file requests ++ .received bytes :: (response file).take step) ∧
      (last.interest fd = none → last.log fd = rounds file (heard bytesOf fd events)) := by
  have held : (rules file).Holds last := by
    apply contract.run _ ⟨rfl, [], rfl⟩ run
    intro s event succeeds
    cases event with
    | readable result => exact fun _ _ => trivial
    | writable calls => exact fun _ _ => succeeds
    | _ => trivial
  intro fd client
  rw [← receipts.run run fd]
  refine ⟨?_, ?_, ?_⟩
  · intro known
    obtain ⟨status, wlength, requests, same⟩ := ((held.registered fd .input known).client client).2.2
    exact ⟨status, wlength, by rw [same, rounds_receipts]⟩
  · intro known
    obtain ⟨requests, bytes, step, status, within, same⟩ := ((held.registered fd .output known).client client).2.2
    refine ⟨requests, bytes, ?_, step, status, within, same⟩
    rw [same, List.filterMap_append, rounds_receipts]
    exact congrArg (requests ++ bytes :: ·) (response_receipts step)
  · intro unknown
    obtain ⟨-, requests, same⟩ := held.idle fd unknown
    rw [same, rounds_receipts]

/-- A file of one byte. -/
def page : File := ⟨[104], by decide⟩

def calls : Calls := ⟨100, 0, 1, (header 1).length⟩

def request : Chunk := ⟨[71], by decide, by decide⟩

def longer : Chunk := ⟨[80, 71], by decide, by decide⟩

/-- The three calls of `send_cb` for one request. -/
def answer (fd : Int) : List (Event RecvResult Calls) :=
  [.wait [(fd, .output)], .writable calls, .wait [(fd, .output)], .writable calls, .wait [(fd, .output)], .writable calls]

/-- Two clients. The first one has both of its requests answered and leaves, and the
header for the request of the next client on its descriptor is sent. -/
def visits : List (Event RecvResult Calls) :=
  (List.range maxPorts).map (fun i => .port (3 + i) 0 0) ++
    [.wait [(3, .input)], .accepted 40, .wait [(3, .input), (40, .input)], .accepted 41, .readable (.data request)] ++
    answer 40 ++ [.wait [(41, .input), (40, .input)], .readable (.data request), .readable (.data longer)] ++ answer 40 ++
    answer 41 ++ [.wait [(40, .input)], .readable .disconnect, .wait [(3, .input)], .accepted 40, .wait [(40, .input)],
      .readable (.data longer), .wait [(40, .output)], .writable calls]

theorem http_status_visits : ∃ last,
    exec (moves (program page) fun _ event => Succeeds page event) (start zero fun _ => false) visits = some last ∧
      (last.connList 41).conn.status = 0 ∧ (last.connList 41).conn.wlength = 0 ∧
      last.log 41 = [.received [71], .sent (header 1), .body [104]] ∧
      (last.connList 40).conn.status = 1 ∧ last.log 40 = [.received [80, 71], .sent (header 1)] := by
  have reached : ((exec (moves (program page) fun _ event => Succeeds page event) (start zero fun _ => false) visits).map
      fun s => ((s.connList 40).recvCallback, s.interest 40, (s.connList 41).recvCallback, s.interest 41,
        (s.connList 40).conn.status)) = some (some .recvCb, some .output, some .recvCb, some .input, 1) := by decide +kernel
  obtain ⟨last, reached, same⟩ := Option.map_eq_some_iff.mp reached
  simp only [Prod.mk.injEq] at same
  obtain ⟨client, armed, other, settled, status⟩ := same
  have asked : heard bytesOf 41 visits = [[71]] := by decide
  have again : heard bytesOf 40 visits = [] ++ [[80, 71]] := by decide
  obtain ⟨clear, empty, log⟩ := (http_status (Run.of_exec reached) 41 other).1 settled
  obtain ⟨requests, bytes, same, step, progress, -, pending⟩ := (http_status (Run.of_exec reached) 40 client).2.1 armed
  refine ⟨last, reached, clear, empty, ?_, status, ?_⟩
  · rw [log, asked]
    rfl
  · rw [again] at same
    obtain ⟨rfl, tail⟩ := List.append_inj' same rfl
    obtain rfl := (List.cons.inj tail).1
    obtain rfl : step = 1 := by omega
    exact pending

end NetPrograms.Proofs.HttpStatus
