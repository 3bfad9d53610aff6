import NetPrograms.Proofs.HttpStatus

/-! What the webserver puts on a connection when its system calls fail or do a part
of what they are asked for. -/

namespace NetPrograms.Proofs.HttpDelivery
open Reactor Reactor.Webserver ReactorSteps HttpStatus

variable {file : File}

def whole (file : File) : List UInt8 := header file.content.length ++ file.content

def Refused (calls : Calls) : Prop := calls.opened < 0 ∨ calls.fstat < 0

instance (calls : Calls) : Decidable (Refused calls) := inferInstanceAs (Decidable (_ ∨ _))

/-- While the header is due, it is sent in whole or the file cannot be read. While the
file is due, it is sent in whole, or it cannot be read and the header that is sent
instead does not leave either. -/
def Passes (file : File) (d : Delivery) (calls : Calls) : Prop :=
  (d.slot.conn.status = 0 → Refused calls ∨ calls.send.toNat = (header file.content.length).length) ∧
    (d.slot.conn.status = 1 →
      ¬ Refused calls ∧ calls.sendfile.toNat = file.content.length ∨ Refused calls ∧ calls.send.toNat = 0)

instance (file : File) (d : Delivery) (calls : Calls) : Decidable (Passes file d calls) :=
  inferInstanceAs (Decidable (_ ∧ _))

structure Headed (file : File) (c : Conn) : Prop where
  length : c.wlength = ((header file.content.length).length : Nat)
  stored : c.wbuffer.cells.take (header file.content.length).length = header file.content.length

inductive Progress (file : File) (d : Delivery) : Prop where
  | requested (status : d.slot.conn.status = 0) (armed : d.armed = .output) (wire : d.wire = [])
  | header (status : d.slot.conn.status = 1) (armed : d.armed = .output) (headed : Headed file d.slot.conn)
      (wire : d.wire = Webserver.header file.content.length)
  | body (status : d.slot.conn.status = 2) (armed : d.armed = .output) (wire : d.wire = whole file)
  | done (armed : d.armed = .input) (wire : d.wire = [] ∨ d.wire = whole file)

variable {d after : Delivery} {calls : Calls}

theorem httpResponse_refused (slot : Slot Conn) (refused : Refused calls) :
    ∃ code, httpResponse file slot calls = some (slot.conn, [], code) := by
  unfold httpResponse
  by_cases opened : calls.opened < 0
  · exact ⟨-1, if_pos opened⟩
  · have fstat : calls.fstat < 0 := refused.resolve_left opened
    exact ⟨-2, by rw [if_neg opened, if_pos fstat]⟩

/-- The callback returns early from `http_response`, and goes by the old status. -/
theorem sendCb_refused (slot : Slot Conn) (refused : Refused calls) :
    (slot.conn.status = 0 → sendCb file slot.fd slot calls =
      some {
        conn := slot.conn
        acts := []
        next := .arm .input }) ∧
    (slot.conn.status = 1 → Headed file slot.conn → sendCb file slot.fd slot calls =
      some {
        conn := slot.conn
        acts := [(slot.fd, .sent ((header file.content.length).take calls.send.toNat))]
        next := .arm .output }) ∧
    (slot.conn.status = 2 → sendCb file slot.fd slot calls =
      some {
        conn := slot.conn
        acts := []
        next := .arm .output }) := by
  obtain ⟨code, returned⟩ := @httpResponse_refused file calls slot refused
  refine ⟨?_, ?_, ?_⟩
  · intro status
    simp only [sendCb, returned, status, Option.bind_eq_bind, Option.bind_some]
    rfl
  · intro status headed
    have read := header_read headed.stored
    rw [← headed.length] at read
    simp only [sendCb, returned, status, read, Option.bind_eq_bind, Option.bind_some]
    rfl
  · intro status
    simp only [sendCb, returned, status, Option.bind_eq_bind, Option.bind_some]
    rfl

private theorem reads (reading : ¬ Refused calls) : 0 ≤ calls.opened ∧ 0 ≤ calls.fstat := by
  obtain ⟨opened, fstat⟩ := not_or.mp reading
  exact ⟨Int.not_lt.mp opened, Int.not_lt.mp fstat⟩

theorem deliver_progress (progress : Progress file d) (passes : Passes file d calls)
    (delivered : deliver file d calls = some after) : Progress file after := by
  unfold deliver at delivered
  split at delivered
  next armed =>
    obtain ⟨out, called, rest⟩ := Option.bind_eq_some_iff.mp delivered
    obtain rfl := Option.some.inj rest
    cases progress with
    | requested status _ wire =>
      by_cases refused : Refused calls
      · obtain rfl := Option.some.inj (((sendCb_refused d.slot refused).1 status).symm.trans called)
        exact .done rfl (Or.inl (by simp [wire]))
      · obtain ⟨opened, fstat⟩ := reads refused
        obtain ⟨conn, sent, length, stored, returned⟩ := @sendCb_header file d.slot calls opened fstat status
        obtain rfl := Option.some.inj (returned.symm.trans called)
        have count := (passes.1 status).resolve_left refused
        exact .header sent rfl ⟨length, stored⟩ (by simp [wire, count, Act.bytes])
    | header status _ headed wire =>
      by_cases refused : Refused calls
      · obtain rfl := Option.some.inj (((sendCb_refused d.slot refused).2.1 status headed).symm.trans called)
        have count := ((passes.2 status).resolve_left fun reading => reading.1 refused).2
        exact .header status rfl headed (by simp [wire, count, Act.bytes])
      · obtain ⟨opened, fstat⟩ := reads refused
        obtain rfl := Option.some.inj ((sendCb_body opened fstat status).symm.trans called)
        have count := ((passes.2 status).resolve_right fun refusing => refused refusing.1).2
        exact .body rfl rfl (by simp [wire, count, Act.bytes, whole])
    | body status _ wire =>
      by_cases refused : Refused calls
      · obtain rfl := Option.some.inj (((sendCb_refused d.slot refused).2.2 status).symm.trans called)
        exact .body status rfl (by simp [wire])
      · obtain ⟨opened, fstat⟩ := reads refused
        obtain rfl := Option.some.inj ((sendCb_finish opened fstat status).symm.trans called)
        exact .done rfl (Or.inr (by simp [wire]))
    | done input _ =>
      rw [armed] at input
      cases input
  next => cases delivered

theorem received_progress {slot : Slot Conn} {chunk : Chunk} (begun : received slot chunk = some d) : Progress file d := by
  obtain ⟨conn, status, -, returned⟩ := recvCb_data slot chunk
  obtain ⟨out, called, rest⟩ := Option.bind_eq_some_iff.mp begun
  obtain rfl := Option.some.inj (returned.symm.trans called)
  obtain rfl := Option.some.inj rest
  exact .requested status rfl rfl

/-- While every `send_cb` passes on what is due, the connection carries a part of the
response from its beginning, and a connection that is readable again carries all of it
or nothing. -/
theorem http_delivery {slot : Slot Conn} {chunk : Chunk} {first last : Delivery} {calls : List Calls}
    (begun : received slot chunk = some first)
    (run : Run (Taken (meeting (Passes file) (deliver file))) first calls last) :
    last.wire <+: whole file ∧ (last.armed = .input → last.wire = [] ∨ last.wire = whole file) := by
  have progress : Progress file last := by
    apply run.invariant (Progress file) (received_progress begun)
    intro before calls after held taken
    obtain ⟨passes, delivered⟩ := meeting_eq_some taken
    exact deliver_progress held passes delivered
  cases progress with
  | requested _ armed wire =>
    refine ⟨wire ▸ List.nil_prefix, ?_⟩
    exact fun input => nomatch armed.symm.trans input
  | header _ armed _ wire =>
    refine ⟨wire ▸ List.prefix_append _ _, ?_⟩
    exact fun input => nomatch armed.symm.trans input
  | body _ armed wire =>
    refine ⟨wire ▸ List.prefix_refl _, ?_⟩
    exact fun input => nomatch armed.symm.trans input
  | done _ wire =>
    refine ⟨?_, fun _ => wire⟩
    rcases wire with none | all
    · exact none ▸ List.nil_prefix
    · exact all ▸ List.prefix_refl _

/-- The file cannot be opened while it is due, and later it can. -/
def interrupted : List Calls :=
  [⟨100, 0, 0, (header 1).length⟩, ⟨-1, 0, 0, -1⟩, ⟨100, 0, 1, 0⟩, ⟨100, -1, 0, 0⟩, ⟨100, 0, 0, 0⟩]

def client : Slot Conn where
  fd := 40
  conn := zero
  recvCallback := some .recvCb
  sendCallback := true

theorem http_delivery_interrupted : ∃ first last, received client request = some first ∧
    exec (meeting (Passes page) (deliver page)) first interrupted = some last ∧
      last.wire <+: whole page ∧ last.armed = .input := by
  have reached : ((received client request).bind fun first =>
      (exec (meeting (Passes page) (deliver page)) first interrupted).map (·.armed)) = some .input := by decide +kernel
  obtain ⟨first, begun, rest⟩ := Option.bind_eq_some_iff.mp reached
  obtain ⟨last, reached, armed⟩ := Option.map_eq_some_iff.mp rest
  exact ⟨first, last, begun, reached, (http_delivery begun (Run.of_exec reached)).1, armed⟩

/-- Of the header only one byte is sent, and the file follows. -/
def short : List Calls := [⟨100, 0, 0, 1⟩, ⟨100, 0, 1, 0⟩]

theorem http_truncates_header : ¬ ∀ file slot chunk first calls last, received slot chunk = some first →
    Run (Taken (deliver file)) first calls last →
      last.wire <+: whole file ∧ (last.armed = .input → last.wire = [] ∨ last.wire = whole file) := by
  intro always
  have reached : ((received client request).bind fun first =>
      (exec (deliver page) first short).map (·.wire)) = some [72, 104] := by decide +kernel
  obtain ⟨first, begun, rest⟩ := Option.bind_eq_some_iff.mp reached
  obtain ⟨last, reached, wire⟩ := Option.map_eq_some_iff.mp rest
  have sent := (always page client request first short last begun (Run.of_exec reached)).1
  rw [wire] at sent
  revert sent
  decide

end NetPrograms.Proofs.HttpDelivery
