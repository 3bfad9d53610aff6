import NetPrograms.Ikcp.Peers
import NetPrograms.Lib.Delivery

/-! The control block of ikcp.c as a sender and a receiver of selective repeat: what
`ikcp_input` does is what a sender does with acknowledgements and a receiver with
values. -/

namespace NetPrograms.Ikcp
open SelectiveRepeat

namespace Segment

def entry (seg : Segment) : UInt32 × Piece UInt8 := (seg.sn, seg.piece)

end Segment

namespace Ikcpcb

def sender (kcp : Ikcpcb) : Sender (Piece UInt8) :=
  { una := kcp.sndUna, nxt := kcp.sndNxt, buf := kcp.sndBuf.map Segment.entry, queue := kcp.sndQueue.map Segment.piece }

def receiver (kcp : Ikcpcb) : Receiver (Piece UInt8) :=
  { nxt := kcp.rcvNxt, wnd := kcp.rcvWnd, buf := kcp.rcvBuf.map Segment.entry, queue := kcp.rcvQueue.map Segment.entry }

/-- The four counters, modulo 2^32. -/
structure Counted (kcp : Ikcpcb) : Prop where
  rcvBuf : kcp.nrcvBuf = UInt32.ofNat kcp.rcvBuf.length
  sndBuf : kcp.nsndBuf = UInt32.ofNat kcp.sndBuf.length
  rcvQueue : kcp.nrcvQue = UInt32.ofNat kcp.rcvQueue.length
  sndQueue : kcp.nsndQue = UInt32.ofNat kcp.sndQueue.length

theorem counted_create (conv : UInt32) : Counted (ikcpCreate conv) := ⟨rfl, rfl, rfl, rfl⟩

end Ikcpcb

/-! Acknowledgements -/

theorem deleteAcked_entries (sn : UInt32) (segs : List Segment) :
    (deleteAcked sn segs).1.map Segment.entry = Sender.remove sn (segs.map Segment.entry) := by
  induction segs with
  | nil => rfl
  | cons seg rest ih =>
    by_cases same : sn = seg.sn
    · simp [deleteAcked, Sender.remove, Segment.entry, same]
    · by_cases before : Serial.diff sn seg.sn < 0
      · simp [deleteAcked, Sender.remove, Segment.entry, same, before]
      · simpa [deleteAcked, Sender.remove, Segment.entry, same, before] using ih

theorem deleteAcked_count (sn : UInt32) (segs : List Segment) :
    UInt32.ofNat segs.length = UInt32.ofNat (deleteAcked sn segs).1.length + (deleteAcked sn segs).2 := by
  induction segs with
  | nil => rfl
  | cons seg rest ih =>
    rw [deleteAcked, List.length_cons, UInt32.ofNat_add]
    split
    next => rfl
    next =>
      split
      next => simp
      next =>
        show UInt32.ofNat rest.length + UInt32.ofNat 1 =
          UInt32.ofNat ((deleteAcked sn rest).1.length + 1) + (deleteAcked sn rest).2
        rw [ih, UInt32.ofNat_add]
        grind

theorem deleteAcked_sublist (sn : UInt32) (segs : List Segment) : (deleteAcked sn segs).1.Sublist segs := by
  induction segs with
  | nil => exact List.Sublist.refl _
  | cons seg rest ih =>
    rw [deleteAcked]
    split
    next => exact List.sublist_cons_self seg rest
    next =>
      split
      next => exact List.Sublist.refl _
      next => exact ih.cons_cons seg

theorem skipAcked_entries (sn : UInt32) (segs : List Segment) :
    (skipAcked sn segs).map Segment.entry = segs.map Segment.entry := by
  induction segs with
  | nil => rfl
  | cons seg rest ih =>
    rw [skipAcked]
    split
    next => rfl
    next =>
      rw [List.map_cons, List.map_cons, ih]
      split <;> rfl

theorem skipAcked_length (sn : UInt32) (segs : List Segment) : (skipAcked sn segs).length = segs.length := by
  simpa using congrArg List.length (skipAcked_entries sn segs)

namespace Ikcpcb
variable {kcp : Ikcpcb}

theorem ikcpShrinkBuf_sender (kcp : Ikcpcb) : kcp.ikcpShrinkBuf.sender = kcp.sender.shrink := by
  unfold ikcpShrinkBuf sender Sender.shrink
  cases kcp.sndBuf <;> simp [Segment.entry]

theorem ikcpShrinkBuf_eq (kcp : Ikcpcb) : kcp.ikcpShrinkBuf = { kcp with sndUna := kcp.ikcpShrinkBuf.sndUna } := by
  unfold ikcpShrinkBuf
  split <;> rfl

theorem ikcpParseUna_sender (kcp : Ikcpcb) (una : UInt32) :
    (kcp.ikcpParseUna una).ikcpShrinkBuf.sender = kcp.sender.cumulate una := by
  rw [ikcpShrinkBuf_sender, Sender.cumulate]
  congr 1
  have left : (kcp.ikcpParseUna una).sender.buf = kcp.sender.buf.dropWhile fun entry => Serial.diff una entry.1 > 0 := by
    show List.map Segment.entry _ = (kcp.sndBuf.map Segment.entry).dropWhile _
    rw [List.dropWhile_map]
    rfl
  rw [← left]
  rfl

theorem ikcpParseAck_sender (kcp : Ikcpcb) (sn : UInt32) :
    (kcp.ikcpParseAck sn).ikcpShrinkBuf.sender = kcp.sender.acknowledge sn := by
  rw [ikcpShrinkBuf_sender, Sender.acknowledge]
  congr 1
  unfold ikcpParseAck
  by_cases looked : kcp.inFlight sn
  · have inside : ¬ (Serial.diff sn kcp.sender.una < 0 ∨ Serial.diff sn kcp.sender.nxt ≥ 0) := looked
    rw [if_pos looked, if_neg inside]
    simp [sender, deleteAcked_entries]
  · have outside : Serial.diff sn kcp.sender.una < 0 ∨ Serial.diff sn kcp.sender.nxt ≥ 0 := not_not.1 looked
    rw [if_neg looked, if_pos outside]

theorem Counted.parseUna (counted : Counted kcp) (una : UInt32) : Counted (kcp.ikcpParseUna una) := by
  refine ⟨counted.rcvBuf, ?_, counted.rcvQueue, counted.sndQueue⟩
  have shorter := (List.dropWhile_sublist (l := kcp.sndBuf) fun seg => itimediff una seg.sn > 0).length_le
  show kcp.nsndBuf - UInt32.ofNat (kcp.sndBuf.length - (kcp.sndBuf.dropWhile _).length) = UInt32.ofNat (kcp.sndBuf.dropWhile _).length
  rw [counted.sndBuf]
  generalize (kcp.sndBuf.dropWhile _).length = left at shorter ⊢
  obtain ⟨deleted, all⟩ := Nat.exists_eq_add_of_le shorter
  rw [all, Nat.add_sub_cancel_left, UInt32.ofNat_add]
  grind

theorem Counted.shrinkBuf (counted : Counted kcp) : Counted kcp.ikcpShrinkBuf := by
  rw [ikcpShrinkBuf_eq]
  exact ⟨counted.rcvBuf, counted.sndBuf, counted.rcvQueue, counted.sndQueue⟩

theorem Counted.parseAck (counted : Counted kcp) (sn : UInt32) : Counted (kcp.ikcpParseAck sn) := by
  unfold ikcpParseAck
  split
  next =>
    refine ⟨counted.rcvBuf, ?_, counted.rcvQueue, counted.sndQueue⟩
    have count := deleteAcked_count sn kcp.sndBuf
    show kcp.nsndBuf - (deleteAcked sn kcp.sndBuf).2 = UInt32.ofNat (deleteAcked sn kcp.sndBuf).1.length
    rw [counted.sndBuf, count]
    grind
  next => exact counted

theorem Counted.parseFastack (counted : Counted kcp) (sn : UInt32) : Counted (kcp.ikcpParseFastack sn) := by
  unfold ikcpParseFastack
  split
  next =>
    refine ⟨counted.rcvBuf, ?_, counted.rcvQueue, counted.sndQueue⟩
    show kcp.nsndBuf = UInt32.ofNat (skipAcked sn kcp.sndBuf).length
    rw [skipAcked_length]
    exact counted.sndBuf
  next => exact counted

theorem ikcpParseFastack_sender (kcp : Ikcpcb) (sn : UInt32) : (kcp.ikcpParseFastack sn).sender = kcp.sender := by
  unfold ikcpParseFastack
  split
  next => simp [sender, skipAcked_entries]
  next => rfl

end Ikcpcb

/-! Data -/

theorem insertSegment_entries (newseg : Segment) (segs : List Segment) :
    (insertSegment newseg segs).map (·.map Segment.entry) = Receiver.place newseg.entry (segs.map Segment.entry) := by
  induction segs with
  | nil => rfl
  | cons seg rest ih =>
    by_cases same : seg.sn = newseg.sn
    · simp [insertSegment, Receiver.place, Segment.entry, same]
    · by_cases after : Serial.diff newseg.sn seg.sn > 0
      · simp [insertSegment, Receiver.place, Segment.entry, same, after]
      · have step : Receiver.place newseg.entry ((seg :: rest).map Segment.entry) =
            (Receiver.place newseg.entry (rest.map Segment.entry)).map (seg.entry :: ·) := by
          simp only [List.map_cons, Receiver.place]
          exact (if_neg same).trans (if_neg after)
        rw [step, ← ih, insertSegment, if_neg same, itimediff_eq_diff, if_neg after, Option.map_map, Option.map_map]
        rfl

theorem insertSegment_length {newseg : Segment} {segs placed : List Segment}
    (found : insertSegment newseg segs = some placed) : placed.length = segs.length + 1 := by
  induction segs generalizing placed with
  | nil =>
    obtain rfl : [newseg] = placed := by simpa [insertSegment] using found
    rfl
  | cons seg rest ih =>
    unfold insertSegment at found
    split at found
    next => exact absurd found (by simp)
    next =>
      split at found
      next =>
        obtain rfl := Option.some.inj found
        rfl
      next =>
        obtain ⟨deeper, placed, rfl⟩ := Option.map_eq_some_iff.1 found
        rw [List.length_cons, ih placed, List.length_cons]

namespace Ikcpcb
variable {kcp : Ikcpcb}

/-- The loop changes nothing else. -/
theorem moveReady_eq (rest : List Segment) (kcp : Ikcpcb) :
    moveReady rest kcp =
      { kcp with
        rcvBuf := (moveReady rest kcp).rcvBuf
        nrcvBuf := (moveReady rest kcp).nrcvBuf
        rcvQueue := (moveReady rest kcp).rcvQueue
        nrcvQue := (moveReady rest kcp).nrcvQue
        rcvNxt := (moveReady rest kcp).rcvNxt } := by
  induction rest generalizing kcp with
  | nil => rfl
  | cons seg rest ih =>
    unfold moveReady
    split
    next => exact ih _
    next => rfl

theorem moveReady_receiver (rest : List Segment) (counted : kcp.nrcvQue = UInt32.ofNat kcp.rcvQueue.length) :
    (moveReady rest kcp).receiver = Receiver.move (rest.map Segment.entry) kcp.receiver := by
  induction rest generalizing kcp with
  | nil => rfl
  | cons seg rest ih =>
    have same : UInt32.ofNat kcp.receiver.queue.length = kcp.nrcvQue := by
      rw [counted]
      simp [receiver]
    by_cases ready : seg.sn = kcp.rcvNxt ∧ kcp.nrcvQue < kcp.rcvWnd
    · have also : seg.entry.1 = kcp.receiver.nxt ∧ UInt32.ofNat kcp.receiver.queue.length < kcp.receiver.wnd := by
        rw [same]
        exact ready
      rw [moveReady, if_pos ready, List.map_cons, Receiver.move, if_pos also, ih]
      · simp [receiver]
      · show kcp.nrcvQue + 1 = UInt32.ofNat (kcp.rcvQueue ++ [seg]).length
        rw [List.length_append, UInt32.ofNat_add, counted]
        rfl
    · have also : ¬ (seg.entry.1 = kcp.receiver.nxt ∧ UInt32.ofNat kcp.receiver.queue.length < kcp.receiver.wnd) := by
        rw [same]
        exact ready
      rw [moveReady, if_neg ready, List.map_cons, Receiver.move, if_neg also]
      rfl

theorem Counted.moveReady (rest : List Segment) (counted : Counted { kcp with rcvBuf := rest }) :
    Counted (moveReady rest kcp) := by
  induction rest generalizing kcp with
  | nil => exact counted
  | cons seg rest ih =>
    unfold Ikcpcb.moveReady
    split
    next =>
      refine ih ⟨?_, counted.sndBuf, ?_, counted.sndQueue⟩
      · have before := counted.rcvBuf
        change kcp.nrcvBuf = UInt32.ofNat (rest.length + 1) at before
        show kcp.nrcvBuf - 1 = UInt32.ofNat rest.length
        rw [before, UInt32.ofNat_add]
        have one : UInt32.ofNat 1 = 1 := rfl
        rw [one]
        grind
      · have before := counted.rcvQueue
        change kcp.nrcvQue = UInt32.ofNat kcp.rcvQueue.length at before
        show kcp.nrcvQue + 1 = UInt32.ofNat (kcp.rcvQueue ++ [seg]).length
        rw [List.length_append, UInt32.ofNat_add, before]
        rfl
    next => exact counted

/-- `ikcp_parse_data` as far as it is not done by the loop. -/
def insertData (kcp : Ikcpcb) (newseg : Segment) : Ikcpcb :=
  match insertSegment newseg kcp.rcvBuf.reverse with
  | some newestFirst => { kcp with rcvBuf := newestFirst.reverse, nrcvBuf := kcp.nrcvBuf + 1 }
  | none => kcp

theorem insertData_eq (kcp : Ikcpcb) (newseg : Segment) :
    kcp.insertData newseg =
      { kcp with rcvBuf := (kcp.insertData newseg).rcvBuf, nrcvBuf := (kcp.insertData newseg).nrcvBuf } := by
  unfold insertData
  split <;> rfl

theorem insertData_entries (kcp : Ikcpcb) (newseg : Segment) :
    (kcp.insertData newseg).rcvBuf.map Segment.entry = Receiver.insert newseg.entry (kcp.rcvBuf.map Segment.entry) := by
  have placed := insertSegment_entries newseg kcp.rcvBuf.reverse
  rw [List.map_reverse] at placed
  unfold insertData Receiver.insert
  rw [← placed]
  cases insertSegment newseg kcp.rcvBuf.reverse <;> simp

theorem Counted.insertData (counted : Counted kcp) (newseg : Segment) : Counted (kcp.insertData newseg) := by
  unfold Ikcpcb.insertData
  split
  next newestFirst found =>
    refine ⟨?_, counted.sndBuf, counted.rcvQueue, counted.sndQueue⟩
    show kcp.nrcvBuf + 1 = UInt32.ofNat newestFirst.reverse.length
    rw [List.length_reverse, insertSegment_length found, List.length_reverse, UInt32.ofNat_add, counted.rcvBuf]
    rfl
  next => exact counted

theorem ikcpParseData_eq (kcp : Ikcpcb) (newseg : Segment) :
    kcp.ikcpParseData newseg =
      if itimediff newseg.sn (kcp.rcvNxt + kcp.rcvWnd) ≥ 0 ∨ itimediff newseg.sn kcp.rcvNxt < 0 then kcp
      else moveReady (kcp.insertData newseg).rcvBuf (kcp.insertData newseg) := rfl

theorem ikcpParseData_receiver (counted : Counted kcp) (newseg : Segment) :
    (kcp.ikcpParseData newseg).receiver = kcp.receiver.accept newseg.entry := by
  rw [ikcpParseData_eq, Receiver.accept]
  by_cases outside : itimediff newseg.sn (kcp.rcvNxt + kcp.rcvWnd) ≥ 0 ∨ itimediff newseg.sn kcp.rcvNxt < 0
  · rw [if_pos outside]
    exact (if_pos outside).symm
  · rw [if_neg outside, moveReady_receiver _ (counted.insertData newseg).rcvQueue, insertData_entries, insertData_eq]
    refine Eq.trans ?_ (if_neg outside).symm
    exact Receiver.move_buf _ kcp.receiver _

theorem Counted.parseData (counted : Counted kcp) (newseg : Segment) : Counted (kcp.ikcpParseData newseg) := by
  rw [ikcpParseData_eq]
  split
  next => exact counted
  next => exact (counted.insertData newseg).moveReady _

theorem ikcpParseData_frame (kcp : Ikcpcb) (newseg : Segment) :
    (kcp.ikcpParseData newseg).sender = kcp.sender ∧ (kcp.ikcpParseData newseg).acklist = kcp.acklist ∧
      (kcp.ikcpParseData newseg).conv = kcp.conv := by
  rw [ikcpParseData_eq]
  split
  next => exact ⟨rfl, rfl, rfl⟩
  next =>
    rw [moveReady_eq, insertData_eq]
    exact ⟨rfl, rfl, rfl⟩

/-! A round of `ikcp_input` -/

/-- What an acknowledgement changes besides the sender: the estimate of the round trip. -/
theorem ikcpUpdateAck_eq (kcp : Ikcpcb) (rtt : Int32) :
    kcp.ikcpUpdateAck rtt =
      { kcp with
        rxSrtt := (kcp.ikcpUpdateAck rtt).rxSrtt
        rxRttval := (kcp.ikcpUpdateAck rtt).rxRttval
        rxRto := (kcp.ikcpUpdateAck rtt).rxRto } := by
  unfold ikcpUpdateAck
  split <;> rfl

/-- The estimate that the branch for acknowledgements makes first. -/
def measure (kcp : Ikcpcb) (ts : UInt32) : Ikcpcb :=
  if itimediff kcp.current ts ≥ 0 then kcp.ikcpUpdateAck (Int32.ofInt (itimediff kcp.current ts)) else kcp

theorem measure_eq (kcp : Ikcpcb) (ts : UInt32) :
    kcp.measure ts =
      { kcp with rxSrtt := (kcp.measure ts).rxSrtt, rxRttval := (kcp.measure ts).rxRttval, rxRto := (kcp.measure ts).rxRto } := by
  unfold measure
  split
  next => exact ikcpUpdateAck_eq kcp _
  next => rfl

theorem inputAck_eq (kcp : Ikcpcb) (seg : Segment) :
    kcp.inputAck seg = ((kcp.measure seg.ts).ikcpParseAck seg.sn).ikcpShrinkBuf := rfl

theorem ikcpParseAck_eq (kcp : Ikcpcb) (sn : UInt32) :
    kcp.ikcpParseAck sn =
      { kcp with sndBuf := (kcp.ikcpParseAck sn).sndBuf, nsndBuf := (kcp.ikcpParseAck sn).nsndBuf } := by
  unfold ikcpParseAck
  split <;> rfl

theorem ikcpParseFastack_eq (kcp : Ikcpcb) (sn : UInt32) :
    kcp.ikcpParseFastack sn = { kcp with sndBuf := (kcp.ikcpParseFastack sn).sndBuf } := by
  unfold ikcpParseFastack
  split <;> rfl

theorem inputAck_sender (kcp : Ikcpcb) (seg : Segment) : (kcp.inputAck seg).sender = kcp.sender.acknowledge seg.sn := by
  rw [inputAck_eq, ikcpParseAck_sender, measure_eq]
  rfl

theorem inputAck_frame (kcp : Ikcpcb) (seg : Segment) :
    (kcp.inputAck seg).receiver = kcp.receiver ∧ (kcp.inputAck seg).acklist = kcp.acklist ∧
      (kcp.inputAck seg).conv = kcp.conv := by
  rw [inputAck_eq, ikcpShrinkBuf_eq, ikcpParseAck_eq, measure_eq]
  exact ⟨rfl, rfl, rfl⟩

theorem Counted.inputAck (counted : Counted kcp) (seg : Segment) : Counted (kcp.inputAck seg) := by
  rw [inputAck_eq]
  refine Counted.shrinkBuf (Counted.parseAck ?_ _)
  rw [measure_eq]
  exact ⟨counted.rcvBuf, counted.sndBuf, counted.rcvQueue, counted.sndQueue⟩

/-- What is acknowledged when a segment with data comes in. -/
def pushed (kcp : Ikcpcb) (seg : Segment) : List (UInt32 × UInt32) :=
  if itimediff seg.sn (kcp.rcvNxt + kcp.rcvWnd) < 0 then [(seg.sn, seg.ts)] else []

theorem inputPush_receiver (counted : Counted kcp) (seg : Segment) :
    (kcp.inputPush seg).receiver = kcp.receiver.accept seg.entry := by
  have counted : Counted (kcp.ikcpAckPush seg.sn seg.ts) :=
    ⟨counted.rcvBuf, counted.sndBuf, counted.rcvQueue, counted.sndQueue⟩
  have refused (outside : itimediff seg.sn (kcp.rcvNxt + kcp.rcvWnd) ≥ 0 ∨ itimediff seg.sn kcp.rcvNxt < 0) :
      kcp.receiver = kcp.receiver.accept seg.entry := (if_pos outside).symm
  unfold inputPush
  by_cases within : itimediff seg.sn (kcp.rcvNxt + kcp.rcvWnd) < 0
  · rw [if_pos within]
    by_cases current : itimediff seg.sn kcp.rcvNxt ≥ 0
    · exact (congrArg receiver (if_pos current)).trans (ikcpParseData_receiver counted seg)
    · exact (congrArg receiver (if_neg current)).trans (refused (Or.inr (by omega)))
  · rw [if_neg within]
    exact refused (Or.inl (by omega))

theorem inputPush_frame (kcp : Ikcpcb) (seg : Segment) :
    (kcp.inputPush seg).sender = kcp.sender ∧ (kcp.inputPush seg).acklist = kcp.acklist ++ kcp.pushed seg ∧
      (kcp.inputPush seg).conv = kcp.conv := by
  unfold inputPush pushed
  split
  next =>
    dsimp only
    split
    next => exact ikcpParseData_frame (kcp.ikcpAckPush seg.sn seg.ts) seg
    next => exact ⟨rfl, rfl, rfl⟩
  next => exact ⟨rfl, (List.append_nil _).symm, rfl⟩

theorem Counted.inputPush (counted : Counted kcp) (seg : Segment) : Counted (kcp.inputPush seg) := by
  have counted' : Counted (kcp.ikcpAckPush seg.sn seg.ts) :=
    ⟨counted.rcvBuf, counted.sndBuf, counted.rcvQueue, counted.sndQueue⟩
  unfold Ikcpcb.inputPush
  split
  next =>
    dsimp only
    split
    next => exact counted'.parseData seg
    next => exact counted'
  next => exact counted

/-- The part of a round that every segment has: the window and `una`. -/
def inputHeader (kcp : Ikcpcb) (seg : Segment) : Ikcpcb :=
  (({ kcp with rmtWnd := seg.wnd } : Ikcpcb).ikcpParseUna seg.una).ikcpShrinkBuf

theorem inputHeader_sender (kcp : Ikcpcb) (seg : Segment) : (kcp.inputHeader seg).sender = kcp.sender.cumulate seg.una :=
  ikcpParseUna_sender _ _

theorem inputHeader_eq (kcp : Ikcpcb) (seg : Segment) :
    kcp.inputHeader seg =
      { kcp with
        rmtWnd := seg.wnd
        sndUna := (kcp.inputHeader seg).sndUna
        sndBuf := (kcp.inputHeader seg).sndBuf
        nsndBuf := (kcp.inputHeader seg).nsndBuf } := by
  unfold inputHeader
  rw [ikcpShrinkBuf_eq]
  rfl

theorem Counted.inputHeader (counted : Counted kcp) (seg : Segment) : Counted (kcp.inputHeader seg) := by
  have opened : Counted { kcp with rmtWnd := seg.wnd } :=
    ⟨counted.rcvBuf, counted.sndBuf, counted.rcvQueue, counted.sndQueue⟩
  exact (opened.parseUna seg.una).shrinkBuf

theorem inputSegment_eq (kcp : Ikcpcb) (flag : Option UInt32) (seg : Segment) :
    inputSegment (kcp, flag) seg =
      if seg.cmd = ikcpCmdAck then ((kcp.inputHeader seg).inputAck seg, some (maxack flag seg.sn))
      else if seg.cmd = ikcpCmdPush then ((kcp.inputHeader seg).inputPush seg, flag)
      else if seg.cmd = ikcpCmdWask then
        ({ kcp.inputHeader seg with probe := (kcp.inputHeader seg).probe ||| ikcpAskTell }, flag)
      else (kcp.inputHeader seg, flag) := rfl

/-- The head of a segment is taken in first, and then what depends on its command. -/
theorem inputSegment_rule {P : Ikcpcb → Prop} {kcp : Ikcpcb} {seg : Segment} (flag : Option UInt32)
    (head : P (kcp.inputHeader seg)) (ack : ∀ kcp, P kcp → P (kcp.inputAck seg)) (push : ∀ kcp, P kcp → P (kcp.inputPush seg))
    (wask : ∀ kcp : Ikcpcb, P kcp → P { kcp with probe := kcp.probe ||| ikcpAskTell }) : P (inputSegment (kcp, flag) seg).1 := by
  rw [inputSegment_eq]
  split
  next => exact ack _ head
  next =>
    split
    next => exact push _ head
    next =>
      split
      next => exact wask _ head
      next => exact head

theorem inputAck_fields (kcp : Ikcpcb) (seg : Segment) :
    kcp.inputAck seg =
      { kcp with
        sndUna := (kcp.inputAck seg).sndUna
        sndBuf := (kcp.inputAck seg).sndBuf
        nsndBuf := (kcp.inputAck seg).nsndBuf
        rxSrtt := (kcp.measure seg.ts).rxSrtt
        rxRttval := (kcp.measure seg.ts).rxRttval
        rxRto := (kcp.measure seg.ts).rxRto } := by
  rw [inputAck_eq, ikcpShrinkBuf_eq, ikcpParseAck_eq, measure_eq]

theorem inputPush_eq (kcp : Ikcpcb) (seg : Segment) :
    kcp.inputPush seg =
      { kcp with
        acklist := (kcp.inputPush seg).acklist
        rcvBuf := (kcp.inputPush seg).rcvBuf
        nrcvBuf := (kcp.inputPush seg).nrcvBuf
        rcvQueue := (kcp.inputPush seg).rcvQueue
        nrcvQue := (kcp.inputPush seg).nrcvQue
        rcvNxt := (kcp.inputPush seg).rcvNxt } := by
  unfold inputPush
  split
  next =>
    dsimp only
    split
    next =>
      rw [ikcpParseData_eq]
      split
      next => rfl
      next => rw [moveReady_eq, insertData_eq, ikcpAckPush]
    next => rfl
  next => rfl

theorem inputSegment_conv (state : Ikcpcb × Option UInt32) (seg : Segment) :
    (inputSegment state seg).1.conv = state.1.conv := by
  refine inputSegment_rule (P := fun after => after.conv = state.1.conv) state.2 ?_ ?_ ?_ fun _ same => same
  · rw [inputHeader_eq]
  · intro kcp same
    rw [inputAck_fields]
    exact same
  · intro kcp same
    rw [inputPush_eq]
    exact same

/-- What a round does to the sender, the receiver and the acknowledgements to send. -/
theorem inputSegment_spec (counted : Counted kcp) (flag : Option UInt32) (seg : Segment) :
    let after := (inputSegment (kcp, flag) seg).1
    Counted after ∧ after.conv = kcp.conv ∧
      after.sender = (if seg.cmd = ikcpCmdAck then (kcp.sender.cumulate seg.una).acknowledge seg.sn
        else kcp.sender.cumulate seg.una) ∧
      after.receiver = (if seg.cmd = ikcpCmdPush then kcp.receiver.accept seg.entry else kcp.receiver) ∧
      after.acklist = kcp.acklist ++ (if seg.cmd = ikcpCmdPush then kcp.pushed seg else []) := by
  have head := inputHeader_sender kcp seg
  have count := counted.inputHeader seg
  have frame : (kcp.inputHeader seg).receiver = kcp.receiver ∧ (kcp.inputHeader seg).acklist = kcp.acklist ∧
      (kcp.inputHeader seg).conv = kcp.conv ∧ (kcp.inputHeader seg).pushed seg = kcp.pushed seg := by
    rw [inputHeader_eq]
    exact ⟨rfl, rfl, rfl, rfl⟩
  obtain ⟨receiver, acklist, conv, pushed⟩ := frame
  rw [inputSegment_eq]
  by_cases ack : seg.cmd = ikcpCmdAck
  · have other : ¬ seg.cmd = ikcpCmdPush := by
      rw [ack]
      decide
    obtain ⟨same, acks, convs⟩ := inputAck_frame (kcp.inputHeader seg) seg
    simp only [if_pos ack, if_neg other, List.append_nil]
    exact ⟨count.inputAck seg, convs.trans conv, by rw [inputAck_sender, head], same.trans receiver, acks.trans acklist⟩
  · by_cases push : seg.cmd = ikcpCmdPush
    · obtain ⟨same, acks, convs⟩ := inputPush_frame (kcp.inputHeader seg) seg
      simp only [if_neg ack, if_pos push]
      refine ⟨count.inputPush seg, convs.trans conv, same.trans head, ?_, ?_⟩
      · rw [inputPush_receiver count, receiver]
      · rw [acks, acklist, pushed]
    · simp only [if_neg ack, if_neg push, List.append_nil]
      split
      next =>
        exact ⟨⟨count.rcvBuf, count.sndBuf, count.rcvQueue, count.sndQueue⟩, conv, head, receiver, acklist⟩
      next => exact ⟨count, conv, head, receiver, acklist⟩

/-! After the rounds -/

theorem raiseCwnd_eq (kcp : Ikcpcb) :
    kcp.raiseCwnd = { kcp with cwnd := kcp.raiseCwnd.cwnd, incr := kcp.raiseCwnd.incr } := by
  by_cases slow : kcp.cwnd < kcp.ssthresh
  · rw [raiseCwnd, if_pos slow]
  · simp only [raiseCwnd, if_neg slow]
    split <;> rfl

theorem growCwnd_eq (kcp : Ikcpcb) : kcp.growCwnd = { kcp with cwnd := kcp.growCwnd.cwnd, incr := kcp.growCwnd.incr } := by
  by_cases room : kcp.cwnd < kcp.rmtWnd
  · simp only [growCwnd, if_pos room]
    split
    next =>
      rw [raiseCwnd_eq]
    next => exact raiseCwnd_eq kcp
  · rw [growCwnd, if_neg room]

theorem finishInput_eq (kcp : Ikcpcb) (flag : Option UInt32) (prevUna : UInt32) :
    finishInput prevUna (kcp, flag) =
      { kcp with
        sndBuf := (finishInput prevUna (kcp, flag)).sndBuf
        cwnd := (finishInput prevUna (kcp, flag)).cwnd
        incr := (finishInput prevUna (kcp, flag)).incr } := by
  unfold finishInput
  cases flag with
  | none =>
    dsimp only
    split
    next => rw [growCwnd_eq]
    next => rfl
  | some maxack =>
    dsimp only
    split
    next => rw [growCwnd_eq, ikcpParseFastack_eq]
    next => rw [ikcpParseFastack_eq]

theorem finishInput_spec (counted : Counted kcp) (prevUna : UInt32) (flag : Option UInt32) :
    let after := finishInput prevUna (kcp, flag)
    Counted after ∧ after.conv = kcp.conv ∧ after.sender = kcp.sender ∧ after.receiver = kcp.receiver ∧
      after.acklist = kcp.acklist := by
  have skipped : ∃ middle : Ikcpcb, Counted middle ∧ middle.conv = kcp.conv ∧ middle.sender = kcp.sender ∧
      middle.receiver = kcp.receiver ∧ middle.acklist = kcp.acklist ∧
      finishInput prevUna (kcp, flag) = if itimediff middle.sndUna prevUna > 0 then middle.growCwnd else middle := by
    cases flag with
    | none => exact ⟨kcp, counted, rfl, rfl, rfl, rfl, rfl⟩
    | some maxack =>
      have frame := ikcpParseFastack_eq kcp maxack
      refine ⟨kcp.ikcpParseFastack maxack, counted.parseFastack maxack, by rw [frame],
        ikcpParseFastack_sender kcp maxack, ?_, by rw [frame], rfl⟩
      rw [frame]
      rfl
  obtain ⟨middle, count, conv, sender, receiver, acklist, same⟩ := skipped
  simp only [same]
  split
  next =>
    rw [growCwnd_eq]
    exact ⟨⟨count.rcvBuf, count.sndBuf, count.rcvQueue, count.sndQueue⟩, conv, sender, receiver, acklist⟩
  next => exact ⟨count, conv, sender, receiver, acklist⟩

end Ikcpcb
end NetPrograms.Ikcp
