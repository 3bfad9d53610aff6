import Mathlib.Data.List.Nodup
import Mathlib.Data.List.TakeWhile
import NetPrograms.Lib.Run
import NetPrograms.P2p.Receive
import NetPrograms.Proofs.P2pChat
import NetPrograms.Proofs.P2pOpening

/-! Whether stage 2 has received and printed all that the peer sent when it ends since the
peer closed. A hang-up is looked at before the bytes that are still unread. -/

namespace NetPrograms.P2p.Chat

variable {inbound : Inbound} {chat before after : Chat} {ev : Main.Ready} {evs : List Main.Ready} {m : Nat}

/-- The loop goes on, or it ends since the peer closed. -/
def Live (chat : Chat) : Prop := chat.inbound.byPeer = true ∨ chat.main.gStop = false

/-- All of the stream is somewhere, and the peer's close comes behind it. -/
structure Whole (stream : List UInt8) (inbound : Inbound) : Prop where
  whole : inbound.received ++ (inbound.queue ++ inbound.pending) = stream
  fin : inbound.fin = true → inbound.pending = []
  closed : inbound.byPeer = true → inbound.fin = true
  printed : inbound.printed.length ≤ inbound.received.length

def Intact (inbound : Inbound) : Prop :=
  inbound.printed = inbound.received ∧ (inbound.byPeer = true → inbound.queue = [])

/-- An event loses nothing: a hang-up comes when all is read, and no zero is among the
bytes that are printed. -/
def Harmless (inbound : Inbound) (m : Nat) (ev : Main.Ready) : Prop :=
  if ev.events.rdhup ∨ ev.events.hup then inbound.queue = []
  else ev.events.input → ev.received = .bytes → 0 ∉ inbound.queue.take m

instance : Decidable (Harmless inbound m ev) := inferInstanceAs (Decidable (ite _ _ _))

/-- What the branch of the peer's socket can do. -/
inductive Receives (inbound : Inbound) (m : Nat) (ev : Main.Ready) : Inbound → Prop where
  | hangup (hung : ev.events.rdhup ∨ ev.events.hup) : Receives inbound m ev { inbound with byPeer := true }
  | read (up : ¬ (ev.events.rdhup ∨ ev.events.hup)) (input : ev.events.input) (bytes : ev.received = .bytes)
      (some : m ≤ inbound.queue.length) : Receives inbound m ev { inbound with
        queue := inbound.queue.drop m
        received := inbound.received ++ inbound.queue.take m
        printed := inbound.printed ++ shown (inbound.queue.take m) }
  | ended (up : ¬ (ev.events.rdhup ∨ ev.events.hup)) (input : ev.events.input) (closed : ev.received = .closed)
      (empty : inbound.queue = []) (fin : inbound.fin = true) : Receives inbound m ev { inbound with byPeer := true }
  | none (up : ¬ (ev.events.rdhup ∨ ev.events.hup)) (nothing : ev.events.input → ev.received ≠ .bytes) :
      Receives inbound m ev inbound

theorem recvPeer_receives {fd : Int} {next : Inbound} (own : ev.fd = fd) (taken : recvPeer inbound fd ev m = some next) :
    Receives inbound m ev next := by
  rw [recvPeer, if_neg (not_not.mpr own)] at taken
  split at taken
  next hung =>
    cases taken
    exact .hangup hung
  next up =>
    split at taken
    next input =>
      split at taken
      next bytes =>
        split at taken
        next room =>
          cases taken
          exact .read up input bytes room.2.2
        next => cases taken
      next closed =>
        split at taken
        next ended =>
          cases taken
          exact .ended up input closed ended.1 ended.2
        next => cases taken
      next again =>
        cases taken
        exact .none up fun _ => by simp [again]
      next failed =>
        cases taken
        exact .none up fun _ => by simp [failed]
    next quiet =>
      cases taken
      exact .none up fun input => absurd input quiet

theorem shown_length (rbuf : List UInt8) : (shown rbuf).length ≤ rbuf.length := (List.takeWhile_sublist _).length_le

theorem shown_eq_self {rbuf : List UInt8} : shown rbuf = rbuf ↔ 0 ∉ rbuf := by
  rw [shown, List.takeWhile_eq_self_iff]
  constructor
  · intro all zero
    simpa using all 0 zero
  · intro free byte member
    simpa using ne_of_mem_of_not_mem member free

theorem Receives.whole {stream : List UInt8} {next : Inbound} (receives : Receives inbound m ev next)
    (whole : Whole stream inbound) (reported : ev.events.rdhup ∨ ev.events.hup → inbound.fin = true) : Whole stream next := by
  cases receives with
  | hangup hung => exact ⟨whole.whole, whole.fin, fun _ => reported hung, whole.printed⟩
  | read up input bytes some =>
    refine ⟨?_, whole.fin, whole.closed, ?_⟩
    · rw [← whole.whole]
      simp only [List.append_assoc, List.append_cancel_left_eq]
      rw [← List.append_assoc, List.take_append_drop]
    · have short := shown_length (inbound.queue.take m)
      have before := whole.printed
      simp only [List.length_append]
      omega
  | ended up input closed empty fin => exact ⟨whole.whole, whole.fin, fun _ => fin, whole.printed⟩
  | none => exact whole

theorem Receives.intact {next : Inbound} (receives : Receives inbound m ev next)
    (printed : inbound.printed.length ≤ inbound.received.length) (going : inbound.byPeer = false) :
    Intact next ↔ Intact inbound ∧ Harmless inbound m ev := by
  cases receives with
  | hangup hung => simp [Intact, Harmless, hung, going]
  | read up input bytes some =>
    have chunk : inbound.printed ++ shown (inbound.queue.take m) = inbound.received ++ inbound.queue.take m ↔
        inbound.printed = inbound.received ∧ 0 ∉ inbound.queue.take m := by
      rw [← shown_eq_self]
      constructor
      · intro same
        have length := congrArg List.length same
        have short := shown_length (inbound.queue.take m)
        rw [List.length_append, List.length_append] at length
        exact List.append_inj same (by omega)
      · rintro ⟨first, second⟩
        rw [first, second]
    simp only [Intact, Harmless, up, if_false, chunk, going, input, bytes, forall_const]
    simp
  | ended up input closed empty fin => simp [Intact, Harmless, up, closed, empty, going]
  | none up nothing =>
    have harmless : Harmless inbound m ev := by
      rw [Harmless, if_neg up]
      intro input bytes
      exact absurd bytes (nothing input)
    rw [and_iff_left harmless]

inductive Turned (chat : Chat) (m : Nat) (ev : Main.Ready) (next : Chat) : Prop where
  | stopped (ends : next.main.gStop = true) (same : next.inbound = chat.inbound)
  | other (apart : ev.fd ≠ chat.main.establishedFd) (same : next.inbound = chat.inbound)
      (established : next.main.establishedFd = chat.main.establishedFd)
  | own (same : ev.fd = chat.main.establishedFd) (receives : Receives chat.inbound m ev next.inbound)
      (closed : next.inbound.byPeer = true → next.main.gStop = true)
      (established : next.main.establishedFd = chat.main.establishedFd)

theorem chats_establishedFd {s s' : Main} (chats : Main.Chats s s') : s'.establishedFd = s.establishedFd := by
  cases chats <;> rfl

theorem Receives.stops {next : Inbound} {main : Main} (receives : Receives inbound m ev next) (going : inbound.byPeer = false)
    (own : ev.fd = main.establishedFd) (closed : next.byPeer = true) : (main.recvPeer ev).gStop = true := by
  cases receives with
  | hangup hung =>
    rcases hung with rdhup | hup
    · simp [Main.recvPeer, own, rdhup]
    · simp [Main.recvPeer, own, hup]
  | read => simp [going] at closed
  | ended up input ended => simp [Main.recvPeer, own, up, input, ended]
  | none => simp [going] at closed

theorem chatEvent_turned {next : Chat} (taken : chat.chatEvent m ev = some next) (going : chat.inbound.byPeer = false) :
    Turned chat m ev next := by
  obtain ⟨first, read, taken⟩ := Option.bind_eq_some_iff.mp taken
  have firstFd := chats_establishedFd (Main.readStdin_chats read)
  dsimp only at taken
  split at taken
  next ends =>
    cases taken
    exact .stopped ends rfl
  next =>
    obtain ⟨inbound, received, taken⟩ := Option.bind_eq_some_iff.mp taken
    have secondFd := (chats_establishedFd (Main.recvPeer_chats first ev)).trans firstFd
    by_cases own : ev.fd = first.establishedFd
    · have receives := recvPeer_receives own received
      have closed := receives.stops going own
      split at taken
      next ends =>
        cases taken
        exact .own (own.trans firstFd) receives (fun _ => ends) secondFd
      next goesOn =>
        obtain ⟨third, flushed, taken⟩ := Option.bind_eq_some_iff.mp taken
        cases taken
        exact .own (own.trans firstFd) receives (fun byPeer => absurd (closed byPeer) goesOn)
          ((chats_establishedFd (Main.flushPeer_chats flushed)).trans secondFd)
    · have same : inbound = chat.inbound := by
        rw [recvPeer, if_pos own] at received
        exact (Option.some.inj received).symm
      subst same
      split at taken
      next ends =>
        cases taken
        exact .stopped ends rfl
      next =>
        obtain ⟨third, flushed, taken⟩ := Option.bind_eq_some_iff.mp taken
        cases taken
        exact .other (fun same => own (same.trans firstFd.symm)) rfl
          ((chats_establishedFd (Main.flushPeer_chats flushed)).trans secondFd)

/-- What a batch does: nothing with the bytes, or what its one event of the peer's socket does. -/
inductive Batch (chat : Chat) (m : Nat) (evs : List Main.Ready) (after : Chat) : Prop where
  | stopped (ends : after.main.gStop = true) (same : after.inbound = chat.inbound)
  | quiet (others : ∀ ev ∈ evs, ev.fd ≠ chat.main.establishedFd) (same : after.inbound = chat.inbound)
  | peer (ev : Main.Ready) (member : ev ∈ evs) (own : ev.fd = chat.main.establishedFd)
      (receives : Receives chat.inbound m ev after.inbound) (closed : after.inbound.byPeer = true → after.main.gStop = true)

theorem chatEvents_batch (chatted : chat.chatEvents m evs = some after) (going : chat.inbound.byPeer = false)
    (distinct : (evs.map Main.Ready.fd).Nodup) : Batch chat m evs after := by
  induction evs generalizing chat with
  | nil =>
    cases chatted
    exact .quiet (by simp) rfl
  | cons ev evs ih =>
    obtain ⟨next, one, chatted⟩ := Option.bind_eq_some_iff.mp chatted
    obtain ⟨once, distinct⟩ := List.nodup_cons.mp distinct
    have turned := chatEvent_turned one going
    split at chatted
    next ends =>
      obtain rfl := Option.some.inj chatted
      cases turned with
      | stopped _ same | other _ same => exact .stopped ends same
      | own same receives closed => exact .peer ev (List.mem_cons_self ..) same receives closed
    next goesOn =>
      cases turned with
      | stopped ends => exact absurd ends goesOn
      | other apart same established =>
        cases ih chatted (same ▸ going) distinct with
        | stopped ends unchanged => exact .stopped ends (unchanged.trans same)
        | quiet others unchanged =>
          exact .quiet (List.forall_mem_cons.mpr ⟨apart, established ▸ others⟩) (unchanged.trans same)
        | peer later member own receives closed =>
          exact .peer later (List.mem_cons_of_mem _ member) (own.trans established) (same ▸ receives) closed
      | own same receives closed established =>
        have going : next.inbound.byPeer = false := by simpa using mt closed goesOn
        have others : ∀ later ∈ evs, later.fd ≠ next.main.establishedFd := by
          intro later member again
          rw [established, ← same] at again
          exact once (again ▸ List.mem_map_of_mem member)
        cases ih chatted going distinct with
        | stopped _ unchanged | quiet _ unchanged =>
          rw [← unchanged] at receives going
          exact .peer ev (List.mem_cons_self ..) same receives fun closed => absurd (going.symm.trans closed) (by decide)
        | peer later member own => exact absurd own (others later member)

section turns

theorem chatEvent_main {next : Chat} (taken : chat.chatEvent m ev = some next) : chat.main.chatEvent ev = some next.main := by
  obtain ⟨first, read, taken⟩ := Option.bind_eq_some_iff.mp taken
  rw [Main.chatEvent, read]
  simp only [Option.bind_eq_bind, Option.bind_some]
  dsimp only at taken
  split at taken
  next ends =>
    cases taken
    exact if_pos ends
  next goesOn =>
    obtain ⟨inbound, -, taken⟩ := Option.bind_eq_some_iff.mp taken
    rw [if_neg goesOn]
    split at taken
    next ends =>
      cases taken
      exact if_pos ends
    next further =>
      obtain ⟨third, flushed, taken⟩ := Option.bind_eq_some_iff.mp taken
      cases taken
      rw [if_neg further, flushed]

theorem chatEvents_main (chatted : chat.chatEvents m evs = some after) : chat.main.chatEvents evs = some after.main := by
  induction evs generalizing chat with
  | nil =>
    cases chatted
    rfl
  | cons ev evs ih =>
    obtain ⟨next, one, chatted⟩ := Option.bind_eq_some_iff.mp chatted
    rw [Main.chatEvents, chatEvent_main one]
    simp only [Option.bind_eq_bind, Option.bind_some]
    split at chatted
    next ends =>
      obtain rfl := Option.some.inj chatted
      exact if_pos ends
    next goesOn =>
      rw [if_neg goesOn]
      exact ih chatted

/-- The turns are those of the program without the bytes. -/
theorem step_main {turn : Main.Turn} (taken : step before (.turn turn m) = some after) :
    before.main.step turn = some after.main := by
  simp only [step] at taken
  split at taken
  next second =>
    simp only [Main.step, second]
    split at taken
    next ended =>
      cases taken
      exact if_pos ended
    next running =>
      rw [if_neg running]
      unfold turnSecond at taken
      unfold Main.turnSecond
      cases waited : turn.wait with
      | interrupted | failed =>
        simp only [waited] at taken
        cases taken
        rfl
      | ready evs =>
        simp only [waited] at taken
        split at taken
        next reported =>
          obtain ⟨middle, chatted, rfl⟩ := Option.map_eq_some_iff.mp taken
          simp only [reported.1, if_true, chatEvents_main chatted, Option.map_some]
        next => cases taken
  next => cases taken
  next => cases taken

end turns

structure Kept (stream : List UInt8) (chat : Chat) : Prop where
  whole : Whole stream chat.inbound
  stops : chat.inbound.byPeer = true → chat.main.gStop = true

def Lossless (chat : Chat) : Event → Prop
  | .segment _ | .fin => True
  | .turn turn m => chat.main.gStop = false →
    ∀ ev ∈ turn.wait.reported, ev.fd = chat.main.establishedFd → Harmless chat.inbound m ev

instance (chat : Chat) (event : Event) : Decidable (chat.Lossless event) :=
  match event with
  | .segment _ | .fin => .isTrue trivial
  | .turn turn _ => inferInstanceAs (Decidable (_ → ∀ ev ∈ turn.wait.reported, _))

variable {stream : List UInt8} {event : Event}

/-- A batch of events of which each socket has one at most. -/
theorem Batch.kept {turn : Main.Turn} (batch : Batch before m evs after) (waited : turn.wait = .ready evs)
    (held : Kept stream before) (running : before.main.gStop = false) (distinct : (evs.map Main.Ready.fd).Nodup)
    (reports : before.Reports evs) :
    Kept stream after ∧ (Live after → (Intact after.inbound ↔ Intact before.inbound ∧ Lossless before (.turn turn m))) := by
  have going : before.inbound.byPeer = false := by
    by_contra closed
    exact absurd (held.stops (by simpa using closed)) (by simp [running])
  have lossless : Lossless before (.turn turn m) ↔
      ∀ ev ∈ evs, ev.fd = before.main.establishedFd → Harmless before.inbound m ev := by
    rw [Lossless, waited]
    exact ⟨fun all => all running, fun all _ => all⟩
  rw [lossless]
  cases batch with
  | stopped ends same =>
    refine ⟨⟨same ▸ held.whole, fun _ => ends⟩, ?_⟩
    rintro (closed | goesOn)
    · exact absurd (closed.symm.trans (same ▸ going)) (by decide)
    · exact absurd (ends.symm.trans goesOn) (by decide)
  | quiet others same =>
    refine ⟨⟨same ▸ held.whole, fun closed => absurd (closed.symm.trans (same ▸ going)) (by decide)⟩, fun _ => ?_⟩
    rw [same, and_iff_left]
    intro ev member own
    exact absurd own (others ev member)
  | peer ev member own receives closed =>
    refine ⟨⟨receives.whole held.whole (reports ev member own).1, closed⟩, fun _ => ?_⟩
    rw [receives.intact held.whole.printed going]
    apply and_congr_right
    intro _
    constructor
    · intro harmless other also same
      have unique : other = ev := List.inj_on_of_nodup_map distinct also member (same.trans own.symm)
      exact unique ▸ harmless
    · intro all
      exact all ev member own

theorem interrupt_stops {main : Main} {turn : Main.Turn} (stopped : main.gStop = true) : (main.interrupt turn).gStop = true := by
  simp [Main.interrupt, stopped]

/-- A signal changes nothing but whether the loop goes on. -/
theorem live_of_interrupt {turn : Main.Turn} (live : Live ⟨chat.inbound, chat.main.interrupt turn⟩) : Live chat := by
  rcases live with closed | goesOn
  · exact .inl closed
  · right
    simp only [Main.interrupt, Bool.or_eq_false_iff] at goesOn
    exact goesOn.1

theorem turnSecond_kept {turn : Main.Turn} (held : Kept stream before) (running : before.main.gStop = false)
    (taken : before.turnSecond turn m = some after) :
    Kept stream after ∧ (Live after → (Intact after.inbound ↔ Intact before.inbound ∧ Lossless before (.turn turn m))) := by
  unfold turnSecond at taken
  split at taken
  next waited =>
    cases taken
    have lossless : Lossless before (.turn turn m) := by simp [Lossless, waited, Main.Wait.reported]
    exact ⟨⟨held.whole, fun closed => interrupt_stops (held.stops closed)⟩, fun _ => (and_iff_left lossless).symm⟩
  next waited =>
    cases taken
    have lossless : Lossless before (.turn turn m) := by simp [Lossless, waited, Main.Wait.reported]
    exact ⟨⟨held.whole, held.stops⟩, fun _ => (and_iff_left lossless).symm⟩
  next evs waited =>
    split at taken
    next reported =>
      obtain ⟨middle, chatted, rfl⟩ := Option.map_eq_some_iff.mp taken
      have going : before.inbound.byPeer = false := by
        by_contra closed
        exact absurd (held.stops (by simpa using closed)) (by simp [running])
      have distinct : (evs.map Main.Ready.fd).Nodup := by
        have nodup := reported.1.nodup
        rwa [List.map_map] at nodup
      obtain ⟨kept, same⟩ := (chatEvents_batch chatted going distinct).kept waited held running distinct reported.2
      exact ⟨⟨kept.whole, fun closed => interrupt_stops (kept.stops closed)⟩, fun live => same (live_of_interrupt live)⟩
    next => cases taken

theorem Whole.arrives (whole : Whole stream inbound) (n : Nat) : Whole stream { inbound with
    pending := inbound.pending.drop n, queue := inbound.queue ++ inbound.pending.take n } := by
  refine ⟨?_, ?_, whole.closed, whole.printed⟩
  · rw [← whole.whole, List.append_assoc inbound.queue, List.take_append_drop]
  · intro fin
    rw [whole.fin fin, List.drop_nil]

/-- Behind the peer's close nothing arrives. -/
theorem Whole.arrives_intact (whole : Whole stream inbound) (n : Nat) : Intact { inbound with
    pending := inbound.pending.drop n, queue := inbound.queue ++ inbound.pending.take n } ↔ Intact inbound := by
  rw [Intact, Intact]
  apply and_congr_right
  intro _
  apply forall_congr'
  intro closed
  rw [whole.fin (whole.closed closed), List.take_nil, List.append_nil]

theorem step_kept (held : Kept stream before) (taken : step before event = some after) :
    Kept stream after ∧ (Live after → Live before ∧ (Intact after.inbound ↔ Intact before.inbound ∧ Lossless before event)) := by
  cases event with
  | segment n =>
    simp only [step] at taken
    split at taken
    next room =>
      cases taken
      refine ⟨⟨held.whole.arrives n, held.stops⟩, fun live => ⟨live, ?_⟩⟩
      rw [Lossless, and_true]
      exact held.whole.arrives_intact n
    next => cases taken
  | fin =>
    simp only [step] at taken
    split at taken
    next arrived =>
      cases taken
      exact ⟨⟨⟨held.whole.whole, fun _ => arrived, fun _ => rfl, held.whole.printed⟩, held.stops⟩,
        fun live => ⟨live, (and_iff_left trivial).symm⟩⟩
    next => cases taken
  | turn turn m =>
    simp only [step] at taken
    split at taken
    next =>
      split at taken
      next ended =>
        cases taken
        have lossless : Lossless before (.turn turn m) := by
          intro running
          exact absurd (ended.symm.trans running) (by decide)
        exact ⟨⟨held.whole, held.stops⟩, fun live => ⟨live, (and_iff_left lossless).symm⟩⟩
      next running =>
        have running : before.main.gStop = false := by simpa using running
        obtain ⟨kept, same⟩ := turnSecond_kept held running taken
        exact ⟨kept, fun live => ⟨.inr running, same live⟩⟩
    next => cases taken
    next => cases taken

/-- When stage 2 ends since the peer closed, all bytes of its stream have been received
and printed exactly when no turn met a hang-up before the last byte was read and no zero
was among the bytes that one `recv` returned. -/
theorem all_delivered_iff (main : Main) (stream : List UInt8) (events : List Event) {last : Chat}
    (run : exec step (start main stream) events = some last) (ended : last.inbound.byPeer = true) :
    last.inbound.received = stream ∧ last.inbound.printed = stream ↔
      exec (meeting Lossless step) (start main stream) events = some last := by
  have initial : Kept stream (start main stream) := ⟨⟨rfl, nofun, nofun, Nat.le_refl _⟩, nofun⟩
  obtain ⟨kept, same⟩ := exec_meeting_iff_of_live (Kept stream) Live (fun chat => Intact chat.inbound) initial
    ⟨rfl, nofun⟩ (fun _ _ _ held taken => step_kept held taken) run
  rw [← same (.inl ended)]
  have whole := kept.whole.whole
  rw [kept.whole.fin (kept.whole.closed ended), List.append_nil] at whole
  constructor
  · rintro ⟨received, printed⟩
    refine ⟨printed.trans received.symm, fun _ => ?_⟩
    rw [received] at whole
    simpa using whole
  · rintro ⟨printed, read⟩
    rw [read ended, List.append_nil] at whole
    exact ⟨whole, printed.trans whole⟩

/-- The loop of stage 2 after the peer was accepted on descriptor 5. -/
def chatting : Main :=
  let first := Main.start Main.standardSockets Main.standardFiles .inProgress false
  (exec Main.step first [⟨.ready [Main.peerArrives], false⟩]).getD first

def fromPeer (events : Flags) (received : Main.RecvResult) : Main.Turn :=
  ⟨.ready [⟨5, events, -1, none, .again, none, received, []⟩], false⟩

def readBeforeClose : List Event :=
  [.segment 2, .turn (fromPeer { input := true } .bytes) 2, .fin,
    .turn (fromPeer { input := true, rdhup := true } .closed) 0]

theorem read_before_close_delivered : ∃ last, exec step (start chatting [104, 105]) readBeforeClose = some last ∧
    last.inbound.byPeer = true ∧ last.inbound.received = [104, 105] ∧ last.inbound.printed = [104, 105] :=
  ⟨_, rfl, rfl, (all_delivered_iff chatting [104, 105] readBeforeClose rfl rfl).mpr rfl⟩

def closeWithBytes : List Event :=
  [.segment 2, .fin, .turn (fromPeer { input := true, rdhup := true } .bytes) 2]

theorem bytes_lost_at_close : ¬ ∀ (main : Main) (stream : List UInt8) (events : List Event) (last : Chat),
    exec step (start main stream) events = some last → last.inbound.byPeer = true →
      last.inbound.received = stream ∧ last.inbound.printed = stream := by
  intro always
  have lost := always chatting [104, 105] closeWithBytes _ rfl rfl
  exact absurd lost.1 (by decide)

end NetPrograms.P2p.Chat
