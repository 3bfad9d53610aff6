import Mathlib.Data.Int.ConditionallyCompleteOrder
import NetPrograms.Lib.Trace
import NetPrograms.Proofs.ChatMembership

/-! When a session is closed as silent. Its idle clock is stamped by the first
update and by keep-alive commands, and by no other message. -/

namespace NetPrograms.Proofs.ChatTimeout
open Kcp ChatServer ChatSteps ChatMembership

/-- The times at which the idle clock of a session was set. -/
def stamps (id : SessionId) (trace : List Action) : List Int :=
  trace.filterMap fun
    | .refreshed other time => if other = id then some time else none
    | .seeded other time => if other = id then some time else none
    | _ => none

def receivedTimes (id : SessionId) (trace : List Action) : List Int :=
  trace.filterMap fun
    | .received other _ time => if other = id then some time else none
    | _ => none

theorem stamps_append (id : SessionId) (first second : List Action) :
    stamps id (first ++ second) = stamps id first ++ stamps id second := List.filterMap_append

/-- An update finds the session offline exactly when no stamp is recent. -/
def Judged (timeout : Int) (earlier : List Action) (action : Action) : Prop :=
  ∀ id time offline, action = .updated id time offline →
    (offline = true ↔ ∀ stamp ∈ stamps id earlier, stamp + timeout < time)

/-- The time is the last stamp, or there is none yet. -/
def Latest (time : Int) (stamps : List Int) : Prop :=
  (stamps = [] ∧ time = 0) ∨ (time ∈ stamps ∧ ∀ stamp ∈ stamps, stamp ≤ time)

theorem Latest.push {current : Int} {stamps : List Int} (past : ∀ stamp ∈ stamps, stamp ≤ current) :
    Latest current (stamps ++ [current]) := by
  refine .inr ⟨by simp, ?_⟩
  intro stamp member
  rcases List.mem_append.mp member with earlier | last
  · exact past stamp earlier
  · exact le_of_eq (List.mem_singleton.mp last)

def Quiet : Action → Prop
  | .made .. | .moved .. | .sent .. | .received .. => True
  | .refreshed .. | .seeded .. | .updated .. => False

theorem stamps_quiet (id : SessionId) {actions : List Action} (quiet : ∀ action ∈ actions, Quiet action) :
    stamps id actions = [] := by
  apply List.filterMap_eq_nil_iff.mpr
  intro action member
  have silent := quiet action member
  cases action with
  | made => rfl
  | moved => rfl
  | sent => rfl
  | received => rfl
  | refreshed => cases silent
  | seeded => cases silent
  | updated => cases silent

theorem judged_quiet (timeout : Int) {action : Action} (quiet : Quiet action) (earlier : List Action) :
    Judged timeout earlier action := by
  intro id time offline same
  subst same
  cases quiet

structure Timed (clock : Nat → Int) (timeout : Int) (server : ChatServer) : Prop where
  options : server.kcpOpt.isServer = true ∧ server.kcpOpt.keepAliveTimeout = timeout
  objects : ∀ id, (server.objects id).kcpOpt.isServer = true ∧ (server.objects id).kcpOpt.keepAliveTimeout = timeout
  past : ∀ id, ∀ stamp ∈ stamps id server.trace, stamp ≤ clock server.tick
  unborn : ∀ id, server.next ≤ id → stamps id server.trace = []
  latest : ∀ id, Latest (server.objects id).recvLatestTime (stamps id server.trace)
  judged : Always (Judged timeout) server.trace

section steps
variable {clock : Nat → Int} {timeout : Int} {before after : ChatServer}

theorem Timed.frame (timed : Timed clock timeout before) (monotone : Monotone clock)
    (kcpOpt : after.kcpOpt = before.kcpOpt) (next : before.next = after.next) (tick : before.tick ≤ after.tick)
    (object : ∀ id, (after.objects id).kcpOpt = (before.objects id).kcpOpt ∧
      (after.objects id).recvLatestTime = (before.objects id).recvLatestTime)
    {more : List Action} (trace : after.trace = before.trace ++ more) (quiet : ∀ action ∈ more, Quiet action) :
    Timed clock timeout after := by
  have kept : ∀ id, stamps id after.trace = stamps id before.trace := by
    intro id
    rw [trace, stamps_append, stamps_quiet id quiet, List.append_nil]
  refine ⟨by rw [kcpOpt]; exact timed.options, ?_, ?_, ?_, ?_, ?_⟩
  · intro id
    rw [(object id).1]
    exact timed.objects id
  · intro id stamp member
    rw [kept] at member
    exact (timed.past id stamp member).trans (monotone tick)
  · intro id unborn
    rw [kept]
    exact timed.unborn id (next ▸ unborn)
  · intro id
    rw [kept, (object id).2]
    exact timed.latest id
  · rw [trace]
    exact timed.judged.append fun action member => judged_quiet timeout (quiet action member)

theorem Timed.same (timed : Timed clock timeout before) (monotone : Monotone clock)
    (kcpOpt : after.kcpOpt = before.kcpOpt) (next : before.next = after.next) (tick : before.tick = after.tick)
    (object : ∀ id, (after.objects id).kcpOpt = (before.objects id).kcpOpt ∧
      (after.objects id).recvLatestTime = (before.objects id).recvLatestTime)
    (trace : after.trace = before.trace) : Timed clock timeout after :=
  timed.frame monotone kcpOpt next (Nat.le_of_eq tick) object (trace.trans (List.append_nil _).symm) (by simp)

theorem Timed.stamp (timed : Timed clock timeout before) (monotone : Monotone clock)
    (kcpOpt : after.kcpOpt = before.kcpOpt) (next : before.next = after.next) (tick : before.tick ≤ after.tick)
    {id : SessionId} (known : id < before.next)
    (object : ∀ other, (after.objects other).kcpOpt = (before.objects other).kcpOpt ∧
      (after.objects other).recvLatestTime =
        if other = id then clock before.tick else (before.objects other).recvLatestTime)
    {action : Action} (trace : after.trace = before.trace ++ [action])
    (sets : action = .refreshed id (clock before.tick) ∨ action = .seeded id (clock before.tick)) :
    Timed clock timeout after := by
  have stamped : ∀ other, stamps other after.trace =
      stamps other before.trace ++ if other = id then [clock before.tick] else [] := by
    intro other
    rw [trace, stamps_append]
    congr 1
    by_cases own : id = other
    · rcases sets with rfl | rfl <;> simp [stamps, own]
    · rcases sets with rfl | rfl <;> simp [stamps, own, Ne.symm own]
  refine ⟨by rw [kcpOpt]; exact timed.options, ?_, ?_, ?_, ?_, ?_⟩
  · intro other
    rw [(object other).1]
    exact timed.objects other
  · intro other stamp member
    rw [stamped, List.mem_append] at member
    rcases member with earlier | last
    · exact (timed.past other stamp earlier).trans (monotone tick)
    · split at last
      next => exact (List.mem_singleton.mp last) ▸ monotone tick
      next => cases last
  · intro other unborn
    have different : other ≠ id := by
      intro same
      rw [same, ← next] at unborn
      exact Nat.not_lt.mpr unborn known
    rw [stamped, if_neg different, timed.unborn other (next ▸ unborn)]
    rfl
  · intro other
    rw [stamped, (object other).2]
    split
    next => exact Latest.push (timed.past other)
    next =>
      rw [List.append_nil]
      exact timed.latest other
  · rw [trace]
    apply timed.judged.snoc
    intro other time offline same
    rcases sets with rfl | rfl <;> cases same

private theorem sent_quiet (text : List UInt8) (members : List SessionId) :
    ∀ action ∈ members.map (Action.sent · text), Quiet action := by
  intro action member
  obtain ⟨id, -, rfl⟩ := List.mem_map.mp member
  trivial

private theorem joined_quiet (server : ChatServer) (conv : UInt32) (addr : SockAddr) :
    ∀ action ∈ Action.made server.next addr ::
      (server.users.insert server.next).members.map (.sent · (joinText server conv addr)), Quiet action := by
  intro action member
  rcases List.mem_cons.mp member with rfl | sent
  · trivial
  · exact sent_quiet _ _ action sent

theorem Timed.notify (timed : Timed clock timeout before) (monotone : Monotone clock) (text : List UInt8) :
    Timed clock timeout (before.notify text) := by
  refine timed.frame monotone ?_ ?_ ?_ ?_ (ChatNotify.notify_trace before text) (sent_quiet _ _)
  · simp
  · simp
  · simp
  · intro id
    obtain ⟨sndQueue, same⟩ := ChatNotify.notify_object before text id
    rw [same]
    exact ⟨rfl, rfl⟩

theorem Timed.modify (timed : Timed clock timeout before) (monotone : Monotone clock) (id : SessionId)
    {change : KcpSession → KcpSession} (kept : ∀ session, (change session).kcpOpt = session.kcpOpt ∧
      (change session).recvLatestTime = session.recvLatestTime) : Timed clock timeout (before.modify id change) := by
  refine timed.same monotone rfl rfl rfl ?_ rfl
  intro other
  by_cases same : other = id
  · subst same
    simpa [ChatServer.modify] using kept (before.objects other)
  · simp [ChatServer.modify, same]

theorem Timed.joined (timed : Timed clock timeout before) (conv : UInt32) (addr : SockAddr) :
    Timed clock timeout (joined before conv addr) := by
  have kept : ∀ id, stamps id (ChatSteps.joined before conv addr).trace = stamps id before.trace := by
    intro id
    rw [joined_trace, stamps_append, stamps_quiet id (joined_quiet _ _ _), List.append_nil]
  refine ⟨by rw [joined_kcpOpt]; exact timed.options, ?_, ?_, ?_, ?_, ?_⟩
  · intro id
    obtain ⟨sndQueue, same⟩ := joined_object before conv addr id
    rw [same, withMade_eq]
    split
    next => exact timed.options
    next => exact timed.objects id
  · intro id stamp member
    rw [kept] at member
    rw [joined_tick]
    exact timed.past id stamp member
  · intro id unborn
    rw [joined_next] at unborn
    rw [kept]
    exact timed.unborn id (Nat.le_of_succ_le unborn)
  · intro id
    obtain ⟨sndQueue, same⟩ := joined_object before conv addr id
    rw [kept, same, withMade_eq]
    split
    next own => exact .inl ⟨timed.unborn id (Nat.le_of_eq own.symm), rfl⟩
    next => exact timed.latest id
  · rw [joined_trace]
    exact timed.judged.append fun action member => judged_quiet timeout (joined_quiet _ _ _ action member)

theorem getSession_timed (timed : Timed clock timeout before) (monotone : Monotone clock)
    (consistent : Consistent before) (conv : UInt32) (addr : SockAddr) :
    Timed clock timeout (before.getSession conv addr).2 ∧
      (before.getSession conv addr).1 < (before.getSession conv addr).2.next := by
  cases found : before.sessions.lookup conv with
  | none =>
    rw [getSession_new found]
    exact ⟨timed.joined conv addr, by simp⟩
  | some id =>
    have known := consistent.known conv id found
    rw [getSession_known found]
    dsimp only
    split
    · exact ⟨timed, known⟩
    · have moved : Timed clock timeout (before.modify id (·.setAddr addr)) := timed.modify monotone id fun _ => ⟨rfl, rfl⟩
      exact ⟨moved.frame monotone rfl rfl (Nat.le_refl _) (fun _ => ⟨rfl, rfl⟩) rfl (by simp [Quiet]), known⟩

theorem callbacks_timed (monotone : Monotone clock) (id : SessionId) :
    ServerDelivery.Keeps (callbacks clock id) fun server => Timed clock timeout server ∧ id < server.next := by
  constructor
  · intro server msg ⟨timed, known⟩
    refine ⟨?_, known⟩
    refine timed.frame monotone rfl rfl (Nat.le_succ _) (fun _ => ⟨rfl, rfl⟩) rfl ?_
    intro action member
    cases List.mem_singleton.mp member
    trivial
  · intro server ⟨timed, known⟩
    refine ⟨?_, known⟩
    refine timed.stamp monotone rfl rfl (Nat.le_succ _) known ?_ rfl (.inl rfl)
    intro other
    by_cases same : other = id
    · subst same
      simp [callbacks, iclock64, ChatServer.modify, record, KcpSession.setKeepAlive]
    · simp [callbacks, iclock64, ChatServer.modify, record, same]
  · intro server msg ⟨timed, known⟩
    exact ⟨timed.notify monotone _, by simpa [callbacks, handleMessage] using known⟩

def seeded (clock : Nat → Int) (server : ChatServer) (id : SessionId) : ChatServer :=
  { server with
    objects := Function.update server.objects id ((server.objects id).seed (clock server.tick))
    trace := server.trace ++ seeds (server.objects id) id (clock server.tick) }

theorem Timed.seeded (timed : Timed clock timeout before) (monotone : Monotone clock) {id : SessionId}
    (known : id < before.next) : Timed clock timeout (seeded clock before id) := by
  by_cases first : (before.objects id).recvLatestTime = 0
  · have trace : (ChatTimeout.seeded clock before id).trace = before.trace ++ [.seeded id (clock before.tick)] := by
      simp [ChatTimeout.seeded, seeds, first]
    refine timed.stamp monotone rfl rfl le_rfl known ?_ trace (.inr rfl)
    intro other
    by_cases same : other = id
    · subst same
      simp [ChatTimeout.seeded, KcpSession.seed, first]
    · simp [ChatTimeout.seeded, same]
  · have trace : (ChatTimeout.seeded clock before id).trace = before.trace ++ [] := by
      simp [ChatTimeout.seeded, seeds, first]
    refine timed.frame monotone rfl rfl le_rfl ?_ trace (by simp)
    intro other
    by_cases same : other = id
    · subst same
      simp [ChatTimeout.seeded, KcpSession.seed, first]
    · simp [ChatTimeout.seeded, same]

theorem seeded_latest (timed : Timed clock timeout before) (monotone : Monotone clock) {id : SessionId}
    (known : id < before.next) :
    let time := ((before.objects id).seed (clock before.tick)).recvLatestTime
    let earlier := stamps id (seeded clock before id).trace
    time ∈ earlier ∧ ∀ stamp ∈ earlier, stamp ≤ time := by
  have latest := (timed.seeded monotone known).latest id
  have self : (seeded clock before id).objects id = (before.objects id).seed (clock before.tick) :=
    Function.update_self ..
  rw [self] at latest
  rcases latest with ⟨none, zero⟩ | last
  · -- A clock at zero is started by this very call, which is a stamp.
    by_cases first : (before.objects id).recvLatestTime = 0
    · simp [seeded, seeds, first, stamps] at none
    · simp [KcpSession.seed, first] at zero
  · exact last

theorem callUpdate_server {id : SessionId} (server : (before.objects id).kcpOpt.isServer = true) :
    before.callUpdate clock id =
      let time := ((before.objects id).seed (clock before.tick)).recvLatestTime
      let offline := decide ((before.objects id).kcpOpt.keepAliveTimeout < clock before.tick - time)
      (offline, { seeded clock before id with
        tick := before.tick + 1
        trace := (seeded clock before id).trace ++ [.updated id (clock before.tick) offline] }) := by
  rw [callUpdate_eq]
  dsimp only
  rw [SessionCalls.update_server _ server]
  simp [seeded]

theorem callUpdate_timed (timed : Timed clock timeout before) (monotone : Monotone clock) {id : SessionId}
    (known : id < before.next) : Timed clock timeout (before.callUpdate clock id).2 := by
  obtain ⟨server, limit⟩ := timed.objects id
  have started := timed.seeded monotone known
  obtain ⟨member, last⟩ := seeded_latest timed monotone known
  have silent : ∀ other offline, stamps other ((seeded clock before id).trace ++
      [.updated id (clock before.tick) offline]) = stamps other (seeded clock before id).trace := by
    intro other offline
    simp [stamps]
  rw [callUpdate_server server]
  refine ⟨started.options, started.objects, ?_, ?_, ?_, ?_⟩
  · intro other stamp found
    rw [silent] at found
    exact (started.past other stamp found).trans (monotone (Nat.le_succ _))
  · intro other unborn
    rw [silent]
    exact started.unborn other unborn
  · intro other
    rw [silent]
    exact started.latest other
  · apply started.judged.snoc
    intro other time offline same
    cases same
    rw [decide_eq_true_iff, limit]
    constructor
    · intro late stamp found
      have bound := last stamp found
      omega
    · intro old
      have late := old _ member
      omega

theorem updateSession_timed (timed : Timed clock timeout before) (monotone : Monotone clock) {conv : UInt32}
    {id : SessionId} (known : id < before.next) : Timed clock timeout (updateSession clock before ⟨conv, id⟩) := by
  have called := callUpdate_timed timed monotone known
  simp only [updateSession]
  split
  · exact called
  · have left : Timed clock timeout { (before.callUpdate clock id).2 with
        users := (before.callUpdate clock id).2.users.erase id } :=
      called.same monotone rfl rfl rfl (fun _ => ⟨rfl, rfl⟩) rfl
    have told := left.notify monotone (userFrom ((before.callUpdate clock id).2.objects id) ++
      ascii " left the ChatRoom!")
    exact told.same monotone rfl rfl rfl (fun _ => ⟨rfl, rfl⟩) rfl

theorem opening_timed (monotone : Monotone clock) :
    Opening clock (fun server => Consistent server ∧ Timed clock timeout server) fun id server => id < server.next where
  buf server buf held := ⟨(opening_consistent clock).buf server buf held.1, held.2.same monotone rfl rfl rfl (fun _ => ⟨rfl, rfl⟩) rfl⟩
  rcvQueue server id rcvQueue held := ⟨held.1.modify id ⟨rfl, rfl, rfl⟩, held.2.modify monotone id fun _ => ⟨rfl, rfl⟩⟩
  getSession server conv addr held := by
    obtain ⟨timed, known⟩ := getSession_timed held.2 monotone held.1 conv addr
    exact ⟨⟨getSession_consistent held.1 conv addr, timed⟩, known⟩
  callbacks id := by
    have both := (callbacks_consistent clock id).and (@callbacks_timed clock timeout monotone id).rounds
    simpa only [and_assoc] using both

end steps

theorem start_timed (clock : Nat → Int) (kcpOpt : KcpOpt) : Timed clock kcpOpt.keepAliveTimeout (start kcpOpt) :=
  ⟨⟨rfl, rfl⟩, fun _ => ⟨rfl, rfl⟩, by simp [start, stamps], fun _ _ => rfl, fun _ => .inl ⟨rfl, rfl⟩, Always.nil⟩

theorem run_timed {clock : Nat → Int} (monotone : Monotone clock) {kcpOpt : KcpOpt} {events : List Event}
    {server : ChatServer} (run : Run (Step clock) (start kcpOpt) events server) :
    Timed clock kcpOpt.keepAliveTimeout server := by
  have held := run.invariant (fun server => Consistent server ∧ Timed clock kcpOpt.keepAliveTimeout server)
    ⟨start_consistent kcpOpt, start_timed clock kcpOpt⟩ ?_
  · exact held.2
  · intro before event after held step
    cases step with
    | receive received => exact receive_keeps (opening_timed monotone) received held
    | update all =>
      apply update_keeps (fun server => Consistent server ∧ Timed clock kcpOpt.keepAliveTimeout server) _ all held
      intro server conv id found ⟨consistent, timed⟩
      exact ⟨updateSession_consistent consistent clock found,
        updateSession_timed timed monotone (consistent.known conv id found)⟩

/-- A session that is closed had no message in the preceding `timeout` milliseconds. -/
def ClosedSilent (timeout : Int) (earlier : List Action) (action : Action) : Prop :=
  ∀ id time, action = .updated id time true → ∀ received ∈ receivedTimes id earlier, received + timeout < time

/-- A session that is checked and had a message in the preceding `timeout`
milliseconds had its idle clock set in them too. -/
def KeptAlive (timeout : Int) (earlier : List Action) (action : Action) : Prop :=
  ∀ id time offline, action = .updated id time offline →
    (∃ received ∈ receivedTimes id earlier, time ≤ received + timeout) →
      ∃ stamp ∈ stamps id earlier, time ≤ stamp + timeout

/-- Only silent sessions are closed in a run exactly when every session with a recent
message has a recent stamp at each of its checks. -/
theorem closed_silent_iff {clock : Nat → Int} (monotone : Monotone clock) {kcpOpt : KcpOpt} {events : List Event}
    {server : ChatServer} (run : Run (Step clock) (start kcpOpt) events server) :
    Always (ClosedSilent kcpOpt.keepAliveTimeout) server.trace ↔
      Always (KeptAlive kcpOpt.keepAliveTimeout) server.trace := by
  apply (run_timed monotone run).judged.congr
  intro earlier action judged
  constructor
  · intro silent id time offline same ⟨received, member, recent⟩
    by_contra stale
    simp only [not_exists, not_and, not_le] at stale
    have closed : offline = true := (judged id time offline same).mpr stale
    subst closed
    exact absurd (silent id time same received member) (not_lt.mpr recent)
  · intro kept id time same received member
    by_contra recent
    obtain ⟨stamp, found, late⟩ := kept id time true same ⟨received, member, not_lt.mp recent⟩
    exact absurd ((judged id time true same).mp rfl stamp found) (not_lt.mpr late)

private def ticks (n : Nat) : Int := 3000 * n

private theorem ticks_monotone : Monotone ticks := by
  intro first second earlier
  unfold ticks
  omega

private def line : Datagram := ⟨List.replicate 24 7, header_fits_body, ⟨(127, 0, 0, 1), 5000⟩⟩

private def chatting : Option ChatServer :=
  ((start {}).receive ticks (some line) 0 [ascii "hello"]).bind fun server =>
    ((server.update ticks server.sessions.entries).receive ticks (some line) 0 [ascii "hello"]).map fun server =>
      server.update ticks server.sessions.entries

private theorem chatting_runs {server : ChatServer} (last : chatting = some server) :
    ∃ events, Run (Step ticks) (start {}) events server := by
  obtain ⟨first, received, rest⟩ := Option.bind_eq_some_iff.mp last
  obtain ⟨second, again, rfl⟩ := Option.map_eq_some_iff.mp rest
  have run := Run.next (Run.single (Step.receive received)) (Step.update (List.Perm.refl _))
  exact ⟨_, Run.next (Run.next run (Step.receive again)) (Step.update (List.Perm.refl _))⟩

theorem closed_silent_iff_chatting :
    ∃ server, chatting = some server ∧
      (Always (ClosedSilent 5000) server.trace ↔ Always (KeptAlive 5000) server.trace) := by
  obtain ⟨server, last⟩ := Option.isSome_iff_exists.mp (by rfl : chatting.isSome)
  obtain ⟨events, run⟩ := chatting_runs last
  exact ⟨server, last, closed_silent_iff ticks_monotone run⟩

/-- The message is three seconds old and the limit is five when the session is closed. -/
theorem chatting_client_is_closed :
    ∃ events server, Run (Step ticks) (start {}) events server ∧ ¬ Always (ClosedSilent 5000) server.trace := by
  have shown : chatting.map (fun server => (server.trace[8]?, receivedTimes 0 (server.trace.take 8))) =
      some (some (.updated 0 9000 true), [0, 6000]) := by rfl
  obtain ⟨server, last, seen⟩ := Option.map_eq_some_iff.mp shown
  obtain ⟨closed, times⟩ := Prod.mk.inj seen
  obtain ⟨events, run⟩ := chatting_runs last
  refine ⟨events, server, run, ?_⟩
  intro silent
  have within : server.trace.take 8 ++ [.updated 0 9000 true] <+: server.trace := by
    have taken := List.take_prefix 9 server.trace
    rwa [List.take_add_one, closed] at taken
  have old := silent _ _ within 0 9000 rfl 6000 (by rw [times]; decide)
  exact absurd old (by decide)

end NetPrograms.Proofs.ChatTimeout
