import Mathlib.Algebra.Order.Ring.Int
import NetPrograms.Lib.Run
import NetPrograms.Proofs.P2pSteps

/-! Which runs of one instance never lose a wake-up in stage 2. The socket of the
connect is registered since stage 1, so that the `ep_add` of stage 2 fails on it. -/

namespace NetPrograms.P2p
namespace Main

/-- The kernel reports what the peer sends and that it closes, and room to send while
there are bytes to send. -/
def Listening (s : Main) : Prop :=
  ∃ flags, s.epoll.interest s.establishedFd = some flags ∧
    flags.input = true ∧ flags.rdhup = true ∧ (outbufEmpty s.ob = false → flags.output = true)

def Wakeful (s : Main) : Prop := s.stage = .second → s.gStop = false → s.Listening

/-- The last event of a batch that brings a connection is one at which `accept`
returns a socket, unless a signal ends the program before stage 2. -/
def AcceptsLast (s : Main) (turn : Turn) : Prop :=
  s.stage = .first → s.gStop = false → turn.signal = false →
    ∀ ev ∈ (turn.wait.reported.filter fun ev => s.Accepts ev ∨ s.Connects ev).getLast?, s.Accepts ev

instance (s : Main) (turn : Turn) : Decidable (s.AcceptsLast turn) := inferInstanceAs (Decidable (_ → _ → _ → _))

variable {s before after : Main} {evs : List Ready} {turn : Turn}

theorem made_eq_map (s : Main) (evs : List Ready) : s.made evs =
    (evs.filter fun ev => s.Accepts ev ∨ s.Connects ev).map fun ev => if s.Accepts ev then ev.afd else s.cfd := by
  induction evs with
  | nil => rfl
  | cons ev evs ih =>
    rw [made, List.filterMap_cons, List.filter_cons]
    by_cases accepts : s.Accepts ev
    · simpa [accepts, made] using ih
    · by_cases connects : s.Connects ev
      · simpa [accepts, connects, made] using ih
      · simpa [accepts, connects, made] using ih

theorem cleaned_interest {fd : Int} (notCfd : fd ≠ s.cfd) (notLfd : fd ≠ s.lfd) :
    ((s.closeSocket s.cfd).closeSocket s.lfd).epoll.interest fd = s.epoll.interest fd := by
  rw [closeSocket_interest _ notLfd, closeSocket_interest _ notCfd]

theorem Opening.listening_of_accepted (opening : Opening before evs s) (waiting : Waiting before)
    (accepted : s.establishedFd ∈ before.accepted evs) : s.leaveFirst.Listening := by
  have apart := opening.apart waiting accepted
  have positive : 0 ≤ s.establishedFd := waiting.made_nonneg ((mem_made waiting.distinct).mpr (.inl accepted))
  have notLfd : s.establishedFd ≠ s.lfd := opening.lfd ▸ apart.1
  have notCfd : s.establishedFd ≠ s.cfd := by
    rw [opening.cfd]
    split
    · omega
    · exact apart.2
  have free : ((s.closeSocket s.cfd).closeSocket s.lfd).epoll.interest s.establishedFd = none := by
    rw [cleaned_interest notCfd notLfd, opening.interest _ apart.2]
    exact before.epoll.registered _ (opening.fresh _ accepted)
  have isOpen : ((s.closeSocket s.cfd).closeSocket s.lfd).epoll.files s.establishedFd = true := by
    rw [closeSocket_files, closeSocket_files, opening.files]
    exact ⟨⟨.inr accepted, fun _ => notCfd⟩, fun _ => notLfd⟩
  rw [leaveFirst_of_established positive]
  refine ⟨{ input := true, rdhup := true }, ?_, rfl, rfl, fun some => Bool.noConfusion some⟩
  rw [Epoll.add_new _ _ isOpen free]
  exact Function.update_self ..

theorem Opening.deaf_of_connected (opening : Opening before evs s) (waiting : Waiting before)
    (connects : ∃ ev ∈ evs, before.Connects ev) (same : s.establishedFd = before.cfd) : ¬ s.leaveFirst.Listening := by
  have positive : 0 ≤ s.establishedFd := same ▸ waiting.cfdOpen
  have notLfd : s.establishedFd ≠ s.lfd := by
    rw [same, opening.lfd]
    exact waiting.distinct.symm
  have notCfd : s.establishedFd ≠ s.cfd := by
    rw [opening.cfd, if_pos connects]
    omega
  have kept : ((s.closeSocket s.cfd).closeSocket s.lfd).epoll.interest s.establishedFd =
      some { output := true, err := true, hup := true } := by
    obtain ⟨ev, -, connect⟩ := id connects
    rw [cleaned_interest notCfd notLfd, same, opening.connected connects, waiting.registered connect.1]
  rw [leaveFirst_of_established positive]
  rintro ⟨flags, interest, input, -⟩
  rw [Epoll.add_old _ _ kept, kept] at interest
  cases interest
  cases input

/-- In stage 2 only the appends and the flushes change the interest, and both make it
fit the buffer. -/
theorem Wakeful.chats (wakeful : Wakeful before) (second : before.stage = .second) (chats : Chats before after) :
    Wakeful after := by
  cases chats with
  | same => exact wakeful
  | stops ob =>
    intro _ running
    cases running
  | wants ob =>
    intro _ running
    obtain ⟨flags, interest, -⟩ := wakeful second running
    refine ⟨wanted ob, ?_, rfl, rfl, ?_⟩
    · change (before.epoll.mod before.establishedFd (wanted ob)).interest before.establishedFd = _
      rw [Epoll.mod_old _ _ interest]
      exact Function.update_self ..
    · intro some
      change (!outbufEmpty ob) = true
      rw [some]
      rfl
  | waits ob some =>
    intro _ running
    obtain ⟨flags, interest, input, rdhup, output⟩ := wakeful second running
    exact ⟨flags, interest, input, rdhup, fun _ => output some⟩

theorem Wakeful.interrupt (wakeful : Wakeful s) : Wakeful (s.interrupt turn) := by
  intro second running
  exact wakeful second (Bool.or_eq_false_iff.mp running).1

structure Awake (s : Main) : Prop where
  first : s.stage = .first → Waiting s
  wakeful : Wakeful s

theorem Opening.listening_iff (opening : Opening before evs s) (waiting : Waiting before) (some : before.made evs ≠ []) :
    s.leaveFirst.Listening ↔
      ∀ ev ∈ (evs.filter fun ev => before.Accepts ev ∨ before.Connects ev).getLast?, before.Accepts ev := by
  have established := opening.established
  rw [made_eq_map] at some established
  obtain ⟨ev, last⟩ : ∃ ev, (evs.filter fun ev => before.Accepts ev ∨ before.Connects ev).getLast? = .some ev :=
    Option.ne_none_iff_exists'.mp (by simpa [List.getLast?_eq_none_iff] using some)
  have member := List.mem_of_getLast? last
  rw [List.mem_filter, decide_eq_true_iff] at member
  rw [List.getLastD_eq_getLast?, List.getLast?_map, last] at established
  rw [last]
  by_cases accepts : before.Accepts ev
  · have accepted : s.establishedFd ∈ before.accepted evs := by
      apply mem_accepted.mpr
      refine ⟨ev, member.1, accepts, ?_⟩
      simpa [accepts] using established.symm
    constructor
    · rintro - _ ⟨⟩
      exact accepts
    · intro _
      exact opening.listening_of_accepted waiting accepted
  · have connects := member.2.resolve_left accepts
    have same : s.establishedFd = before.cfd := by simpa [accepts] using established
    constructor
    · intro listening
      exact absurd listening (opening.deaf_of_connected waiting ⟨ev, member.1, connects⟩ same)
    · intro all
      exact absurd (all ev rfl) accepts

theorem Awake.of_wakeful (wakeful : Wakeful after) (met : AcceptsLast before turn) (first : after.stage = .first → Waiting after) :
    (Wakeful after ↔ AcceptsLast before turn) ∧ (Wakeful after → Awake after) :=
  ⟨⟨fun _ => met, fun _ => wakeful⟩, fun _ => ⟨first, wakeful⟩⟩

theorem Awake.step (awake : Awake before) (taken : before.step turn = some after) :
    (Wakeful after ↔ AcceptsLast before turn) ∧ (Wakeful after → Awake after) := by
  cases step_iterates awake.first taken with
  | returns returned early =>
    apply Awake.of_wakeful
    · intro second
      rw [returned] at second
      cases second
    · intro first running _ ev last
      rw [early first running] at last
      cases last
    · intro first
      rw [returned] at first
      cases first
  | @waits middle waiting opening none running =>
    have waits : Waiting (middle.interrupt turn) := (opening.waiting waiting none).interrupt
    apply Awake.of_wakeful _ _ fun _ => waits
    · intro second
      rw [waits.stage] at second
      cases second
    · intro _ _ _ ev last
      rw [made_eq_map, List.map_eq_nil_iff] at none
      rw [none] at last
      cases last
  | @enters middle waiting opening some running distinct entered =>
    have listening := opening.listening_iff waiting some
    have stage : (middle.leaveFirst.interrupt turn).stage = .second := entered.stage
    have stopped : (middle.leaveFirst.interrupt turn).gStop = turn.signal := by
      change (middle.leaveFirst.gStop || turn.signal) = turn.signal
      rw [entered.gStop, opening.gStop, running]
      rfl
    constructor
    · constructor
      · intro wakeful _ _ quiet
        exact listening.mp (wakeful stage (stopped.trans quiet))
      · intro accepts _ on
        exact listening.mpr (accepts waiting.stage running (stopped.symm.trans on))
    · intro wakeful
      refine ⟨?_, wakeful⟩
      intro first
      rw [stage] at first
      cases first
  | @chats middle second chat =>
    have kept : middle.stage = .second ∧ Wakeful middle := by
      rcases chat with rfl | ⟨evs, chat⟩
      · exact ⟨second, awake.wakeful⟩
      · refine chatEvents_rule (fun s => s.stage = .second ∧ Wakeful s) ?_ ⟨second, awake.wakeful⟩ chat
        intro before after held chats
        exact ⟨chats.stage.trans held.1, held.2.chats held.1 chats⟩
    have stage : (middle.interrupt turn).stage = .second := kept.1
    apply Awake.of_wakeful kept.2.interrupt
    · intro first
      rw [second] at first
      cases first
    · intro first
      rw [stage] at first
      cases first

/-- A run loses no wake-up exactly when the connection that stage 2 gets comes from
`accept`. -/
theorem wakeful_iff (sockets : Sockets) (others : Int → Bool) (result : ConnectResult) (gStop : Bool)
    (turns : List Turn) (last : Main) (reached : exec Main.step (start sockets others result gStop) turns = some last) :
    Throughout Main.step Wakeful (start sockets others result gStop) turns ↔
      exec (meeting AcceptsLast Main.step) (start sockets others result gStop) turns = some last := by
  have initial : Wakeful (start sockets others result gStop) := by
    intro second
    cases second
  exact (throughout_iff_meeting Awake Wakeful ⟨fun _ => start_waiting .., initial⟩ initial
    (fun _ _ _ awake taken => awake.step taken) reached).2

theorem wakeful_iff_accepting :
    ∃ last, exec Main.step (start standardSockets standardFiles .inProgress false) [⟨.ready [peerArrives], false⟩] =
        some last ∧
      (Throughout Main.step Wakeful (start standardSockets standardFiles .inProgress false)
          [⟨.ready [peerArrives], false⟩] ↔
        exec (meeting AcceptsLast Main.step) (start standardSockets standardFiles .inProgress false)
          [⟨.ready [peerArrives], false⟩] = some last) :=
  ⟨_, rfl, wakeful_iff _ _ _ _ _ _ rfl⟩

/-- On the connect path the loop of stage 2 starts without `EPOLLIN`. -/
theorem wakeup_lost_connecting :
    ∃ last, exec Main.step (start standardSockets standardFiles .inProgress false) [⟨.ready [connectEnds], false⟩] =
        some last ∧ last.stage = .second ∧ last.gStop = false ∧ ¬ Wakeful last := by
  refine ⟨_, rfl, rfl, rfl, ?_⟩
  intro wakeful
  obtain ⟨flags, interest, input, -⟩ := wakeful rfl rfl
  obtain rfl := Option.some.inj (show some { output := true, err := true, hup := true } = some flags from interest)
  cases input

end Main
end NetPrograms.P2p
