import Mathlib.Algebra.Order.Ring.Int
import Mathlib.Data.List.Nodup
import NetPrograms.Lib.Run
import NetPrograms.Proofs.P2pSteps

/-! Which runs of one instance keep exactly one connection. A connect that succeeds
at once is forgotten, and the connection that a batch makes first is lost when the
batch makes two. -/

namespace NetPrograms.P2p
namespace Main

/-- `waiting` is about the states from which stage 1 calls `epoll_wait`, `chatting`
about stage 2. -/
structure OneConnection (s : Main) : Prop where
  waiting : s.stage = .first → s.gStop = false → s.connections = []
  chatting : s.stage = .second → s.establishedFd ∈ s.connections ∧ s.epoll.files s.establishedFd = true ∧
    ∀ fd ∈ s.sockets, fd ≠ s.establishedFd → s.epoll.files fd = false

/-- No batch of stage 1 both accepts a socket and finds that the connect has
succeeded. -/
def Single (s : Main) (turn : Turn) : Prop :=
  s.stage = .first → s.gStop = false →
    ¬ ((∃ ev ∈ turn.wait.reported, s.Accepts ev) ∧ ∃ ev ∈ turn.wait.reported, s.Connects ev)

instance (s : Main) (turn : Turn) : Decidable (s.Single turn) := inferInstanceAs (Decidable (_ → _ → _))

variable {s before after : Main} {evs : List Ready} {turn : Turn}

theorem OneConnection.returned {code : Int} (stage : s.stage = .returned code) : OneConnection s := by
  constructor <;> intro other <;> rw [stage] at other <;> cases other

theorem Opening.entered_files (opening : Opening before evs s) (waiting : Waiting before) (entered : Entered s after)
    (fd : Int) : after.epoll.files fd = true ↔ (before.epoll.files fd = true ∨ fd ∈ before.accepted evs) ∧
      ((¬ ∃ ev ∈ evs, before.Connects ev) → fd ≠ before.cfd) ∧ fd ≠ before.lfd := by
  have lfdOpen := waiting.lfdOpen
  have cfdOpen := waiting.cfdOpen
  rw [entered.files, opening.files, opening.cfd, opening.lfd]
  split
  next connects => simp [connects, lfdOpen]
  next none => simp [none, lfdOpen, cfdOpen]

/-- No two events of a batch are about one descriptor, so a batch accepts once. -/
theorem accepted_unique (distinct : (evs.map (·.fd)).Nodup) {fd other : Int} (first : fd ∈ before.accepted evs)
    (second : other ∈ before.accepted evs) : fd = other := by
  obtain ⟨ev, member, accepts, rfl⟩ := mem_accepted.mp first
  obtain ⟨ev', member', accepts', rfl⟩ := mem_accepted.mp second
  have same := List.inj_on_of_nodup_map distinct member member' (accepts.1.trans accepts'.1.symm)
  rw [same]

theorem Opening.made_open (opening : Opening before evs s) (waiting : Waiting before) (entered : Entered s after) {fd : Int}
    (made : fd ∈ before.made evs) : after.epoll.files fd = true := by
  rw [opening.entered_files waiting entered]
  rcases (mem_made waiting.distinct).mp made with accepted | ⟨connects, rfl⟩
  · have apart := opening.apart waiting accepted
    exact ⟨.inr accepted, fun _ => apart.2, apart.1⟩
  · exact ⟨.inl waiting.cfdFile, fun none => absurd connects none, waiting.distinct.symm⟩

theorem Opening.single (opening : Opening before evs s) (waiting : Waiting before) (some : before.made evs ≠ [])
    (distinct : (evs.map (·.fd)).Nodup) (entered : Entered s after) :
    (after.establishedFd ∈ after.connections ∧ after.epoll.files after.establishedFd = true ∧
      ∀ fd ∈ after.sockets, fd ≠ after.establishedFd → after.epoll.files fd = false) ↔
      ¬ ((∃ ev ∈ evs, before.Accepts ev) ∧ ∃ ev ∈ evs, before.Connects ev) := by
  have made := opening.established_mem some
  rw [entered.establishedFd, entered.connections, entered.sockets, opening.connections, opening.sockets, waiting.sockets]
  constructor
  · rintro ⟨-, -, closed⟩ ⟨⟨ev, member, accepts⟩, connects⟩
    have accepted : ev.afd ∈ before.accepted evs := mem_accepted.mpr ⟨ev, member, accepts, rfl⟩
    have both : ∀ fd ∈ before.made evs, fd = s.establishedFd := by
      intro fd other
      by_contra apart
      have obtained : fd ∈ [before.lfd, before.cfd] ++ before.accepted evs := by
        rcases (mem_made waiting.distinct).mp other with accepted | ⟨-, rfl⟩
        · exact List.mem_append_right _ accepted
        · simp
      have := opening.made_open waiting entered other
      rw [closed fd obtained apart] at this
      cases this
    have first := both ev.afd ((mem_made waiting.distinct).mpr (.inl accepted))
    have second := both before.cfd ((mem_made waiting.distinct).mpr (.inr ⟨connects, rfl⟩))
    exact (opening.apart waiting accepted).2 (first.trans second.symm)
  · intro one
    refine ⟨List.mem_append_right _ made, opening.made_open waiting entered made, ?_⟩
    intro fd obtained other
    rw [Bool.eq_false_iff, Ne, opening.entered_files waiting entered]
    rintro ⟨-, keeps, notLfd⟩
    rcases (mem_made waiting.distinct).mp made with accepted | ⟨connects, same⟩
    · have noConnect : ¬ ∃ ev ∈ evs, before.Connects ev := by
        intro connects
        obtain ⟨ev, member, accepts, -⟩ := mem_accepted.mp accepted
        exact one ⟨⟨ev, member, accepts⟩, connects⟩
      have notCfd := keeps noConnect
      have last : fd ∈ before.accepted evs := by simpa [notLfd, notCfd] using obtained
      exact other (accepted_unique distinct last accepted)
    · have last : fd ∈ before.accepted evs := by simpa [notLfd, ← same, other] using obtained
      obtain ⟨ev, member, accepts, -⟩ := mem_accepted.mp last
      exact one ⟨⟨ev, member, accepts⟩, connects⟩

structure Carried (before after : Main) : Prop where
  stage : after.stage = before.stage
  establishedFd : after.establishedFd = before.establishedFd
  sockets : after.sockets = before.sockets
  connections : after.connections = before.connections
  files : after.epoll.files = before.epoll.files

theorem Carried.chats {start : Main} (carried : Carried start before) (chats : Chats before after) : Carried start after := by
  cases chats with
  | same => exact carried
  | stops ob => exact { carried with }
  | wants ob => exact { carried with files := (Epoll.mod_files ..).trans carried.files }
  | waits ob some => exact { carried with }

theorem OneConnection.carried (one : OneConnection before) (second : before.stage = .second) (carried : Carried before after) :
    OneConnection after := by
  constructor
  · intro first
    rw [carried.stage, second] at first
    cases first
  · intro _
    rw [carried.establishedFd, carried.connections, carried.sockets, carried.files]
    exact one.chatting second

structure Kept (s : Main) : Prop where
  first : s.stage = .first → Waiting s
  one : OneConnection s

theorem Kept.of_one (one : OneConnection after) (single : Single before turn) (first : after.stage = .first → Waiting after) :
    (OneConnection after ↔ Single before turn) ∧ (OneConnection after → Kept after) :=
  ⟨⟨fun _ => single, fun _ => one⟩, fun _ => ⟨first, one⟩⟩

theorem Kept.step (kept : Kept before) (taken : before.step turn = some after) :
    (OneConnection after ↔ Single before turn) ∧ (OneConnection after → Kept after) := by
  cases step_iterates kept.first taken with
  | returns returned early =>
    apply Kept.of_one (OneConnection.returned returned)
    · intro first running both
      rw [early first running] at both
      simp at both
    · intro first
      rw [returned] at first
      cases first
  | @waits middle waiting opening none running =>
    have waits : Waiting (middle.interrupt turn) := (opening.waiting waiting none).interrupt
    apply Kept.of_one _ _ fun _ => waits
    · constructor
      · intro _ _
        change middle.connections = []
        rw [opening.connections, none, kept.one.waiting waiting.stage running]
        rfl
      · intro second
        rw [waits.stage] at second
        cases second
    · rintro - - ⟨⟨ev, member, accepts⟩, -⟩
      have made := (mem_made waiting.distinct).mpr (.inl (mem_accepted.mpr ⟨ev, member, accepts, rfl⟩))
      rw [none] at made
      cases made
  | @enters middle waiting opening some running distinct entered =>
    have single := opening.single waiting some distinct entered
    have stage : (middle.leaveFirst.interrupt turn).stage = .second := entered.stage
    have notFirst : (middle.leaveFirst.interrupt turn).stage ≠ .first := by
      rw [stage]
      decide
    constructor
    · constructor
      · intro one _ _
        exact single.mp (one.chatting stage)
      · intro one
        exact ⟨fun first => absurd first notFirst, fun _ => single.mpr (one waiting.stage running)⟩
    · intro one
      exact ⟨fun first => absurd first notFirst, one⟩
  | @chats middle second chat =>
    have carried : Carried before middle := by
      have refl : Carried before before := ⟨rfl, rfl, rfl, rfl, rfl⟩
      rcases chat with rfl | ⟨evs, chat⟩
      · exact refl
      · exact chatEvents_rule (Carried before) (fun _ _ => Carried.chats) refl chat
    have stage : (middle.interrupt turn).stage = .second := carried.stage.trans second
    apply Kept.of_one (kept.one.carried second { carried with : Carried before (middle.interrupt turn) })
    · intro first
      rw [second] at first
      cases first
    · intro first
      rw [stage] at first
      cases first

theorem start_oneConnection {sockets : Sockets} {others : Int → Bool} {result : ConnectResult} {gStop : Bool} :
    OneConnection (start sockets others result gStop) ↔ (result = .succeeded → gStop = true) := by
  constructor
  · rintro one rfl
    by_contra running
    have := one.waiting rfl (Bool.eq_false_of_not_eq_true running)
    cases this
  · intro unconnected
    constructor
    · intro _ running
      cases result with
      | succeeded => exact absurd (running.symm.trans (unconnected rfl)) (by decide)
      | inProgress | failed => rfl
    · intro second
      cases second

/-- A run keeps one connection exactly when the first connect has not succeeded at
once and no batch makes two connections. -/
theorem one_connection_iff (sockets : Sockets) (others : Int → Bool) (result : ConnectResult) (gStop : Bool)
    (turns : List Turn) (last : Main) (reached : exec Main.step (start sockets others result gStop) turns = some last) :
    Throughout Main.step OneConnection (start sockets others result gStop) turns ↔
      (result = .succeeded → gStop = true) ∧
        exec (meeting Single Main.step) (start sockets others result gStop) turns = some last := by
  have rule (unconnected : result = .succeeded → gStop = true) :=
    (throughout_iff_meeting Kept OneConnection ⟨fun _ => start_waiting .., start_oneConnection.mpr unconnected⟩
      (start_oneConnection.mpr unconnected) (fun _ _ _ kept taken => kept.step taken) reached).2
  constructor
  · intro throughout
    have unconnected := start_oneConnection.mp (throughout [] _ List.nil_prefix rfl)
    exact ⟨unconnected, (rule unconnected).mp throughout⟩
  · intro ⟨unconnected, met⟩
    exact (rule unconnected).mpr met

theorem one_connection_iff_accepting :
    ∃ last, exec Main.step (start standardSockets standardFiles .inProgress false) [⟨.ready [peerArrives], false⟩] =
        some last ∧
      (Throughout Main.step OneConnection (start standardSockets standardFiles .inProgress false)
          [⟨.ready [peerArrives], false⟩] ↔
        (ConnectResult.inProgress = .succeeded → false = true) ∧
          exec (meeting Single Main.step) (start standardSockets standardFiles .inProgress false)
            [⟨.ready [peerArrives], false⟩] = some last) :=
  ⟨_, rfl, one_connection_iff _ _ _ _ _ _ rfl⟩

/-- A connection made at once is not there for the loop, and of two connections of one
batch the first is never closed. -/
theorem connection_forgotten_or_leaked :
    ¬ OneConnection (start standardSockets standardFiles .succeeded false) ∧
      ∃ last, exec Main.step (start standardSockets standardFiles .inProgress false)
          [⟨.ready [peerArrives, connectEnds], false⟩] = some last ∧ ¬ OneConnection last := by
  constructor
  · intro one
    cases one.waiting rfl rfl
  · refine ⟨_, rfl, ?_⟩
    intro one
    have leaked := (one.chatting rfl).2.2 5 (by decide) (by decide)
    revert leaked
    decide

end Main
end NetPrograms.P2p
