import NetPrograms.Proofs.P2pOpening
import NetPrograms.Proofs.P2pChat

/-! What one iteration of the loop of stage 1 or of stage 2 comes to. -/

namespace NetPrograms.P2p
namespace Main

/-- The program returns, stage 1 waits for another batch, a batch of stage 1 has made a
connection, or a batch of stage 2 was handled. -/
inductive Iterates (before : Main) (turn : Turn) : Main → Prop where
  | returns {after : Main} {code : Int} (returned : after.stage = .returned code)
      (early : before.stage = .first → before.gStop = false → turn.wait.reported = []) : Iterates before turn after
  | waits {middle : Main} (waiting : Waiting before) (opening : Opening before turn.wait.reported middle)
      (none : before.made turn.wait.reported = []) (running : before.gStop = false) :
      Iterates before turn (middle.interrupt turn)
  | enters {middle : Main} (waiting : Waiting before) (opening : Opening before turn.wait.reported middle)
      (some : before.made turn.wait.reported ≠ []) (running : before.gStop = false)
      (distinct : (turn.wait.reported.map (·.fd)).Nodup) (entered : Entered middle middle.leaveFirst) :
      Iterates before turn (middle.leaveFirst.interrupt turn)
  | chats {middle : Main} (second : before.stage = .second)
      (chat : middle = before ∨ ∃ evs, before.chatEvents evs = some middle) : Iterates before turn (middle.interrupt turn)

variable {before after : Main} {turn : Turn}

theorem turnFirst_iterates (waiting : Waiting before) (running : before.gStop = false)
    (taken : before.turnFirst turn = some after) : Iterates before turn after := by
  rcases turnFirst_cases waiting taken with ⟨failed, rfl⟩ | ⟨middle, distinct, opening, rfl⟩
  · have returned : (before.leaveFirst.interrupt turn).stage = .returned 3 :=
      leaveFirst_of_none (by rw [waiting.established]; decide)
    apply Iterates.returns returned
    intro _ _
    rw [failed]
    rfl
  · by_cases none : before.made turn.wait.reported = []
    · rw [if_pos none]
      exact .waits waiting opening none running
    · rw [if_neg none]
      have entered := leaveFirst_entered ((opening.established_iff waiting).mpr none)
      exact .enters waiting opening none running distinct entered

theorem step_iterates (waiting : before.stage = .first → Waiting before) (taken : before.step turn = some after) :
    Iterates before turn after := by
  unfold Main.step at taken
  split at taken
  next first =>
    split at taken
    next running => exact turnFirst_iterates (waiting first) (Bool.eq_false_of_not_eq_true running.1) taken
    next stopped =>
      cases taken
      apply Iterates.returns (leaveFirst_of_none (by rw [(waiting first).established]; decide))
      intro _ running
      exact absurd ⟨by simp [running], by rw [(waiting first).established]; decide⟩ stopped
  next second =>
    have early : before.stage = .first → before.gStop = false → turn.wait.reported = [] := by
      intro first
      rw [second] at first
      cases first
    split at taken
    next =>
      cases taken
      exact .returns rfl early
    next =>
      rcases turnSecond_cases taken with returned | ⟨middle, chat, rfl⟩
      · exact .returns returned early
      · exact .chats second chat
  next => cases taken

end Main
end NetPrograms.P2p
