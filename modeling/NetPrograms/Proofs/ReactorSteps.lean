import NetPrograms.Reactor.Core

/-! What the operations that the versions of the reactor share change, and what one
step of the main loop can do. -/

namespace NetPrograms.Proofs.ReactorSteps
open Reactor

theorem toSize_eq {length : Nat} (fits : length ≤ bufferLength) : toSize length = length := by
  have small : length ≤ 1024 := fits
  unfold toSize
  omega

theorem initServer_eq {socket bind listen : Int} (opened : 0 ≤ initServer socket bind listen) :
    initServer socket bind listen = socket := by
  unfold initServer at opened ⊢
  split_ifs at opened ⊢
  all_goals omega

variable {C A R W : Type}

section
variable {s : System C A} {fd : Int}

@[simp] theorem setEvent_connList (s : System C A) (fd : Int) (event : Interest) (flag : Bool) :
    (setEvent s fd event flag).connList = s.connList := by
  unfold setEvent
  split <;> rfl

@[simp] theorem setEvent_log (s : System C A) (fd : Int) (event : Interest) (flag : Bool) :
    (setEvent s fd event flag).log = s.log := by
  unfold setEvent
  split <;> rfl

@[simp] theorem setEvent_files (s : System C A) (fd : Int) (event : Interest) (flag : Bool) :
    (setEvent s fd event flag).files = s.files := by
  unfold setEvent
  split <;> rfl

@[simp] theorem setEvent_batch (s : System C A) (fd : Int) (event : Interest) (flag : Bool) :
    (setEvent s fd event flag).batch = s.batch := by
  unfold setEvent
  split <;> rfl

theorem setEvent_other (s : System C A) (event : Interest) (flag : Bool) {other : Int} (different : other ≠ fd) :
    (setEvent s fd event flag).interest other = s.interest other := by
  unfold setEvent
  split
  · exact Function.update_of_ne different _ _
  · rfl

/-- The request fits what epoll knows of the descriptor. -/
theorem setEvent_own {event : Interest} {flag : Bool} (fits : (s.interest fd).isNone = flag) :
    (setEvent s fd event flag).interest fd = some event := by
  unfold setEvent
  rw [if_pos fits]
  exact Function.update_self _ _ _

theorem slot_inside (lower : 0 ≤ fd) (upper : fd < connectionSize) : s.slot fd = some (s.connList fd) :=
  if_pos ⟨lower, upper⟩

theorem slot_eq_some {slot : Slot C} (inside : s.slot fd = some slot) :
    0 ≤ fd ∧ fd < connectionSize ∧ slot = s.connList fd := by
  unfold System.slot at inside
  split at inside
  next bounds => exact ⟨bounds.1, bounds.2, (Option.some.inj inside).symm⟩
  next => cases inside

/-- Acts of one descriptor are noted in its log only. -/
theorem noted_own {log : Int → List A} {acts : List (Int × A)} (own : ∀ act ∈ acts, act.1 = fd) :
    noted log acts fd = log fd ++ acts.map Prod.snd := by
  unfold noted
  rw [List.filter_eq_self.mpr]
  intro act member
  simpa using own act member

theorem noted_other {log : Int → List A} {acts : List (Int × A)} (own : ∀ act ∈ acts, act.1 = fd) {other : Int}
    (different : other ≠ fd) : noted log acts other = log other := by
  unfold noted
  rw [List.filter_eq_nil_iff.mpr, List.map_nil, List.append_nil]
  intro act member
  simpa [own act member] using Ne.symm different

section
variable (s) (fd) (out : Outcome C A)

@[simp] theorem finish_connList :
    (finish s fd out).connList = Function.update s.connList fd { s.connList fd with conn := out.conn } := by
  unfold finish
  cases out.next with
  | arm next => exact setEvent_connList _ _ _ _
  | close => rfl
  | keep => rfl

@[simp] theorem finish_log : (finish s fd out).log = noted s.log out.acts := by
  unfold finish
  cases out.next with
  | arm next => exact setEvent_log _ _ _ _
  | close => rfl
  | keep => rfl

@[simp] theorem finish_batch : (finish s fd out).batch = s.batch := by
  unfold finish
  cases out.next with
  | arm next => exact setEvent_batch _ _ _ _
  | close => rfl
  | keep => rfl

theorem finish_interest {other : Int} (different : other ≠ fd) : (finish s fd out).interest other = s.interest other := by
  unfold finish
  cases out.next with
  | arm next => exact setEvent_other _ _ _ different
  | close => exact Function.update_of_ne different _ _
  | keep => rfl

theorem finish_files {other : Int} (different : other ≠ fd) : (finish s fd out).files other = s.files other := by
  unfold finish
  cases out.next with
  | arm next => exact congrFun (setEvent_files _ _ _ _) other
  | close => exact Function.update_of_ne different _ _
  | keep => rfl

end

/-- How a callback leaves its own descriptor. -/
theorem finish_own {event : Interest} (watched : s.interest fd = some event) (out : Outcome C A) :
    match out.next with
    | .arm next => (finish s fd out).interest fd = some next ∧ (finish s fd out).files fd = s.files fd
    | .close => (finish s fd out).interest fd = none
    | .keep => (finish s fd out).interest fd = some event ∧ (finish s fd out).files fd = s.files fd := by
  unfold finish
  cases out.next with
  | arm next => exact ⟨setEvent_own (congrArg Option.isNone watched), congrFun (setEvent_files _ _ _ _) fd⟩
  | close => exact Function.update_self _ _ _
  | keep => exact ⟨watched, rfl⟩

end

/-- What one step can do, with the conditions under which it does it. -/
inductive Stepped (p : Program C A R W) (s : System C A) : Event R W → System C A → Prop where
  | port {socket bind listen after} (opened : openPort p s socket bind listen = some after) :
      Stepped p s (.port socket bind listen) after
  | wait {events} : Stepped p s (.wait events) { s with batch := events }
  | accepted {fd batch clientFd after} (head : s.batch = (fd, .input) :: batch) (inside : 0 ≤ fd ∧ fd < connectionSize)
      (listening : (s.connList fd).recvCallback = some .acceptCb)
      (called : acceptCb p { s with batch } clientFd = some after) :
      Stepped p s (.accepted clientFd) after
  | readable {fd batch result out} (head : s.batch = (fd, .input) :: batch) (inside : 0 ≤ fd ∧ fd < connectionSize)
      (client : (s.connList fd).recvCallback = some .recvCb) (called : p.recvCb fd (s.connList fd) result = some out) :
      Stepped p s (.readable result) (finish { s with batch } fd out)
  | writable {fd batch result out} (head : s.batch = (fd, .output) :: batch) (inside : 0 ≤ fd ∧ fd < connectionSize)
      (client : (s.connList fd).sendCallback = true) (called : p.sendCb fd (s.connList fd) result = some out) :
      Stepped p s (.writable result) (finish { s with batch } fd out)

section
variable {p : Program C A R W} {s after : System C A} {event : Event R W}

theorem step_cases (stepped : step p s event = some after) : Stepped p s event after := by
  cases event with
  | port socket bind listen => exact .port stepped
  | wait events =>
    obtain rfl := Option.some.inj stepped
    exact .wait
  | accepted clientFd =>
    simp only [step] at stepped
    split at stepped
    next fd batch head =>
      obtain ⟨slot, found, rest⟩ := Option.bind_eq_some_iff.mp stepped
      obtain ⟨lower, upper, rfl⟩ := slot_eq_some found
      split at rest
      next listening => exact .accepted head ⟨lower, upper⟩ listening rest
      next => cases rest
    next => cases stepped
  | readable result =>
    simp only [step] at stepped
    split at stepped
    next fd batch head =>
      obtain ⟨slot, found, rest⟩ := Option.bind_eq_some_iff.mp stepped
      obtain ⟨lower, upper, rfl⟩ := slot_eq_some found
      split at rest
      next client =>
        obtain ⟨out, called, same⟩ := Option.bind_eq_some_iff.mp rest
        obtain rfl := Option.some.inj same
        exact .readable head ⟨lower, upper⟩ client called
      next => cases rest
    next => cases stepped
  | writable result =>
    simp only [step] at stepped
    split at stepped
    next fd batch head =>
      obtain ⟨slot, found, rest⟩ := Option.bind_eq_some_iff.mp stepped
      obtain ⟨lower, upper, rfl⟩ := slot_eq_some found
      split at rest
      next client =>
        obtain ⟨out, called, same⟩ := Option.bind_eq_some_iff.mp rest
        obtain rfl := Option.some.inj same
        exact .writable head ⟨lower, upper⟩ client called
      next => cases rest
    next => cases stepped

theorem step_of_stepped (stepped : Stepped p s event after) : step p s event = some after := by
  cases stepped with
  | port opened => exact opened
  | wait => rfl
  | accepted head inside listening called =>
    simp only [step, head, slot_inside inside.1 inside.2, Option.bind_eq_bind, Option.bind_some]
    rw [if_pos listening, called]
  | readable head inside client called =>
    simp only [step, head, slot_inside inside.1 inside.2, Option.bind_eq_bind, Option.bind_some]
    rw [if_pos client, called]
    rfl
  | writable head inside client called =>
    simp only [step, head, slot_inside inside.1 inside.2, Option.bind_eq_bind, Option.bind_some]
    rw [if_pos client, called]
    rfl

end

end NetPrograms.Proofs.ReactorSteps
