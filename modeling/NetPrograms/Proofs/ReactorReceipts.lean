import NetPrograms.Proofs.ReactorSteps

/-! What `recv` returned on a descriptor, read off the results of the system calls of
a run alone. The log of the descriptor names the same results, so that a statement about
the log is one about what the kernel delivered. -/

namespace NetPrograms.Proofs.ReactorReceipts
open Reactor ReactorSteps

variable {C A R W T : Type}

/-- What is left of the last batch of `epoll_wait`, and what the descriptor's calls of
`recv` returned since it was accepted last. -/
def hear (returned : R → Option T) (fd : Int) (state : List (Int × Interest) × List T) :
    Event R W → List (Int × Interest) × List T
  | .port _ _ _ => state
  | .wait events => (events, state.2)
  | .accepted clientFd => (state.1.tail, if 0 ≤ clientFd ∧ clientFd = fd then [] else state.2)
  | .readable result =>
    (state.1.tail, if state.1.head?.map Prod.fst = some fd then state.2 ++ (returned result).toList else state.2)
  | .writable _ => (state.1.tail, state.2)

def heard (returned : R → Option T) (fd : Int) (events : List (Event R W)) : List T :=
  (events.foldl (hear returned fd) ([], [])).2

/-- The callbacks note each result of `recv` once, under the descriptor of the call. -/
structure Receipts (p : Program C A R W) (returned : R → Option T) (receipt : A → Option T) : Prop where
  recv : ∀ fd slot result out, p.recvCb fd slot result = some out →
    (∀ act ∈ out.acts, act.1 = fd) ∧ (out.acts.map Prod.snd).filterMap receipt = (returned result).toList
  send : ∀ fd slot result out, p.sendCb fd slot result = some out →
    ∀ act ∈ out.acts, receipt act.2 = none

variable {p : Program C A R W} {returned : R → Option T} {receipt : A → Option T} {s after : System C A}

theorem acceptCb_log {clientFd : Int} (called : acceptCb p s clientFd = some after) (fd : Int) :
    after.batch = s.batch ∧ after.log fd = if 0 ≤ clientFd ∧ clientFd = fd then [] else s.log fd := by
  unfold acceptCb at called
  split at called
  next failed =>
    obtain rfl := Option.some.inj called
    exact ⟨rfl, (if_neg fun both => absurd both.1 (Int.not_le.mpr failed)).symm⟩
  next opened =>
    unfold Reactor.eventRegister at called
    rw [if_neg opened] at called
    obtain ⟨slot, -, rest⟩ := Option.bind_eq_some_iff.mp called
    obtain rfl := Option.some.inj rest
    refine ⟨setEvent_batch _ _ _ _, ?_⟩
    rw [setEvent_log]
    by_cases own : clientFd = fd
    · rw [if_pos ⟨Int.not_lt.mp opened, own⟩, own]
      exact Function.update_self _ _ _
    · rw [if_neg fun both => own both.2]
      exact Function.update_of_ne (Ne.symm own) _ _

theorem openPort_log {socket bind listen : Int} (opened : openPort p s socket bind listen = some after) :
    after.batch = s.batch ∧ after.log = s.log := by
  obtain ⟨slot, -, rest⟩ := Option.bind_eq_some_iff.mp opened
  obtain rfl := Option.some.inj rest
  exact ⟨setEvent_batch _ _ _ _, setEvent_log _ _ _ _⟩

theorem noted_silent {acts : List (Int × A)} (silent : ∀ act ∈ acts, receipt act.2 = none) (log : Int → List A) (fd : Int) :
    (noted log acts fd).filterMap receipt = (log fd).filterMap receipt := by
  have none : ((acts.filter (·.1 = fd)).map Prod.snd).filterMap receipt = [] := by
    rw [List.filterMap_eq_nil_iff]
    intro act member
    obtain ⟨entry, inside, rfl⟩ := List.mem_map.mp member
    exact silent entry (List.mem_filter.mp inside).1
  rw [noted, List.filterMap_append, none, List.append_nil]

theorem Receipts.step (receipts : Receipts p returned receipt) {event : Event R W} {fd : Int}
    {state : List (Int × Interest) × List T} (batch : s.batch = state.1) (log : (s.log fd).filterMap receipt = state.2)
    (stepped : step p s event = some after) :
    after.batch = (hear returned fd state event).1 ∧
      (after.log fd).filterMap receipt = (hear returned fd state event).2 := by
  obtain ⟨left, items⟩ := state
  obtain rfl : s.batch = left := batch
  obtain rfl : (s.log fd).filterMap receipt = items := log
  cases step_cases stepped with
  | port opened =>
    obtain ⟨batch, log⟩ := openPort_log opened
    exact ⟨batch, congrArg (fun log => (log fd).filterMap receipt) log⟩
  | wait => exact ⟨rfl, rfl⟩
  | @accepted other batch clientFd _ head _ _ called =>
    obtain ⟨same, log⟩ := acceptCb_log called fd
    simp only [hear, head, List.tail_cons]
    refine ⟨same, ?_⟩
    rw [log]
    split
    · rfl
    · rfl
  | @readable other batch result out head _ _ called =>
    obtain ⟨own, noticed⟩ := receipts.recv _ _ _ _ called
    simp only [hear, head, List.tail_cons, List.head?_cons, Option.map_some, Option.some.injEq, finish_batch, finish_log]
    refine ⟨trivial, ?_⟩
    by_cases here : other = fd
    · subst here
      rw [if_pos rfl, noted_own own, List.filterMap_append, noticed]
    · rw [if_neg here, noted_other own (Ne.symm here)]
  | @writable other batch result out head _ _ called =>
    simp only [hear, head, List.tail_cons, finish_batch, finish_log]
    exact ⟨trivial, noted_silent (receipts.send _ _ _ _ called) s.log fd⟩

/-- The log of a descriptor names what its calls of `recv` returned since it was
accepted, in every run. -/
theorem Receipts.run (receipts : Receipts p returned receipt) {meets : System C A → Event R W → Prop}
    [∀ s event, Decidable (meets s event)] {conn : C} {files : Int → Bool} {events : List (Event R W)} {last : System C A}
    (run : Run (Taken (moves p meets)) (start conn files) events last) (fd : Int) :
    (last.log fd).filterMap receipt = heard returned fd events := by
  have both : last.batch = (events.foldl (hear returned fd) ([], [])).1 ∧
      (last.log fd).filterMap receipt = (events.foldl (hear returned fd) ([], [])).2 := by
    induction run with
    | start => exact ⟨rfl, rfl⟩
    | next _ taken ih =>
      rw [List.foldl_append]
      exact receipts.step ih.1 ih.2 (meeting_eq_some taken).2
  exact both.2

def bytesOf : RecvResult → Option (List UInt8)
  | .data chunk => some chunk.bytes
  | .disconnect | .failed => none

end NetPrograms.Proofs.ReactorReceipts
