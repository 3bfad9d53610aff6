import NetPrograms.Proofs.ReactorSteps

/-! A rule for the versions of the reactor. What holds of each connection whenever
its descriptor is registered is shown from the version's own callbacks; that it holds
in every run of the main loop is shown here. -/

namespace NetPrograms.Proofs.ReactorRule
open Reactor ReactorSteps

variable {C A R W : Type}

/-- Assertions about a connection and its log: of a descriptor that is not registered,
and of one that is, with the event that epoll watches for. The results of the system
calls may be restricted. -/
structure Rules (C A R W : Type) where
  idle : C → List A → Prop
  armed : C → List A → Interest → Prop
  mayRecv : C → R → Prop
  maySend : C → W → Prop

variable (rules : Rules C A R W)

namespace Rules

/-- A callback for `fd` acts on `fd` only and leaves the assertion that its end asks for. -/
structure Ends (fd : Int) (log : List A) (event : Interest) (out : Outcome C A) : Prop where
  own : ∀ act ∈ out.acts, act.1 = fd
  holds : match out.next with
    | .arm next => rules.armed out.conn (log ++ out.acts.map Prod.snd) next
    | .close => rules.idle out.conn (log ++ out.acts.map Prod.snd)
    | .keep => rules.armed out.conn (log ++ out.acts.map Prod.snd) event

structure Contract (p : Program C A R W) : Prop where
  port : ∀ socket bind listen, 0 ≤ p.initServer socket bind listen → p.initServer socket bind listen = socket
  register : ∀ conn log, rules.idle conn log → rules.armed (p.eventRegister conn) [] .input
  recv : ∀ slot log result out, rules.armed slot.conn log .input → rules.mayRecv slot.conn result →
    p.recvCb slot.fd slot result = some out → rules.Ends slot.fd log .input out
  send : ∀ slot log result out, rules.armed slot.conn log .output → rules.maySend slot.conn result →
    p.sendCb slot.fd slot result = some out → rules.Ends slot.fd log .output out

def Registered (fd : Int) (slot : Slot C) (log : List A) (event : Interest) : Prop :=
  match slot.recvCallback with
  | some .acceptCb => event = .input ∧ rules.idle slot.conn log
  | some .recvCb => slot.sendCallback = true ∧ slot.fd = fd ∧ rules.armed slot.conn log event
  | none => False

structure Holds (s : System C A) : Prop where
  idle : ∀ fd, s.interest fd = none → rules.idle (s.connList fd).conn (s.log fd)
  registered : ∀ fd event, s.interest fd = some event → rules.Registered fd (s.connList fd) (s.log fd) event
  opened : ∀ fd event, s.interest fd = some event → s.files fd = true ∧ 0 ≤ fd ∧ fd < connectionSize
  distinct : (s.batch.map Prod.fst).Nodup
  reported : ∀ entry ∈ s.batch, s.interest entry.1 = some entry.2

def Admits (s : System C A) : Event R W → Prop
  | .readable result => ∀ entry ∈ s.batch.head?, rules.mayRecv (s.connList entry.1).conn result
  | .writable result => ∀ entry ∈ s.batch.head?, rules.maySend (s.connList entry.1).conn result
  | _ => True

variable {rules} {p : Program C A R W} {s after : System C A} {fd : Int}

theorem Holds.closed (held : rules.Holds s) (unopened : s.files fd = false) : s.interest fd = none := by
  cases known : s.interest fd with
  | none => rfl
  | some event =>
    have opened := (held.opened fd event known).1
    rw [unopened] at opened
    cases opened

theorem Holds.unreported (held : rules.Holds s) (unwatched : s.interest fd = none) : ∀ entry ∈ s.batch, entry.1 ≠ fd := by
  intro entry member same
  have known := held.reported entry member
  rw [same, unwatched] at known
  cases known

/-- A step that changes one descriptor, which the rest of the batch does not name. -/
theorem Holds.changed (held : rules.Holds s) (interest : ∀ other, other ≠ fd → after.interest other = s.interest other)
    (connList : ∀ other, other ≠ fd → after.connList other = s.connList other)
    (log : ∀ other, other ≠ fd → after.log other = s.log other)
    (files : ∀ other, other ≠ fd → after.files other = s.files other)
    (idle : after.interest fd = none → rules.idle (after.connList fd).conn (after.log fd))
    (registered : ∀ event, after.interest fd = some event →
      rules.Registered fd (after.connList fd) (after.log fd) event ∧ after.files fd = true ∧ 0 ≤ fd ∧ fd < connectionSize)
    (batch : after.batch.Sublist s.batch) (rest : ∀ entry ∈ after.batch, entry.1 ≠ fd) : rules.Holds after := by
  refine ⟨?_, ?_, ?_, ?_, ?_⟩
  · intro other none
    by_cases own : other = fd
    · subst own
      exact idle none
    · rw [interest other own] at none
      rw [connList other own, log other own]
      exact held.idle other none
  · intro other event some
    by_cases own : other = fd
    · subst own
      exact (registered event some).1
    · rw [interest other own] at some
      rw [connList other own, log other own]
      exact held.registered other event some
  · intro other event some
    by_cases own : other = fd
    · subst own
      exact (registered event some).2
    · rw [interest other own] at some
      rw [files other own]
      exact held.opened other event some
  · exact held.distinct.sublist (batch.map Prod.fst)
  · intro entry member
    rw [interest entry.1 (rest entry member)]
    exact held.reported entry (batch.subset member)

theorem Registered.client {slot : Slot C} {log : List A} {event : Interest}
    (registered : rules.Registered fd slot log event) (client : slot.recvCallback = some .recvCb) :
    slot.sendCallback = true ∧ slot.fd = fd ∧ rules.armed slot.conn log event := by
  rwa [Registered, client] at registered

theorem Registered.callback {slot : Slot C} {log : List A} {event : Interest}
    (registered : rules.Registered fd slot log event) (client : slot.recvCallback ≠ some .acceptCb) :
    slot.recvCallback = some .recvCb := by
  unfold Registered at registered
  split at registered
  next listening => exact absurd listening client
  next callback => exact callback
  next => cases registered

/-- Only a client that is watched is armed: a listening descriptor is as it was before. -/
theorem Holds.either (held : rules.Holds s) (fd : Int) : rules.idle (s.connList fd).conn (s.log fd) ∨
    ∃ event, s.interest fd = some event ∧ rules.armed (s.connList fd).conn (s.log fd) event := by
  cases known : s.interest fd with
  | none => exact Or.inl (held.idle fd known)
  | some event =>
    have registered := held.registered fd event known
    unfold Registered at registered
    split at registered
    next => exact Or.inl registered.2
    next => exact Or.inr ⟨event, rfl, registered.2.2⟩
    next => cases registered

theorem Registered.output {slot : Slot C} {log : List A} (registered : rules.Registered fd slot log .output) :
    slot.recvCallback = some .recvCb ∧ slot.fd = fd ∧ rules.armed slot.conn log .output := by
  unfold Registered at registered
  split at registered
  next => cases registered.1
  next client => exact ⟨client, registered.2⟩
  next => cases registered

theorem Holds.finish (held : rules.Holds s) {event : Interest} {batch : List (Int × Interest)} {out : Outcome C A}
    (head : s.batch = (fd, event) :: batch) (client : (s.connList fd).recvCallback = some .recvCb)
    (ends : rules.Ends fd (s.log fd) event out) : rules.Holds (finish { s with batch } fd out) := by
  have watched : s.interest fd = some event := held.reported (fd, event) (head ▸ List.mem_cons_self)
  obtain ⟨send, same, -⟩ := (held.registered fd event watched).client client
  obtain ⟨opened, inside⟩ := held.opened fd event watched
  have distinct := held.distinct
  rw [head, List.map_cons, List.nodup_cons] at distinct
  obtain ⟨own, holds⟩ := ends
  have log : noted s.log out.acts fd = s.log fd ++ out.acts.map Prod.snd := noted_own own
  have kept : ∀ next, rules.armed out.conn (s.log fd ++ out.acts.map Prod.snd) next →
      rules.Registered fd { s.connList fd with conn := out.conn } (noted s.log out.acts fd) next := by
    intro next armed
    rw [Registered, client, log]
    exact ⟨send, same, armed⟩
  have ending := @finish_own _ _ { s with batch } fd event watched out
  -- Either the descriptor is closed and idle, or it stays open and is armed.
  have ended : (Reactor.finish { s with batch } fd out).interest fd = none ∧
        rules.idle out.conn (s.log fd ++ out.acts.map Prod.snd) ∨
      ∃ next, (Reactor.finish { s with batch } fd out).interest fd = some next ∧
        (Reactor.finish { s with batch } fd out).files fd = true ∧
        rules.armed out.conn (s.log fd ++ out.acts.map Prod.snd) next := by
    cases after : out.next with
    | arm next =>
      rw [after] at ending holds
      exact .inr ⟨next, ending.1, ending.2.trans opened, holds⟩
    | close =>
      rw [after] at ending holds
      exact .inl ⟨ending, holds⟩
    | keep =>
      rw [after] at ending holds
      exact .inr ⟨event, ending.1, ending.2.trans opened, holds⟩
  refine held.changed (fun other => finish_interest { s with batch } fd out) ?_ ?_ ?_ ?_ ?_ ?_ ?_
  · intro other different
    rw [finish_connList]
    exact Function.update_of_ne different _ _
  · intro other different
    rw [finish_log]
    exact noted_other own different
  · exact fun other different => finish_files { s with batch } fd out different
  · intro none
    rw [finish_connList, finish_log, Function.update_self, log]
    rcases ended with ⟨-, idle⟩ | ⟨next, some, -⟩
    · exact idle
    · rw [some] at none
      cases none
  · intro next some
    rw [finish_connList, finish_log, Function.update_self]
    rcases ended with ⟨none, -⟩ | ⟨other, again, opened, armed⟩
    · rw [none] at some
      cases some
    · obtain rfl := Option.some.inj (again.symm.trans some)
      exact ⟨kept other armed, opened, inside⟩
  · rw [finish_batch, head]
    exact List.sublist_cons_self _ _
  · rw [finish_batch]
    intro entry member same
    exact distinct.1 (List.mem_map.mpr ⟨entry, member, same⟩)

theorem Holds.frame (held : rules.Holds s) (connList : after.connList = s.connList) (interest : after.interest = s.interest)
    (log : after.log = s.log) (files : ∀ fd, s.files fd = true → after.files fd = true)
    (batch : after.batch.Sublist s.batch) : rules.Holds after := by
  refine ⟨?_, ?_, ?_, held.distinct.sublist (batch.map Prod.fst), ?_⟩
  · rw [connList, interest, log]
    exact held.idle
  · rw [connList, interest, log]
    exact held.registered
  · intro fd event some
    rw [interest] at some
    obtain ⟨opened, inside⟩ := held.opened fd event some
    exact ⟨files fd opened, inside⟩
  · intro entry member
    rw [interest]
    exact held.reported entry (batch.subset member)

private theorem update_opens {files : Int → Bool} (opened : Int) (fd : Int) (already : files fd = true) :
    Function.update files opened true fd = true := by
  by_cases same : fd = opened
  · rw [same, Function.update_self]
  · rw [Function.update_of_ne same, already]

theorem Holds.adds (held : rules.Holds s) {middle : System C A} (unwatched : s.interest fd = none)
    (interest : middle.interest = s.interest) (batch : middle.batch = s.batch)
    (connList : ∀ other, other ≠ fd → middle.connList other = s.connList other)
    (log : ∀ other, other ≠ fd → middle.log other = s.log other)
    (files : ∀ other, other ≠ fd → middle.files other = s.files other) (opened : middle.files fd = true)
    (lower : 0 ≤ fd) (upper : fd < connectionSize)
    (registered : rules.Registered fd (middle.connList fd) (middle.log fd) .input) :
    rules.Holds (setEvent middle fd .input true) := by
  have added : (setEvent middle fd .input true).interest fd = some .input := by
    apply setEvent_own
    rw [interest, unwatched]
    rfl
  have others : ∀ other, other ≠ fd → (setEvent middle fd .input true).interest other = s.interest other :=
    fun other different => (setEvent_other middle _ _ different).trans (congrFun interest other)
  refine held.changed others ?_ ?_ ?_ ?_ ?_ ?_ ?_
  · rwa [setEvent_connList]
  · rwa [setEvent_log]
  · rwa [setEvent_files]
  · intro none
    rw [added] at none
    cases none
  · intro event some
    rw [added] at some
    obtain rfl := Option.some.inj some
    rw [setEvent_connList, setEvent_log, setEvent_files]
    exact ⟨registered, opened, lower, upper⟩
  · rw [setEvent_batch, batch]
  · rw [setEvent_batch, batch]
    exact held.unreported unwatched

theorem Holds.registers (contract : rules.Contract p) (held : rules.Holds s) (unwatched : s.interest fd = none)
    (opened : 0 ≤ fd → s.files fd = true) (called : eventRegister p s fd .input = some after) : rules.Holds after := by
  unfold Reactor.eventRegister at called
  split at called
  next =>
    obtain rfl := Option.some.inj called
    exact held
  next positive =>
    obtain ⟨slot, inside, rest⟩ := Option.bind_eq_some_iff.mp called
    obtain rfl := Option.some.inj rest
    obtain ⟨lower, upper, rfl⟩ := slot_eq_some inside
    refine held.adds unwatched rfl rfl ?_ ?_ (fun _ _ => rfl) (opened lower) lower upper ?_
    · exact fun other different => Function.update_of_ne different _ _
    · exact fun other different => Function.update_of_ne different _ _
    · simp only [Function.update_self]
      exact ⟨rfl, rfl, contract.register _ _ (held.idle fd unwatched)⟩

theorem Holds.accepts (contract : rules.Contract p) (held : rules.Holds s) {clientFd : Int}
    (fresh : 0 ≤ clientFd → s.files clientFd = false) (called : acceptCb p s clientFd = some after) :
    rules.Holds after := by
  unfold acceptCb at called
  split at called
  next =>
    obtain rfl := Option.some.inj called
    exact held
  next positive =>
    have opening : rules.Holds { s with files := Function.update s.files clientFd true } :=
      held.frame rfl rfl rfl (update_opens clientFd) (List.Sublist.refl _)
    apply opening.registers contract (held.closed (fresh (by omega))) _ called
    exact fun _ => Function.update_self _ _ _

theorem Holds.opens (contract : rules.Contract p) (held : rules.Holds s) {socket bind listen : Int}
    (fresh : 0 ≤ socket → s.files socket = false) (called : openPort p s socket bind listen = some after) :
    rules.Holds after := by
  obtain ⟨slot, inside, rest⟩ := Option.bind_eq_some_iff.mp called
  obtain rfl := Option.some.inj rest
  obtain ⟨lower, upper, rfl⟩ := slot_eq_some inside
  have same := contract.port socket bind listen lower
  rw [same] at lower upper ⊢
  have unwatched : s.interest socket = none := held.closed (fresh lower)
  refine held.adds unwatched rfl rfl ?_ (fun _ _ => rfl) ?_ ?_ lower upper ?_
  · exact fun other different => Function.update_of_ne different _ _
  · intro other different
    simp only [if_pos lower]
    exact Function.update_of_ne different _ _
  · simp only [if_pos lower, Function.update_self]
  · simp only [Function.update_self]
    exact ⟨rfl, held.idle socket unwatched⟩

theorem Holds.start {conn : C} (files : Int → Bool) (initial : rules.idle conn []) : rules.Holds (start conn files) := by
  refine ⟨fun _ _ => initial, ?_, ?_, List.nodup_nil, ?_⟩
  · intro fd event some
    cases some
  · intro fd event some
    cases some
  · intro entry member
    cases member

theorem Holds.step (contract : rules.Contract p) (held : rules.Holds s) {event : Event R W} (may : May s event)
    (admits : rules.Admits s event) (stepped : step p s event = some after) : rules.Holds after := by
  cases step_cases stepped with
  | port opened => exact held.opens contract may.2 opened
  | wait =>
    obtain ⟨-, -, -, distinct, reported⟩ := may
    exact ⟨held.idle, held.registered, held.opened, distinct, reported⟩
  | @accepted fd batch clientFd _ head inside listening called =>
    obtain ⟨entry, first, -, -, fresh⟩ := may
    have popped : rules.Holds { s with batch } :=
      held.frame rfl rfl rfl (fun _ opened => opened) (head ▸ List.sublist_cons_self _ _)
    exact popped.accepts contract fresh called
  | @readable fd batch result out head inside client called =>
    have watched := held.reported (fd, .input) (head ▸ List.mem_cons_self)
    obtain ⟨-, same, armed⟩ := (held.registered fd .input watched).client client
    have admitted := admits (fd, .input) (by rw [head]; rfl)
    have ends := contract.recv _ _ result out armed admitted (by rw [same]; exact called)
    rw [same] at ends
    exact held.finish head client ends
  | @writable fd batch result out head inside _ called =>
    have watched := held.reported (fd, .output) (head ▸ List.mem_cons_self)
    obtain ⟨client, same, armed⟩ := (held.registered fd .output watched).output
    have admitted := admits (fd, .output) (by rw [head]; rfl)
    have ends := contract.send _ _ result out armed admitted (by rw [same]; exact called)
    rw [same] at ends
    exact held.finish head client ends

/-- The rules hold in every run whose results they admit. -/
theorem Contract.run (contract : rules.Contract p) {meets : System C A → Event R W → Prop}
    [∀ s event, Decidable (meets s event)] (admits : ∀ s event, meets s event → rules.Admits s event) {conn : C}
    (initial : rules.idle conn []) {files : Int → Bool} {events : List (Event R W)} {last : System C A}
    (run : Run (Taken (moves p meets)) (Reactor.start conn files) events last) : rules.Holds last := by
  apply run.invariant rules.Holds (Holds.start files initial)
  intro before event after held taken
  obtain ⟨⟨may, met⟩, stepped⟩ := meeting_eq_some taken
  exact held.step contract may (admits before event met) stepped

/-- The callbacks stay inside their buffers for the results that the rules admit. -/
structure Total (rules : Rules C A R W) (p : Program C A R W) : Prop where
  recv : ∀ slot log result, rules.armed slot.conn log .input → rules.mayRecv slot.conn result →
    ∃ out, p.recvCb slot.fd slot result = some out
  send : ∀ slot log result, rules.armed slot.conn log .output → rules.maySend slot.conn result →
    ∃ out, p.sendCb slot.fd slot result = some out

def Indexes (p : Program C A R W) : Event R W → Prop
  | .port socket bind listen => 0 ≤ p.initServer socket bind listen ∧ p.initServer socket bind listen < connectionSize
  | .accepted clientFd => clientFd < connectionSize
  | _ => True

theorem acceptCb_inside {clientFd : Int} (inside : clientFd < connectionSize) :
    ∃ after, acceptCb p s clientFd = some after := by
  unfold acceptCb
  split
  next => exact ⟨_, rfl⟩
  next positive =>
    unfold Reactor.eventRegister
    rw [if_neg positive, slot_inside (Int.not_lt.mp positive) inside]
    exact ⟨_, rfl⟩

theorem Holds.first (held : rules.Holds s) {event : Interest} (first : s.batch.head? = some (fd, event)) :
    ∃ batch, s.batch = (fd, event) :: batch ∧ (0 ≤ fd ∧ fd < connectionSize) ∧
      rules.Registered fd (s.connList fd) (s.log fd) event := by
  obtain ⟨batch, head⟩ := List.head?_eq_some_iff.mp first
  have watched := held.reported _ (head ▸ List.mem_cons_self)
  exact ⟨batch, head, (held.opened fd event watched).2, held.registered fd event watched⟩

theorem Holds.progress (held : rules.Holds s) (total : rules.Total p) {event : Event R W} (may : May s event)
    (admits : rules.Admits s event) (indexes : Indexes p event) : ∃ after, Reactor.step p s event = some after := by
  cases event with
  | port socket bind listen =>
    simp only [Reactor.step, openPort, slot_inside indexes.1 indexes.2]
    exact ⟨_, rfl⟩
  | wait events => exact ⟨_, rfl⟩
  | accepted clientFd =>
    obtain ⟨⟨fd, _⟩, first, rfl, listening, -⟩ := may
    obtain ⟨batch, head, inside, -⟩ := held.first first
    obtain ⟨after, called⟩ := @acceptCb_inside _ _ _ _ p { s with batch } _ indexes
    exact ⟨after, step_of_stepped (.accepted head inside listening called)⟩
  | readable result =>
    obtain ⟨⟨fd, _⟩, first, rfl, client⟩ := may
    obtain ⟨batch, head, inside, registered⟩ := held.first first
    have callback := registered.callback client
    obtain ⟨-, same, armed⟩ := registered.client callback
    obtain ⟨out, returned⟩ := total.recv _ _ result armed (admits _ first)
    rw [same] at returned
    exact ⟨_, step_of_stepped (.readable head inside callback returned)⟩
  | writable result =>
    obtain ⟨⟨fd, _⟩, first, rfl⟩ := may
    obtain ⟨batch, head, inside, registered⟩ := held.first first
    obtain ⟨callback, same, armed⟩ := registered.output
    obtain ⟨out, returned⟩ := total.send _ _ result armed (admits _ first)
    rw [same] at returned
    exact ⟨_, step_of_stepped (.writable head inside (registered.client callback).1 returned)⟩

end Rules

end NetPrograms.Proofs.ReactorRule
