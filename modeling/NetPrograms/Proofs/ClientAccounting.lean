import NetPrograms.Lib.Run
import NetPrograms.MultiPort.Client
import Mathlib.Data.List.Nodup

/-! The count of connections that the load client keeps, against its open sockets. The
batch loop reads from the newest socket and closes the one of the event. -/

namespace NetPrograms.Proofs.ClientAccounting
open MultiPort

def Rightful (entry : Int × Cause) : Prop :=
  match entry.2 with
  | .read fd reading => fd = entry.1 ∧ (reading = .ended ∨ reading = .fatal)
  | .neither => True

structure Accounted (client : Client) : Prop where
  count : client.connections = client.opened.length
  rightful : ∀ entry ∈ client.closed, Rightful entry

/-- An event that is handled rightly while `newest` is the newest socket. -/
def Harmless (newest : Int) (report : Report) : Prop :=
  report.out = true ∨ report.input = true ∧ report.reading ≠ .fatal ∧ (report.reading = .ended → report.clientfd = newest)

instance (newest : Int) (report : Report) : Decidable (Harmless newest report) := inferInstanceAs (Decidable (_ ∨ _))

/-- The sockets that an event closes without counting. -/
def uncounted (report : Report) : Nat :=
  if report.out = true ∨ report.input = true ∧ report.reading ≠ .fatal then 0 else 1

/-- What an event reads from the newest socket does not close another one. -/
def OwnRead (newest : Int) (report : Report) : Prop :=
  report.out = false → report.input = true → report.reading = .ended ∨ report.reading = .fatal → report.clientfd = newest

theorem harmless_iff {newest : Int} {report : Report} : Harmless newest report ↔ uncounted report = 0 ∧ OwnRead newest report := by
  obtain ⟨clientfd, out, input, reading⟩ := report
  cases out <;> cases input <;> cases reading <;> simp [Harmless, uncounted, OwnRead]

structure Handled (client : Client) (report : Report) (after : Client) : Prop where
  sockfd : after.sockfd = client.sockfd
  nodup : after.opened.Nodup
  others : ∀ fd ∈ client.opened, fd ≠ report.clientfd → fd ∈ after.opened
  count : after.connections - after.opened.length = client.connections - client.opened.length + uncounted report
  rightful : (∀ entry ∈ after.closed, Rightful entry) ↔
    (∀ entry ∈ client.closed, Rightful entry) ∧ OwnRead client.sockfd report

theorem Handled.unchanged {client after : Client} {report : Report} (nodup : client.opened.Nodup)
    (counted : uncounted report = 0) (own : OwnRead client.sockfd report) (sockfd : after.sockfd = client.sockfd)
    (opened : after.opened = client.opened) (connections : after.connections = client.connections)
    (closed : after.closed = client.closed) : Handled client report after where
  sockfd := sockfd
  nodup := opened ▸ nodup
  others := fun _ member _ => opened ▸ member
  count := by rw [opened, connections, counted, Nat.cast_zero, add_zero]
  rightful := by rw [closed, and_iff_left own]

/-- An event whose socket is closed after `fewer` connections were taken off the count. -/
theorem Handled.closing {client : Client} {report : Report} (cause : Cause) (fewer : Int) (nodup : client.opened.Nodup)
    (opened : report.clientfd ∈ client.opened) (counted : (uncounted report : Int) = 1 - fewer)
    (own : Rightful (report.clientfd, cause) ↔ OwnRead client.sockfd report) :
    Handled client report ({ client with connections := client.connections - fewer }.close report.clientfd cause) where
  sockfd := rfl
  nodup := nodup.erase _
  others := fun _ member other => (List.mem_erase_of_ne other).mpr member
  count := by
    have length := List.length_erase_of_mem opened
    have positive := List.length_pos_of_mem opened
    simp only [Client.close]
    omega
  rightful := by
    rw [← own]
    simp [Client.close, and_comm]

theorem handled {client : Client} {report : Report} (nodup : client.opened.Nodup) (opened : report.clientfd ∈ client.opened) :
    Handled client report (client.handle report) := by
  obtain ⟨clientfd, out, input, reading⟩ := report
  cases out with
  | true => exact .unchanged nodup rfl nofun rfl rfl rfl rfl
  | false =>
    cases input with
    | false =>
      have closing := Handled.closing .neither 0 nodup opened rfl (by simp [Rightful, OwnRead])
      simpa [Client.handle] using closing
    | true =>
      cases reading with
      | bytes rBuffer =>
        simp only [Client.handle, Bool.false_eq_true, if_false, if_true]
        split
        · exact .unchanged nodup rfl (fun _ _ read => by simp at read) rfl rfl rfl rfl
        · exact .unchanged nodup rfl (fun _ _ read => by simp at read) rfl rfl rfl rfl
      | ended => exact .closing (.read client.sockfd .ended) 1 nodup opened rfl (by simp [Rightful, OwnRead, eq_comm])
      | transient => exact .unchanged nodup rfl (fun _ _ read => by simp at read) rfl rfl rfl rfl
      | fatal =>
        have closing := Handled.closing (.read client.sockfd .fatal) 0 nodup opened rfl
          (by simp [Rightful, OwnRead, eq_comm])
        simpa [Client.handle] using closing

structure Batched (client : Client) (events : List Report) (after : Client) : Prop where
  nodup : after.opened.Nodup
  count : after.connections - after.opened.length = client.connections - client.opened.length + (events.map uncounted).sum
  rightful : (∀ entry ∈ after.closed, Rightful entry) ↔
    (∀ entry ∈ client.closed, Rightful entry) ∧ ∀ report ∈ events, OwnRead client.sockfd report

theorem batched {client : Client} {events : List Report} (nodup : client.opened.Nodup)
    (distinct : (events.map Report.clientfd).Nodup) (opened : ∀ report ∈ events, report.clientfd ∈ client.opened) :
    Batched client events (events.foldl Client.handle client) := by
  induction events generalizing client with
  | nil => exact ⟨nodup, by simp, by simp⟩
  | cons report events ih =>
    have first := handled nodup (opened report (List.mem_cons_self ..))
    obtain ⟨fresh, distinct⟩ := List.nodup_cons.mp distinct
    have still : ∀ later ∈ events, later.clientfd ∈ (client.handle report).opened := by
      intro later member
      apply first.others _ (opened later (List.mem_cons_of_mem _ member))
      intro same
      exact fresh (same ▸ List.mem_map_of_mem member)
    have rest := ih first.nodup distinct still
    refine ⟨rest.nodup, ?_, ?_⟩
    · have before := first.count
      have after := rest.count
      rw [List.foldl_cons, List.map_cons, List.sum_cons, Nat.cast_add]
      omega
    · rw [List.foldl_cons, rest.rightful, first.rightful, first.sockfd, and_assoc, List.forall_mem_cons]

theorem connected {client : Client} {sockfd : Int} (accounted : Accounted client) (nodup : client.opened.Nodup)
    (fresh : sockfd ∉ client.opened) :
    Accounted (client.connect sockfd) ∧ (client.connect sockfd).opened.Nodup := by
  unfold Client.connect
  dsimp only
  split
  · exact ⟨⟨by simp [accounted.count], accounted.rightful⟩, List.nodup_cons.mpr ⟨fresh, nodup⟩⟩
  · exact ⟨⟨accounted.count, accounted.rightful⟩, nodup⟩

/-- A batch keeps the account exactly when all its events are handled rightly. -/
theorem accounted_after {client : Client} {events : List Report} (accounted : Accounted client) (nodup : client.opened.Nodup)
    (reports : client.Reports events) :
    (Accounted (events.foldl Client.handle client) ↔ ∀ report ∈ events, Harmless client.sockfd report) ∧
      (events.foldl Client.handle client).opened.Nodup := by
  have batch := batched nodup reports.2.1 reports.2.2
  refine ⟨?_, batch.nodup⟩
  have count : (events.foldl Client.handle client).connections = (events.foldl Client.handle client).opened.length ↔
      ∀ report ∈ events, uncounted report = 0 := by
    have before := accounted.count
    have after := batch.count
    calc (events.foldl Client.handle client).connections = (events.foldl Client.handle client).opened.length
        ↔ (events.map uncounted).sum = 0 := by omega
      _ ↔ ∀ report ∈ events, uncounted report = 0 := by simp [List.sum_eq_zero_iff_forall_eq_nat]
  have rightful := batch.rightful
  rw [and_iff_right accounted.rightful] at rightful
  simp only [harmless_iff, forall_and]
  rw [← count, ← rightful]
  exact ⟨fun after => ⟨after.count, after.rightful⟩, fun ⟨count, rightful⟩ => ⟨count, rightful⟩⟩

def HarmlessTurn (client : Client) (turn : Int × List Report) : Prop :=
  ∀ report ∈ turn.2, Harmless (client.connect turn.1).sockfd report

instance (client : Client) (turn : Int × List Report) : Decidable (HarmlessTurn client turn) :=
  inferInstanceAs (Decidable (∀ report ∈ turn.2, _))

def step (client : Client) (turn : Int × List Report) : Option Client := client.turn turn.1 turn.2

theorem kept {client after : Client} {turn : Int × List Report} (held : Accounted client ∧ client.opened.Nodup)
    (taken : step client turn = some after) :
    (Accounted after ↔ HarmlessTurn client turn) ∧ after.opened.Nodup := by
  obtain ⟨sockfd, events⟩ := turn
  rw [step, Client.turn] at taken
  split at taken
  next => cases taken
  next fresh =>
    obtain ⟨accounted, nodup⟩ := connected held.1 held.2 fresh
    dsimp only at taken
    split at taken
    next =>
      split at taken
      next reports =>
        cases taken
        exact accounted_after accounted nodup reports
      next => cases taken
    next =>
      split at taken
      next none =>
        cases taken
        subst none
        exact ⟨⟨fun _ => nofun, fun _ => accounted⟩, nodup⟩
      next => cases taken

/-- In a run of the client, sockets are closed for what was read from them alone and
`connections` is the number of open ones after every turn, exactly when in each batch
every event is for writing, or brings data or nothing, or is the end of the newest
socket's stream and its own. -/
theorem accounted_iff_harmless {turns : List (Int × List Report)} {last : Client} (run : exec step Client.start turns = some last) :
    Throughout step Accounted Client.start turns ↔ exec (meeting HarmlessTurn step) Client.start turns = some last := by
  have initial : Accounted Client.start := ⟨rfl, nofun⟩
  refine (throughout_iff_meeting (fun client => Accounted client ∧ client.opened.Nodup) Accounted ⟨initial, List.nodup_nil⟩
    initial ?_ run).2
  intro before turn after held taken
  obtain ⟨same, nodup⟩ := kept held taken
  exact ⟨same, fun accounted => ⟨accounted, nodup⟩⟩

def opening (first : Int) (n : Nat) : List (Int × List Report) := (List.range n).map fun i : Nat => (first + i, [])

structure Opened (client : Client) (first : Int) (n : Nat) (after : Client) : Prop where
  isContinue : after.isContinue = false
  connections : after.connections = client.connections + n
  opened : ∀ fd, fd ∈ after.opened ↔ fd ∈ client.opened ∨ first ≤ fd ∧ fd < first + n

theorem connect_opened {client : Client} (sockfd : Int) (isContinue : client.isContinue = false)
    (room : client.connections < 340000) :
    Opened client sockfd 1 (client.connect sockfd) ∧ (client.connect sockfd).sockfd = sockfd := by
  simp only [Client.connect, isContinue, room, and_self, if_true, and_true]
  refine ⟨rfl, rfl, ?_⟩
  intro fd
  rw [List.mem_cons, or_comm]
  apply or_congr_right
  omega

theorem Opened.next {client before : Client} {first : Int} {n : Nat} (opened : Opened client first n before)
    (fresh : ∀ fd ∈ client.opened, fd < first) (room : client.connections + n < 340000) :
    first + n ∉ before.opened ∧ Opened client first (n + 1) (before.connect (first + n)) ∧
      (before.connect (first + n)).sockfd = first + n := by
  obtain ⟨connected, sockfd⟩ := connect_opened (first + n) opened.isContinue (by rw [opened.connections]; exact room)
  refine ⟨?_, ⟨connected.isContinue, ?_, ?_⟩, sockfd⟩
  · intro member
    rcases (opened.opened _).mp member with old | new
    · have := fresh _ old
      omega
    · omega
  · rw [connected.connections, opened.connections, Nat.cast_add, add_assoc]
  · intro fd
    rw [connected.opened, opened.opened, or_assoc]
    apply or_congr_right
    push_cast
    omega

theorem opening_run {client : Client} {first : Int} (n : Nat) (isContinue : client.isContinue = false)
    (fresh : ∀ fd ∈ client.opened, fd < first) (room : client.connections + n < 340000)
    (quiet : ∀ k : Nat, k < n → (client.connections + k + 1).tmod 1000 ≠ 999) :
    ∃ after, exec step client (opening first n) = some after ∧ Opened client first n after := by
  induction n with
  | zero => exact ⟨client, rfl, isContinue, by simp, fun fd => by simp⟩
  | succ n ih =>
    obtain ⟨before, earlier, opened⟩ := ih (by omega) (fun k inside => quiet k (by omega))
    obtain ⟨unused, next, -⟩ := opened.next fresh (by omega)
    have idle : (before.connect (first + n)).due = false := by
      have count : (before.connect (first + n)).connections = client.connections + n + 1 := by
        rw [next.connections, Nat.cast_add, add_assoc]
        rfl
      have small : ¬ client.connections + n + 1 ≥ 340000 := by omega
      simp only [Client.due, count, quiet n (by omega), small, or_self, decide_false]
    have taken : step before (first + n, []) = some (before.connect (first + n)) := by
      rw [step, Client.turn, if_neg unused]
      simp [idle]
    refine ⟨before.connect (first + n), ?_, next⟩
    rw [opening, List.range_succ, List.map_append]
    exact exec_next earlier taken

/-- Such turns, and one more with a batch. -/
theorem batch_run (client : Client) (first : Int) (n : Nat) (events : List Report) (isContinue : client.isContinue = false)
    (fresh : ∀ fd ∈ client.opened, fd < first) (room : client.connections + n + 1 < 340000)
    (quiet : ∀ k : Nat, k < n → (client.connections + k + 1).tmod 1000 ≠ 999)
    (due : (client.connections + n + 1).tmod 1000 = 999) (few : events.length ≤ client.connections + n + 1)
    (distinct : (events.map Report.clientfd).Nodup)
    (reported : ∀ report ∈ events, report.clientfd ∈ client.opened ∨ first ≤ report.clientfd ∧ report.clientfd ≤ first + n) :
    ∃ before, exec step client (opening first n) = some before ∧
      step before (first + n, events) = some (events.foldl Client.handle (before.connect (first + n))) ∧
      Opened client first (n + 1) (before.connect (first + n)) ∧ (before.connect (first + n)).sockfd = first + n := by
  obtain ⟨before, earlier, opened⟩ := opening_run n isContinue fresh (by omega) quiet
  obtain ⟨unused, next, sockfd⟩ := opened.next fresh (by omega)
  have count : (before.connect (first + n)).connections = client.connections + n + 1 := by
    rw [next.connections, Nat.cast_add, add_assoc]
    rfl
  have reports : (before.connect (first + n)).Reports events := by
    refine ⟨by omega, distinct, ?_⟩
    intro report member
    rw [next.opened]
    apply (reported report member).imp_right
    push_cast
    omega
  refine ⟨before, earlier, ?_, next, sockfd⟩
  rw [step, Client.turn, if_neg unused]
  have batch : (before.connect (first + n)).due = true := by simp [Client.due, count, due]
  simp only [batch, reports, if_true]

theorem not_due {connections : Int} (positive : 0 ≤ connections) (other : connections % 1000 ≠ 999) :
    connections.tmod 1000 ≠ 999 := by
  rw [Int.tmod_eq_emod_of_nonneg positive]
  exact other

theorem first_quiet (k : Nat) (inside : k < 998) : (Client.start.connections + k + 1).tmod 1000 ≠ 999 := by
  simp only [Client.start]
  exact not_due (by omega) (by omega)

/-- 999 connections, and a batch in which the oldest can be written to and the newest has ended. -/
def endOfNewest : List (Int × List Report) :=
  opening 4 998 ++ [(1002, [⟨4, true, true, .transient⟩, ⟨1002, false, true, .ended⟩])]

theorem end_of_newest_accounted :
    ∃ last, exec step Client.start endOfNewest = some last ∧ Throughout step Accounted Client.start endOfNewest := by
  obtain ⟨before, earlier, taken, -, sockfd⟩ := batch_run Client.start 4 998
    [⟨4, true, true, .transient⟩, ⟨1002, false, true, .ended⟩] rfl nofun (by decide) first_quiet (by decide)
    (by decide) (by decide) (by decide)
  have run : exec step Client.start endOfNewest = _ := exec_next earlier taken
  refine ⟨_, run, (accounted_iff_harmless run).mpr ((exec_meeting_snoc earlier taken).mpr ⟨?_, ?_⟩)⟩
  · rw [exec_meeting_of_always, earlier]
    intro turn member client
    obtain ⟨i, -, rfl⟩ := List.mem_map.mp member
    exact nofun
  · intro report member
    rcases List.mem_pair.mp member with rfl | rfl
    · exact .inl rfl
    · exact .inr ⟨rfl, by simp, fun _ => sockfd.symm⟩

/-- All of the first 999 sockets can be written to. -/
def writable : List Report := (List.range 999).map fun i : Nat => ⟨4 + i, true, false, .transient⟩

theorem handle_writable {client : Client} {events : List Report} (out : ∀ report ∈ events, report.out = true) :
    events.foldl Client.handle client = client := by
  induction events with
  | nil => rfl
  | cons report events ih =>
    have first : client.handle report = client := by rw [Client.handle, if_pos (out report (List.mem_cons_self ..))]
    rw [List.foldl_cons, first]
    exact ih fun later member => out later (List.mem_cons_of_mem _ member)

theorem first_batch : ∃ client,
    exec step Client.start (opening 4 998 ++ [(1002, writable)]) = some client ∧ Opened Client.start 4 999 client := by
  have distinct : (writable.map Report.clientfd).Nodup := by
    rw [writable, List.map_map]
    apply List.nodup_range.map
    intro i j same
    simpa using same
  have reported : ∀ report ∈ writable,
      report.clientfd ∈ Client.start.opened ∨ 4 ≤ report.clientfd ∧ report.clientfd ≤ 4 + (998 : Nat) := by
    intro report member
    obtain ⟨i, inside, rfl⟩ := List.mem_map.mp member
    have below := List.mem_range.mp inside
    right
    dsimp only
    omega
  obtain ⟨before, earlier, taken, opened, -⟩ := batch_run Client.start 4 998 writable rfl nofun (by decide)
    first_quiet (by decide) (by simp [writable, Client.start]) distinct reported
  rw [handle_writable (by simp [writable])] at taken
  exact ⟨_, exec_next earlier taken, opened⟩

/-- The 999th socket fills up at the first batch, and the peer does not read. A thousand
connections later that socket can be read from alone, and the newest has ended. -/
def endOfAnother : List (Int × List Report) :=
  opening 4 998 ++ [(1002, writable)] ++ (opening 1003 999 ++ [(2002, [⟨1002, false, true, .ended⟩])])

theorem end_of_another_closes : ∃ last, exec step Client.start endOfAnother = some last ∧ ¬ Accounted last := by
  obtain ⟨client, first, opened⟩ := first_batch
  have count : client.connections = 999 := opened.connections
  have fresh : ∀ fd ∈ client.opened, fd < 1003 := by
    intro fd member
    rcases (opened.opened fd).mp member with none | inside
    · cases none
    · omega
  have quiet : ∀ k : Nat, k < 999 → (client.connections + k + 1).tmod 1000 ≠ 999 := by
    intro k inside
    rw [count]
    exact not_due (by omega) (by omega)
  obtain ⟨before, earlier, taken, -, sockfd⟩ := batch_run client 1003 999 [⟨1002, false, true, .ended⟩]
    opened.isContinue fresh (by rw [count]; decide) quiet (by rw [count]; decide)
    (by rw [count]; decide) (by decide) (by simp [opened.opened])
  refine ⟨(before.connect 2002).handle ⟨1002, false, true, .ended⟩, ?_, ?_⟩
  · rw [endOfAnother, exec_append, first, Option.bind_some]
    exact exec_next earlier taken
  · intro accounted
    have own := (accounted.rightful _ (List.mem_cons_self ..)).1
    have other : (1003 + (999 : Nat) : Int) ≠ 1002 := by decide
    exact other (sockfd.symm.trans own)

theorem unaccounted : ¬ ∀ turns last, exec step Client.start turns = some last → Throughout step Accounted Client.start turns := by
  intro always
  obtain ⟨last, run, not_accounted⟩ := end_of_another_closes
  exact not_accounted ((always _ _ run).at_last run)

end NetPrograms.Proofs.ClientAccounting
