import NetPrograms.P2p.Main

/-! What one batch of events does in stage 1, said by the events alone. -/

namespace NetPrograms.P2p
namespace Main

/-- `accept` returns a socket at this event. -/
def Accepts (s : Main) (ev : Ready) : Prop :=
  ev.fd = s.lfd ∧ ev.events.input ∧ 0 ≤ ev.afd

/-- The connect is found to have succeeded at this event. -/
def Connects (s : Main) (ev : Ready) : Prop :=
  s.connInflight ∧ ev.fd = s.cfd ∧ (ev.events.output ∨ ev.events.err ∨ ev.events.hup) ∧ ev.soError = some 0

instance (s : Main) (ev : Ready) : Decidable (s.Accepts ev) := inferInstanceAs (Decidable (_ ∧ _ ∧ _))

instance (s : Main) (ev : Ready) : Decidable (s.Connects ev) := inferInstanceAs (Decidable (_ ∧ _ ∧ _ ∧ _))

/-- The sockets that a batch brings. -/
def accepted (s : Main) (evs : List Ready) : List Int :=
  (evs.filter fun ev => s.Accepts ev).map (·.afd)

/-- The connections that a batch brings, in their order. -/
def made (s : Main) (evs : List Ready) : List Int :=
  evs.filterMap fun ev => if s.Accepts ev then some ev.afd else if s.Connects ev then some s.cfd else none

variable {s before after : Main} {evs : List Ready} {ev : Ready}

theorem not_accepts_and_connects (distinct : s.lfd ≠ s.cfd) (accepts : s.Accepts ev) : ¬ s.Connects ev := by
  intro connects
  exact distinct (accepts.1.symm.trans connects.2.1)

theorem mem_accepted {fd : Int} : fd ∈ s.accepted evs ↔ ∃ ev ∈ evs, s.Accepts ev ∧ ev.afd = fd := by
  simp [accepted, and_assoc]

/-- All that one event can do in stage 1. -/
theorem connectEvent_cases (distinct : s.lfd ≠ s.cfd) (taken : s.connectEvent ev = some after) :
    (s.Accepts ev ∧ s.epoll.files ev.afd = false ∧ after = { s with
        establishedFd := ev.afd
        epoll := s.epoll.opened ev.afd
        sockets := s.sockets ++ [ev.afd]
        connections := s.connections ++ [ev.afd] }) ∨
      (s.Connects ev ∧ after =
        { s with establishedFd := s.cfd, cfd := -1, connections := s.connections ++ [s.cfd] }) ∨
      (¬ s.Accepts ev ∧ ¬ s.Connects ev ∧
        (after = s ∨ ev.fd = s.cfd ∧ after = { s with connInflight := false, epoll := s.epoll.del s.cfd })) := by
  obtain ⟨middle, first, rfl⟩ := Option.map_eq_some_iff.mp taken
  by_cases accepts : s.Accepts ev
  · left
    have apart : ev.fd ≠ s.cfd := fun same => distinct (accepts.1.symm.trans same)
    rw [acceptPeer, if_pos ⟨accepts.1, accepts.2.1⟩, if_pos accepts.2.2] at first
    split at first
    next => cases first
    next closed =>
      cases first
      refine ⟨accepts, by simpa using closed, ?_⟩
      rw [finishConnect, if_neg]
      rintro ⟨-, same, -⟩
      exact apart same
  · right
    have same : middle = s := by
      unfold acceptPeer at first
      split at first
      next listening =>
        rw [if_neg fun positive => accepts ⟨listening.1, listening.2, positive⟩] at first
        exact (Option.some.inj first).symm
      next => exact (Option.some.inj first).symm
    subst same
    by_cases connects : middle.Connects ev
    · left
      refine ⟨connects, ?_⟩
      rw [finishConnect, if_pos ⟨connects.1, connects.2.1, connects.2.2.1⟩, connects.2.2.2]
      rfl
    · right
      refine ⟨accepts, connects, ?_⟩
      unfold finishConnect
      split
      next reported =>
        right
        refine ⟨reported.2.1, ?_⟩
        split
        next => rfl
        next err found =>
          rw [if_neg, reported.2.1]
          rintro rfl
          exact connects ⟨reported.1, reported.2.1, reported.2.2, found⟩
      next => exact .inl rfl

/-- At the head of the loop of stage 1. -/
structure Waiting (s : Main) : Prop where
  stage : s.stage = .first
  established : s.establishedFd = -1
  lfdOpen : 0 ≤ s.lfd
  cfdOpen : 0 ≤ s.cfd
  distinct : s.lfd ≠ s.cfd
  lfdFile : s.epoll.files s.lfd = true
  cfdFile : s.epoll.files s.cfd = true
  sockets : s.sockets = [s.lfd, s.cfd]
  registered : s.connInflight → s.epoll.interest s.cfd = some { output := true, err := true, hup := true }

/-- From `before` the events of `evs` have led to `after`. -/
structure Opening (before : Main) (evs : List Ready) (after : Main) : Prop where
  stage : after.stage = before.stage
  gStop : after.gStop = before.gStop
  lfd : after.lfd = before.lfd
  sockets : after.sockets = before.sockets ++ before.accepted evs
  connections : after.connections = before.connections ++ before.made evs
  established : after.establishedFd = (before.made evs).getLastD before.establishedFd
  cfd : after.cfd = if ∃ ev ∈ evs, before.Connects ev then -1 else before.cfd
  pending : (∀ ev ∈ evs, ev.fd ≠ before.cfd) → after.connInflight = before.connInflight
  inflight : after.connInflight →
    before.connInflight ∧ after.epoll.interest before.cfd = before.epoll.interest before.cfd
  connected : (∃ ev ∈ evs, before.Connects ev) →
    after.epoll.interest before.cfd = before.epoll.interest before.cfd
  files : ∀ fd, after.epoll.files fd = true ↔ before.epoll.files fd = true ∨ fd ∈ before.accepted evs
  fresh : ∀ fd ∈ before.accepted evs, before.epoll.files fd = false
  interest : ∀ fd, fd ≠ before.cfd → after.epoll.interest fd = before.epoll.interest fd

theorem accepted_concat (s : Main) (evs : List Ready) (ev : Ready) :
    s.accepted (evs ++ [ev]) = s.accepted evs ++ if s.Accepts ev then [ev.afd] else [] := by
  simp only [accepted, List.filter_append, List.map_append]
  by_cases accepts : s.Accepts ev <;> simp [accepts]

theorem made_concat (s : Main) (evs : List Ready) (ev : Ready) :
    s.made (evs ++ [ev]) = s.made evs ++
      if s.Accepts ev then [ev.afd] else if s.Connects ev then [s.cfd] else [] := by
  simp only [made, List.filterMap_append]
  congr 1
  by_cases accepts : s.Accepts ev
  · simp [accepts]
  · by_cases connects : s.Connects ev <;> simp [accepts, connects]

namespace Opening

theorem refl (s : Main) : Opening s [] s where
  stage := rfl
  gStop := rfl
  lfd := rfl
  sockets := by simp [accepted]
  connections := by simp [made]
  established := by simp [made]
  cfd := by simp
  pending _ := rfl
  inflight held := ⟨held, rfl⟩
  connected _ := rfl
  files fd := by simp [accepted]
  fresh fd member := by simp [accepted] at member
  interest _ _ := rfl

theorem accepts_iff (opening : Opening before evs s) : s.Accepts ev ↔ before.Accepts ev := by
  rw [Accepts, Accepts, opening.lfd]

/-- No event of the batch has been about the descriptor of `ev`, so the variables that
concern it are unchanged. -/
theorem connects_iff (opening : Opening before evs s) (new : ∀ old ∈ evs, old.fd ≠ ev.fd) (positive : 0 ≤ ev.fd) :
    s.Connects ev ↔ before.Connects ev := by
  by_cases outgoing : ev.fd = before.cfd
  · have same : s.cfd = before.cfd := by
      rw [opening.cfd, if_neg]
      rintro ⟨old, member, connects⟩
      exact new old member (connects.2.1.trans outgoing.symm)
    have inflight := opening.pending fun old member found => new old member (found.trans outgoing.symm)
    rw [Connects, Connects, same, inflight]
  · constructor
    · intro connects
      have same := connects.2.1
      rw [opening.cfd] at same
      split at same
      next => omega
      next => exact absurd same outgoing
    · intro connects
      exact absurd connects.2.1 outgoing

/-- Before an event about it nothing has happened to the descriptor of the connect. -/
theorem cfd_unchanged (opening : Opening before evs s) (new : ∀ old ∈ evs, old.fd ≠ ev.fd) (outgoing : ev.fd = before.cfd) :
    s.cfd = before.cfd := by
  rw [opening.cfd, if_neg]
  rintro ⟨old, member, connects⟩
  exact new old member (connects.2.1.trans outgoing.symm)

theorem accept (opening : Opening before evs s) (waiting : Waiting before) (accepts : before.Accepts ev)
    (closed : s.epoll.files ev.afd = false) :
    Opening before (evs ++ [ev]) { s with
      establishedFd := ev.afd
      epoll := s.epoll.opened ev.afd
      sockets := s.sockets ++ [ev.afd]
      connections := s.connections ++ [ev.afd] } := by
  have none := not_accepts_and_connects waiting.distinct accepts
  have shut : before.epoll.files ev.afd = false := by
    by_contra held
    have := (opening.files ev.afd).mpr (.inl (by simpa using held))
    rw [closed] at this
    cases this
  constructor <;> simp only [accepted_concat, made_concat, if_pos accepts]
  · exact opening.stage
  · exact opening.gStop
  · exact opening.lfd
  · rw [opening.sockets, List.append_assoc]
  · rw [opening.connections, List.append_assoc]
  · simp
  · rw [opening.cfd]
    simp [or_and_right, exists_or, none]
  · intro untouched
    exact opening.pending fun old member => untouched old (List.mem_append_left _ member)
  · exact opening.inflight
  · intro connects
    apply opening.connected
    simpa [or_and_right, exists_or, none] using connects
  · intro fd
    by_cases same : fd = ev.afd
    · simp [same]
    · simp [opening.files, same]
  · intro fd member
    rcases List.mem_append.mp member with member | member
    · exact opening.fresh fd member
    · rw [List.mem_singleton.mp member]
      exact shut
  · exact opening.interest

theorem connect (opening : Opening before evs s) (none : ¬ before.Accepts ev) (connects : before.Connects ev)
    (inflight : s.connInflight) (same : s.cfd = before.cfd) :
    Opening before (evs ++ [ev])
      { s with establishedFd := s.cfd, cfd := -1, connections := s.connections ++ [s.cfd] } := by
  constructor <;> simp only [accepted_concat, made_concat, if_neg none, if_pos connects, List.append_nil]
  · exact opening.stage
  · exact opening.gStop
  · exact opening.lfd
  · exact opening.sockets
  · rw [opening.connections, List.append_assoc, same]
  · simp [same]
  · rw [if_pos]
    exact ⟨ev, by simp, connects⟩
  · intro untouched
    exact absurd connects.2.1 (untouched ev (by simp))
  · exact opening.inflight
  · intro _
    exact (opening.inflight inflight).2
  · exact opening.files
  · exact opening.fresh
  · exact opening.interest

/-- An event that brings no connection. -/
theorem quiet (opening : Opening before evs s) (noAccept : ¬ before.Accepts ev) (noConnect : ¬ before.Connects ev) :
    Opening before (evs ++ [ev]) s := by
  have same : (∃ old ∈ evs ++ [ev], before.Connects old) ↔ ∃ old ∈ evs, before.Connects old := by
    simp [or_and_right, exists_or, noConnect]
  have accepted : before.accepted (evs ++ [ev]) = before.accepted evs := by simp [accepted_concat, noAccept]
  have made : before.made (evs ++ [ev]) = before.made evs := by simp [made_concat, noAccept, noConnect]
  refine ⟨opening.stage, opening.gStop, opening.lfd, ?_, ?_, ?_, ?_, ?_, opening.inflight, ?_, ?_, ?_, opening.interest⟩
  · rw [accepted]
    exact opening.sockets
  · rw [made]
    exact opening.connections
  · rw [made]
    exact opening.established
  · simp only [same]
    exact opening.cfd
  · intro untouched
    exact opening.pending fun old member => untouched old (List.mem_append_left _ member)
  · rw [same]
    exact opening.connected
  · rw [accepted]
    exact opening.files
  · rw [accepted]
    exact opening.fresh

/-- The connect is given up. -/
theorem giveUp (opening : Opening before evs s) (same : s.cfd = before.cfd) (noConnect : ¬ ∃ ev ∈ evs, before.Connects ev)
    (touched : ∃ ev ∈ evs, ev.fd = before.cfd) :
    Opening before evs { s with connInflight := false, epoll := s.epoll.del s.cfd } := by
  refine { opening with pending := ?_, inflight := ?_, connected := fun connects => absurd connects noConnect, interest := ?_ }
  · intro untouched
    obtain ⟨ev, member, outgoing⟩ := touched
    exact absurd outgoing (untouched ev member)
  · intro held
    cases held
  · intro fd other
    rw [← same] at other
    simp only [Epoll.del_interest, Function.update_of_ne other]
    exact opening.interest fd (same ▸ other)

theorem snoc (opening : Opening before evs s) (waiting : Waiting before) (new : ∀ old ∈ evs, old.fd ≠ ev.fd)
    (positive : 0 ≤ ev.fd) (taken : s.connectEvent ev = some after) : Opening before (evs ++ [ev]) after := by
  have apart : s.lfd ≠ s.cfd := by
    rw [opening.lfd, opening.cfd]
    have := waiting.lfdOpen
    split
    · omega
    · exact waiting.distinct
  rcases connectEvent_cases apart taken with ⟨accepts, closed, rfl⟩ | ⟨connects, rfl⟩ | ⟨noAccept, noConnect, quiet⟩
  · exact opening.accept waiting (opening.accepts_iff.mp accepts) closed
  · have inflight := connects.1
    have connects := (opening.connects_iff new positive).mp connects
    have none : ¬ before.Accepts ev := fun accepts => not_accepts_and_connects waiting.distinct accepts connects
    exact opening.connect none connects inflight (opening.cfd_unchanged new connects.2.1)
  · have noConnect := (opening.connects_iff new positive).not.mp noConnect
    have opening' := opening.quiet (opening.accepts_iff.not.mp noAccept) noConnect
    rcases quiet with rfl | ⟨outgoing, rfl⟩
    · exact opening'
    · have outgoing : ev.fd = before.cfd := by
        rw [opening.cfd] at outgoing
        split at outgoing
        · omega
        · exact outgoing
      have same := opening.cfd_unchanged new outgoing
      have none : ¬ ∃ old ∈ evs ++ [ev], before.Connects old := by
        intro connects
        have cfd := opening'.cfd
        rw [if_pos connects, same] at cfd
        have := waiting.cfdOpen
        omega
      exact opening'.giveUp same none ⟨ev, by simp, outgoing⟩

theorem foldlM (waiting : Waiting before) (distinct : (evs.map (·.fd)).Nodup) (positive : ∀ ev ∈ evs, 0 ≤ ev.fd)
    (taken : evs.foldlM connectEvent before = some after) : Opening before evs after := by
  induction evs using List.reverseRecOn generalizing after with
  | nil =>
    cases taken
    exact .refl before
  | append_singleton evs ev ih =>
    rw [List.foldlM_append] at taken
    obtain ⟨middle, earlier, last⟩ := Option.bind_eq_some_iff.mp taken
    have last : middle.connectEvent ev = some after := by simpa using last
    rw [List.map_append, List.nodup_append] at distinct
    apply (ih distinct.1 (fun old member => positive old (List.mem_append_left _ member)) earlier).snoc waiting
    · intro old member
      exact distinct.2.2 _ (List.mem_map_of_mem member) _ (by simp)
    · exact positive ev (by simp)
    · exact last

end Opening

theorem mem_made (distinct : before.lfd ≠ before.cfd) {fd : Int} :
    fd ∈ before.made evs ↔ fd ∈ before.accepted evs ∨ (∃ ev ∈ evs, before.Connects ev) ∧ fd = before.cfd := by
  rw [made, List.mem_filterMap, mem_accepted]
  constructor
  · intro ⟨ev, member, found⟩
    split at found
    next accepts => exact .inl ⟨ev, member, accepts, Option.some.inj found⟩
    next =>
      split at found
      next connects => exact .inr ⟨⟨ev, member, connects⟩, (Option.some.inj found).symm⟩
      next => cases found
  · rintro (⟨ev, member, accepts, rfl⟩ | ⟨⟨ev, member, connects⟩, rfl⟩)
    · exact ⟨ev, member, if_pos accepts⟩
    · refine ⟨ev, member, ?_⟩
      rw [if_neg fun accepts => not_accepts_and_connects distinct accepts connects, if_pos connects]

def Wait.reported : Wait → List Ready
  | .ready evs => evs
  | .interrupted | .failed => []

theorem start_waiting (sockets : Sockets) (others : Int → Bool) (result : ConnectResult) (gStop : Bool) :
    (start sockets others result gStop).Waiting where
  stage := rfl
  established := rfl
  lfdOpen := sockets.lfdOpen
  cfdOpen := sockets.cfdOpen
  distinct := sockets.distinct
  lfdFile := by
    have := sockets.distinct
    simp only [start, registerInitial, Epoll.add_files]
    split <;> simp [this]
  cfdFile := by
    simp only [start, registerInitial, Epoll.add_files]
    split <;> simp
  sockets := rfl
  registered inflight := by
    have free : ((((Epoll.empty others).opened sockets.lfd).opened sockets.cfd).add sockets.lfd
        { input := true, rdhup := true }).interest sockets.cfd = none := by
      rw [Epoll.add_other _ _ sockets.distinct.symm]
      rfl
    simp only [start] at inflight
    apply Epoll.add_keeps
    rw [if_pos inflight, Epoll.add_new _ _ (by simp) free]
    exact Function.update_self ..

theorem Waiting.made_nonneg (waiting : Waiting before) {fd : Int} (member : fd ∈ before.made evs) : 0 ≤ fd := by
  rcases (mem_made waiting.distinct).mp member with accepted | ⟨-, rfl⟩
  · obtain ⟨ev, -, accepts, rfl⟩ := mem_accepted.mp accepted
    exact accepts.2.2
  · exact waiting.cfdOpen

theorem Opening.established_mem (opening : Opening before evs s) (some : before.made evs ≠ []) :
    s.establishedFd ∈ before.made evs := by
  rw [opening.established, List.getLastD_eq_getLast?, List.getLast?_eq_some_getLast some]
  exact List.getLast_mem some

theorem Opening.established_iff (opening : Opening before evs s) (waiting : Waiting before) :
    0 ≤ s.establishedFd ↔ before.made evs ≠ [] := by
  constructor
  · intro positive none
    rw [opening.established, none, waiting.established] at positive
    simp at positive
  · intro some
    exact waiting.made_nonneg (opening.established_mem some)

/-- One iteration of stage 1 that is not stopped. -/
theorem turnFirst_cases {turn : Turn} (waiting : Waiting before) (taken : before.turnFirst turn = some after) :
    (turn.wait = .failed ∧ after = before.leaveFirst.interrupt turn) ∨
      ∃ middle, (turn.wait.reported.map (·.fd)).Nodup ∧ Opening before turn.wait.reported middle ∧
        after = (if before.made turn.wait.reported = [] then middle else middle.leaveFirst).interrupt turn := by
  unfold turnFirst at taken
  split at taken
  next interrupted =>
    right
    cases taken
    refine ⟨before, ?_⟩
    rw [interrupted]
    exact ⟨.nil, .refl before, rfl⟩
  next failed =>
    cases taken
    exact .inl ⟨failed, rfl⟩
  next evs ready =>
    right
    split at taken
    next may =>
      obtain ⟨middle, handled, taken⟩ := Option.bind_eq_some_iff.mp taken
      have distinct : (evs.map (·.fd)).Nodup := by simpa [Function.comp_def] using may.nodup
      have positive : ∀ ev ∈ evs, 0 ≤ ev.fd := fun ev member => (may.2.2 _ (List.mem_map_of_mem member)).1
      have opening := Opening.foldlM waiting distinct positive handled
      simp only [ready, Wait.reported]
      refine ⟨middle, distinct, opening, ?_⟩
      split at taken
      next established =>
        cases taken
        rw [if_neg ((opening.established_iff waiting).mp established)]
      next unestablished =>
        cases taken
        rw [if_pos (not_not.mp ((opening.established_iff waiting).not.mp unestablished))]
    next => cases taken

/-- Without a connection the batch leaves stage 1 as it was, for the connect perhaps
given up. -/
theorem Opening.waiting (opening : Opening before evs s) (waiting : Waiting before) (none : before.made evs = []) :
    Waiting s := by
  have noConnect : ¬ ∃ ev ∈ evs, before.Connects ev := by
    intro connects
    have made : before.cfd ∈ before.made evs := (mem_made waiting.distinct).mpr (.inr ⟨connects, rfl⟩)
    rw [none] at made
    cases made
  have noAccept : before.accepted evs = [] := by
    apply List.eq_nil_iff_forall_not_mem.mpr
    intro fd accepted
    have made : fd ∈ before.made evs := (mem_made waiting.distinct).mpr (.inl accepted)
    rw [none] at made
    cases made
  have cfd : s.cfd = before.cfd := by rw [opening.cfd, if_neg noConnect]
  refine ⟨opening.stage.trans waiting.stage, ?_, ?_, ?_, ?_, ?_, ?_, ?_, ?_⟩
  · rw [opening.established, none, waiting.established]
    rfl
  · rw [opening.lfd]
    exact waiting.lfdOpen
  · rw [cfd]
    exact waiting.cfdOpen
  · rw [opening.lfd, cfd]
    exact waiting.distinct
  · rw [opening.lfd, opening.files]
    exact .inl waiting.lfdFile
  · rw [cfd, opening.files]
    exact .inl waiting.cfdFile
  · rw [opening.sockets, waiting.sockets, noAccept, opening.lfd, cfd]
    rfl
  · intro inflight
    obtain ⟨held, same⟩ := opening.inflight inflight
    rw [cfd, same]
    exact waiting.registered held

theorem Waiting.interrupt {turn : Turn} (waiting : Waiting s) : Waiting (s.interrupt turn) :=
  { waiting with }

/-- A socket that `accept` returns is neither of the first two. -/
theorem Opening.apart (opening : Opening before evs s) (waiting : Waiting before) {fd : Int}
    (accepted : fd ∈ before.accepted evs) : fd ≠ before.lfd ∧ fd ≠ before.cfd := by
  have closed := opening.fresh fd accepted
  constructor <;> rintro rfl
  · exact absurd (waiting.lfdFile.symm.trans closed) (by decide)
  · exact absurd (waiting.cfdFile.symm.trans closed) (by decide)

/-! The clean-up between the stages. -/

theorem closeSocket_files (s : Main) (fd other : Int) :
    (s.closeSocket fd).epoll.files other = true ↔ s.epoll.files other = true ∧ (0 ≤ fd → other ≠ fd) := by
  unfold closeSocket
  split
  next isOpen =>
    by_cases same : other = fd
    · simp [same, isOpen]
    · simp [same]
  next shut => simp [shut]

theorem closeSocket_interest (s : Main) {fd other : Int} (apart : other ≠ fd) :
    (s.closeSocket fd).epoll.interest other = s.epoll.interest other := by
  unfold closeSocket
  split
  · simp [apart]
  · rfl

/-- The clean-up changes the files only. -/
theorem closeSocket_eq (s : Main) (fd : Int) : s.closeSocket fd = { s with epoll := (s.closeSocket fd).epoll } := by
  unfold closeSocket
  split <;> rfl

/-- `s` has gone on to stage 2. -/
structure Entered (before after : Main) : Prop where
  stage : after.stage = .second
  gStop : after.gStop = before.gStop
  establishedFd : after.establishedFd = before.establishedFd
  sockets : after.sockets = before.sockets
  connections : after.connections = before.connections
  ob : after.ob = outbufInit
  files : ∀ fd, after.epoll.files fd = true ↔
    before.epoll.files fd = true ∧ (0 ≤ before.cfd → fd ≠ before.cfd) ∧ (0 ≤ before.lfd → fd ≠ before.lfd)

theorem leaveFirst_of_established (positive : 0 ≤ s.establishedFd) :
    s.leaveFirst = { s with
      stage := .second
      epoll := (((s.closeSocket s.cfd).closeSocket s.lfd).epoll.add s.establishedFd { input := true, rdhup := true })
      ob := outbufInit } := by
  unfold leaveFirst
  rw [closeSocket_eq (s.closeSocket s.cfd), closeSocket_eq s]
  simp only
  rw [if_neg (by omega)]

theorem leaveFirst_of_none (none : s.establishedFd < 0) : s.leaveFirst.stage = .returned 3 := by
  unfold leaveFirst
  rw [closeSocket_eq (s.closeSocket s.cfd), closeSocket_eq s]
  simp only
  rw [if_pos none]

theorem leaveFirst_entered (positive : 0 ≤ s.establishedFd) : Entered s s.leaveFirst := by
  rw [leaveFirst_of_established positive]
  refine ⟨rfl, rfl, rfl, rfl, rfl, rfl, ?_⟩
  intro fd
  simp only [Epoll.add_files, closeSocket_files, and_assoc]

/-! A program with its standard files open. -/

def standardFiles (fd : Int) : Bool := fd = 0 || fd = 1 || fd = 2

theorem three_open : (0 : Int) ≤ 3 := by decide
theorem four_open : (0 : Int) ≤ 4 := by decide
theorem three_ne_four : (3 : Int) ≠ 4 := by decide

def standardSockets : Sockets := ⟨3, 4, three_open, four_open, three_ne_four⟩

/-- `accept` returns 5. -/
def peerArrives : Ready := ⟨3, { input := true }, 5, none, .again, none, .again, []⟩

/-- The connect has succeeded. -/
def connectEnds : Ready := ⟨4, { output := true }, -1, some 0, .again, none, .again, []⟩

end Main
end NetPrograms.P2p
