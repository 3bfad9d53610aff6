import NetPrograms.P2p.Stage1

/-! The two parties of a peer-to-peer session agree on their connection exactly when
the one that decides second takes the path that answers the choice of the first. -/

namespace NetPrograms.Proofs.P2pAgreement
open P2p

def SameConnection (mine theirs : End) : Prop := mine.owner = theirs.owner ∧ mine.accepted ≠ theirs.accepted

/-- Where both parties have a connection, they have its two ends. -/
def Agree (net : Net) : Prop :=
  ∀ p mine theirs, (net.peer p).establishedFd = some mine → (net.peer p.other).establishedFd = some theirs →
    SameConnection mine theirs

/-- The event leads to a connection in this state. -/
def Takes (net : Net) (p : Party) : Ready → Prop
  | .lfd => net.incoming p.other = .waiting
  | .cfd => ((net.peer p).connInflight ∧ (net.peer p).cfd) ∧ net.outgoing p = .connected
  | .stdin => False

instance (net : Net) (p : Party) (r : Ready) : Decidable (Takes net p r) :=
  match r with
  | .lfd => inferInstanceAs (Decidable (net.incoming p.other = .waiting))
  | .cfd => inferInstanceAs (Decidable (((net.peer p).connInflight ∧ (net.peer p).cfd) ∧ net.outgoing p = .connected))
  | .stdin => inferInstanceAs (Decidable False)

/-- The last event of a batch that leads to a connection. -/
def decided (net : Net) (p : Party) (ready : List Ready) : Option Ready :=
  (ready.filter fun r => Takes net p r).getLast?

/-- A batch that decides after the other party takes the opposite path: it accepts where
the other has connected, and has connected where the other accepted. -/
def Opposite (net : Net) : Event → Prop
  | .batch p ready =>
    ∀ r ∈ decided net p ready, ∀ theirs ∈ (net.peer p.other).establishedFd, r = .lfd ↔ ¬ theirs.accepted
  | _ => True

instance (net : Net) (event : Event) : Decidable (Opposite net event) :=
  match event with
  | .batch p ready => inferInstanceAs (Decidable (∀ r ∈ decided net p ready, ∀ theirs ∈ (net.peer p.other).establishedFd,
      r = .lfd ↔ ¬ theirs.accepted))
  | .connected _ | .failed _ | .queued _ | .stop _ => inferInstanceAs (Decidable True)

theorem SameConnection.symm {mine theirs : End} (same : SameConnection mine theirs) : SameConnection theirs mine :=
  ⟨same.1.symm, same.2.symm⟩

theorem agree_iff (net : Net) (p : Party) :
    Agree net ↔ ∀ mine theirs, (net.peer p).establishedFd = some mine → (net.peer p.other).establishedFd = some theirs →
      SameConnection mine theirs := by
  refine ⟨fun agree => agree p, fun same q mine theirs held holds => ?_⟩
  rcases Party.self_or_other p q with rfl | rfl
  · exact same mine theirs held holds
  · rw [Party.other_other] at holds
    exact (same theirs mine holds held).symm

section setPeer
variable (net : Net) (p : Party) (peer : Peer)

@[simp] theorem setPeer_self : (net.setPeer p peer).peer p = peer := Function.update_self ..

@[simp] theorem setPeer_other : (net.setPeer p peer).peer p.other = net.peer p.other :=
  Function.update_of_ne (Party.other_ne p) ..

@[simp] theorem setPeer_outgoing : (net.setPeer p peer).outgoing = net.outgoing := rfl

@[simp] theorem setPeer_incoming : (net.setPeer p peer).incoming = net.incoming := rfl

end setPeer

section batch
variable {net : Net} {p : Party} {ready : List Ready}

/-- The end of a connection that a party gets by each of the two paths. -/
def endOf (p : Party) : Ready → End
  | .lfd => ⟨p.other, true⟩
  | .cfd | .stdin => ⟨p, false⟩

theorem handle_other (r : Ready) : (net.handle p r).peer p.other = net.peer p.other := by
  unfold Net.handle
  split
  next => split <;> simp
  next =>
    split
    next => split <;> simp
    next => rfl
  next => rfl

theorem handle_established (r : Ready) : ((net.handle p r).peer p).establishedFd =
    if Takes net p r then some (endOf p r) else (net.peer p).establishedFd := by
  cases r with
  | lfd =>
    cases waiting : net.incoming p.other <;> simp [Net.handle, Takes, endOf, waiting]
  | cfd =>
    by_cases awaited : (net.peer p).connInflight ∧ (net.peer p).cfd
    · cases ended : net.outgoing p <;> simp [Net.handle, Takes, endOf, awaited, ended]
    · simp [Net.handle, Takes, awaited]
  | stdin => rfl

/-- An accept does not touch the connect, nor the end of the connect the listener. -/
theorem handle_takes {r s : Ready} (different : s ≠ r) : Takes (net.handle p r) p s ↔ Takes net p s := by
  cases r with
  | lfd =>
    cases s with
    | lfd => exact absurd rfl different
    | cfd => cases waiting : net.incoming p.other <;> simp [Net.handle, Takes, waiting]
    | stdin => exact Iff.rfl
  | cfd =>
    cases s with
    | lfd =>
      by_cases awaited : (net.peer p).connInflight ∧ (net.peer p).cfd
      · cases ended : net.outgoing p <;> simp [Net.handle, Takes, awaited, ended]
      · simp [Net.handle, Takes, awaited]
    | cfd => exact absurd rfl different
    | stdin => exact Iff.rfl
  | stdin => exact Iff.rfl

theorem foldl_other : (ready.foldl (·.handle p) net).peer p.other = net.peer p.other := by
  induction ready generalizing net with
  | nil => rfl
  | cons r rest ih => exact ih.trans (handle_other r)

theorem foldl_takes {s : Ready} (absent : s ∉ ready) : Takes (ready.foldl (·.handle p) net) p s ↔ Takes net p s := by
  induction ready generalizing net with
  | nil => exact Iff.rfl
  | cons r rest ih =>
    rw [List.mem_cons, not_or] at absent
    exact (ih absent.2).trans (handle_takes absent.1)

theorem decided_snoc (r : Ready) : decided net p (ready ++ [r]) = if Takes net p r then some r else decided net p ready := by
  unfold decided
  rw [List.filter_append]
  split
  next takes => simp [takes]
  next fails => simp [fails]

/-- The established descriptor behind a batch is the last one that an event has set. -/
theorem foldl_established (net : Net) (p : Party) (distinct : ready.Nodup) : ((ready.foldl (·.handle p) net).peer p).establishedFd =
    ((decided net p ready).map (endOf p)).or (net.peer p).establishedFd := by
  induction ready using List.reverseRecOn with
  | nil => rfl
  | append_singleton ready r ih =>
    obtain ⟨earlier, -, apart⟩ := List.nodup_append.mp distinct
    have absent : r ∉ ready := fun inside => apart r inside r (List.mem_singleton_self r) rfl
    rw [List.foldl_append, List.foldl_cons, List.foldl_nil, handle_established, decided_snoc, ih earlier]
    simp only [foldl_takes absent]
    split <;> rfl

end batch

/-- A party that has a connection has left stage 1, with its end of one of the two. -/
structure Settled (net : Net) : Prop where
  left : ∀ p mine, (net.peer p).establishedFd = some mine → (net.peer p).left
  path : ∀ p mine, (net.peer p).establishedFd = some mine → mine = ⟨p.other, true⟩ ∨ mine = ⟨p, false⟩

section step
variable {net after : Net} {p : Party} {ready : List Ready}

theorem start_established (result : Party → ConnectResult) (p : Party) :
    ((Net.start result).peer p).establishedFd = none := by
  cases connect : result p <;> simp [Net.start, startPeer, connect]

theorem Agree.congr (same : ∀ p, (after.peer p).establishedFd = (net.peer p).establishedFd) : Agree after ↔ Agree net := by
  simp only [Agree, same]

theorem leave_established (p q : Party) : ((net.leave p).peer q).establishedFd = (net.peer q).establishedFd := by
  rcases Party.self_or_other p q with rfl | rfl <;> simp [Net.leave]

theorem Settled.leave (settled : Settled net) (p : Party) : Settled (net.leave p) := by
  constructor
  · intro q mine held
    rw [leave_established] at held
    rcases Party.self_or_other p q with rfl | rfl
    · simp [Net.leave]
    · simpa [Net.leave] using settled.left _ mine held
  · intro q mine held
    rw [leave_established] at held
    exact settled.path q mine held

/-- What a batch does to the two parties. -/
structure Batched (net : Net) (p : Party) (ready : List Ready) (after : Net) : Prop where
  undecided : (net.peer p).establishedFd = none
  chosen : (after.peer p).establishedFd = (decided net p ready).map (endOf p)
  left : (after.peer p).establishedFd.isSome → (after.peer p).left
  other : after.peer p.other = net.peer p.other

theorem batch_law (settled : Settled net) (taken : net.step (.batch p ready) = some after) : Batched net p ready after := by
  simp only [Net.step] at taken
  split at taken
  next allowed =>
    obtain ⟨staying, distinct, -⟩ := allowed
    have undecided : (net.peer p).establishedFd = none := by
      by_contra decided
      obtain ⟨mine, held⟩ := Option.ne_none_iff_exists'.mp decided
      exact staying (settled.left p mine held)
    have chosen := foldl_established net p distinct
    rw [undecided, Option.or_none] at chosen
    split at taken
    next =>
      cases taken
      exact ⟨undecided, by simpa [Net.leave] using chosen, by simp [Net.leave], by simpa [Net.leave] using foldl_other⟩
    next nothing =>
      cases taken
      exact ⟨undecided, chosen, fun held => absurd held nothing, foldl_other⟩
  next => cases taken

theorem decided_takes {r : Ready} (final : decided net p ready = some r) : Takes net p r := by
  have member := List.mem_of_getLast? final
  simpa using (List.mem_filter.mp member).2

/-- The ends that two paths lead to are those of one connection exactly when the paths are opposite. -/
theorem same_iff {r : Ready} {theirs : End} (final : decided net p ready = some r)
    (path : theirs = ⟨p.other.other, true⟩ ∨ theirs = ⟨p.other, false⟩) :
    SameConnection (endOf p r) theirs ↔ (r = .lfd ↔ ¬ theirs.accepted) := by
  have apart : p ≠ p.other := (Party.other_ne p).symm
  have takes := decided_takes final
  cases r with
  | lfd => rcases path with rfl | rfl <;> simp [SameConnection, endOf]
  | cfd => rcases path with rfl | rfl <;> simp [SameConnection, endOf, apart]
  | stdin => exact takes.elim

namespace Batched
variable (batched : Batched net p ready after)
include batched

theorem settled (settled : Settled net) : Settled after := by
  have own : ∀ mine, (after.peer p).establishedFd = some mine → mine = ⟨p.other, true⟩ ∨ mine = ⟨p, false⟩ := by
    intro mine held
    obtain ⟨r, -, rfl⟩ := Option.map_eq_some_iff.mp (batched.chosen.symm.trans held)
    cases r <;> simp [endOf]
  constructor
  · intro q mine held
    rcases Party.self_or_other p q with rfl | rfl
    · exact batched.left (by rw [held]; rfl)
    · rw [batched.other] at held ⊢
      exact settled.left _ mine held
  · intro q mine held
    rcases Party.self_or_other p q with rfl | rfl
    · exact own mine held
    · rw [batched.other] at held
      exact settled.path _ mine held

/-- Before the batch there is nothing to disagree on. -/
theorem agree (settled : Settled net) : Agree after ↔ Agree net ∧ Opposite net (.batch p ready) := by
  have before : Agree net := (agree_iff net p).mpr fun mine theirs held => by
    rw [batched.undecided] at held
    cases held
  rw [agree_iff after p, batched.chosen, batched.other]
  refine ⟨fun agree => ⟨before, fun r final theirs held => ?_⟩, fun met mine theirs chosen held => ?_⟩
  · exact (same_iff final (settled.path _ theirs held)).mp (agree _ theirs (by rw [final]; rfl) held)
  · obtain ⟨r, final, rfl⟩ := Option.map_eq_some_iff.mp chosen
    exact (same_iff final (settled.path _ theirs held)).mpr (met.2 r final theirs held)

end Batched

theorem step_agree {event : Event} (settled : Settled net) (taken : net.step event = some after) :
    Settled after ∧ (Agree after ↔ Agree net ∧ Opposite net event) := by
  have same_peers (same : after.peer = net.peer) : Settled after ∧ (Agree after ↔ Agree net ∧ True) := by
    constructor
    · exact ⟨by rw [same]; exact settled.left, by rw [same]; exact settled.path⟩
    · rw [and_true]
      exact Agree.congr fun q => by rw [same]
  cases event with
  | connected q =>
    simp only [Net.step] at taken
    split at taken <;> cases taken
    exact same_peers rfl
  | failed q =>
    cases taken
    exact same_peers rfl
  | queued q =>
    simp only [Net.step] at taken
    split at taken <;> cases taken
    exact same_peers rfl
  | batch q ready =>
    have batched := batch_law settled taken
    exact ⟨batched.settled settled, batched.agree settled⟩
  | stop q =>
    simp only [Net.step] at taken
    split at taken <;> cases taken
    refine ⟨settled.leave q, ?_⟩
    simpa only [Opposite, and_true] using Agree.congr (leave_established q)

end step

section run

theorem agree_iff_opposite (result : Party → ConnectResult) (events : List Event) (last : Net)
    (reached : exec Net.step (Net.start result) events = some last) :
    Agree last ↔ exec (meeting Opposite Net.step) (Net.start result) events = some last := by
  have settled : Settled (Net.start result) := by constructor <;> simp [start_established]
  have agree : Agree (Net.start result) := fun p mine theirs held => by
    rw [start_established] at held
    cases held
  exact (exec_meeting_iff Settled Agree settled agree (fun _ _ _ settled taken => step_agree settled taken) reached).2

/-- Both connections come up and wait at the listeners before either loop runs. -/
def both : List Event := [.connected .a, .connected .b, .queued .a, .queued .b]

/-- The first party accepts, the second finds its own connect completed. -/
theorem opposite_agrees : ∃ last, exec Net.step (Net.start fun _ => .inProgress)
      (both ++ [.batch .a [.cfd, .lfd], .batch .b [.lfd, .cfd]]) = some last ∧
    (Agree last ↔ exec (meeting Opposite Net.step) (Net.start fun _ => .inProgress)
      (both ++ [.batch .a [.cfd, .lfd], .batch .b [.lfd, .cfd]]) = some last) ∧
    (last.peer .a).establishedFd = some ⟨.b, true⟩ ∧ (last.peer .b).establishedFd = some ⟨.b, false⟩ :=
  ⟨_, rfl, agree_iff_opposite _ _ _ rfl, rfl, rfl⟩

/-- The accept comes last in both batches, so each of the two takes the connection of
the other and has lost its own. -/
theorem both_accept : ¬ ∀ (result : Party → ConnectResult) (events : List Event) (last : Net),
    exec Net.step (Net.start result) events = some last → Agree last := by
  intro always
  have run : ∃ last, exec Net.step (Net.start fun _ => .inProgress)
      (both ++ [.batch .a [.cfd, .lfd], .batch .b [.cfd, .lfd]]) = some last ∧
      (last.peer .a).establishedFd = some ⟨.b, true⟩ ∧ (last.peer .b).establishedFd = some ⟨.a, true⟩ := ⟨_, rfl, rfl, rfl⟩
  obtain ⟨last, reached, mine, theirs⟩ := run
  exact absurd (always _ _ last reached .a _ _ mine theirs).1 (by decide)

end run
end NetPrograms.Proofs.P2pAgreement
