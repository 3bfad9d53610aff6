import Mathlib.Data.List.Perm.Basic
import NetPrograms.Proofs.UringSteps

/-! What the server has outstanding: one accept, and one request for each open
connection, in turn a receive and a send. -/

namespace NetPrograms.Proofs.UringDiscipline
open Uring UringSteps

def sqeKey (sqe : Sqe) : Kind × Int := (sqe.event, sqe.fd)

def cqeKey (entry : Cqe) : Kind × Int := (entry.event, entry.fd)

def entriesOf : Phase → List Cqe
  | .batch entries => entries
  | _ => []

/-- The requests that are prepared or submitted and whose completion the program
has not processed. -/
def outstanding (s : Ring) : List (Kind × Int) :=
  s.sq.map sqeKey ++ s.flight.map (fun op => sqeKey op.sqe) ++ s.cq.map cqeKey ++ (entriesOf s.phase).map cqeKey

def accepts (s : Ring) : List (Kind × Int) := (outstanding s).filter (·.1 = .accept)

/-- The receives and sends for a descriptor. -/
def requests (s : Ring) (fd : Int) : List (Kind × Int) :=
  (outstanding s).filter fun op => op.1 ≠ .accept ∧ op.2 = fd

/-- A receive, a send, a receive and so on. -/
def turn (n : Nat) : Kind := if n % 2 = 0 then .read else .write

def turns (n : Nat) : List Kind := (List.range n).map turn

theorem turns_succ (n : Nat) : turns (n + 1) = turns n ++ [turn n] := by
  simp [turns, List.range_succ]

theorem turn_read (n : Nat) (read : .read = turn n) : .write = turn (n + 1) := by
  unfold turn at read ⊢
  split at read
  next even => rw [if_neg (by omega)]
  next => cases read

theorem turn_write (n : Nat) (write : .write = turn n) : .read = turn (n + 1) := by
  unfold turn at write ⊢
  split at write
  next => cases write
  next odd => rw [if_pos (by omega)]

structure Disciplined (socket : Int) (s : Ring) : Prop where
  accept : accepts s = [(.accept, socket)]
  live : ∀ fd history, s.conns fd = some history →
    0 ≤ fd ∧ s.files fd = true ∧ ∃ n, history = turns (n + 1) ∧ requests s fd = [(turn n, fd)]
  dead : ∀ fd, 0 ≤ fd → s.conns fd = none → requests s fd = []
  fresh : ∀ entry ∈ s.cq ++ entriesOf s.phase, entry.event = .accept → 0 ≤ entry.res →
    s.files entry.res = true ∧ s.conns entry.res = none

variable {socket : Int} {s after : Ring}

private theorem filter_perm {before later : List (Kind × Int)} (same : later.Perm before) {p : Kind × Int → Bool}
    {found : List (Kind × Int)} (only : before.filter p = found) (short : found.length ≤ 1) : later.filter p = found := by
  have kept := same.filter p
  rw [only] at kept
  match found, short with
  | [], _ => exact kept.eq_nil
  | [x], _ => exact List.perm_singleton.mp kept

theorem Disciplined.frame (held : Disciplined socket s) (same : (outstanding after).Perm (outstanding s))
    (conns : after.conns = s.conns) (files : ∀ fd, s.files fd = true → after.files fd = true)
    (fresh : ∀ entry ∈ after.cq ++ entriesOf after.phase, entry.event = .accept → 0 ≤ entry.res →
      after.files entry.res = true ∧ after.conns entry.res = none) : Disciplined socket after := by
  refine ⟨filter_perm same held.accept (Nat.le_refl _), ?_, ?_, fresh⟩
  · intro fd history found
    rw [conns] at found
    obtain ⟨positive, opened, n, shape, only⟩ := held.live fd history found
    exact ⟨positive, files fd opened, n, shape, filter_perm same only (Nat.le_refl _)⟩
  · intro fd positive none
    rw [conns] at none
    exact filter_perm same (held.dead fd positive none) (Nat.zero_le _)

theorem Disciplined.changed (held : Disciplined socket s) {fd : Int} (accept : accepts after = [(.accept, socket)])
    (conns : ∀ other, other ≠ fd → after.conns other = s.conns other)
    (files : ∀ other, other ≠ fd → s.files other = true → after.files other = true)
    (same : ∀ other, other ≠ fd → (requests after other).Perm (requests s other))
    (live : ∀ history, after.conns fd = some history →
      0 ≤ fd ∧ after.files fd = true ∧ ∃ n, history = turns (n + 1) ∧ requests after fd = [(turn n, fd)])
    (dead : 0 ≤ fd → after.conns fd = none → requests after fd = [])
    (fresh : ∀ entry ∈ after.cq ++ entriesOf after.phase, entry.event = .accept → 0 ≤ entry.res →
      after.files entry.res = true ∧ after.conns entry.res = none) : Disciplined socket after := by
  refine ⟨accept, ?_, ?_, fresh⟩
  · intro other history found
    by_cases own : other = fd
    · subst own
      exact live history found
    · rw [conns other own] at found
      obtain ⟨positive, opened, n, shape, only⟩ := held.live other history found
      exact ⟨positive, files other own opened, n, shape, List.perm_singleton.mp (only ▸ same other own)⟩
  · intro other positive none
    by_cases own : other = fd
    · subst own
      exact dead positive none
    · rw [conns other own] at none
      exact List.Perm.eq_nil (held.dead other positive none ▸ same other own)

section
variable {fd : Int} {event next : Kind} {others : List (Kind × Int)}

private theorem accepts_taken (held : Disciplined socket s) (client : event ≠ .accept)
    (before : (outstanding s).Perm ((event, fd) :: others)) : others.filter (·.1 = .accept) = [(.accept, socket)] := by
  have kept := before.symm.filter (·.1 = .accept)
  rw [List.filter_cons_of_neg (by simpa using client)] at kept
  exact List.perm_singleton.mp (kept.trans (held.accept ▸ List.Perm.refl _))

private theorem requests_other (before : (outstanding s).Perm ((event, fd) :: others)) {other : Int}
    (different : event = .accept ∨ other ≠ fd) :
    (requests s other).Perm (others.filter fun op => op.1 ≠ .accept ∧ op.2 = other) := by
  have kept := before.filter fun op => op.1 ≠ .accept ∧ op.2 = other
  rwa [List.filter_cons_of_neg] at kept
  rcases different with accept | other
  · simp [accept]
  · simp [Ne.symm other]

/-- The request that is taken was the only one of its connection. -/
private theorem taken_alone (held : Disciplined socket s) (client : event ≠ .accept)
    (before : (outstanding s).Perm ((event, fd) :: others)) :
    (fd < 0 ∧ s.conns fd = none) ∨ ∃ n, s.conns fd = some (turns (n + 1)) ∧ event = turn n ∧
      (others.filter fun op => op.1 ≠ .accept ∧ op.2 = fd) = [] := by
  have kept := before.symm.filter fun op => op.1 ≠ .accept ∧ op.2 = fd
  rw [List.filter_cons_of_pos (by simpa using client)] at kept
  cases known : s.conns fd with
  | none =>
    refine Or.inl ⟨?_, rfl⟩
    by_contra positive
    have none := held.dead fd (by omega) known
    unfold requests at none
    rw [none] at kept
    cases kept.eq_nil
  | some history =>
    obtain ⟨-, -, n, rfl, only⟩ := held.live fd history known
    unfold requests at only
    rw [only] at kept
    obtain ⟨same, rest⟩ := List.cons.inj (List.perm_singleton.mp kept)
    exact Or.inr ⟨n, rfl, congrArg Prod.fst same, rest⟩

/-- A taken request is followed by the next one of the connection. -/
theorem Disciplined.turned (held : Disciplined socket s) (client : event ≠ .accept) (next_ : next ≠ .accept)
    (before : (outstanding s).Perm ((event, fd) :: others)) (prepared : (outstanding after).Perm ((next, fd) :: others))
    (follows : ∀ n, event = turn n → next = turn (n + 1)) (files : after.files = s.files)
    (conns : after.conns = Function.update s.conns fd ((s.conns fd).map (· ++ [next])))
    (entries : after.cq ++ entriesOf after.phase ⊆ s.cq ++ entriesOf s.phase) : Disciplined socket after := by
  have alone := taken_alone held client before
  have accept := accepts_taken held client before
  have known : ∀ other, other ≠ fd → after.conns other = s.conns other := by
    intro other different
    rw [conns, Function.update_of_ne different]
  have same : ∀ other, other ≠ fd → (requests after other).Perm (requests s other) := fun other different =>
    (requests_other prepared (Or.inr different)).trans (requests_other before (Or.inr different)).symm
  apply held.changed _ known (fun _ _ => files ▸ id) same
  · intro history found
    rw [conns, Function.update_self] at found
    rcases alone with none | live
    · rw [none.2] at found
      cases found
    · obtain ⟨n, shape, turn_, rest⟩ := live
      obtain ⟨positive, opened, -⟩ := held.live fd _ shape
      rw [shape] at found
      obtain rfl := Option.some.inj found
      refine ⟨positive, files ▸ opened, n + 1, ?_, ?_⟩
      · rw [turns_succ (n + 1), follows n turn_]
      · rw [← follows n turn_]
        exact filter_perm prepared (by rw [List.filter_cons_of_pos (by simpa using next_), rest]) (Nat.le_refl _)
  · intro positive none
    rw [conns, Function.update_self] at none
    rcases alone with negative | live
    · exact absurd negative.1 (by omega)
    · obtain ⟨n, shape, -⟩ := live
      rw [shape] at none
      cases none
  · intro entry member accepted positive
    obtain ⟨opened, unknown⟩ := held.fresh entry (entries member) accepted positive
    refine ⟨files ▸ opened, ?_⟩
    rw [conns]
    by_cases own : entry.res = fd
    · rw [← own, Function.update_self, unknown]
      rfl
    · rw [Function.update_of_ne own]
      exact unknown
  · exact filter_perm prepared (by rw [List.filter_cons_of_neg (by simpa using next_), accept]) (Nat.le_refl _)

/-- A receive that ends the connection is followed by nothing. -/
theorem Disciplined.closed (held : Disciplined socket s) (client : event ≠ .accept)
    (before : (outstanding s).Perm ((event, fd) :: outstanding after))
    (files : after.files = Function.update s.files fd false) (conns : after.conns = Function.update s.conns fd none)
    (entries : after.cq ++ entriesOf after.phase ⊆ s.cq ++ entriesOf s.phase) : Disciplined socket after := by
  have alone := taken_alone held client before
  have known : ∀ other, other ≠ fd → after.conns other = s.conns other := by
    intro other different
    rw [conns, Function.update_of_ne different]
  apply held.changed (accepts_taken held client before) known
  · intro other own opened
    rw [files, Function.update_of_ne own, opened]
  · exact fun other own => (requests_other before (Or.inr own)).symm
  · intro history found
    rw [conns, Function.update_self] at found
    cases found
  · intro positive none
    rcases alone with negative | live
    · exact absurd negative.1 (by omega)
    · obtain ⟨_, _, _, rest⟩ := live
      exact rest
  · intro entry member accepted positive
    obtain ⟨opened, unknown⟩ := held.fresh entry (entries member) accepted positive
    have own : entry.res ≠ fd := by
      intro same
      rw [same] at unknown positive
      rcases alone with negative | live
      · exact absurd negative.1 (by omega)
      · obtain ⟨_, shape, _⟩ := live
        rw [unknown] at shape
        cases shape
    exact ⟨by rw [files, Function.update_of_ne own, opened], by rw [known _ own, unknown]⟩

/-- A new connection starts with a receive, and the next accept is prepared. The
receive that follows a failed accept belongs to no connection. -/
theorem Disciplined.opened (held : Disciplined socket s) (res : Int)
    (before : (outstanding s).Perm ((.accept, fd) :: others))
    (prepared : (outstanding after).Perm ((.read, res) :: (.accept, socket) :: others))
    (fresh : 0 ≤ res → s.files res = true ∧ s.conns res = none) (files : after.files = s.files)
    (conns : after.conns = if 0 ≤ res then Function.update s.conns res (some [.read]) else s.conns)
    (entries : ∀ entry ∈ after.cq ++ entriesOf after.phase, cqeKey entry ∈ others) : Disciplined socket after := by
  have kept := before.symm.filter (·.1 = .accept)
  have only : (outstanding s).filter (·.1 = .accept) = [(.accept, socket)] := held.accept
  rw [List.filter_cons_of_pos (by simp), only] at kept
  have none := (List.cons.inj (List.perm_singleton.mp kept)).2
  have accept : ((Kind.read, res) :: (.accept, socket) :: others).filter (·.1 = .accept) = [(.accept, socket)] := by
    rw [List.filter_cons_of_neg (by simp), List.filter_cons_of_pos (by simp), none]
  have same : ∀ other, other ≠ res → (requests after other).Perm (requests s other) := by
    intro other different
    have later := prepared.filter fun op => op.1 ≠ .accept ∧ op.2 = other
    rw [List.filter_cons_of_neg (by simp [Ne.symm different]), List.filter_cons_of_neg (by simp)] at later
    exact later.trans (requests_other before (Or.inl rfl)).symm
  have known : ∀ other, other ≠ res → after.conns other = s.conns other := by
    intro other own
    rw [conns]
    split
    · rw [Function.update_of_ne own]
    · rfl
  apply held.changed (filter_perm prepared accept (Nat.le_refl _)) known (fun _ _ => files ▸ id) same
  · intro history found
    rw [conns] at found
    split at found
    next positive =>
      obtain ⟨opened, unknown⟩ := fresh positive
      rw [Function.update_self] at found
      obtain rfl := Option.some.inj found
      have empty := held.dead res positive unknown
      have rest : (others.filter fun op => op.1 ≠ .accept ∧ op.2 = res).Perm (requests s res) :=
        (requests_other before (Or.inl rfl)).symm
      rw [empty] at rest
      refine ⟨positive, files ▸ opened, 0, rfl, ?_⟩
      apply filter_perm prepared _ (Nat.le_refl _)
      rw [List.filter_cons_of_pos (by simp), List.filter_cons_of_neg (by simp), rest.eq_nil]
      rfl
    next negative => exact absurd (held.live res history found).1 negative
  · intro positive unknown
    rw [conns, if_pos positive, Function.update_self] at unknown
    cases unknown
  · -- the only accept was the one that is taken
    intro entry member accepted positive
    have remaining : cqeKey entry ∈ others.filter (·.1 = .accept) :=
      List.mem_filter.mpr ⟨entries entry member, by simp [cqeKey, accepted]⟩
    rw [none] at remaining
    cases remaining

end

private theorem cqeKey_mem {entry : Cqe} (member : entry ∈ s.cq ++ entriesOf s.phase) : cqeKey entry ∈ outstanding s := by
  have key := @List.mem_map_of_mem _ _ _ _ cqeKey member
  rw [List.map_append] at key
  unfold outstanding
  rw [List.append_assoc]
  exact List.mem_append_right _ key

private theorem outstanding_prepared (s : Ring) (sqe : Sqe) :
    (outstanding { s with sq := s.sq ++ [sqe] }).Perm (sqeKey sqe :: outstanding s) := by
  unfold outstanding
  simp only [List.map_append, List.map_cons, List.map_nil, List.append_assoc]
  exact List.perm_middle

private theorem outstanding_entry (s : Ring) (entry : Cqe) (entries : List Cqe) :
    (outstanding { s with phase := .batch (entry :: entries) }).Perm
      (cqeKey entry :: outstanding { s with phase := .batch entries }) := by
  unfold outstanding entriesOf
  exact List.perm_middle

private theorem outstanding_submitted (s : Ring) (count : Nat) (top : s.phase = .top) :
    (outstanding { s with
      phase := .waiting
      sq := s.sq.drop count
      flight := s.flight ++ (s.sq.take count).map (⟨·, false⟩) }).Perm (outstanding s) := by
  have flown : ((s.sq.take count).map (⟨·, false⟩)).map (fun op : Flight => sqeKey op.sqe) = (s.sq.take count).map sqeKey := by
    rw [List.map_map]
    rfl
  unfold outstanding
  rw [top, List.map_append, flown]
  refine List.Perm.append_right _ (List.Perm.append_right _ ?_)
  apply List.perm_append_comm.trans
  rw [List.append_assoc, ← List.map_append, List.take_append_drop]
  exact List.perm_append_comm

private theorem set_same {α : Type} {items : List α} {index : Nat} {item : α} (found : items[index]? = some item) :
    items.set index item = items := by
  obtain ⟨inside, rfl⟩ := List.getElem?_eq_some_iff.mp found
  exact List.set_getElem_self inside

/-- A completion moves a request from the flight to the queue. -/
private theorem outstanding_completed (s : Ring) {index : Nat} {op : Flight} (found : s.flight[index]? = some op)
    {entry : Cqe} (same : cqeKey entry = sqeKey op.sqe) :
    (outstanding { s with
      flight := s.flight.eraseIdx index
      cq := s.cq ++ [entry] }).Perm (outstanding s) := by
  obtain ⟨inside, rfl⟩ := List.getElem?_eq_some_iff.mp found
  have erased := (List.getElem_cons_eraseIdx_perm inside).map fun op => sqeKey op.sqe
  unfold outstanding
  simp only [List.map_append, List.map_cons, List.map_nil, List.append_assoc]
  apply List.Perm.append_left
  rw [same]
  apply List.Perm.trans _ (erased.append_right _)
  rw [List.singleton_append, ← List.append_assoc]
  apply List.perm_middle.trans
  rw [List.append_assoc]
  exact List.Perm.refl _

private theorem taken_conns (s : Ring) (res : Int) (negative : res < 0 → s.conns res = none) :
    (noted (taken s res) res .read).conns =
      if 0 ≤ res then Function.update s.conns res (some [.read]) else s.conns := by
  unfold taken noted
  split
  next => simp
  next below => simp [negative (by omega), Function.update_eq_self_iff]

theorem Disciplined.processed {entry : Cqe} {entries : List Cqe}
    (held : Disciplined socket { s with phase := .batch (entry :: entries) })
    (handled : processEntry socket { s with phase := .batch entries } entry = some after) : Disciplined socket after := by
  have before := outstanding_entry s entry entries
  have smaller : s.cq ++ entries ⊆ s.cq ++ (entry :: entries) := by simp
  cases processEntry_cases handled with
  | @accept _ res =>
    have known : res < 0 → s.conns res = none := by
      intro negative
      by_contra some
      obtain ⟨history, found⟩ := Option.ne_none_iff_exists'.mp some
      exact absurd (held.live res history found).1 (by omega)
    refine held.opened res before ?_ ?_ ?_ ?_ ?_
    · apply (outstanding_prepared _ _).trans
      apply List.Perm.cons
      apply (outstanding_prepared _ _).trans
      rw [taken_eq]
      exact List.Perm.refl _
    · intro positive
      exact held.fresh _ (List.mem_append_right _ List.mem_cons_self) rfl positive
    · rw [taken_eq]
      rfl
    · exact taken_conns _ _ known
    · intro other member
      rw [taken_eq] at member
      exact cqeKey_mem member
  | ended =>
    refine held.closed ?_ before rfl rfl smaller
    exact nofun
  | sends =>
    refine held.turned ?_ ?_ before (outstanding_prepared _ _) turn_read rfl rfl smaller
    · exact nofun
    · exact nofun
  | receives =>
    refine held.turned ?_ ?_ before (outstanding_prepared _ _) turn_write rfl rfl smaller
    · exact nofun
    · exact nofun

theorem Disciplined.completes (held : Disciplined socket s) {index : Nat} {op : Flight} {res : Int}
    (found : s.flight[index]? = some op) (may : mayComplete s.files res op.sqe.event = true) :
    Disciplined socket { s with
      flight := s.flight.eraseIdx index
      cq := s.cq ++ [⟨op.sqe.event, op.sqe.fd, res, []⟩]
      files := if op.sqe.event = .accept ∧ 0 ≤ res then Function.update s.files res true else s.files } := by
  have opens : ∀ fd, s.files fd = true →
      (if op.sqe.event = .accept ∧ 0 ≤ res then Function.update s.files res true else s.files) fd = true := by
    intro fd opened
    split
    · by_cases same : fd = res
      · rw [same, Function.update_self]
      · rw [Function.update_of_ne same, opened]
    · exact opened
  refine held.frame ?_ rfl opens ?_
  · exact outstanding_completed { s with files := _ } found rfl
  · intro entry member accepted positive
    by_cases earlier : entry ∈ s.cq ++ entriesOf s.phase
    · obtain ⟨opened, unknown⟩ := held.fresh entry earlier accepted positive
      exact ⟨opens _ opened, unknown⟩
    · have new : entry = ⟨op.sqe.event, op.sqe.fd, res, []⟩ := by
        simp only [List.mem_append, List.mem_singleton] at member earlier
        tauto
      subst new
      replace accepted : op.sqe.event = .accept := accepted
      replace positive : 0 ≤ res := positive
      refine ⟨by simp [accepted, positive], ?_⟩
      by_contra some
      obtain ⟨history, known⟩ := Option.ne_none_iff_exists'.mp some
      have opened := (held.live res history known).2.1
      rw [accepted, mayComplete, opened, Bool.not_true, Bool.or_false, decide_eq_true_eq] at may
      omega

theorem Disciplined.submits (held : Disciplined socket s) {count : Nat} (top : s.phase = .top) :
    Disciplined socket { s with
      phase := .waiting
      sq := s.sq.drop count
      flight := s.flight ++ (s.sq.take count).map (⟨·, false⟩) } := by
  refine held.frame ?_ rfl (fun _ opened => opened) ?_
  · exact outstanding_submitted s count top
  · simpa only [top, entriesOf] using held.fresh

theorem Disciplined.peeks (held : Disciplined socket s) (waiting : s.phase = .waiting) (count : Nat) :
    Disciplined socket { s with
      phase := .batch (s.cq.take count)
      cq := s.cq.drop count } := by
  have whole := List.take_append_drop count s.cq
  refine held.frame ?_ rfl (fun _ opened => opened) ?_
  · unfold outstanding
    simp only [waiting, entriesOf, List.map_nil, List.append_nil, List.append_assoc, ← List.map_append]
    refine List.Perm.append_left _ (List.Perm.append_left _ (List.Perm.map _ ?_))
    exact List.perm_append_comm.trans (List.Perm.of_eq whole)
  · intro entry member
    apply held.fresh entry
    have empty : entriesOf s.phase = [] := by rw [waiting]; rfl
    rw [empty, List.append_nil, ← whole]
    exact (List.perm_append_comm.mem_iff).mp member

theorem Disciplined.receives (held : Disciplined socket s) {index : Nat} {op : Flight} {bytes : List UInt8}
    {buffer : Buffer UInt8 bufferLength} (found : s.flight[index]? = some op) (read : op.sqe.event = .read) :
    Disciplined socket { s with
      flight := s.flight.eraseIdx index
      cq := s.cq ++ [⟨.read, op.sqe.fd, bytes.length, bytes⟩]
      buffer } := by
  refine held.frame ?_ rfl (fun _ opened => opened) ?_
  · apply outstanding_completed { s with buffer } found
    exact congrArg (·, op.sqe.fd) read.symm
  · intro entry member accepted positive
    apply held.fresh entry _ accepted positive
    simp only [List.mem_append, List.mem_singleton] at member ⊢
    rcases member with (earlier | rfl) | batch
    · exact Or.inl earlier
    · cases accepted
    · exact Or.inr batch

/-- A send reads the buffer and stays in flight. -/
theorem Disciplined.transmits (held : Disciplined socket s) {index : Nat} {op : Flight} {wire : List Transmission}
    (found : s.flight[index]? = some op) :
    Disciplined socket { s with
      flight := s.flight.set index { op with sent := true }
      wire } := by
  refine held.frame ?_ rfl (fun _ opened => opened) held.fresh
  have same : (s.flight.set index { op with sent := true }).map (fun op => sqeKey op.sqe) =
      s.flight.map fun op => sqeKey op.sqe := by
    rw [List.map_set]
    apply set_same
    rw [List.getElem?_map, found]
    rfl
  unfold outstanding
  rw [same]

theorem step_disciplined (held : Disciplined socket s) {event : Event} (stepped : step socket s event = some after) :
    Disciplined socket after := by
  cases step_cases stepped with
  | submit top enough => exact held.submits top
  | peek waiting => exact held.peeks waiting _
  | process batch handled =>
    apply Disciplined.processed _ handled
    rw [← batch]
    exact held
  | advance batch =>
    refine held.frame ?_ rfl (fun _ opened => opened) ?_
    · simp [outstanding, batch, entriesOf]
    · simpa only [batch, entriesOf] using held.fresh
  | transmit found unsent read => exact held.transmits found
  | received found may stored => exact held.receives found may.1
  | completed found may => exact held.completes found may

theorem start_disciplined (socket : Int) (files : Int → Bool) : Disciplined socket (start socket files) := by
  refine ⟨rfl, ?_, ?_, ?_⟩
  · intro fd history found
    cases found
  · intro fd _ _
    rfl
  · intro entry member
    cases member

/-- At every moment of every run one accept is outstanding, every connection that was
taken and is not closed has one request outstanding, the last one of receive, send,
receive and so on, and a descriptor that is no connection has none. -/
theorem uring_discipline {files : Int → Bool} {events : List Event} {last : Ring}
    (run : Run (Taken (step socket)) (start socket files) events last) :
    accepts last = [(.accept, socket)] ∧
      (∀ fd history, last.conns fd = some history →
        ∃ n, history = turns (n + 1) ∧ requests last fd = [(turn n, fd)]) ∧
      ∀ fd, 0 ≤ fd → last.conns fd = none → requests last fd = [] := by
  have held := run.invariant (Disciplined socket) (start_disciplined socket files)
    (fun _ _ _ held stepped => step_disciplined held stepped)
  refine ⟨held.accept, ?_, held.dead⟩
  intro fd history found
  exact (held.live fd history found).2.2

/-- A client is accepted, its byte is sent back, and the accept behind it fails. -/
def visit : List Event :=
  [.submit 1, .completed 0 5, .peek, .process, .advance, .submit 2, .received 1 [7], .peek, .process, .advance,
    .submit 1, .transmit 1, .completed 1 1, .completed 0 (-24), .peek, .process, .process, .advance]

theorem uring_discipline_visit : ∃ last, exec (step 3) (start 3 (· == 3)) visit = some last ∧
    last.conns 5 = some (turns 3) ∧ accepts last = [(.accept, 3)] ∧ requests last 5 = [(turn 2, 5)] := by
  obtain ⟨last, reached⟩ := Option.isSome_iff_exists.mp (show (exec (step 3) (start 3 (· == 3)) visit).isSome by decide +kernel)
  have conns : ((exec (step 3) (start 3 (· == 3)) visit).bind (·.conns 5)) = some (turns 3) := by decide +kernel
  rw [reached] at conns
  obtain ⟨only, live, -⟩ := uring_discipline (Run.of_exec reached)
  obtain ⟨n, same, one⟩ := live 5 _ conns
  obtain rfl : n = 2 := by simpa [turns] using (congrArg List.length same).symm
  exact ⟨last, reached, conns, only, one⟩

end NetPrograms.Proofs.UringDiscipline
