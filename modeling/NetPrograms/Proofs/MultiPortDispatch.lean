import NetPrograms.MultiPort.Server
import Mathlib.Data.List.Nodup

/-! Which events the server of tcp_Server.c takes for new connections. The set-up loop
makes `MAX_EVENTS` sockets and the look-up stops after `MAX_PORT` of them. -/

namespace NetPrograms.Proofs.MultiPortDispatch
open MultiPort

def created (calls : Calls) : List Int := (List.range maxEvents).map calls.socket

/-- The accept branch is taken for a listening socket and for nothing else, and no
listening socket is handled as a client. -/
structure Dispatched (listeners : List Int) (fd : Int) (ops : List Op) : Prop where
  accepts : (∃ sockfd, .accept sockfd ∈ ops) ↔ fd ∈ listeners
  spared : fd ∈ listeners → .recv fd ∉ ops ∧ .close fd ∉ ops

theorem setUpFrom_cells {calls : Calls} {i turns : Nat} {sockfds table : List Int}
    (made : setUpFrom calls i turns sockfds = .ok table) (room : i + turns ≤ sockfds.length) (cell : Nat) :
    table[cell]? = if i ≤ cell ∧ cell < i + turns then some (calls.socket cell) else sockfds[cell]? := by
  induction turns generalizing i sockfds with
  | zero =>
    cases made
    rw [if_neg (by omega)]
  | succ turns ih =>
    rw [setUpFrom] at made
    split at made
    next => cases made
    next =>
      split at made
      next => cases made
      next =>
        split at made
        next => cases made
        next =>
          rw [ih made (by rw [List.length_set]; omega), List.getElem?_set]
          by_cases here : i = cell
          · subst here
            simp
            omega
          · simp only [here, if_false]
            congr 1
            simp only [eq_iff_iff]
            omega

theorem setUp_table {calls : Calls} {table : List Int} (made : setUp calls = .ok table) : table = created calls := by
  apply List.ext_getElem?
  intro cell
  rw [setUpFrom_cells made (by simp) cell, created, List.getElem?_map]
  by_cases inside : cell < maxEvents
  · rw [if_pos (by omega), List.getElem?_range inside, Option.map_some]
  · rw [if_neg (by omega), List.getElem?_eq_none (by simpa using inside), List.getElem?_eq_none (by simpa using inside),
      Option.map_none]

/-- The look-up finds the first listeners, unless their number is zero. -/
theorem islistenfd_ne_zero (fd : Int) (fds : List Int) : islistenfd fd fds ≠ 0 ↔ fd ∈ fds.take maxPort ∧ fd ≠ 0 := by
  have found : (List.range maxPort).any (fun i => fds[i]? = some fd) = true ↔ fd ∈ fds.take maxPort := by
    constructor
    · intro some
      obtain ⟨i, inside, same⟩ := List.any_eq_true.mp some
      apply List.mem_of_getElem? (i := i)
      rw [List.getElem?_take, if_pos (List.mem_range.mp inside)]
      exact of_decide_eq_true same
    · intro member
      obtain ⟨i, same⟩ := List.mem_iff_getElem?.mp member
      rw [List.getElem?_take] at same
      split at same
      next inside => exact List.any_eq_true.mpr ⟨i, List.mem_range.mpr inside, decide_eq_true same⟩
      next => cases same
  unfold islistenfd
  split
  next inside => simp [found.mp inside]
  next outside => simp [found.not.mp outside]

theorem readClient_accepts (fd sockfd : Int) (received : List Received) : .accept sockfd ∉ readClient fd received := by
  induction received with
  | nil => simp [readClient]
  | cons first received ih => cases first <;> simp [readClient, ih]

theorem dispatched_iff_found (calls : Calls) (sockfds : List Int) (made : setUp calls = .ok sockfds)
    (distinct : (created calls).Nodup) (fd : Int) : (∀ received, Dispatched (created calls) fd (handleEvent sockfds fd received)) ↔
      fd ∉ (created calls).drop maxPort ∧ (fd = 0 → fd ∉ created calls) := by
  rw [setUp_table made]
  have apart : ∀ fd ∈ (created calls).take maxPort, fd ∉ (created calls).drop maxPort := by
    have nodup := distinct
    rw [← List.take_append_drop maxPort (created calls)] at nodup
    intro fd first last
    exact (List.nodup_append.mp nodup).2.2 fd first fd last rfl
  have accepted := islistenfd_ne_zero fd (created calls)
  constructor
  · intro dispatched
    have listens : fd ∈ created calls → fd ∈ (created calls).take maxPort ∧ fd ≠ 0 := by
      intro member
      rw [← accepted]
      intro unknown
      obtain ⟨sockfd, accepts⟩ := (dispatched []).accepts.mpr member
      simp [handleEvent, unknown, readClient] at accepts
    refine ⟨?_, ?_⟩
    · intro last
      exact apart fd (listens (List.mem_of_mem_drop last)).1 last
    · intro zero member
      exact (listens member).2 zero
  · rintro ⟨notLast, notZero⟩ received
    by_cases member : fd ∈ created calls
    · have first : fd ∈ (created calls).take maxPort := by
        rw [← List.take_append_drop maxPort (created calls)] at member
        exact (List.mem_append.mp member).resolve_right notLast
      have known : islistenfd fd (created calls) ≠ 0 := accepted.mpr ⟨first, fun zero => notZero zero member⟩
      simp only [handleEvent, if_pos known]
      exact ⟨by simp [member], by simp⟩
    · have unknown : ¬ islistenfd fd (created calls) ≠ 0 := fun known => member (List.mem_of_mem_take (accepted.mp known).1)
      simp only [handleEvent, if_neg unknown]
      exact ⟨by simp [member, readClient_accepts], fun listener => absurd listener member⟩

theorem setUpFrom_succeeds {calls : Calls} (good : ∀ i, 0 ≤ calls.socket i ∧ 0 ≤ calls.bind i ∧ 0 ≤ calls.listen i)
    (i turns : Nat) (sockfds : List Int) : ∃ table, setUpFrom calls i turns sockfds = .ok table := by
  induction turns generalizing i sockfds with
  | zero => exact ⟨sockfds, rfl⟩
  | succ turns ih =>
    obtain ⟨socket, bind, listen⟩ := good i
    rw [setUpFrom, if_neg (by omega), if_neg (by omega), if_neg (by omega)]
    exact ih (i + 1) _

/-- A program whose descriptors are numbered behind its standard streams and its epoll. -/
def numbered : Calls := ⟨fun i => i + 4, fun _ => 0, fun _ => 0⟩

theorem numbered_made : ∃ sockfds, setUp numbered = .ok sockfds := by
  apply setUpFrom_succeeds
  intro i
  refine ⟨?_, Int.le_refl 0, Int.le_refl 0⟩
  change 0 ≤ (i : Int) + 4
  omega

theorem numbered_distinct : (created numbered).Nodup := by
  apply List.Nodup.map _ List.nodup_range
  intro i j same
  change (i : Int) + 4 = j + 4 at same
  omega

theorem first_port_dispatched : ∃ sockfds, setUp numbered = .ok sockfds ∧
    ∀ received, Dispatched (created numbered) 4 (handleEvent sockfds 4 received) := by
  obtain ⟨sockfds, made⟩ := numbered_made
  refine ⟨sockfds, made, (dispatched_iff_found numbered sockfds made numbered_distinct 4).mpr ⟨?_, nofun⟩⟩
  decide +kernel

/-- The socket of port 101 is read from and closed. -/
theorem last_ports_closed : ¬ ∀ (calls : Calls) (sockfds : List Int), setUp calls = .ok sockfds → (created calls).Nodup →
    ∀ fd received, Dispatched (created calls) fd (handleEvent sockfds fd received) := by
  intro always
  obtain ⟨sockfds, made⟩ := numbered_made
  have dispatched := always numbered sockfds made numbered_distinct 104 [.failed]
  rw [setUp_table made] at dispatched
  have closed : handleEvent (created numbered) 104 [.failed] = [.recv 104, .close 104] := by decide +kernel
  have listener : (104 : Int) ∈ created numbered := by decide +kernel
  rw [closed] at dispatched
  exact (dispatched.spared listener).2 (by simp)

end NetPrograms.Proofs.MultiPortDispatch
