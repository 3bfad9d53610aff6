import Mathlib.Algebra.Order.Ring.Int
import Mathlib.Logic.Function.Basic

/-! Open descriptors and the interest list of one epoll instance, which refers to
open descriptors only. -/

namespace NetPrograms

structure Flags where
  input : Bool := false
  output : Bool := false
  rdhup : Bool := false
  err : Bool := false
  hup : Bool := false
deriving DecidableEq

/-- Errors and hang-ups are reported whatever the interest is. -/
def Flags.Reportable (events interest : Flags) : Prop :=
  (events.input → interest.input) ∧ (events.output → interest.output) ∧ (events.rdhup → interest.rdhup)

instance (events interest : Flags) : Decidable (events.Reportable interest) :=
  inferInstanceAs (Decidable (_ ∧ _ ∧ _))

/-- `registered` is the kernel's own rule: the last `close` of a file takes it out of
the interest list. -/
structure Epoll where
  files : Int → Bool
  interest : Int → Option Flags
  registered : ∀ fd, files fd = false → interest fd = none

namespace Epoll

def empty (files : Int → Bool) : Epoll := ⟨files, fun _ => none, fun _ _ => rfl⟩

theorem opened_registered (ep : Epoll) (new fd : Int) (closed : Function.update ep.files new true fd = false) :
    ep.interest fd = none := by
  by_cases same : fd = new
  · simp [same] at closed
  · rw [Function.update_of_ne same] at closed
    exact ep.registered fd closed

/-- A new descriptor. -/
def opened (ep : Epoll) (fd : Int) : Epoll :=
  ⟨Function.update ep.files fd true, ep.interest, opened_registered ep fd⟩

theorem close_registered (ep : Epoll) (old fd : Int) (closed : Function.update ep.files old false fd = false) :
    Function.update ep.interest old none fd = none := by
  by_cases same : fd = old
  · simp [same]
  · rw [Function.update_of_ne same] at closed ⊢
    exact ep.registered fd closed

def close (ep : Epoll) (fd : Int) : Epoll :=
  ⟨Function.update ep.files fd false, Function.update ep.interest fd none, close_registered ep fd⟩

theorem put_registered (ep : Epoll) (old : Int) (flags : Flags) (isOpen : ep.files old = true) (fd : Int)
    (closed : ep.files fd = false) : Function.update ep.interest old (some flags) fd = none := by
  by_cases same : fd = old
  · subst same
    exact absurd (isOpen.symm.trans closed) (by decide)
  · rw [Function.update_of_ne same]
    exact ep.registered fd closed

def put (ep : Epoll) (fd : Int) (flags : Flags) (isOpen : ep.files fd = true) : Epoll :=
  ⟨ep.files, Function.update ep.interest fd (some flags), put_registered ep fd flags isOpen⟩

/-- `EPOLL_CTL_ADD` fails on a descriptor that is registered already and leaves its
interest unchanged. -/
def add (ep : Epoll) (fd : Int) (flags : Flags) : Epoll :=
  if isOpen : ep.files fd = true then
    match ep.interest fd with
    | none => ep.put fd flags isOpen
    | some _ => ep
  else ep

/-- `EPOLL_CTL_MOD` replaces the interest of a registered descriptor. -/
def mod (ep : Epoll) (fd : Int) (flags : Flags) : Epoll :=
  if isOpen : ep.files fd = true then
    match ep.interest fd with
    | none => ep
    | some _ => ep.put fd flags isOpen
  else ep

theorem del_registered (ep : Epoll) (old fd : Int) (closed : ep.files fd = false) :
    Function.update ep.interest old none fd = none := by
  by_cases same : fd = old
  · simp [same]
  · rw [Function.update_of_ne same]
    exact ep.registered fd closed

def del (ep : Epoll) (fd : Int) : Epoll :=
  ⟨ep.files, Function.update ep.interest fd none, del_registered ep fd⟩

/-- What one `epoll_wait` may report: at most `max` descriptors, none of them negative
or twice, each with flags of its interest. -/
def MayReport (ep : Epoll) (max : Nat) (reports : List (Int × Flags)) : Prop :=
  reports.length ≤ max ∧ (reports.map Prod.fst).Nodup ∧
    ∀ report ∈ reports, 0 ≤ report.1 ∧ ∃ interest ∈ ep.interest report.1, report.2.Reportable interest

instance (ep : Epoll) (max : Nat) (reports : List (Int × Flags)) : Decidable (ep.MayReport max reports) :=
  inferInstanceAs (Decidable (_ ∧ _ ∧ _))

variable (ep : Epoll) {fd other : Int} (flags : Flags)

@[simp] theorem opened_files (fd : Int) : (ep.opened fd).files = Function.update ep.files fd true := rfl
@[simp] theorem opened_interest (fd : Int) : (ep.opened fd).interest = ep.interest := rfl
@[simp] theorem close_files (fd : Int) : (ep.close fd).files = Function.update ep.files fd false := rfl
@[simp] theorem close_interest (fd : Int) : (ep.close fd).interest = Function.update ep.interest fd none := rfl
@[simp] theorem del_files (fd : Int) : (ep.del fd).files = ep.files := rfl
@[simp] theorem del_interest (fd : Int) : (ep.del fd).interest = Function.update ep.interest fd none := rfl

@[simp] theorem add_files (fd : Int) : (ep.add fd flags).files = ep.files := by
  unfold add
  split
  · split <;> rfl
  · rfl

@[simp] theorem mod_files (fd : Int) : (ep.mod fd flags).files = ep.files := by
  unfold mod
  split
  · split <;> rfl
  · rfl

theorem add_new (isOpen : ep.files fd = true) (free : ep.interest fd = none) :
    (ep.add fd flags).interest = Function.update ep.interest fd (some flags) := by
  rw [add, dif_pos isOpen, free]
  rfl

theorem add_old {old : Flags} (taken : ep.interest fd = some old) : ep.add fd flags = ep := by
  unfold add
  split
  · simp only [taken]
  · rfl

theorem add_other (apart : other ≠ fd) : (ep.add fd flags).interest other = ep.interest other := by
  unfold add
  split
  · split
    · exact Function.update_of_ne apart _ _
    · rfl
  · rfl

/-- An interest stays whatever is added. -/
theorem add_keeps {old : Flags} (taken : ep.interest other = some old) : (ep.add fd flags).interest other = some old := by
  by_cases same : other = fd
  · subst same
    rw [add_old ep flags taken, taken]
  · rw [add_other ep flags same, taken]

theorem isOpen_of_interest {old : Flags} (taken : ep.interest fd = some old) : ep.files fd = true := by
  by_contra shut
  have none := ep.registered fd (by simpa using shut)
  rw [taken] at none
  cases none

theorem mod_old {old : Flags} (taken : ep.interest fd = some old) :
    (ep.mod fd flags).interest = Function.update ep.interest fd (some flags) := by
  rw [mod, dif_pos (ep.isOpen_of_interest taken), taken]
  rfl

theorem MayReport.nodup {ep : Epoll} {max : Nat} {reports : List (Int × Flags)} (may : ep.MayReport max reports) :
    (reports.map Prod.fst).Nodup := may.2.1

end Epoll
end NetPrograms
