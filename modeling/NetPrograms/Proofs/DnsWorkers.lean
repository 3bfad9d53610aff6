import NetPrograms.Dns.Workers
import NetPrograms.Proofs.DnsRequest

/-! The threads of the pool share the pointer that `strtok` keeps. Only calls that
never come to `strtok(NULL)`, those for names without a label, are safe from it. -/

namespace NetPrograms.Proofs.DnsWorkers
open Dns DnsRequest

variable {n : Nat} {domains : Fin n → List UInt8} {w : Workers n}

/-- No schedule of the threads leaves the memory of a call, and every call that
returns has the bytes that it returns alone. -/
def Independent (domains : Fin n → List UInt8) : Prop :=
  ∀ schedule : List (Fin n), ∃ last, exec Workers.step (Workers.start domains) schedule = some last ∧
    ∀ i original, last.calls i = .returned original → convertDomain (domains i) = some original

/-- The string that a pointer addresses. -/
def Reads (w : Workers n) (place : Pointer n) (text : List UInt8) : Prop :=
  ∃ temp, w.temps place.block = some temp ∧ Holds 0 temp place.offset text

theorem Reads.string {place : Pointer n} {text : List UInt8} (reads : Reads w place text) :
    ∃ temp, w.temps place.block = some temp ∧ cstring (temp.drop place.offset) = some text := by
  obtain ⟨temp, live, free, front, back, rfl, same⟩ := reads
  refine ⟨_, live, ?_⟩
  rw [← same, List.drop_left]
  exact cstring_append free back

section frame
variable {i k : Fin n} {stage : Stage n} {temp : Option (List UInt8)}

@[simp] theorem goes_calls_self : (w.goes i stage).calls i = stage := Function.update_self ..
@[simp] theorem goes_calls_other (other : k ≠ i) : (w.goes i stage).calls k = w.calls k := Function.update_of_ne other ..
@[simp] theorem goes_temps : (w.goes i stage).temps = w.temps := rfl
@[simp] theorem goes_cursor : (w.goes i stage).cursor = w.cursor := rfl
@[simp] theorem stores_temps_self : (w.stores i temp).temps i = temp := Function.update_self ..
@[simp] theorem stores_temps_other (other : k ≠ i) : (w.stores i temp).temps k = w.temps k := Function.update_of_ne other ..
@[simp] theorem stores_calls : (w.stores i temp).calls = w.calls := rfl
@[simp] theorem stores_cursor : (w.stores i temp).cursor = w.cursor := rfl

end frame

/-- All that a step of one thread in its own block leaves as it was. -/
structure Frame (j : Fin n) (before after : Workers n) : Prop where
  temps : ∀ k, k ≠ j → after.temps k = before.temps k
  calls : ∀ k, k ≠ j → after.calls k = before.calls k

theorem Frame.trans {j : Fin n} {first middle last : Workers n} (early : Frame j first middle)
    (late : Frame j middle last) : Frame j first last :=
  ⟨fun k other => (late.temps k other).trans (early.temps k other),
    fun k other => (late.calls k other).trans (early.calls k other)⟩

/-- What `strtok` with a text has returned to a thread whose own block holds it. -/
def Cut (w : Workers n) (j : Fin n) (original : List UInt8) (result : Nat) (call : Option (List UInt8) × List UInt8) : Prop :=
  ∃ cursor, w.cursor = some ⟨j, cursor⟩ ∧ match call with
    | (none, _) => w.calls j = .finish original result
    | (some token, rest) => ∃ start, w.calls j = .put original result ⟨j, start⟩ ∧ Reads w ⟨j, start⟩ token ∧
        Reads w ⟨j, cursor⟩ rest

theorem goes_frame (j : Fin n) (stage : Stage n) : Frame j w (w.goes j stage) :=
  ⟨fun _ _ => rfl, fun _ other => goes_calls_other other⟩

theorem stores_frame (j : Fin n) (temp : Option (List UInt8)) : Frame j w (w.stores j temp) :=
  ⟨fun _ other => stores_temps_other other, fun _ _ => rfl⟩

theorem strtok_cuts {j : Fin n} {offset : Nat} {text original : List UInt8} {result : Nat} (reads : Reads w ⟨j, offset⟩ text) :
    ∃ token after, w.strtok ⟨j, offset⟩ = some (token, after) ∧
      Cut (after.goes j (Workers.loopTest original result token)) j original result (strtok dot text) ∧ Frame j w after := by
  obtain ⟨temp, live, holds⟩ := reads
  cases call : (strtok dot text).1 with
  | none =>
    have ended := strtokAt_none holds (by decide) call
    refine ⟨none, { w.stores j (some temp) with cursor := some ⟨j, offset + text.length⟩ }, ?_, ?_, ?_⟩
    · simp only [Workers.strtok, live, ended, Option.bind_eq_bind, Option.bind_some, Option.map_none]
    · rw [strtok_none call]
      exact ⟨_, rfl, goes_calls_self⟩
    · exact ⟨fun k other => stores_temps_other other, fun _ _ => rfl⟩
  | some token =>
    have found : strtok dot text = (some token, (strtok dot text).2) := Prod.ext call rfl
    obtain ⟨start, next, after, cut, first, behind⟩ := strtokAt_some holds (by decide) found
    refine ⟨some ⟨j, start⟩, { w.stores j (some after) with cursor := some ⟨j, next⟩ }, ?_, ?_, ?_⟩
    · simp only [Workers.strtok, live, cut, Option.bind_eq_bind, Option.bind_some, Option.map_some]
    · rw [found]
      exact ⟨next, rfl, start, goes_calls_self, ⟨after, stores_temps_self, first⟩, ⟨after, stores_temps_self, behind⟩⟩
    · exact ⟨fun k other => stores_temps_other other, fun _ _ => rfl⟩

/-- Steps of one thread alone run its loop to the end of its text and free the copy. -/
theorem alone_returns {j : Fin n} {original block : List UInt8} {result fuel : Nat}
    {call : Option (List UInt8) × List UInt8} (cut : Cut w j original result call)
    (returns : convertFrom original result call fuel = some block) :
    ∃ count last cursor, exec Workers.step w (List.replicate count j) = some last ∧ last.calls j = .returned block ∧
      last.temps j = none ∧ last.cursor = some ⟨j, cursor⟩ ∧ Frame j w last := by
  induction fuel generalizing w original result call with
  | zero => cases returns
  | succ fuel ih =>
    obtain ⟨cursor, kept, cut⟩ := cut
    obtain ⟨token, rest⟩ := call
    cases token with
    | none =>
      have wrote : Block.write original result [0] = some block := returns
      refine ⟨1, (w.stores j none).goes j (.returned block), cursor, ?_, goes_calls_self, stores_temps_self, kept,
        (stores_frame j none).trans (goes_frame j _)⟩
      simp [Workers.step, cut, wrote, exec]
    | some token =>
      obtain ⟨start, stage, first, behind⟩ := cut
      obtain ⟨written, put, looped⟩ := Option.bind_eq_some_iff.mp returns
      obtain ⟨temp, live, text⟩ := first.string
      let middle := w.goes j (.next written (result + 1 + token.length))
      have one : w.step j = some middle := by
        simp only [Workers.step, stage, live, text, put, Option.bind_eq_bind, Option.bind_some, middle]
      have reads : Reads middle ⟨j, cursor⟩ rest := behind
      obtain ⟨next, after, called, cut, frame⟩ := strtok_cuts reads
      have here : middle.calls j = .next written (result + 1 + token.length) := goes_calls_self
      have two : middle.step j = some (after.goes j (Workers.loopTest written (result + 1 + token.length) next)) := by
        have again : middle.cursor = some ⟨j, cursor⟩ := kept
        simp only [Workers.step, here, again, called, Option.bind_eq_bind, Option.bind_some]
      obtain ⟨count, last, final, run, returned, freed, cursor, later⟩ := ih cut looped
      refine ⟨count + 2, last, final, ?_, returned, freed, cursor, ?_⟩
      · rw [List.replicate_succ, List.replicate_succ, exec_cons, one, Option.bind_some, exec_cons, two, Option.bind_some, run]
      · exact (((goes_frame j _).trans frame).trans (goes_frame j _)).trans later

/-- The first two steps of a call: the copy of the name, and the first `strtok`. -/
theorem call_begins {j : Fin n} {domain : List UInt8} (call : w.calls j = .called domain) (plain : 0 ∉ domain) :
    ∃ begun, exec Workers.step w [j, j] = some begun ∧
      Cut begun j (List.replicate (domain.length + 2) 0) 0 (strtok dot domain) ∧ Frame j w begun := by
  let copied := (w.stores j (some (domain ++ [0]))).goes j (.split (List.replicate (domain.length + 2) 0))
  have one : w.step j = some copied := by simp only [Workers.step, call, copied]
  have reads : Reads copied ⟨j, 0⟩ domain := ⟨domain ++ [0], stores_temps_self, plain, [], [], rfl, rfl⟩
  obtain ⟨token, after, called, cut, frame⟩ := strtok_cuts reads
  have here : copied.calls j = .split (List.replicate (domain.length + 2) 0) := goes_calls_self
  have two : copied.step j = some (after.goes j (Workers.loopTest (List.replicate (domain.length + 2) 0) 0 token)) := by
    simp only [Workers.step, here, called, Option.bind_eq_bind, Option.bind_some]
  refine ⟨_, ?_, cut, ((stores_frame j _).trans (goes_frame j _)).trans (frame.trans (goes_frame j _))⟩
  rw [exec_cons, one, Option.bind_some, exec_cons, two]
  rfl

/-- A call alone returns the block of `convertDomain`. -/
theorem alone_converts {j : Fin n} {domain : List UInt8} (call : w.calls j = .called domain) (plain : 0 ∉ domain) :
    ∃ count last cursor block, exec Workers.step w (List.replicate count j) = some last ∧
      convertDomain domain = some block ∧ last.calls j = .returned block ∧ last.temps j = none ∧
      last.cursor = some ⟨j, cursor⟩ ∧ Frame j w last := by
  obtain ⟨begun, started, cut, early⟩ := call_begins call plain
  have returns := convertDomain_eq domain
  obtain ⟨count, last, cursor, run, returned, freed, kept, late⟩ := alone_returns cut returns
  refine ⟨2 + count, last, cursor, _, ?_, returns, returned, freed, kept, early.trans late⟩
  rw [List.replicate_add, exec_append]
  show (exec Workers.step w [j, j]).bind _ = _
  rw [started, Option.bind_some, run]

/-- A call with a label reads the freed copy of another call that starts and ends
between its first two calls of `strtok`. -/
theorem label_lost {i j : Fin n} (other : j ≠ i) (strings : ∀ i, 0 ∉ domains i) {token : List UInt8}
    (label : (strtok dot (domains i)).1 = some token) :
    ∃ schedule, exec Workers.step (Workers.start domains) schedule = none := by
  have begins : (Workers.start domains).calls i = .called (domains i) := rfl
  obtain ⟨begun, started, ⟨cursor, -, cut⟩, early⟩ := call_begins begins (strings i)
  have found : strtok dot (domains i) = (some token, (strtok dot (domains i)).2) := Prod.ext label rfl
  rw [found] at cut
  obtain ⟨start, stage, reads, -⟩ := cut
  have waiting : begun.calls j = .called (domains j) := early.calls j other
  obtain ⟨count, away, final, block, run, -, -, freed, kept, late⟩ := alone_converts waiting (strings j)
  -- Back in the first call, whose own copy is still there.
  have back : away.calls i = .put (List.replicate ((domains i).length + 2) 0) 0 ⟨i, start⟩ :=
    (late.calls i (Ne.symm other)).trans stage
  obtain ⟨temp, live, text⟩ := Reads.string reads
  have own : away.temps i = some temp := (late.temps i (Ne.symm other)).trans live
  obtain ⟨nonempty, total, -⟩ := strtok_some found
  obtain ⟨written, put⟩ : ∃ written, putToken (List.replicate ((domains i).length + 2) 0) 0 token = some written :=
    ⟨_, putToken_eq [] token (show token.length < (domains i).length + 2 by omega)⟩
  refine ⟨[i, i] ++ (List.replicate count j ++ [i, i]), ?_⟩
  let middle := away.goes i (.next written (0 + 1 + token.length))
  have one : away.step i = some middle := by
    simp only [Workers.step, back, own, text, put, Option.bind_eq_bind, Option.bind_some, middle]
  have two : middle.step i = none := by
    have again : middle.cursor = some ⟨j, final⟩ := kept
    have gone : middle.temps j = none := freed
    have here : middle.calls i = .next _ _ := goes_calls_self
    simp only [Workers.step, here, again, Workers.strtok, gone, Option.bind_eq_bind, Option.bind_some, Option.bind_none]
  rw [exec_append, started, Option.bind_some, exec_append, run, Option.bind_some, exec_cons, one, Option.bind_some,
    exec_cons, two, Option.bind_none]

/-- A call for a name of dots. It never comes to its loop, so that neither the cursor
nor the other threads matter for it. -/
def Blank (domain : List UInt8) (temp : Option (List UInt8)) : Stage n → Prop
  | .called other => other = domain
  | .split original => temp = some (domain ++ [0]) ∧ original = List.replicate (domain.length + 2) 0
  | .put .. | .next .. => False
  | .finish original result => original = List.replicate (domain.length + 2) 0 ∧ result = 0
  | .returned original => original = List.replicate (domain.length + 2) 0

theorem blank_token {domain : List UInt8} (dots : ∀ byte ∈ domain, byte = dot) : (strtok dot domain).1 = none := by
  cases call : (strtok dot domain).1 with
  | none => rfl
  | some token =>
    have found : strtok dot domain = (some token, (strtok dot domain).2) := Prod.ext call rfl
    obtain ⟨byte, more, rfl⟩ := List.exists_cons_of_ne_nil (strtok_some found).1
    have inside := dots byte ((strtok_subset found).1 List.mem_cons_self)
    exact absurd (inside ▸ List.mem_cons_self) (strtok_free found)

theorem blank_converted {domain : List UInt8} (dots : ∀ byte ∈ domain, byte = dot) :
    convertDomain domain = some (List.replicate (domain.length + 2) 0) := by
  rw [convertDomain_eq, tokens_none (blank_token dots)]
  rfl

theorem step_blank (dots : ∀ i, ∀ byte ∈ domains i, byte = dot) (held : ∀ k, Blank (domains k) (w.temps k) (w.calls k))
    (i : Fin n) : ∃ after, w.step i = some after ∧ ∀ k, Blank (domains k) (after.temps k) (after.calls k) := by
  have here := held i
  -- A step of a thread with its own block leaves the others as they were.
  have others {after : Workers n} (frame : Frame i w after) (own : Blank (domains i) (after.temps i) (after.calls i)) :
      ∀ k, Blank (domains k) (after.temps k) (after.calls k) := by
    intro k
    by_cases same : k = i
    · exact same ▸ own
    · rw [frame.temps k same, frame.calls k same]
      exact held k
  cases stage : w.calls i with
  | called domain =>
    rw [stage] at here
    obtain rfl : domain = domains i := here
    refine ⟨(w.stores i (some (domains i ++ [0]))).goes i (.split (List.replicate ((domains i).length + 2) 0)), ?_,
      others ((stores_frame i _).trans (goes_frame i _)) ?_⟩
    · simp only [Workers.step, stage]
    · rw [goes_calls_self]
      exact ⟨stores_temps_self, rfl⟩
  | split original =>
    rw [stage] at here
    obtain ⟨live, rfl⟩ := here
    have plain : (0 : UInt8) ∉ domains i := fun member => absurd (dots i 0 member) (by decide)
    have reads : Reads w ⟨i, 0⟩ (domains i) := ⟨_, live, plain, [], [], rfl, rfl⟩
    obtain ⟨token, after, called, cut, frame⟩ :=
      @strtok_cuts _ _ _ _ _ (List.replicate ((domains i).length + 2) 0) 0 reads
    rw [strtok_none (blank_token (dots i))] at cut
    obtain ⟨cursor, -, finished⟩ := cut
    refine ⟨after.goes i (Workers.loopTest (List.replicate ((domains i).length + 2) 0) 0 token), ?_,
      others (frame.trans (goes_frame i _)) ?_⟩
    · simp only [Workers.step, stage, called, Option.bind_eq_bind, Option.bind_some]
    · rw [show Workers.calls _ i = .finish _ _ from finished]
      exact ⟨rfl, rfl⟩
  | put original result token =>
    rw [stage] at here
    cases here
  | next original result =>
    rw [stage] at here
    cases here
  | finish original result =>
    rw [stage] at here
    obtain ⟨rfl, rfl⟩ := here
    have wrote : Block.write (List.replicate ((domains i).length + 2) 0) 0 [0] =
        some (List.replicate ((domains i).length + 2) (0 : UInt8)) := by
      rw [Block.write_of_le (by simp)]
      rfl
    refine ⟨(w.stores i none).goes i (.returned (List.replicate ((domains i).length + 2) 0)), ?_,
      others ((stores_frame i none).trans (goes_frame i _)) ?_⟩
    · simp only [Workers.step, stage, wrote, Option.bind_eq_bind, Option.bind_some]
    · rw [goes_calls_self]
      rfl
  | returned original => exact ⟨w, by simp only [Workers.step, stage], held⟩

theorem independent_of_blank (dots : ∀ i, ∀ byte ∈ domains i, byte = dot) : Independent domains := by
  intro schedule
  have initial (k : Fin n) : Blank (domains k) ((Workers.start domains).temps k) ((Workers.start domains).calls k) := rfl
  obtain ⟨last, reached, held⟩ := exec_total (fun w : Workers n => ∀ k, Blank (domains k) (w.temps k) (w.calls k)) schedule
    initial fun before i held => step_blank dots held i
  refine ⟨last, reached, ?_⟩
  intro i original returned
  have same := held i
  rw [returned] at same
  rw [blank_converted (dots i), same]

/-- The workers are independent exactly when no name has a label. -/
theorem workers_independent_iff (domains : Fin n → List UInt8) (many : 2 ≤ n) (strings : ∀ i, 0 ∉ domains i) :
    Independent domains ↔ ∀ i, ∀ byte ∈ domains i, byte = dot := by
  constructor
  · intro independent i
    cases call : (strtok dot (domains i)).1 with
    | none => exact strtok_blank call
    | some token =>
      obtain ⟨j, other⟩ : ∃ j : Fin n, j ≠ i := by
        by_cases first : i.val = 0
        · exact ⟨⟨1, by omega⟩, fun same => absurd (congrArg Fin.val same) (by simp [first])⟩
        · exact ⟨⟨0, by omega⟩, fun same => first (congrArg Fin.val same).symm⟩
      obtain ⟨schedule, fails⟩ := label_lost other strings call
      obtain ⟨last, reached, -⟩ := independent schedule
      rw [fails] at reached
      cases reached
  · exact independent_of_blank

private def pair (first second : List UInt8) (i : Fin 2) : List UInt8 := if i = 0 then first else second

theorem workers_independent_iff_pairs : Independent (pair [dot] []) ∧ ¬ Independent (pair [97] [98]) := by
  have dots : ∀ i, ∀ byte ∈ pair [dot] [] i, byte = dot := by
    intro i byte member
    unfold pair at member
    split at member
    · exact List.mem_singleton.mp member
    · cases member
  refine ⟨(workers_independent_iff (pair [dot] []) (by decide) (by decide)).mpr dots, ?_⟩
  intro independent
  have none := (workers_independent_iff (pair [97] [98]) (by decide) (by decide)).mp independent
  exact absurd (none 0 97 List.mem_cons_self) (by decide)

/-- `a.b` is encoded as `a` when a call for `c` takes its first token between the two
tokens of `a.b`. Both copies are still there at the end. -/
theorem workers_not_independent : ¬ ∀ {n : Nat} (domains : Fin n → List UInt8), 2 ≤ n → (∀ i, 0 ∉ domains i) →
    Independent domains := by
  intro always
  obtain ⟨last, reached, alone⟩ := always (pair [97, dot, 98] [99]) (by decide) (by decide) [0, 0, 1, 1, 0, 0, 0]
  have known : (exec Workers.step (Workers.start (pair [97, dot, 98] [99])) [0, 0, 1, 1, 0, 0, 0]).map (·.calls 0) =
      some (.returned [1, 97, 0, 0, 0]) := by rfl
  rw [reached] at known
  have encoded := alone 0 _ (Option.some.inj known)
  have whole : convertDomain (pair [97, dot, 98] [99] 0) = some [1, 97, 1, 98, 0] := by decide
  rw [whole] at encoded
  exact absurd encoded (by decide)

end NetPrograms.Proofs.DnsWorkers
