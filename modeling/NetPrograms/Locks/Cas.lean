import NetPrograms.Lib.Run
import Mathlib.Data.BitVec

/-! The lock-free addition of CAS.c. The threads share one `int`; reading it and
the compare and swap are separate steps. -/

namespace NetPrograms.Locks

/-- `lock; cmpxchgl source, memory`: what the memory holds afterwards, and the flag
that `sete` reads. -/
def cmpxchgl (source memory accumulator : BitVec 32) : BitVec 32 × Bool :=
  if accumulator = memory then (source, true) else (memory, false)

/-- The operands of the assembly are numbered from the output on, which is `%0`. The
instruction names `%2` and `%1`. -/
def cas (addr expectedVal newVal : BitVec 32) : BitVec 32 × Bool :=
  let operand : Nat → BitVec 32
    | 1 => addr
    | 2 => expectedVal
    | _ => newVal
  cmpxchgl (operand 2) (operand 1) expectedVal

/-- The shared `int` and the threads. Of each thread there are the addends of the calls
it has still to complete and what the call that it is in has read. The calls whose
compare and swap succeeded are kept, newest first. -/
structure Counter (Thread : Type) where
  value : BitVec 32
  calls : Thread → List (BitVec 32)
  oldValue : Thread → Option (BitVec 32)
  succeeded : List (Thread × BitVec 32)

namespace Counter
variable {Thread : Type}

def start (value : BitVec 32) (calls : Thread → List (BitVec 32)) : Counter Thread where
  value
  calls
  oldValue _ := none
  succeeded := []

variable [DecidableEq Thread]

/-- The next step of a thread in `atomic_add`, over a compare and swap. -/
def atomicAdd (swap : BitVec 32 → BitVec 32 → BitVec 32 → BitVec 32 × Bool) (counter : Counter Thread) (thread : Thread) :
    Option (Counter Thread) :=
  match counter.calls thread with
  | [] => none
  | add :: rest =>
    match counter.oldValue thread with
    | none => some { counter with oldValue := Function.update counter.oldValue thread (some counter.value) }
    | some oldValue =>
      let result := swap counter.value oldValue (oldValue + add)
      let counter := { counter with value := result.1, oldValue := Function.update counter.oldValue thread none }
      if result.2 then
        some { counter with
          calls := Function.update counter.calls thread rest, succeeded := (thread, add) :: counter.succeeded }
      else
        some counter

end Counter

/-- The calls of `thread_callback`. -/
def threadCallback (number : Nat) : List (BitVec 32) := List.replicate number 1

end NetPrograms.Locks
