import Mathlib.Logic.Function.Basic
import NetPrograms.Dns.Request
import NetPrograms.Lib.CString
import NetPrograms.Lib.Run

/-! `convert_domain` of homework_dns_async/dns.h in the threads of the pool. The
function is the one of dns.c, but the pointer that `strtok` keeps between two calls
belongs to the process, and each thread frees its copy of the name when it is done. -/

namespace NetPrograms.Dns

/-- A place in the copy that a thread made with `strdup`. -/
structure Pointer (n : Nat) where
  block : Fin n
  offset : Nat

/-- How far a thread is in `convert_domain`: at its start, before `strtok(temp, ".")`,
in the body of the loop, before `strtok(NULL, ".")`, behind the loop, returned. -/
inductive Stage (n : Nat) where
  | called (domain : List UInt8)
  | split (original : List UInt8)
  | put (original : List UInt8) (result : Nat) (token : Pointer n)
  | next (original : List UInt8) (result : Nat)
  | finish (original : List UInt8) (result : Nat)
  | returned (original : List UInt8)

structure Workers (n : Nat) where
  /-- The block of each thread's `temp`, none before `strdup` and after `free`. -/
  temps : Fin n → Option (List UInt8)
  cursor : Option (Pointer n)
  calls : Fin n → Stage n

namespace Workers
variable {n : Nat}

/-- Each thread has taken its task. -/
def start (domains : Fin n → List UInt8) : Workers n where
  temps _ := none
  cursor := none
  calls i := .called (domains i)

def goes (w : Workers n) (i : Fin n) (stage : Stage n) : Workers n :=
  { w with calls := Function.update w.calls i stage }

def stores (w : Workers n) (i : Fin n) (temp : Option (List UInt8)) : Workers n :=
  { w with temps := Function.update w.temps i temp }

/-- `strtok` from a place on. A freed block has no bytes to read. -/
def strtok (w : Workers n) (place : Pointer n) : Option (Option (Pointer n) × Workers n) := do
  let temp ← w.temps place.block
  let (token, next, temp) ← strtokAt 0 dot temp place.offset
  some (token.map (⟨place.block, ·⟩), { w.stores place.block (some temp) with cursor := some ⟨place.block, next⟩ })

def loopTest (original : List UInt8) (result : Nat) : Option (Pointer n) → Stage n
  | none => .finish original result
  | some token => .put original result token

/-- The step of one thread. A write outside the thread's block and a read of a freed
block have no result. -/
def step (w : Workers n) (i : Fin n) : Option (Workers n) :=
  match w.calls i with
  | .called domain => some ((w.stores i (some (domain ++ [0]))).goes i (.split (List.replicate (domain.length + 2) 0)))
  | .split original => do
    let (token, w) ← w.strtok ⟨i, 0⟩
    some (w.goes i (loopTest original 0 token))
  | .put original result token => do
    let temp ← w.temps token.block
    let text ← cstring (temp.drop token.offset)
    let original ← putToken original result text
    some (w.goes i (.next original (result + 1 + text.length)))
  | .next original result => do
    let (token, w) ← w.strtok (← w.cursor)
    some (w.goes i (loopTest original result token))
  | .finish original result => do
    let original ← Block.write original result [0]
    some ((w.stores i none).goes i (.returned original))
  | .returned _ => some w

end Workers
end NetPrograms.Dns
