import NetPrograms.Lib.Block
import NetPrograms.Lib.Run

/-! The growable send buffer of 2.2.1_tcp_p2p.c. What the environment answers is
an argument: whether `realloc` finds memory and what its new cells hold, and how
much of each request `send` accepts. An access outside the block has no result. -/

namespace NetPrograms.P2p

def sizeAdd (a b : Nat) : Nat := (a + b) % 2 ^ 64
def sizeSub (a b : Nat) : Nat := (a + 2 ^ 64 - b) % 2 ^ 64

/-- `PTRDIFF_MAX`, the size above which no object exists and `malloc` fails. -/
def ptrdiffMax : Nat := 2 ^ 63 - 1

structure CObject where
  bytes : List UInt8
  fits : bytes.length ≤ ptrdiffMax

/-- `realloc` keeps the cells both blocks have. `none` is out of memory; the new
cells of a larger block are not initialised. -/
def realloc (block : List UInt8) (size : Nat) (answer : Option (Nat → UInt8)) : Option (List UInt8) :=
  match answer with
  | none => none
  | some fresh =>
    if size ≤ ptrdiffMax then some ((List.range size).map fun i => block.getD i (fresh i)) else none

/-- `data` is the allocated block, empty for a null pointer. -/
structure Outbuf where
  data : List UInt8
  len : Nat
  off : Nat

def outbufInit : Outbuf := ⟨[], 0, 0⟩

def outbufFree (b : Outbuf) : Outbuf := { b with data := [], len := 0, off := 0 }

def outbufEmpty (b : Outbuf) : Bool := b.len ≤ b.off

def outbufCompact (b : Outbuf) : Option Outbuf :=
  if b.off = 0 then some b
  else if b.len ≤ b.off then some { b with off := 0, len := 0 }
  else do
    let rest ← Block.read b.data b.off (sizeSub b.len b.off)
    let data ← Block.write b.data 0 rest
    some { data, len := sizeSub b.len b.off, off := 0 }

def outbufAppend (b : Outbuf) (p : CObject) (answer : Option (Nat → UInt8)) : Option (Outbuf × Int) := do
  let n := p.bytes.length
  if n = 0 then
    return (b, 0)
  let avail := sizeSub b.len b.off
  let b ← (if 0 < b.off ∧ avail < b.len then outbufCompact b else some b)
  let used := b.len
  match realloc b.data (sizeAdd used n) answer with
  | none => return (b, -1)
  | some nd =>
    let data ← Block.write nd used p.bytes
    return ({ b with data, len := sizeAdd used n }, 0)

/-- What one call of `send` returns. `sent room` is a kernel with room for
`room + 1` bytes, so every count from one to the request occurs. -/
inductive SendResult where
  | sent (room : Nat)
  | zero
  | eagain
  | eintr
  | failed

/-- The buffer, the bytes `send` accepted and the returned value, which is `none`
while the loop still waits for the next result of `send`. -/
def outbufFlushFd (b : Outbuf) (results : List SendResult) : Option (Outbuf × List UInt8 × Option Int) :=
  if b.off < b.len then
    match results with
    | [] => some (b, [], none)
    | .sent room :: results => do
      let request ← Block.read b.data b.off (sizeSub b.len b.off)
      let m := min (room + 1) request.length
      let (b, accepted, ret) ← outbufFlushFd { b with off := sizeAdd b.off m } results
      return (b, request.take m ++ accepted, ret)
    | .eagain :: _ => some (b, [], some 1)
    | .eintr :: results => outbufFlushFd b results
    | .zero :: _ | .failed :: _ => some (b, [], some (-1))
  else some ({ b with off := 0, len := 0 }, [], some 0)
termination_by structural results

/-- The program's calls on the buffer, each with what its environment answers. -/
inductive OutbufCall where
  | append (p : CObject) (answer : Option (Nat → UInt8))
  | flush (results : List SendResult)

/-- The buffer, with all bytes `send` accepted and the arguments of all appends
that returned 0. -/
structure OutbufHistory where
  buf : Outbuf
  accepted : List UInt8
  appended : List UInt8

namespace OutbufHistory

def init : OutbufHistory := ⟨outbufInit, [], []⟩

def step (s : OutbufHistory) : OutbufCall → Option OutbufHistory
  | .append p answer => do
    let (buf, ret) ← outbufAppend s.buf p answer
    return { s with buf, appended := if ret = 0 then s.appended ++ p.bytes else s.appended }
  | .flush results => do
    let (buf, accepted, _) ← outbufFlushFd s.buf results
    return { s with buf, accepted := s.accepted ++ accepted }

end OutbufHistory
end NetPrograms.P2p
