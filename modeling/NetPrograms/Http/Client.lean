import NetPrograms.Lib.Block
import NetPrograms.Lib.Course
import NetPrograms.Lib.CString

/-! The receive loop of `http_send_request` in http.c, which collects a response in
a string that grows with each `recv`. The allocations succeed. -/

namespace NetPrograms.Http

def bufferSzie : Nat := 4096

/-- What `select` and `recv` return in one turn of the loop. The new part of a block
that grows has the contents of the heap. -/
inductive Turn where
  | unready
  | received (bytes : List UInt8) (heap : Nat → UInt8)
  | ended

def realloc (block : List UInt8) (size : Nat) (heap : Nat → UInt8) : List UInt8 :=
  (List.range size).map fun cell => block[cell]?.getD (heap cell)

/-- At most `n` bytes of a string, which is not read behind its end. -/
def textUpTo : Nat → List UInt8 → Option (List UInt8)
  | 0, _ => some []
  | _ + 1, [] => none
  | n + 1, byte :: rest => if byte = 0 then some [] else (textUpTo n rest).map (byte :: ·)

def strncat (dest src : List UInt8) (n : Nat) : Course (List UInt8) := do
  let length ← .ofRead (strlen dest)
  let text ← .ofRead (textUpTo n src)
  .ofWrite (Block.write dest length (text ++ [0]))

/-- From `memset(buffer, 0, sizeof(buffer))` to the end of the turn. -/
def append (result bytes : List UInt8) (heap : Nat → UInt8) : Course (List UInt8) := do
  let buffer ← .ofWrite (Block.write (List.replicate bufferSzie 0) 0 bytes)
  let length ← .ofRead (strlen result)
  strncat (realloc result (length + bytes.length + 1) heap) buffer bytes.length

def receive (result : List UInt8) : List Turn → Course (List UInt8)
  | [] => .running
  | .unready :: _ | .ended :: _ => .returned result
  | .received bytes heap :: turns => (append result bytes heap).bind (receive · turns)

/-- The block that is returned. It starts as an empty string of `sizeof(int)` bytes. -/
def httpSendRequest (turns : List Turn) : Course (List UInt8) := receive (List.replicate 4 0) turns

end NetPrograms.Http
