import NetPrograms.Lib.Block
import NetPrograms.Mysql.ConnPool
import NetPrograms.ThreadPool.Pool

/-! The uploads of threadpool+connpool: the workers of the thread pool run
`task_entry` with connections of the pool of connpool.h. -/

namespace NetPrograms.Mysql
open ThreadPool

abbrev fileImageLength : Nat := 256 * 1024

variable {n : Nat} {T M : Type}

/-- The length as the `int` that `ftell` is assigned to. -/
def intLength (content : List UInt8) : Int := (BitVec.ofNat 32 content.length).toInt

/-- `fread` takes the length as a `size_t`. A file that is larger than the buffer
leaves it. -/
def readImage (file : Option (List UInt8)) (buffer : Buffer UInt8 fileImageLength) :
    Option (Int × Buffer UInt8 fileImageLength) :=
  match file with
  | none => some (-1, buffer)
  | some content => do
    let length := intLength content
    let buffer ← buffer.write 0 (content.take (BitVec.ofInt 64 length).toNat)
    some (length, buffer)

/-- How far a worker is in `task_entry`: before `read_image`, `get_conn`,
`mysql_write_image` and `release_conn`, and behind it. -/
inductive Entry (M : Type) where
  | read
  | get (length : Int) (buffer : Buffer UInt8 fileImageLength)
  | write (conn : Option M) (length : Int) (buffer : Buffer UInt8 fileImageLength)
  | release (conn : Option M)
  | returned

/-- The next step of `task_entry`. Its two error branches only print. -/
def taskEntry [DecidableEq M] (file : Option (List UInt8)) (worker : Fin n) (callers : Callers (Fin n) M) :
    Entry M → Option (Entry M × Callers (Fin n) M)
  | .read => do
    let (length, buffer) ← readImage file (Buffer.fill 0)
    some (.get length buffer, callers)
  | .get length buffer => do
    let after ← callers.connStep (.get worker)
    some (.write callers.pool.getConn.1 length buffer, after)
  | .write conn _ _ => some (.release conn, callers)
  | .release conn => do
    let after ← callers.connStep (.release worker conn)
    some (.returned, after)
  | .returned => none

structure Uploads (n : Nat) (T M : Type) where
  pool : Pool n T
  callers : Callers (Fin n) M
  entry : Fin n → Entry M

namespace Uploads

inductive Event (n : Nat) (T : Type) where
  | pool (event : ThreadPool.Event n T)
  | entry (worker : Fin n)

def start (terminate : Fin n → Bool) (links : Links T) (connects : Connects M) : Uploads n T M where
  pool := nThreadPoolCreate terminate links
  callers := Callers.start (initConnPool connects)
  entry _ := .read

variable [DecidableEq T] [DecidableEq M]

/-- The file of each task is what `fopen` finds when the task runs. -/
def step (files : T → Option (List UInt8)) (uploads : Uploads n T M) : Event n T → Option (Uploads n T M)
  | .pool (.finish worker next prev) =>
    match uploads.entry worker with
    | .returned => do
      let pool ← uploads.pool.finish worker next prev
      some { uploads with pool, entry := Function.update uploads.entry worker .read }
    | _ => none
  | .pool event => do
    let pool ← uploads.pool.step event
    some { uploads with pool }
  | .entry worker =>
    match uploads.pool.stage worker with
    | .running task => do
      let (entry, callers) ← taskEntry (files task) worker uploads.callers (uploads.entry worker)
      some { uploads with callers, entry := Function.update uploads.entry worker entry }
    | _ => none

end Uploads
end NetPrograms.Mysql
