import Mathlib.Algebra.Order.Ring.Int
import Mathlib.Data.Fin.Tuple.Basic
import Mathlib.Data.List.Basic
import Mathlib.Logic.Function.Basic
import NetPrograms.Lib.Run

/-! The connection pools of connpool.h and mysql_conn_pool.c. Their tables, their
initialisation and their release are the same; they differ in the slot that they
hand out. Each call is one step, under the lock of the pool. -/

namespace NetPrograms.Mysql

abbrev connectionPoolSize : Nat := 10

/-- What `mysql_init` and `mysql_real_connect` made of each slot. Two slots have
two handles. -/
structure Connects (M : Type) where
  handle : Fin connectionPoolSize → Option M
  distinct : ∀ i j conn, handle i = some conn → handle j = some conn → i = j

structure ConnPool (M : Type) where
  conns : Fin connectionPoolSize → Option M
  used : Fin connectionPoolSize → Bool

abbrev MysqlPool (M : Type) := ConnPool M

variable {C M : Type}

def initConnPool (connects : Connects M) : ConnPool M where
  conns := connects.handle
  used _ := false

def mysqlPoolInit (connects : Connects M) : MysqlPool M := initConnPool connects

namespace ConnPool

def setUsed (pool : ConnPool M) (i : Fin connectionPoolSize) (used : Bool) : ConnPool M :=
  { pool with used := Function.update pool.used i used }

/-- The first slot that is not used, whether it is connected or not. -/
def getConn (pool : ConnPool M) : Option M × ConnPool M :=
  match Fin.find? fun i => !pool.used i with
  | some i => (pool.conns i, pool.setUsed i true)
  | none => (none, pool)

def mysqlPoolGet (pool : MysqlPool M) : Option M × MysqlPool M :=
  match Fin.find? fun i => !pool.used i && (pool.conns i).isSome with
  | some i => (pool.conns i, pool.setUsed i true)
  | none => (none, pool)

variable [DecidableEq M]

/-- The first slot with this pointer, which may be null. -/
def releaseConn (pool : ConnPool M) (conn : Option M) : ConnPool M :=
  match Fin.find? fun i => pool.conns i = conn with
  | some i => pool.setUsed i false
  | none => pool

def mysqlPoolRelease (pool : MysqlPool M) (conn : Option M) : MysqlPool M := pool.releaseConn conn

end ConnPool

/-- A pool and what its callers were given and have not released. -/
structure Callers (C M : Type) where
  pool : ConnPool M
  held : List (C × Option M)

inductive Call (C M : Type) where
  | get (caller : C)
  | release (caller : C) (conn : Option M)

namespace Callers
variable [DecidableEq C] [DecidableEq M]

/-- The calls of one of the two pools. A caller releases only what it was given. -/
def step (get : ConnPool M → Option M × ConnPool M) (release : ConnPool M → Option M → ConnPool M)
    (callers : Callers C M) : Call C M → Option (Callers C M)
  | .get caller =>
    let (conn, pool) := get callers.pool
    some ⟨pool, (caller, conn) :: callers.held⟩
  | .release caller conn =>
    if (caller, conn) ∈ callers.held then
      some ⟨release callers.pool conn, callers.held.erase (caller, conn)⟩
    else none

def connStep : Callers C M → Call C M → Option (Callers C M) := step ConnPool.getConn ConnPool.releaseConn

def mysqlStep : Callers C M → Call C M → Option (Callers C M) := step ConnPool.mysqlPoolGet ConnPool.mysqlPoolRelease

end Callers

def Callers.start (pool : ConnPool M) : Callers C M := ⟨pool, []⟩

end NetPrograms.Mysql
