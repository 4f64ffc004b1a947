import IlsCompiler.Assembly.Register
import IlsCompiler.Assembly.Fault

namespace IlsCompiler

/-!
# The register pool

Registers are handed out to temporaries. Those that calls overwrite and those that
survive calls wait in two queues; a register that is given back goes to the end of
its queue, so that it is used again last.
-/

/-- The free registers, who holds which, and the preserved registers used so far. -/
structure Pool where
  volatile : List Reg
  preserved : List Reg
  held : List (VarId × Reg)
  used : List Reg
deriving DecidableEq, Repr, Inhabited

namespace Pool

/-- A pool with every register free. -/
def full : Pool :=
  { volatile := Reg.volatilePool, preserved := Reg.preservedPool, held := [], used := [] }

/-- The register a temporary holds. -/
def held? (pool : Pool) (id : VarId) : Option Reg :=
  pool.held.lookup id

/-- The temporary that holds a register. -/
def owner? (pool : Pool) (reg : Reg) : Option VarId :=
  (pool.held.find? fun entry => entry.2 == reg).map fun entry => entry.1

/-- Which kind of register was missing. -/
inductive Shortage where
  | preserved
  | any
deriving DecidableEq, Repr

/-- The fault of a shortage met for a temporary. -/
def Shortage.fault (shortage : Shortage) (name : String) : EmissionFault :=
  match shortage with
  | .preserved => .noPreservedRegister name
  | .any => .noRegister name

/-- Hand a register out. -/
def give (pool : Pool) (id : VarId) (reg : Reg) : Pool :=
  { pool with
    held := pool.held ++ [(id, reg)]
    used := if reg.isPreserved && !pool.used.contains reg then pool.used ++ [reg] else pool.used }

/-- Hand out the next preserved register. -/
def takePreserved? (pool : Pool) (id : VarId) : Option (Pool × Reg) :=
  match pool.preserved with
  | [] => none
  | reg :: rest => some ({ pool with preserved := rest }.give id reg, reg)

/-- Hand out the next volatile register. -/
def takeVolatile? (pool : Pool) (id : VarId) : Option (Pool × Reg) :=
  match pool.volatile with
  | [] => none
  | reg :: rest => some ({ pool with volatile := rest }.give id reg, reg)

/--
Give a temporary a register, the one it holds if it has one. A temporary that must
survive a call takes a preserved register only, any other prefers a volatile one.
-/
def assign (pool : Pool) (id : VarId) (mustSurvive : Bool) : Except Shortage (Pool × Reg) :=
  match pool.held? id with
  | some reg => .ok (pool, reg)
  | none =>
      if mustSurvive then
        match pool.takePreserved? id with
        | some taken => .ok taken
        | none => .error .preserved
      else
        match pool.takeVolatile? id with
        | some taken => .ok taken
        | none =>
            match pool.takePreserved? id with
            | some taken => .ok taken
            | none => .error .any

/-- Take a temporary's register back; a temporary without one changes nothing. -/
def release (pool : Pool) (id : VarId) : Pool :=
  match pool.held? id with
  | none => pool
  | some reg =>
      let without := pool.held.filter fun entry => entry.1 != id
      if reg.isPreserved then
        { pool with held := without, preserved := pool.preserved ++ [reg] }
      else
        { pool with held := without, volatile := pool.volatile ++ [reg] }

/-- The volatile registers in use, in pool order: those a call would overwrite. -/
def live (pool : Pool) : List Reg :=
  Reg.volatilePool.filter fun reg => (pool.owner? reg).isSome

/-- The preserved registers handed out so far, in pool order: those a function has to save. -/
def touched (pool : Pool) : List Reg :=
  Reg.preservedPool.filter fun reg => pool.used.contains reg

/-- How many registers are free. -/
def available (pool : Pool) : Nat :=
  pool.volatile.length + pool.preserved.length

end Pool

end IlsCompiler
