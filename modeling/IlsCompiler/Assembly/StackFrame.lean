import IlsCompiler.Assembly.Instruction
import IlsCompiler.Assembly.Fault

namespace IlsCompiler

/-!
# Stack frames

The frame pointer divides a function's frame. Above it lie the saved frame
pointer, the return address and the arguments; below it the locals in the order in
which they are first touched, and below those the saved registers.
-/

/-- The layout of the frame of a function while its code is made. -/
structure StackFrame where
  function : String
  locals : Nat
  slots : List VarId
  reserved : Nat
  pushed : Nat
deriving DecidableEq, Repr, Inhabited

namespace StackFrame

/-- The bytes of one slot. -/
def slotSize : Nat := 8

/-- The frame of a function before its first line. -/
def ofFunction (function : String) : StackFrame :=
  { function := function, locals := 0, slots := [], reserved := 0, pushed := 0 }

/-- The address of the parameter at a position. -/
def parameterAddress (position : Nat) : Address :=
  .frame (16 + slotSize * position : Nat)

/-- The address of the slot with a number. -/
def slotAddress (number : Nat) : Address :=
  .frame (-((slotSize * (number + 1) : Nat) : Int))

/-- The slot of a local, which gets one when it is first touched. -/
def slot (frame : StackFrame) (id : VarId) (name : String) :
    Except Failure (StackFrame × Address) :=
  match frame.slots.idxOf? id with
  | some number => .ok (frame, slotAddress number)
  | none =>
      let number := frame.slots.length
      if number < frame.locals then
        .ok ({ frame with slots := frame.slots ++ [id] }, slotAddress number)
      else
        .error ((EmissionFault.noSlot name frame.function frame.locals).failure 0)

/-- The bytes below the frame pointer for locals, padded so that the saved registers end aligned. -/
def size (frame : StackFrame) (saved : Nat) : Nat :=
  let bytes := slotSize * frame.locals
  if (bytes + slotSize * saved) % 16 = 0 then
    bytes
  else
    bytes + slotSize

end StackFrame

end IlsCompiler
