import IlsCompiler.Proofs.Assembly.CallEffects
import Mathlib.Data.List.Forall2

namespace IlsCompiler

/-!
# Arguments on the stack

The arguments of a call are constants and temporaries that hold registers. The lines in front of a
call save live registers, pad the stack and push the arguments from right to left, and none of this
overwrites a register that an argument is in. So when the call is made the words of the arguments
lie one above the other, the first one on top.
-/

namespace Listing

/-- The word of an argument: a constant stands for itself, a temporary for what its register holds. -/
inductive Carries (listing : Listing) (pool : Pool) (link : Linkage) (cpu : Cpu) (id : VarId) :
    BitVec 64 → Prop
  | constant {v : Variable} :
      listing.lookup? id = some v → v.storage = .literal →
        Carries listing pool link cpu id ((Operand.immediate v.value.text).fetched link cpu)
  | temporary {v : Variable} {name : String} {scope : Nat} {reg : Reg} :
      listing.lookup? id = some v → v.storage = .temporary name scope →
        pool.held? id = some reg → Carries listing pool link cpu id (cpu.regs reg)

/-- An argument that has a word: a constant, or a temporary that holds a register. -/
inductive Carried (listing : Listing) (pool : Pool) (id : VarId) : Prop
  | constant {v : Variable} :
      listing.lookup? id = some v → v.storage = .literal → Carried listing pool id
  | temporary {v : Variable} {name : String} {scope : Nat} {reg : Reg} :
      listing.lookup? id = some v → v.storage = .temporary name scope →
        pool.held? id = some reg → Carried listing pool id

variable
    {listing : Listing}
    {pool : Pool}
    {link : Linkage}
    {id : VarId}
    {word : BitVec 64}

/-- The word of an argument depends on the registers that temporaries hold only. -/
theorem Carries.of_same
    {cpu later : Cpu}
    (carries : listing.Carries pool link later id word)
    (same : ∀ reg ∈ pool.heldRegs, later.regs reg = cpu.regs reg) :
    listing.Carries pool link cpu id word := by
  cases carries with
  | constant found storage => exact .constant found storage
  | temporary found storage held =>
      rw [same _ (List.mem_map.mpr ⟨_, Pool.mem_held_of_held? held, rfl⟩)]
      exact .temporary found storage held

end Listing

namespace Emit

open Stateful FunctionCode

variable
    {listing : Listing}
    {before after : FunctionCode}
    {depth : Nat}
    {operand : Operand}

end Emit

end IlsCompiler
