import IlsCompiler.Assembly.Register
import IlsCompiler.Program.Operator
import IlsCompiler.Text.Decimal
import IlsCompiler.Ty

namespace IlsCompiler

/-!
# Machine instructions

The instructions that code is made of, with their operands and how they are
written.
-/

/--
Where a memory operand lies: at a distance from the frame pointer, at a symbol with
an optional distance, or at a scaled index behind a symbol.
-/
inductive Address where
  | frame (offset : Int)
  | symbol (name : String) (offset : Option Int)
  | indexed (name : String) (index : Reg) (scale : Nat)
deriving DecidableEq, Repr, Inhabited

namespace Address

/-- An address without its brackets. -/
def text : Address → String
  | .frame offset =>
      if 0 ≤ offset then
        "rbp+" ++ toString offset
      else
        "rbp" ++ toString offset
  | .symbol name none => name
  | .symbol name (some offset) => name ++ " + " ++ toString offset
  | .indexed name index scale => name ++ " + " ++ index.name ++ "*" ++ toString scale

end Address

/-- An operand: a constant or symbol, the low bytes of a register, or memory of a width. -/
inductive Operand where
  | immediate (text : String)
  | register (reg : Reg) (width : Nat)
  | memory (address : Address) (width : Nat)
deriving DecidableEq, Repr, Inhabited

namespace Operand

/-- A whole register. -/
def whole (reg : Reg) : Operand :=
  .register reg 8

/-- A constant number. -/
def number (value : Nat) : Operand :=
  .immediate (toString value)

/-- An operand as it is written; memory always carries its size. -/
def text : Operand → String
  | .immediate text => text
  | .register reg width => reg.sized width
  | .memory address width => Ty.qualifierFor width ++ " [" ++ address.text ++ "]"

/-- Whether an operand is memory. -/
def isMemory : Operand → Bool
  | .memory _ _ => true
  | _ => false

/-- Whether an operand is a constant or symbol. -/
def isImmediate : Operand → Bool
  | .immediate _ => true
  | _ => false

/-- Whether an operand is memory smaller than a register. -/
def isNarrow : Operand → Bool
  | .memory _ width => width < 8
  | _ => false

/-- Whether an operand is a number that arithmetic instructions cannot hold, outside 32 bits. -/
def isWide : Operand → Bool
  | .immediate text =>
      match Text.integer? 64 text with
      | some value => !Text.fits 32 value
      | none => false
  | _ => false

end Operand

/-- A machine instruction; `verbatim` is one given by its text alone. -/
inductive Instruction where
  | mov (target source : Operand)
  | movsxd (target : Reg) (source : Operand)
  | movzx (target : Reg) (source : Operand)
  | add (target source : Operand)
  | sub (target source : Operand)
  | imul (target source : Operand)
  | cmp (left right : Operand)
  | xor (target source : Operand)
  | lea (target : Reg) (address : Address)
  | cqo
  | idiv (divisor : Reg)
  | push (source : Operand)
  | pop (target : Reg)
  | call (name : String)
  | jump (condition : Option CmpOp) (label : String)
  | syscall
  | ret
  | verbatim (text : String)
deriving DecidableEq, Repr, Inhabited

namespace Instruction

/-- The mnemonic of a jump that is taken under a condition. -/
def jumpMnemonic : Option CmpOp → String
  | none => "jmp"
  | some .equal => "je"
  | some .notEqual => "jne"
  | some .less => "jl"
  | some .lessEqual => "jle"
  | some .greater => "jg"
  | some .greaterEqual => "jge"

/-- A mnemonic with two operands. -/
def binaryText (mnemonic target source : String) : String :=
  mnemonic ++ " " ++ target ++ ", " ++ source

/-- An instruction as it is written. -/
def text : Instruction → String
  | .mov target source => binaryText "mov" target.text source.text
  | .movsxd target source => binaryText "movsxd" target.name source.text
  | .movzx target source => binaryText "movzx" target.name source.text
  | .add target source => binaryText "add" target.text source.text
  | .sub target source => binaryText "sub" target.text source.text
  | .imul target source => binaryText "imul" target.text source.text
  | .cmp left right => binaryText "cmp" left.text right.text
  | .xor target source => binaryText "xor" target.text source.text
  | .lea target address => binaryText "lea" target.name ("[" ++ address.text ++ "]")
  | .cqo => "cqo"
  | .idiv divisor => "idiv " ++ divisor.name
  | .push source => "push " ++ source.text
  | .pop target => "pop " ++ target.name
  | .call name => "call " ++ name
  | .jump condition label => jumpMnemonic condition ++ " ." ++ label
  | .syscall => "syscall"
  | .ret => "ret"
  | .verbatim text => text

end Instruction

end IlsCompiler
