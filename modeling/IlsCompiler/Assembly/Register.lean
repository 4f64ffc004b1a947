namespace IlsCompiler

/-!
# Registers

The general-purpose registers, the names of their lower parts, and which of them
survive a call.
-/

/-- A general-purpose register. -/
inductive Reg where
  | rax
  | rbx
  | rcx
  | rdx
  | rsi
  | rdi
  | rbp
  | rsp
  | r8
  | r9
  | r10
  | r11
  | r12
  | r13
  | r14
  | r15
deriving DecidableEq, Repr, Inhabited

namespace Reg

/-- The registers in the order of their numbers, which start at one. -/
def all : List Reg := [
  .rax, .rbx, .rcx, .rdx, .rsi, .rdi, .rbp, .rsp,
  .r8, .r9, .r10, .r11, .r12, .r13, .r14, .r15]

/-- The register with a number. -/
def ofNumber? (number : Nat) : Option Reg :=
  match number with
  | 0 => none
  | index + 1 => all[index]?

/-- The name of the whole register. -/
def name : Reg → String
  | .rax => "rax"
  | .rbx => "rbx"
  | .rcx => "rcx"
  | .rdx => "rdx"
  | .rsi => "rsi"
  | .rdi => "rdi"
  | .rbp => "rbp"
  | .rsp => "rsp"
  | .r8 => "r8"
  | .r9 => "r9"
  | .r10 => "r10"
  | .r11 => "r11"
  | .r12 => "r12"
  | .r13 => "r13"
  | .r14 => "r14"
  | .r15 => "r15"

/-- The name of the low four bytes. -/
def dwordName : Reg → String
  | .rax => "eax"
  | .rbx => "ebx"
  | .rcx => "ecx"
  | .rdx => "edx"
  | .rsi => "esi"
  | .rdi => "edi"
  | .rbp => "ebp"
  | .rsp => "esp"
  | other => other.name ++ "d"

/-- The name of the low two bytes. -/
def wordName : Reg → String
  | .rax => "ax"
  | .rbx => "bx"
  | .rcx => "cx"
  | .rdx => "dx"
  | .rsi => "si"
  | .rdi => "di"
  | .rbp => "bp"
  | .rsp => "sp"
  | other => other.name ++ "w"

/-- The name of the low byte. -/
def byteName : Reg → String
  | .rax => "al"
  | .rbx => "bl"
  | .rcx => "cl"
  | .rdx => "dl"
  | .rsi => "sil"
  | .rdi => "dil"
  | .rbp => "bpl"
  | .rsp => "spl"
  | other => other.name ++ "b"

/-- The name of the low bytes of the given number; any other number means the whole register. -/
def sized (reg : Reg) (width : Nat) : String :=
  match width with
  | 1 => reg.byteName
  | 2 => reg.wordName
  | 4 => reg.dwordName
  | _ => reg.name

/-- The name of a register number, also where no register has it. -/
def sizedOfNumber (number width : Nat) : String :=
  match ofNumber? number with
  | some reg => reg.sized width
  | none => if number = 0 then "" else "?"

/-- Whether a register has the same value after a call as before it. -/
def isPreserved : Reg → Bool
  | .rbx | .rbp | .rsp | .r12 | .r13 | .r14 | .r15 => true
  | _ => false

/-- The registers for temporaries that a call may overwrite, in the order they are handed out. -/
def volatilePool : List Reg := [.rcx, .r8, .r9, .r10, .r11]

/-- The registers for temporaries that survive a call, in the order they are handed out. -/
def preservedPool : List Reg := [.rbx, .r12, .r13, .r14, .r15]

/-- The spellings of a register at all widths. -/
def spellings (reg : Reg) : List String :=
  [reg.name, reg.dwordName, reg.wordName, reg.byteName]

/-- The register that a name of any width spells. -/
def ofSpelling? (text : String) : Option Reg :=
  all.find? fun reg => reg.spellings.contains text

/-- Whether a name spells a register. -/
def isName (text : String) : Bool :=
  (ofSpelling? text).isSome

/-- The register of return values, which also carries memory-to-memory moves. -/
def returned : Reg := .rax

/-- The register of a divisor, and of the index of an element that is read. -/
def sourceIndex : Reg := .rsi

/-- The register of the index of an element that is written. -/
def targetIndex : Reg := .rdi

/-- The register in which a division leaves the remainder. -/
def remainder : Reg := .rdx

end Reg

end IlsCompiler
