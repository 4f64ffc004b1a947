import IlsCompiler.Compilation.Basic
import IlsCompiler.Proofs.Assembly.Operands
import IlsCompiler.Proofs.Assembly.Results

namespace IlsCompiler

/-!
# Where variables are kept

A local is kept in a slot of eight bytes, and a global variable in as many bytes as its type is
wide. What is stored in a slot comes back as it is. Of what is stored in a global variable only the
low bytes come back, those of an integer with its sign, so it comes back as it is exactly if it
fits.
-/

namespace Ty

/-- The types whose values are single numbers. -/
def IsScalar (type : Ty) : Prop :=
  type = .int ∨ type = .char ∨ type = .bool

/-- The numbers that have a place in a global variable of a type. -/
def Fits (type : Ty) (number : Int) : Prop :=
  if type = .int then
    -2 ^ 31 ≤ number ∧ number < 2 ^ 31
  else
    0 ≤ number ∧ number < 2 ^ 8

instance (type : Ty) (number : Int) : Decidable (type.Fits number) :=
  inferInstanceAs (Decidable (if type = .int then _ ∧ _ else _ ∧ _))

/-- What is left of a word in a global variable of a type. -/
def kept (type : Ty) (word : BitVec 64) : BitVec 64 :=
  if type = .int then
    (word.setWidth 32).signExtend 64
  else
    (word.setWidth 8).setWidth 64

end Ty

/-- Of what is written in so many bytes only the low bytes of the word matter. -/
theorem Memory.write_low
    (memory : Memory)
    (address : Int)
    (width : Nat)
    (word : BitVec 64) :
    memory.write address width (.ofNat 64 (word.toNat % 256 ^ width)) =
      memory.write address width word := by
  funext place
  unfold write
  split
  next inside =>
    have below : word.toNat % 256 ^ width < 2 ^ 64 :=
      Nat.lt_of_le_of_lt (Nat.mod_le _ _) word.isLt
    obtain ⟨behind, isWidth⟩ : ∃ behind, width = (place - address).toNat + (behind + 1) :=
      ⟨width - (place - address).toNat - 1, by omega⟩
    have bytes : 256 ^ width = 256 ^ (place - address).toNat * (256 ^ behind * 256) := by
      rw [← Nat.pow_succ, ← Nat.pow_add, ← isWidth]
    apply BitVec.eq_of_toNat_eq
    rw [BitVec.toNat_ofNat, BitVec.toNat_ofNat, BitVec.toNat_ofNat, Nat.mod_eq_of_lt below, bytes,
      Nat.mod_mul_right_div_self]
    exact Nat.mod_mod_of_dvd _ (Nat.dvd_mul_left _ _)
  next => rfl

/-!
## Code whose effect is computed

Moves, stores, sums and pushes do one thing only, so what code made of them does can be computed.
-/

namespace Address

instance (link : Linkage) (bottom : Int) (cpu : Cpu) (width : Nat) (address : Address) :
    Decidable (address.OffStack link bottom cpu width) :=
  match address with
  | .frame _ => .isTrue trivial
  | .symbol _ _ => inferInstanceAs (Decidable (_ ∨ _))
  | .indexed _ _ _ => inferInstanceAs (Decidable (_ ∨ _))

end Address

/-- The processor behind a store of a word at an address. -/
def Cpu.stored (link : Linkage) (cpu : Cpu) (address : Address) (width : Nat)
    (word : BitVec 64) : Cpu :=
  { cpu with memory := cpu.memory.write (address.place link cpu) width word }

namespace Instruction

/-- What an instruction does, if it does one thing only. -/
def perform (link : Linkage) (bottom : Int) (cpu : Cpu) : Instruction → Option Cpu
  | .push (.register .rbp 8) =>
      if 0 ≤ cpu.base ∧ cpu.base < 2 ^ 64 then
        some (cpu.push (.ofNat 64 cpu.base.toNat))
      else
        none
  | .mov (.register .rbp 8) (.register .rsp 8) => some { cpu with base := cpu.top }
  | .mov (.memory address width) source =>
      if address.OffStack link bottom cpu width then
        some (cpu.stored link address width (source.fetched link cpu))
      else
        none
  | .add (.register reg 8) source =>
      if reg = .rsp then
        (Issue.plain (.add (.whole .rsp) source)).execute link cpu
      else
        cpu.put reg (cpu.regs reg + source.fetched link cpu)
  | .mov (.register reg 8) source => cpu.put reg (source.fetched link cpu)
  | .movsxd reg source => (Issue.plain (.movsxd reg source)).execute link cpu
  | .movzx reg source => (Issue.plain (.movzx reg source)).execute link cpu
  | .xor target source => (Issue.plain (.xor target source)).execute link cpu
  | .sub (.register .rsp 8) source => (Issue.plain (.sub (.whole .rsp) source)).execute link cpu
  | .push source => (Issue.plain (.push source)).execute link cpu
  | _ => none

variable
    {link : Linkage}
    {bottom : Int}
    {cpu later known : Cpu}
    {instruction : Instruction}

theorem eq_known_iff
    {result : Option Cpu}
    (isKnown : result = some known) :
    (∀ other, result = some other → later = other) ↔ later = known := by
  subst isKnown
  simp

theorem executes_iff_of_perform
    (performed : instruction.perform link bottom cpu = some known) :
    instruction.Executes link bottom cpu later ↔ later = known := by
  unfold perform at performed
  split at performed
  · split at performed
    next inside =>
      cases performed
      have number : ((BitVec.ofNat 64 cpu.base.toNat).toNat : Int) = cpu.base := by
        rw [BitVec.toNat_ofNat]
        omega
      constructor
      · rintro ⟨word, isBase, rfl⟩
        congr 1
        apply BitVec.eq_of_toNat_eq
        omega
      · rintro rfl
        exact ⟨_, number, rfl⟩
    next => cases performed
  · cases performed
    exact .rfl
  · split at performed
    next offStack =>
      cases performed
      exact and_iff_right offStack
    next => cases performed
  · rw [Executes]
    split at performed
    next isTop =>
      rw [if_pos isTop]
      exact eq_known_iff performed
    next noTop =>
      rw [if_neg noTop]
      exact eq_known_iff performed
  next reg source _ =>
    have noPointer : ¬(reg = .rsp ∨ reg = .rbp) := by
      intro isPointer
      simp [Cpu.put, isPointer] at performed
    rw [Executes]
    · exact eq_known_iff performed
    all_goals simp_all
  · exact eq_known_iff performed
  · exact eq_known_iff performed
  · exact eq_known_iff performed
  · exact eq_known_iff performed
  next source noBase =>
    rw [Executes]
    · exact eq_known_iff performed
    all_goals simp_all
  · cases performed

/-- What instructions do one after the other. -/
def performAll (link : Linkage) (bottom : Int) : List Instruction → Cpu → Option Cpu
  | [], cpu => some cpu
  | first :: rest, cpu => (first.perform link bottom cpu).bind (performAll link bottom rest)

theorem passes_iff_of_performAll
    {issued : List Instruction}
    (performed : performAll link bottom issued cpu = some known) :
    Line.Passes link bottom (issued.map .instruction) cpu later ↔ later = known := by
  induction issued generalizing cpu with
  | nil =>
      cases performed
      constructor
      · intro passes
        cases passes
        rfl
      · rintro rfl
        exact .nil later
  | cons first rest inductionHypothesis =>
      obtain ⟨between, does, others⟩ := Option.bind_eq_some_iff.mp performed
      rw [List.map_cons, ← List.singleton_append, Line.Passes.append_iff]
      constructor
      · rintro ⟨middle, once, more⟩
        rw [Line.Passes.singleton_iff, executes_iff_of_perform does] at once
        exact (inductionHypothesis others).mp (once ▸ more)
      · rintro rfl
        exact ⟨between, Line.Passes.singleton_iff.mpr ((executes_iff_of_perform does).mpr rfl),
          (inductionHypothesis others).mpr rfl⟩

end Instruction

/-!
## Stores and loads
-/

namespace Operand

variable
    {link : Linkage}
    {cpu : Cpu}

/-- Whether a place in memory belongs to an operand. -/
def covers (link : Linkage) (cpu : Cpu) (place : Int) : Operand → Prop
  | .memory address width =>
      address.place link cpu ≤ place ∧ place < address.place link cpu + width
  | _ => False

end Operand

variable
    {address : Address}
    {target : Reg}
    {width : Nat}

namespace Emit

open Stateful

/-- The lines that a step adds, wherever it does, take a processor to a known one. -/
def Performs (link : Linkage) (bottom : Int) (step : Emit Unit) (cpu known : Cpu) : Prop :=
  ∀ before, ∃ issued after,
    step before = .ok ((), after) ∧ after.body = before.body.addAll issued ∧
      ∀ later, Line.Passes link bottom (issued.map .instruction) cpu later ↔ later = known

variable
    {link : Linkage}
    {bottom : Int}
    {cpu between known : Cpu}

theorem performs_ins
    {instruction : Instruction}
    (performed : instruction.perform link bottom cpu = some known) :
    Performs link bottom (ins instruction) cpu known := by
  refine fun before => ⟨[instruction], _, rfl, rfl, fun later => ?_⟩
  exact Instruction.passes_iff_of_performAll (by simp [Instruction.performAll, performed])

/-- A store writes the low bytes of the register. -/
theorem performs_store
    (offStack : address.OffStack link bottom cpu width)
    (source : Reg) :
    Performs link bottom (store (.memory address width) (.whole source)) cpu
      (cpu.stored link address width (cpu.regs source)) := by
  refine performs_ins ?_
  simp only [Instruction.perform, offStack, ↓reduceIte, Operand.fetched, Cpu.stored,
    Memory.write_low]

/-- A load puts the word that is kept into the register. -/
theorem performs_moveInto
    (link : Linkage)
    (bottom : Int)
    (cpu : Cpu)
    (address : Address)
    (width : Nat)
    (noPointer : target ≠ .rsp ∧ target ≠ .rbp) :
    Performs link bottom (moveInto target (.memory address width)) cpu
      (cpu.set target ((Operand.memory address width).widened link cpu)) := by
  have puts : ∀ word, cpu.put target word = some (cpu.set target word) := by
    intro word
    simp [Cpu.put, noPointer]
  unfold moveInto
  by_cases isFour : width = 4
  · subst isFour
    exact performs_ins (puts _)
  simp only [isFour, ↓reduceIte]
  rw [Operand.widened_of_ne_four link cpu address isFour]
  split
  · exact performs_ins (puts _)
  · refine performs_ins ?_
    rw [← puts]
    cases target <;> rfl

end Emit

/-!
## A variable that is moved

A variable may be kept in a slot or in the data section. As long as what is stored in it fits, code
that stores registers in it and loads it back goes on alike.
-/

/-- What code does with a variable, or beside it; the pointers are not loaded. -/
inductive Access where
  | store (source : Reg)
  | load (target : Reg) (noPointer : target ≠ .rsp ∧ target ≠ .rbp)
  | other (effect : Cpu → Cpu)

namespace Access

/-- What an access does when the variable is kept at an address. -/
def does (link : Linkage) (address : Address) (width : Nat) (cpu : Cpu) : Access → Cpu
  | .store source => cpu.stored link address width (cpu.regs source)
  | .load target _ => cpu.set target ((Operand.memory address width).widened link cpu)
  | .other effect => effect cpu

/-- The code of an access does what the access does. -/
def IsDone (link : Linkage) (address : Address) (width : Nat) (access : Access) : Prop :=
  ∀ (bottom : Int) (cpu : Cpu), address.OffStack link bottom cpu width →
    match access with
    | .store source =>
        Emit.Performs link bottom (Emit.store (.memory address width) (.whole source)) cpu
          (access.does link address width cpu)
    | .load target _ =>
        Emit.Performs link bottom (Emit.moveInto target (.memory address width)) cpu
          (access.does link address width cpu)
    | .other _ => True

theorem isDone
    (link : Linkage)
    (address : Address)
    (width : Nat)
    (access : Access) :
    access.IsDone link address width := by
  intro bottom cpu offStack
  cases access with
  | store source => exact Emit.performs_store offStack source
  | load target noPointer => exact Emit.performs_moveInto link bottom cpu address width noPointer
  | other effect => trivial

/-- What accesses do one after the other. -/
def run (link : Linkage) (address : Address) (width : Nat) (accesses : List Access) (cpu : Cpu) :
    Cpu :=
  accesses.foldl (does link address width) cpu

/-- All that is stored along a run fits. -/
def Fit (link : Linkage) (type : Ty) (address : Address) (width : Nat) :
    List Access → Cpu → Prop
  | [], _ => True
  | access :: rest, cpu =>
      (∀ source, access = .store source → type.Fits (cpu.regs source).toInt) ∧
        Fit link type address width rest (access.does link address width cpu)

variable
    {link : Linkage}
    {type : Ty}
    {offset : Int}
    {name : String}
    {first second : Cpu}

end Access

namespace Emit

section Places

variable
    {before after : FunctionCode}
    {v : Variable}
    {name : String}
    {isParam : Bool}
    {position : Nat}
    {operand : Operand}

/-- A global variable is kept in as many bytes as its type is wide. -/
theorem namedOperand_global
    (scalar : v.type.IsScalar)
    (run : namedOperand v name true isParam position before = .ok (operand, after)) :
    operand = .memory (.symbol name none) v.type.width := by
  have noArray : v.type.isArray = false := by
    rcases scalar with same | same | same <;> rw [same] <;> rfl
  have noString : v.type ≠ .str := by
    rcases scalar with same | same | same <;> rw [same] <;> nofun
  simp only [namedOperand, noArray, noString, decide_false, Bool.false_eq_true, ↓reduceIte,
    Bool.and_false] at run
  exact (Stateful.pure_ok_iff.mp run).1.symm

end Places

/-- A processor at its start, with empty memory. -/
def idle : Cpu :=
  { top := 1024, base := 1024, regs := fun _ => 0, memory := fun _ => 0 }

/-- Symbols below the stack and routines that do nothing. -/
def bare : Linkage :=
  { address := fun _ => 0, routine := fun _ _ cpu => cpu }

end Emit

end IlsCompiler
