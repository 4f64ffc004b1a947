import IlsCompiler.Proofs.Assembly.Peephole
import IlsCompiler.Proofs.Assembly.Registers
import IlsCompiler.Proofs.Assembly.Steps
import IlsCompiler.Proofs.Lowering.Variables

namespace IlsCompiler

/-!
# Operands and the words they stand for

Numbers stand for themselves, named variables for what is in their memory, temporaries for
what is in their register. This module says which word a variable stands for and that the
operand found for it stands for the same word.
-/

/-- The distance from the frame pointer at which a local or parameter stands. -/
def StackFrame.offset? (frame : StackFrame) (v : Variable) : Option Int :=
  match v.storage with
  | .named _ false true position _ => some ((16 + slotSize * position : Nat) : Int)
  | .named _ false false _ _ =>
      (frame.slots.idxOf? v.id).map fun number => -((slotSize * (number + 1) : Nat) : Int)
  | _ => none

/-- The word that a named variable stands for; smaller global variables are extended. -/
def Machine.named (machine : Machine) (frame : StackFrame) (v : Variable) : BitVec 64 :=
  match v.storage with
  | .named name true _ _ _ =>
      if v.type.width = 4 then
        (machine.dword name).signExtend 64
      else
        (machine.data name 0).setWidth 64
  | _ => ((frame.offset? v).map machine.slots).getD (.ofNat 64 0)

/-- The word that a variable stands for. -/
def Listing.wordOf (listing : Listing) (pool : Pool) (frame : StackFrame) (machine : Machine)
    (id : VarId) : BitVec 64 :=
  match listing.fixed? id with
  | none => .ofNat 64 0
  | some v =>
      match v.storage with
      | .literal => .ofInt 64 ((Text.integer? 64 v.value.text).getD 0)
      | .temporary _ _ => ((pool.held? id).map machine.regs).getD (.ofNat 64 0)
      | _ => machine.named frame v

/-- The word that loading an operand into a register gives. -/
def Operand.loaded? (machine : Machine) : Operand → Option (BitVec 64)
  | .memory (.symbol name none) width =>
      if width = 4 then
        some ((machine.dword name).signExtend 64)
      else if width = 1 then
        some ((machine.data name 0).setWidth 64)
      else
        none
  | operand => operand.word? machine

/-- A variable whose word can be had without a call: a number, a named variable, or a
temporary that holds a register. -/
inductive Listing.AtHand (listing : Listing) (pool : Pool) (id : Nat) : Prop
  | literal {v : Variable} {number : Int}
      (found : listing.fixed? id = some v)
      (storage : v.storage = .literal)
      (read : Text.integer? 64 v.value.text = some number)
  | named {v : Variable} {name : String} {isGlobal isParam : Bool} {position scope : Nat}
      (found : listing.fixed? id = some v)
      (storage : v.storage = .named name isGlobal isParam position scope)
      (arithmetic : v.type.isArithmetic)
  | temporary {v : Variable} {name : String} {scope : Nat} {reg : Reg}
      (found : listing.fixed? id = some v)
      (storage : v.storage = .temporary name scope)
      (held : (id, reg) ∈ pool.held)

variable
    {machine later : Machine}
    {reg : Reg}

namespace Machine

/-- A machine differs from another one in nothing but some registers. -/
structure SameBut (changed : Reg → Prop) (machine later : Machine) : Prop where
  regs : ∀ reg, ¬changed reg → later.regs reg = machine.regs reg
  slots : later.slots = machine.slots
  data : later.data = machine.data

namespace SameBut

variable
    {changed : Reg → Prop}

theorem refl
    (machine : Machine) :
    SameBut changed machine machine :=
  ⟨fun _ _ => rfl, rfl, rfl⟩

theorem trans
    {first second third : Machine}
    (earlier : SameBut changed first second)
    (later : SameBut changed second third) :
    SameBut changed first third :=
  { regs := fun reg same => (later.regs reg same).trans (earlier.regs reg same)
    slots := later.slots.trans earlier.slots
    data := later.data.trans earlier.data }

theorem set
    (machine : Machine)
    (word : BitVec 64)
    (isChanged : changed reg) :
    SameBut changed machine (machine.set reg word) :=
  { regs := fun _ same => regs_set_of_ne _ _ _ fun equal => same (equal ▸ isChanged)
    slots := rfl
    data := rfl }

theorem named_eq
    (same : SameBut changed machine later)
    (frame : StackFrame)
    (v : Variable) :
    later.named frame v = machine.named frame v := by
  unfold Machine.named Machine.dword
  rw [same.slots, same.data]

end SameBut

end Machine

variable
    {listing : Listing}

/-- The word of a variable stays while the register it holds does. -/
theorem Listing.wordOf_of_sameBut
    {pool : Pool}
    {changed : Reg → Prop}
    (same : Machine.SameBut changed machine later)
    {id : VarId}
    (kept : ∀ reg, pool.held? id = some reg → ¬changed reg)
    (frame : StackFrame) :
    listing.wordOf pool frame later id = listing.wordOf pool frame machine id := by
  unfold wordOf
  split
  · rfl
  · split
    · rfl
    · cases held : pool.held? id with
      | none => rfl
      | some reg => simp [same.regs reg (kept reg held)]
    · exact same.named_eq frame _

namespace FunctionCode

/-- Code that differs only in slots that locals got for the first time. -/
def Slotted (before after : FunctionCode) : Prop :=
  ∃ frame, after = { before with frame := frame } ∧ before.frame.slots <+: frame.slots

theorem Slotted.refl
    (code : FunctionCode) :
    code.Slotted code :=
  ⟨code.frame, rfl, List.prefix_refl _⟩

end FunctionCode

variable
    {v : Variable}

/-- A slot that a local has stays its slot when others get theirs. -/
theorem StackFrame.offset?_of_prefix
    {earlier later : StackFrame}
    (grown : earlier.slots <+: later.slots)
    {offset : Int}
    (known : earlier.offset? v = some offset) :
    later.offset? v = some offset := by
  unfold offset? at known ⊢
  split at known
  · exact known
  · obtain ⟨number, found, rfl⟩ := Option.map_eq_some_iff.mp known
    obtain ⟨more, same⟩ := grown
    have still : later.slots.idxOf? v.id = some number := by
      unfold List.idxOf? at found ⊢
      rw [← same, List.findIdx?_append, found]
      rfl
    simp [still]
  · cases known

theorem Machine.named_fixed
    (machine : Machine)
    (frame : StackFrame)
    (v : Variable) :
    machine.named frame v.fixed = machine.named frame v := by
  rcases v with ⟨id, type, value, preserved, lastUse, storage⟩
  cases storage with
  | named name isGlobal isParam position scope => cases isGlobal <;> cases isParam <;> rfl
  | _ => rfl

variable
    {position scope : Nat}
    {name : String}
    {isGlobal isParam : Bool}

/-- A named variable keeps everything but the scope of a parameter. -/
theorem Variable.storage_of_fixed_named
    (known : v.fixed.storage = .named name isGlobal isParam position scope) :
    ∃ place, v.storage = .named name isGlobal isParam position place := by
  cases isParam with
  | false => exact ⟨scope, storage_of_fixed_local known⟩
  | true =>
      rcases v with ⟨id, type, value, preserved, lastUse, storage⟩
      cases storage with
      | named otherName otherGlobal otherParam otherPosition place =>
          cases otherParam <;> cases known
          exact ⟨place, rfl⟩
      | _ => cases known

/-- An operand that is not memory of a smaller size is loaded as it is. -/
theorem Operand.word?_of_loaded?
    {operand : Operand}
    {word : BitVec 64}
    (loaded : operand.loaded? machine = some word)
    (notNarrow : operand.isNarrow = false) :
    operand.word? machine = some word := by
  unfold loaded? at loaded
  split at loaded
  next name width =>
    simp only [isNarrow, decide_eq_false_iff_not] at notNarrow
    have notFour : width ≠ 4 := by omega
    have notOne : width ≠ 1 := by omega
    simp [notFour, notOne] at loaded
  · exact loaded

namespace Emit

open Stateful FunctionCode

variable
    {before after : FunctionCode}
    {operand : Operand}

/-- The memory of a local or parameter is a word of the frame, found again later. -/
theorem slotOperand_ok
    (storage : v.storage = .named name false isParam position scope)
    (run : slotOperand v.id name isParam position before = .ok (operand, after)) :
    before.Slotted after ∧
      ∃ offset,
        operand = .memory (.frame offset) 8 ∧ Operand.isAligned offset ∧
          after.frame.offset? v = some offset := by
  unfold slotOperand at run
  cases isParam with
  | true =>
      simp only [↓reduceIte] at run
      obtain ⟨rfl, rfl⟩ := pure_ok_iff.mp run
      refine ⟨.refl _, _, rfl, ?_, by simp [StackFrame.offset?, storage]⟩
      simp [Operand.isAligned, StackFrame.slotSize]
  | false =>
      simp only [Bool.false_eq_true, ↓reduceIte] at run
      obtain ⟨_, _, got, later⟩ := bind_ok_iff.mp run
      obtain ⟨rfl, rfl⟩ := get_ok_iff.mp got
      have aligned : ∀ number : Nat,
          Operand.isAligned (-((StackFrame.slotSize * (number + 1) : Nat) : Int)) := by
        intro number
        simp [Operand.isAligned, StackFrame.slotSize]
      cases slotted : before.frame.slot v.id name with
      | error failure =>
          simp only [slotted] at later
          exact (throw_ok_iff.mp later).elim
      | ok pair =>
          rcases pair with ⟨frame, address⟩
          simp only [slotted] at later
          obtain ⟨_, _, written, returned⟩ := bind_ok_iff.mp later
          cases set_ok_iff.mp written
          obtain ⟨rfl, rfl⟩ := pure_ok_iff.mp returned
          unfold StackFrame.slot at slotted
          split at slotted
          next number found =>
            cases slotted
            exact ⟨⟨_, rfl, List.prefix_refl _⟩, _, rfl, aligned number, by
              simp [StackFrame.offset?, storage, found]⟩
          next absent =>
            simp only at slotted
            split at slotted
            · cases slotted
              refine ⟨⟨_, rfl, List.prefix_append _ _⟩, _, rfl, aligned _, ?_⟩
              have found : (before.frame.slots ++ [v.id]).idxOf? v.id =
                  some before.frame.slots.length := by
                unfold List.idxOf? at absent ⊢
                rw [List.findIdx?_append, absent]
                simp
              simp [StackFrame.offset?, storage, found]
            · cases slotted

/-- The memory of a named variable holds the word that the variable stands for. -/
theorem namedOperand_ok
    (storage : v.storage = .named name isGlobal isParam position scope)
    (arithmetic : v.type.isArithmetic)
    (run : namedOperand v name isGlobal isParam position before = .ok (operand, after)) :
    before.Slotted after ∧ operand.isMemory ∧
      ∀ frame : StackFrame, after.frame.slots <+: frame.slots →
        ∀ machine, operand.loaded? machine = some (machine.named frame v) := by
  have scalar : v.type = .int ∨ v.type = .char := by
    simpa [Ty.isArithmetic] using arithmetic
  have noArray : v.type.isArray = false := by
    rcases scalar with same | same <;> rw [same] <;> rfl
  have noString : v.type ≠ .str := by
    rcases scalar with same | same <;> rw [same] <;> decide
  unfold namedOperand at run
  cases isGlobal with
  | true =>
      simp only [noArray, noString, Bool.false_eq_true, decide_false, Bool.and_false,
        ↓reduceIte] at run
      obtain ⟨rfl, rfl⟩ := pure_ok_iff.mp run
      refine ⟨.refl _, rfl, fun frame _ machine => ?_⟩
      rcases scalar with same | same <;>
        simp [Operand.loaded?, Machine.named, storage, same, Ty.width]
  | false =>
      simp only [noArray, Bool.false_eq_true, Bool.false_and, ↓reduceIte] at run
      obtain ⟨slotted, offset, rfl, aligned, place⟩ := slotOperand_ok storage run
      refine ⟨slotted, rfl, fun frame grown machine => ?_⟩
      have later := StackFrame.offset?_of_prefix grown place
      simp [Operand.loaded?, Operand.word?, Machine.named, storage, aligned, later]

/-- Loading an operand puts its word into the register. -/
theorem moveInto_ok
    {done : Unit}
    (writable : reg ≠ .rbp ∧ reg ≠ .rsp)
    (run : moveInto reg operand before = .ok (done, after)) :
    ∃ issued,
      after = { before with body := before.body.addAll issued } ∧
        (∀ instruction ∈ issued, instruction.isScalar) ∧
        ∀ (machine : Machine) (word : BitVec 64), operand.loaded? machine = some word →
          machine.run issued = .next (machine.set reg word) := by
  have single : ∀ {instruction : Instruction},
      ins instruction before = .ok (done, after) → instruction.isScalar →
      (∀ (machine : Machine) (word : BitVec 64), operand.loaded? machine = some word →
        instruction.execute machine = .next (machine.set reg word)) →
      ∃ issued,
        after = { before with body := before.body.addAll issued } ∧
          (∀ instruction ∈ issued, instruction.isScalar) ∧
          ∀ (machine : Machine) (word : BitVec 64), operand.loaded? machine = some word →
            machine.run issued = .next (machine.set reg word) := by
    intro instruction added scalar executes
    refine ⟨[instruction], ins_ok_iff.mp added, by simpa using scalar, ?_⟩
    intro machine word loaded
    rw [Machine.run_singleton, executes machine word loaded]
  unfold moveInto at run
  split at run
  next other =>
    split at run
    next same =>
      obtain ⟨-, rfl⟩ := pure_ok_iff.mp run
      refine ⟨[], rfl, by simp, ?_⟩
      intro machine word loaded
      have known : machine.regs reg = word := by
        simpa [Operand.loaded?, Operand.word?, same] using loaded
      rw [← known, Machine.set_regs]
      rfl
    next =>
      refine single run rfl ?_
      intro machine word loaded
      simp only [Operand.loaded?] at loaded
      simp [Instruction.execute, Instruction.move, Operand.whole, loaded, Machine.write,
        writable.1, writable.2]
  next address width =>
    split at run
    next four =>
      subst four
      refine single run rfl ?_
      intro machine word loaded
      obtain ⟨name, rfl, rfl⟩ : ∃ name, address = .symbol name none ∧
          (machine.dword name).signExtend 64 = word := by
        unfold Operand.loaded? at loaded
        split at loaded
        next name width same =>
          cases same
          exact ⟨name, rfl, by simpa using loaded⟩
        · cases address <;> simp [Operand.word?] at loaded
      simp [Instruction.execute, Machine.write, writable.1, writable.2]
    next notFour =>
      split at run
      next small =>
        refine single run rfl ?_
        intro machine word loaded
        obtain ⟨name, rfl, rfl, rfl⟩ : ∃ name, address = .symbol name none ∧ width = 1 ∧
            (machine.data name 0).setWidth 64 = word := by
          unfold Operand.loaded? at loaded
          split at loaded
          next name _ same =>
            cases same
            by_cases one : width = 1
            · exact ⟨name, rfl, one, by simpa [notFour, one] using loaded⟩
            · simp [notFour, one] at loaded
          next =>
            have narrow : width ≠ 8 := by omega
            cases address <;> simp [Operand.word?, narrow] at loaded
        simp [Instruction.execute, Machine.write, writable.1, writable.2]
      next notSmall =>
        refine single run rfl ?_
        intro machine word loaded
        have read : Operand.word? machine (.memory address width) = some word := by
          unfold Operand.loaded? at loaded
          split at loaded
          next same =>
            cases same
            have notOne : width ≠ 1 := by omega
            simp [notFour, notOne] at loaded
          · exact loaded
        simp [Instruction.execute, Instruction.move, Operand.whole, read, Machine.write,
          writable.1, writable.2]
  next notRegister notMemory =>
    refine single run rfl ?_
    intro machine word loaded
    have read : operand.word? machine = some word := by
      cases operand with
      | immediate => exact loaded
      | register => exact loaded
      | memory address width => exact (notMemory _ _ rfl).elim
    simp [Instruction.execute, Instruction.move, Operand.whole, read, Machine.write,
      writable.1, writable.2]

/-- The operand of a variable that is at hand stands for the word of the variable. -/
theorem resolve_atHand
    {depth : Nat}
    {id : Nat}
    {scratch : Reg}
    (numbered : listing.Numbered)
    (sound : before.pool.Sound)
    (atHand : listing.AtHand before.pool id)
    (run : resolve listing depth id scratch before = .ok (operand, after)) :
    before.Slotted after ∧
      (∀ frame : StackFrame, after.frame.slots <+: frame.slots →
        ∀ machine, operand.loaded? machine =
          some (listing.wordOf before.pool frame machine id)) ∧
      ∀ reg width, operand = .register reg width → (id, reg) ∈ before.pool.held := by
  obtain ⟨v, less, _, lookup, resolved⟩ := resolve_ok run
  have known : listing.fixed? id = some v.fixed := by
    simp [Listing.fixed?, lookup]
  cases atHand with
  | literal found storage read =>
      cases known.symm.trans found
      rw [Variable.fixed_literal_iff.mp storage] at resolved
      obtain ⟨rfl, rfl⟩ := resolved
      refine ⟨.refl _, fun frame _ machine => ?_, by simp⟩
      change Text.integer? 64 v.value.text = _ at read
      simp only [Operand.loaded?, Operand.word?, Listing.wordOf, known, storage]
      show _ = some (BitVec.ofInt 64 ((Text.integer? 64 v.value.text).getD 0))
      simp [read]
  | named found storage arithmetic =>
      cases known.symm.trans found
      obtain ⟨place, same⟩ := Variable.storage_of_fixed_named storage
      rw [same] at resolved
      obtain ⟨slotted, isMemory, loaded⟩ := namedOperand_ok same arithmetic resolved
      refine ⟨slotted, fun frame grown machine => ?_, ?_⟩
      · rw [loaded frame grown machine, ← Machine.named_fixed]
        simp [Listing.wordOf, known, storage]
      · rintro reg width rfl
        cases isMemory
  | temporary found storage held =>
      cases known.symm.trans found
      rw [Variable.fixed_temporary_iff.mp storage] at resolved
      obtain ⟨reg, loaded, rfl⟩ := resolved
      have number : v.id = id := numbered id v.fixed known
      have isHeld := sound.held?_of_mem held
      rcases temporary_ok loaded with ⟨same, rfl⟩ | ⟨absent, _⟩
      · rw [number] at same
        refine ⟨.refl _, fun frame _ machine => ?_, ?_⟩
        · simp [Operand.loaded?, Operand.word?, Operand.whole, Listing.wordOf, known, storage, same]
        · intro other width equal
          cases equal
          exact Pool.mem_held_of_held? same
      · rw [number, isHeld] at absent
        cases absent

end Emit

end IlsCompiler
