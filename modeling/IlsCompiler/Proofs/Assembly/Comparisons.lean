import IlsCompiler.Proofs.Assembly.CallSites
import IlsCompiler.Proofs.Assembly.Comparands
import IlsCompiler.Proofs.Lowering.Conditions

namespace IlsCompiler

/-!
# Comparisons

A comparison loads what it has to, and compares words of eight bytes, or four or one bytes of data
with a constant where they are. Conditional jumps behind it go as the words are to each other, with
one exception: a byte of data is loaded without a sign, but where it is compared it has one.
-/

/-!
## Flags

A comparison subtracts and keeps three flags of the difference. A conditional jump looks at them only,
and it is taken exactly when the numbers with their signs are as its condition says, whatever width
they were compared at.
-/

/-- What is kept of a difference: whether it is zero, its sign, and whether it has overflowed. -/
structure Flags where
  zero : Bool
  sign : Bool
  overflow : Bool
deriving DecidableEq, Repr

namespace Flags

/-- The flags that a comparison of two words of one width leaves. -/
def ofDifference {width : Nat} (left right : BitVec width) : Flags :=
  { zero := left - right == 0
    sign := (left - right).msb
    overflow := left.ssubOverflow right }

/-- Whether a jump with a mnemonic is taken. -/
def takes (flags : Flags) (mnemonic : String) : Bool :=
  match mnemonic with
  | "jmp" => true
  | "je" => flags.zero
  | "jne" => !flags.zero
  | "jl" => flags.sign != flags.overflow
  | "jle" => flags.zero || flags.sign != flags.overflow
  | "jg" => !flags.zero && flags.sign == flags.overflow
  | "jge" => flags.sign == flags.overflow
  | _ => false

/-- Whether every conditional jump goes as two numbers are to each other. -/
def Order (flags : Flags) (left right : Int) : Prop :=
  ∀ condition : CmpOp,
    flags.takes (Instruction.jumpMnemonic (some condition)) = condition.holds (left, right)

variable
    {width : Nat}
    (first second : BitVec width)

theorem zero_ofDifference :
    (ofDifference first second).zero = decide (first.toInt = second.toInt) := by
  have same : first - second = .ofNat width 0 ↔ first = second := by
    rw [BitVec.sub_eq_iff_eq_add, BitVec.zero_add]
  rw [Bool.eq_iff_iff, decide_eq_true_iff, BitVec.toInt_inj, ← same]
  exact beq_iff_eq

/-- The sign is wrong exactly where the difference has overflowed. -/
theorem less_ofDifference :
    ((ofDifference first second).sign != (ofDifference first second).overflow) =
      decide (first.toInt < second.toInt) := by
  have below := @BitVec.toInt_sub_toInt_lt_twoPow_iff width first second
  have above := @BitVec.twoPow_le_toInt_sub_toInt_iff width first second
  rw [← BitVec.toInt_sub] at below above
  show ((first - second).msb != first.ssubOverflow second) = _
  rw [BitVec.msb_eq_toInt]
  cases overflow : first.ssubOverflow second with
  | false =>
      rw [BitVec.toInt_sub_of_not_ssubOverflow (by simp [overflow]), Bool.bne_false,
        decide_eq_decide]
      omega
  | true =>
      simp only [BitVec.ssubOverflow, Bool.or_eq_true, decide_eq_true_eq] at overflow
      rw [Bool.bne_true, ← decide_not, decide_eq_decide]
      omega

/-- Behind a comparison every conditional jump goes as the numbers that were compared. -/
theorem order_ofDifference :
    (ofDifference first second).Order first.toInt second.toInt := by
  have zero := zero_ofDifference first second
  have less := less_ofDifference first second
  have notLess : ((ofDifference first second).sign == (ofDifference first second).overflow) =
      decide (¬first.toInt < second.toInt) := by
    rw [decide_not, ← less, bne, Bool.not_not]
  intro condition
  cases condition <;>
    simp only [takes, Instruction.jumpMnemonic, CmpOp.holds, zero, less, notLess, ← decide_not,
      ← Bool.decide_or, ← Bool.decide_and, decide_eq_decide] <;>
    omega

/-- Jumps that go as two numbers go as two others if those are equal and less alike. -/
theorem order_iff_of_order
    {flags : Flags}
    {left right : Int}
    (order : flags.Order left right)
    (other another : Int) :
    flags.Order other another ↔
      ((left < right ↔ other < another) ∧ (left = right ↔ other = another)) := by
  have alike : ∀ condition : CmpOp,
      flags.takes (Instruction.jumpMnemonic (some condition)) = condition.holds (other, another) ↔
        condition.holds (left, right) = condition.holds (other, another) := by
    intro condition
    rw [order condition]
  simp only [Order, alike]
  constructor
  · intro every
    have less := every .less
    have equal := every .equal
    simp only [CmpOp.holds, decide_eq_decide] at less equal
    exact ⟨less, equal⟩
  · rintro ⟨less, equal⟩ condition
    cases condition <;> simp only [CmpOp.holds, decide_eq_decide] <;> omega

end Flags

/-! ## Operands that are compared -/

namespace Operand

/-- The bytes at which another operand is compared with one. -/
def width : Operand → Nat
  | .immediate _ => 8
  | .register _ width => width
  | .memory _ width => width

/-- The flags that comparing two operands leaves, the second one cut to the width of the first. -/
def flags (link : Linkage) (cpu : Cpu) (left right : Operand) : Flags :=
  .ofDifference ((left.fetched link cpu).setWidth (8 * left.width))
    ((right.fetched link cpu).setWidth (8 * left.width))

/-- Whether a byte of memory is compared with a constant where it is. -/
def isByteInPlace (left right : Operand) : Bool :=
  left.isMemory && left.width == 1 && right.isImmediate

end Operand

/-- Two numbers have the same order when only a byte with a sign is left of each. -/
def SameByteOrder (left right : Int) : Prop :=
  (left.bmod 256 < right.bmod 256 ↔ left < right) ∧ (left.bmod 256 = right.bmod 256 ↔ left = right)

variable
    {scratch : Reg}

namespace Operand

variable
    (link : Linkage)
    (cpu : Cpu)
    (right : Operand)

/-- Words of eight bytes are compared as they are. -/
theorem order_of_width
    {left : Operand}
    (isWord : left.width = 8) :
    (left.flags link cpu right).Order (left.fetched link cpu).toInt
      (right.fetched link cpu).toInt := by
  have order := Flags.order_ofDifference ((left.fetched link cpu).setWidth (8 * 8))
    ((right.fetched link cpu).setWidth (8 * 8))
  rw [flags, isWord]
  simpa using order

/-- Four bytes are compared with a constant that fits as they are loaded. -/
theorem order_dword
    (address : Address)
    {number : Int}
    (fits : Text.fits 32 number)
    (constant : right.fetched link cpu = .ofInt 64 number) :
    ((Operand.memory address 4).flags link cpu right).Order
      ((Operand.memory address 4).widened link cpu).toInt (right.fetched link cpu).toInt := by
  have order := Flags.order_ofDifference
    (((Operand.memory address 4).fetched link cpu).setWidth 32)
    ((right.fetched link cpu).setWidth 32)
  have leftNumber : ((Operand.memory address 4).widened link cpu).toInt =
      (((Operand.memory address 4).fetched link cpu).setWidth 32).toInt :=
    BitVec.toInt_signExtend_of_le (by decide)
  have rightNumber : ((right.fetched link cpu).setWidth 32).toInt =
      (right.fetched link cpu).toInt := by
    simp only [Text.fits, Bool.and_eq_true, decide_eq_true_eq, Nat.pow_eq] at fits
    rw [constant, BitVec.toInt_setWidth, BitVec.toInt_ofInt, BitVec.toNat_ofInt]
    simp only [Int.bmod_def]
    omega
  rw [leftNumber, ← rightNumber]
  exact order

/-- A byte has a sign where it is compared. -/
theorem order_byte
    (address : Address) :
    ((Operand.memory address 1).flags link cpu right).Order
      (((Operand.memory address 1).widened link cpu).toInt.bmod 256)
      ((right.fetched link cpu).toInt.bmod 256) := by
  have order := Flags.order_ofDifference
    (((Operand.memory address 1).fetched link cpu).setWidth 8)
    ((right.fetched link cpu).setWidth 8)
  have cut : ∀ word : BitVec 64, (word.setWidth 8).toInt = word.toInt.bmod 256 := by
    intro word
    rw [BitVec.toInt_setWidth, BitVec.toInt_eq_toNat_bmod]
    simp only [Int.bmod_def]
    omega
  rw [cut, cut] at order
  exact order

/-- A byte is loaded without a sign. -/
theorem byte_bounds
    (address : Address) :
    0 ≤ ((Operand.memory address 1).widened link cpu).toInt ∧
      ((Operand.memory address 1).widened link cpu).toInt < 256 := by
  have isByte := (cpu.memory (address.place link cpu)).isLt
  rw [widened_of_ne_four link cpu address (by decide), fetched, BitVec.toInt_eq_toNat_bmod,
    BitVec.toNat_ofNat, Memory.number, Memory.number]
  simp only [Int.bmod_def]
  omega

/-- Where it is, a byte has the order of the word that it is loaded as for some constants only. -/
theorem order_byte_iff
    (address : Address) :
    ((Operand.memory address 1).flags link cpu right).Order
        ((Operand.memory address 1).widened link cpu).toInt (right.fetched link cpu).toInt ↔
      SameByteOrder ((Operand.memory address 1).widened link cpu).toInt
        (right.fetched link cpu).toInt :=
  Flags.order_iff_of_order (order_byte link cpu right address) _ _

/--
The flags of a comparison are those of two words, unless a byte is compared where it is: then they are
so exactly for the bytes and constants whose order stays the same.
-/
def Orders (link : Linkage) (cpu : Cpu) (left right : Operand) (leftWord rightWord : BitVec 64) :
    Prop :=
  (left.isByteInPlace right = false →
      (left.flags link cpu right).Order leftWord.toInt rightWord.toInt) ∧
    (left.isByteInPlace right →
      0 ≤ leftWord.toInt ∧ leftWord.toInt < 256 ∧
        ((left.flags link cpu right).Order leftWord.toInt rightWord.toInt ↔
          SameByteOrder leftWord.toInt rightWord.toInt))

/-- Operands that need not be loaded are ordered as their words. -/
theorem Found.orders
    {pool : Pool}
    {left : Operand}
    (found : left.Found pool scratch)
    (stays : Emit.mustLoadLeft left right = false)
    (fits : right.isImmediate →
      ∃ number, Text.fits 32 number ∧ right.fetched link cpu = .ofInt 64 number) :
    left.Orders link cpu right (left.widened link cpu) (right.fetched link cpu) := by
  have data : ∀ {type : Ty} (address : Address), type.IsScalar →
      left = .memory address type.width →
        left.Orders link cpu right (left.widened link cpu) (right.fetched link cpu) := by
    intro type address scalar isDatum
    have narrow : type.width < 8 := by
      rcases scalar with same | same | same <;> rw [same] <;> decide
    have isImmediate : right.isImmediate = true := by
      have either := (Bool.or_eq_false_iff.mp stays).2
      simpa [isDatum, isNarrow, narrow] using either
    obtain ⟨number, inRange, constant⟩ := fits isImmediate
    by_cases isInt : type.width = 4
    · rw [isDatum, isInt]
      refine ⟨fun _ => order_dword link cpu right address inRange constant, fun inPlace => ?_⟩
      simp [isByteInPlace, width] at inPlace
    · have isByte : type.width = 1 := by
        rcases scalar with same | same | same <;> simp_all [Ty.width]
      rw [isDatum, isByte]
      have bounds := byte_bounds link cpu address
      refine ⟨fun notInPlace => ?_, fun _ => ⟨bounds.1, bounds.2, ?_⟩⟩
      · simp [isByteInPlace, isMemory, width, isImmediate] at notInPlace
      · exact order_byte_iff link cpu right address
  have words : left.width = 8 → left.widened link cpu = left.fetched link cpu →
      left.Orders link cpu right (left.widened link cpu) (right.fetched link cpu) := by
    intro isWord same
    refine ⟨fun _ => ?_, fun inPlace => ?_⟩
    · rw [same]
      exact order_of_width link cpu right isWord
    · simp [isByteInPlace, isWord] at inPlace
  cases found with
  | constant => simp [Emit.mustLoadLeft, Operand.isImmediate] at stays
  | register => exact words rfl rfl
  | slot => exact words rfl rfl
  | datum name offset scalar => exact data _ scalar rfl
  | element name scalar => exact data _ scalar rfl

end Operand

namespace Emit

open Stateful

/--
The code of a comparison of two variables. It finds operands for the variables, loads what has to be
loaded, and compares. On every processor each variable stands for one word, and conditional jumps
behind the comparison go as these two words are to each other, but for a byte that is compared where
it is.
-/
def Branches (listing : Listing) (left right : VarId) (before after : FunctionCode) : Prop :=
  ∃ (issued : List Instruction) (leftOperand rightOperand : Operand),
    after.body = before.body.addAll (issued ++ [.cmp leftOperand rightOperand]) ∧
      ∀ (link : Linkage) (bottom : Int) (cpu : Cpu), ∃ (ready : Cpu) (leftWord rightWord : BitVec 64),
        (∀ later, Line.Passes link bottom (issued.map .instruction) cpu later ↔ later = ready) ∧
          (∀ word, listing.StandsFor before.pool after.frame link cpu left word ↔ word = leftWord) ∧
          (∀ word,
            listing.StandsFor before.pool after.frame link cpu right word ↔ word = rightWord) ∧
          leftOperand.Orders link ready rightOperand leftWord rightWord

variable
    {listing : Listing}
    {left right : VarId}
    {before after : FunctionCode}

/--
Code that gives an operand of eight bytes, or a constant that an instruction can hold, for the right
side of a comparison.
-/
structure Settles (listing : Listing) (scratch : Reg) (id : VarId) (operand : Operand)
    (issued : List Instruction) (before after : FunctionCode) : Prop where
  code : after = { before with frame := after.frame, body := before.body.addAll issued }
  slots : before.frame.slots <+: after.frame.slots
  reads : operand.reads ⊆ scratch :: before.pool.heldRegs
  fits : ∀ link cpu, operand.isImmediate →
    ∃ number, Text.fits 32 number ∧ operand.fetched link cpu = .ofInt 64 number
  stands : ∀ link bottom cpu, ∃ ready,
    Instruction.performAll link bottom issued cpu = some ready ∧
      Cpu.SameBut (· = scratch) cpu ready ∧
      listing.StandsFor before.pool after.frame link cpu id (operand.fetched link ready)

theorem operable_settles
    {id : VarId}
    (comparand : listing.Comparand (fun id => (before.pool.held? id).isSome) id)
    (noPointer : scratch ≠ .rsp ∧ scratch ≠ .rbp)
    {operand : Operand}
    (run : operable listing id scratch before = .ok (operand, after)) :
    ∃ issued, Settles listing scratch id operand issued before after := by
  obtain ⟨found, between, resolved, settles⟩ := bind_ok_iff.mp run
  obtain ⟨issued, locates⟩ := resolve_locates comparand noPointer resolved
  rcases settle_ok settles with ⟨_, rfl, moves⟩ | ⟨stays, rfl, rfl⟩
  · obtain ⟨loading, rfl, performs⟩ := moveInto_performs noPointer moves
    refine ⟨issued ++ loading, ?_, locates.slots, ?_, ?_, fun link bottom cpu => ?_⟩
    · rw [locates.code, Body.addAll_append]
    · simp [Operand.reads, Operand.whole]
    · simp [Operand.isImmediate, Operand.whole]
    · obtain ⟨ready, performed, same, stands⟩ := locates.stands link bottom cpu
      refine ⟨ready.set scratch (found.widened link ready), ?_,
        same.trans (Cpu.SameBut.set ready (by rfl) _), ?_⟩
      · rw [Instruction.performAll_append, performed, Option.bind_some, performs]
      · rwa [Operand.fetched_whole, Cpu.regs_set_same]
  · obtain ⟨notNarrow, notWide⟩ := Bool.or_eq_false_iff.mp stays
    refine ⟨issued, locates.code, locates.slots, locates.found.reads_subset, ?_, ?_⟩
    · intro link cpu isImmediate
      cases locates.found with
      | @constant text number read =>
          refine ⟨number, ?_, ?_⟩
          · simpa [Operand.isWide, read] using notWide
          · simp only [Operand.fetched, read]
      | _ => cases isImmediate
    · intro link bottom cpu
      obtain ⟨ready, performed, same, stands⟩ := locates.stands link bottom cpu
      refine ⟨ready, performed, same, ?_⟩
      have word : operand.widened link ready = operand.fetched link ready := by
        unfold Operand.widened
        split
        · simp [Operand.isNarrow] at notNarrow
        · rfl
      rwa [word] at stands

/-- The registers that a comparison loads are not given to temporaries. -/
theorem scratch_not_held
    (sound : before.pool.Sound)
    {reg : Reg}
    (held : reg ∈ before.pool.heldRegs) :
    reg ≠ Reg.sourceIndex ∧ reg ≠ Reg.targetIndex ∧ reg ≠ .rax := by
  obtain ⟨⟨id, same⟩, member, rfl⟩ := List.mem_map.mp held
  have pooled : same ∈ Reg.pooled := sound.mem_pooled member
  clear held member
  show same ≠ Reg.sourceIndex ∧ same ≠ Reg.targetIndex ∧ same ≠ .rax
  revert same
  decide

/-- Both sides are found, the left one is loaded if it has to be, and they are compared. -/
theorem branches_of_parts
    {first second : FunctionCode}
    {rightOperand found leftOperand : Operand}
    {rightIssued leftIssued loading : List Instruction}
    (sound : before.pool.Sound)
    (settles : Settles listing Reg.sourceIndex right rightOperand rightIssued before first)
    (locates : Locates listing Reg.targetIndex left found leftIssued first second)
    (added : after.body = second.body.addAll (loading ++ [.cmp leftOperand rightOperand]))
    (frame : after.frame = second.frame)
    (loads : ∀ link bottom between, ∃ ready,
      Instruction.performAll link bottom loading between = some ready ∧
        Cpu.SameBut (· = .rax) between ready ∧
        leftOperand.Orders link ready rightOperand (found.widened link between)
          (rightOperand.fetched link ready)) :
    Branches listing left right before after := by
  have free := fun reg held => @scratch_not_held before sound reg held
  -- nothing that is done for the left side changes a register that the right operand reads
  have kept : ∀ reg ∈ rightOperand.reads, reg ≠ Reg.targetIndex ∧ reg ≠ .rax := by
    intro reg member
    rcases List.mem_cons.mp (settles.reads member) with rfl | held
    · decide
    · exact (free reg held).2
  refine ⟨rightIssued ++ leftIssued ++ loading, leftOperand, rightOperand, ?_, ?_⟩
  · rw [added, locates.code, settles.code]
    simp only [Body.addAll_append, List.append_assoc]
  · intro link bottom cpu
    obtain ⟨early, performed, same, rightStands⟩ := settles.stands link bottom cpu
    obtain ⟨between, performedNext, sameNext, leftStands⟩ := locates.stands link bottom early
    obtain ⟨ready, performedLast, sameLast, orders⟩ := loads link bottom between
    have samePool : first.pool = before.pool := by rw [settles.code]
    rw [samePool] at leftStands
    have rightWord : rightOperand.fetched link ready = rightOperand.fetched link early := by
      rw [Operand.fetched_of_sameBut sameLast fun reg member => (kept reg member).2,
        Operand.fetched_of_sameBut sameNext fun reg member => (kept reg member).1]
    have leftHere := leftStands.mono same.symm (fun reg held => (free reg held).1)
      (List.prefix_refl _)
    have rightHere := rightStands.mono (.refl (· = .rax) cpu) (fun reg held => (free reg held).2.2)
      locates.slots
    rw [← frame] at leftHere rightHere
    rw [rightWord] at orders
    refine ⟨ready, _, _, fun later => ?_, fun word => ⟨fun stands => stands.unique leftHere, ?_⟩,
      fun word => ⟨fun stands => stands.unique rightHere, ?_⟩, orders⟩
    · refine Instruction.passes_iff_of_performAll ?_
      simp only [Instruction.performAll_append, performed, performedNext, performedLast,
        Option.bind_some]
    · rintro rfl
      exact leftHere
    · rintro rfl
      exact rightHere

theorem compare_branches
    (sound : before.pool.Sound)
    (leftKnown : listing.Comparand (fun id => (before.pool.held? id).isSome) left)
    (rightKnown : listing.Comparand (fun id => (before.pool.held? id).isSome) right)
    (run : compare listing left right before = .ok ((), after)) :
    Branches listing left right before after := by
  obtain ⟨rightOperand, first, operates, more⟩ := bind_ok_iff.mp run
  obtain ⟨found, second, resolves, last⟩ := bind_ok_iff.mp more
  obtain ⟨leftOperand, third, moves, compares⟩ := bind_ok_iff.mp last
  obtain ⟨rightIssued, settles⟩ := operable_settles rightKnown (by decide) operates
  have samePool : first.pool = before.pool := by rw [settles.code]
  rw [← samePool] at leftKnown
  obtain ⟨leftIssued, locates⟩ := resolve_locates leftKnown (by decide) resolves
  cases ins_ok_iff.mp compares
  rcases settle_ok moves with ⟨_, rfl, loads⟩ | ⟨stays, rfl, rfl⟩
  · obtain ⟨loading, rfl, performs⟩ := moveInto_performs (by decide) loads
    have added := Body.addAll_append second.body loading [.cmp (.whole .rax) rightOperand]
    refine branches_of_parts sound settles locates added.symm rfl fun link bottom between =>
      ⟨_, performs link bottom between, Cpu.SameBut.set between (by rfl) _, fun _ => ?_, ?_⟩
    · have order := @Operand.order_of_width link
        (between.set .rax (found.widened link between)) rightOperand (.whole .rax) rfl
      rwa [Operand.fetched_whole, Cpu.regs_set_same] at order
    · intro inPlace
      cases inPlace
  · have added : third.body.add (.cmp leftOperand rightOperand) =
        third.body.addAll ([] ++ [.cmp leftOperand rightOperand]) := rfl
    refine branches_of_parts sound settles locates added rfl fun link bottom between =>
      ⟨between, rfl, .refl _ between, ?_⟩
    exact locates.found.orders link between rightOperand stays (settles.fits link between)

end Emit

variable
    {listing : Listing}

namespace Listing

/-- What can be compared once its temporaries are loaded can be compared where they are. -/
theorem Comparand.loaded
    {isLoaded : VarId → Prop}
    {id : VarId}
    (numbered : listing.Numbered)
    (comparand : listing.Comparand (fun _ => True) id)
    (loads : ∀ next, listing.Touches id next → listing.IsTemporary next → isLoaded next) :
    listing.Comparand isLoaded id := by
  induction comparand with
  | literal found storage read => exact .literal found storage read
  | named found storage scalar => exact .named found storage scalar
  | @temporary id v name scope found storage _ =>
      have fixed : listing.fixed? id = some v.fixed := by simp [fixed?, found]
      have same : v.id = id := numbered id v.fixed fixed
      have isTemporary : listing.IsTemporary id :=
        ⟨v.fixed, name, scope, fixed, Variable.fixed_temporary_iff.mpr storage⟩
      exact .temporary found storage (same ▸ loads id (.self id) isTemporary)
  | @element id array index v owner name isParam position scope found storage isArray isGlobal scalar
      _ inductionHypothesis =>
      have refers : index ∈ v.refs := by simp [Variable.refs, Storage.refs, storage]
      refine .element found storage isArray isGlobal scalar (inductionHypothesis fun next touches => ?_)
      exact loads next (.step found refers touches)

end Listing

/-- A comparison is emitted where a list of nodes has one, from some code to some other. -/
def ComparesIn (listing : Listing) (nodes : List Node) (left right : VarId)
    (before after : FunctionCode) : Prop :=
  ∃ front line back file,
    nodes = front ++ .compare left right line :: back ∧
      AssemblyFile.Takes listing front (.start listing) file ∧ file.current = some before ∧
      Emit.node listing (.compare left right line) before = .ok ((), after)

/--
Conditional jumps behind a comparison go as its sides are to each other, each as it is loaded, but
for a byte that is compared where it is. Temporaries have to be in registers when the comparison is
emitted, and in a program that is lowered they are, whether it is pruned or not.
-/
theorem comparison_branches
    {listing : Listing}
    {left right : VarId}
    {before after : FunctionCode} :
    (∀ line, before.pool.Sound →
        listing.Comparand (fun id => (before.pool.held? id).isSome) left →
        listing.Comparand (fun id => (before.pool.held? id).isSome) right →
        Emit.node listing (.compare left right line) before = .ok ((), after) →
        Emit.Branches listing left right before after) ∧
      ∀ (program : Program) (pruned : Pruned), program.lower = .ok listing →
        (pruned = .whole listing ∨ pruned = .ofListing listing) →
        ComparesIn listing pruned.nodes left right before after →
        listing.Comparand (fun _ => True) left → listing.Comparand (fun _ => True) right →
        Emit.Branches listing left right before after := by
  have atNode : ∀ line, before.pool.Sound →
      listing.Comparand (fun id => (before.pool.held? id).isSome) left →
      listing.Comparand (fun id => (before.pool.held? id).isSome) right →
      Emit.node listing (.compare left right line) before = .ok ((), after) →
      Emit.Branches listing left right before after :=
    fun line sound leftKnown rightKnown emitted =>
      Emit.compare_branches sound leftKnown rightKnown (Emit.atLine_ok_iff.mp emitted)
  refine ⟨atNode, fun program pruned lowered choice compares leftKnown rightKnown => ?_⟩
  obtain ⟨front, line, back, file, isNodes, taken, isOpen, emitted⟩ := compares
  obtain ⟨declared, last, parts, row⟩ := Lower.lower_row lowered
  have provides := (Lower.lowered_nodes_provided lowered choice).2.1 front _ back file isNodes taken
  have start : (AssemblyFile.start listing).Sound := fun _ isOpen => by cases isOpen
  have held : ∀ id ∈ (Node.compare left right line).uses, ∀ next, listing.Touches id next →
      listing.IsTemporary next → (before.pool.held? next).isSome := by
    intro id member next touches isTemporary
    rcases provides.registers before isOpen id member next touches isTemporary with
      ⟨⟨_, isDeclare⟩, _⟩ | ⟨_, held⟩
    · cases isDeclare
    · exact held
  exact atNode line (start.takes taken before isOpen)
    (leftKnown.loaded row.numbered (held left (by simp [Node.uses, Node.operands])))
    (rightKnown.loaded row.numbered (held right (by simp [Node.uses, Node.operands]))) emitted

/-- A main function that compares a byte of data with a constant. -/
def byteProgram : Program :=
  let isGreater : Comparison := ⟨2, .name 2 "c", some .greater, some (.literal 2 (.scalar .int "100"))⟩
  { file := "t.ils"
    statements := [
      .declare 1 "c" .char none,
      .function 2 "main" [] .absent 2 [.choose 2 (some ⟨2, [isGreater], []⟩) 2 [] .none]] }

/-- The comparison at a position, with the code in front of it and behind it. -/
def comparedAt? (listing : Listing) (nodes : List Node) (position : Nat) :
    Option (VarId × VarId × FunctionCode × FunctionCode) := do
  let file ← (nodes.take position).foldlM
    (fun file node => (file.step listing node).toOption) (AssemblyFile.start listing)
  let before ← file.current
  let node ← nodes[position]?
  match node with
  | .compare left right line =>
      match Emit.node listing (.compare left right line) before with
      | .ok (_, after) => some (left, right, before, after)
      | .error _ => none
  | _ => none

theorem ComparesIn.of_comparedAt?
    {nodes : List Node}
    {position : Nat}
    {left right : VarId}
    {before after : FunctionCode}
    (found : comparedAt? listing nodes position = some (left, right, before, after)) :
    ComparesIn listing nodes left right before after := by
  simp only [comparedAt?, Option.bind_eq_bind, Option.bind_eq_some_iff] at found
  obtain ⟨file, run, code, isOpen, node, isNode, found⟩ := found
  split at found
  next first second line =>
    split at found
    next emitted =>
      cases found
      obtain ⟨_, isCompare⟩ := List.getElem?_eq_some_iff.mp isNode
      refine ⟨nodes.take position, line, nodes.drop (position + 1), file, ?_,
        AssemblyFile.takes_of_foldlM run, isOpen, emitted⟩
      rw [← isCompare, List.getElem_cons_drop, List.take_append_drop]
    · cases found
  · cases found

theorem flags_of_byte
    (link : Linkage)
    (cpu : Cpu)
    {byte : BitVec 8}
    (isByte : cpu.memory (link.address "c") = byte) :
    (Operand.memory (.symbol "c" none) 1).flags link cpu (.immediate "100") =
      .ofDifference byte 100 := by
  have number : Text.integer? 64 "100" = some 100 := by decide +kernel
  have cut : (BitVec.ofNat 64 byte.toNat).setWidth (8 * 1) = byte := by
    rw [BitVec.ofNat_toNat, BitVec.setWidth_setWidth_of_le _ (by decide)]
    exact BitVec.setWidth_eq byte
  simp only [Operand.flags, Operand.fetched, Operand.width, number, Address.place, Option.getD_none,
    Int.add_zero, Memory.number, isByte, Nat.mul_zero, Nat.add_zero, cut]
  rfl

/-- A byte of 200 is more than the constant 100, but the jump for this is not taken. -/
theorem byteProgram_branches :
    ∃ listing left right before after,
      byteProgram.lower = .ok listing ∧
        ComparesIn listing (Pruned.ofListing listing).nodes left right before after ∧
        Emit.Branches listing left right before after ∧
        after.body.lines.toList = before.body.lines.toList ++
          [.instruction (.cmp (.memory (.symbol "c" none) 1) (.immediate "100"))] ∧
        ∀ link cpu, cpu.memory (link.address "c") = 200 →
          listing.StandsFor before.pool after.frame link cpu left 200 ∧
            listing.StandsFor before.pool after.frame link cpu right 100 ∧
            ((Operand.memory (.symbol "c" none) 1).flags link cpu (.immediate "100")).takes
              (Instruction.jumpMnemonic (some .greater)) = false := by
  have compared : (byteProgram.lower.toOption.bind fun listing =>
      (comparedAt? listing (Pruned.ofListing listing).nodes 6).map fun (left, right, before, after) =>
        (listing.lookup? left, listing.lookup? right,
          before.body.lines.toList.isPrefixOf after.body.lines.toList,
          after.body.lines.toList.drop before.body.lines.size)) =
      some (some ⟨1, .char, .literal "0", false, some 6, .named "c" true false 0 0⟩,
        some ⟨2, .int, .literal "100", false, some 6, .literal⟩, true,
        [.instruction (.cmp (.memory (.symbol "c" none) 1) (.immediate "100"))]) := by
    decide +kernel
  have number : Text.integer? 64 "100" = some 100 := by decide +kernel
  obtain ⟨listing, isListing, compared⟩ := Option.bind_eq_some_iff.mp compared
  obtain ⟨⟨left, right, before, after⟩, found, compared⟩ := Option.map_eq_some_iff.mp compared
  obtain ⟨isLeft, isRight, isPrefix, isBehind⟩ : listing.lookup? left = _ ∧
      listing.lookup? right = _ ∧ _ ∧ _ := by simpa only [Prod.mk.injEq] using compared
  have lowered : byteProgram.lower = .ok listing := by
    cases run : byteProgram.lower with
    | error failure => simp [run, Except.toOption] at isListing
    | ok other => simpa [run, Except.toOption] using isListing
  have compares := ComparesIn.of_comparedAt? found
  refine ⟨listing, left, right, before, after, lowered, compares, ?_, ?_, fun link cpu isByte => ?_⟩
  · exact comparison_branches.2 byteProgram _ lowered (.inr rfl) compares
      (.named isLeft rfl (.inr (.inl rfl))) (.literal isRight rfl number)
  · obtain ⟨behind, same⟩ := List.isPrefixOf_iff_prefix.mp isPrefix
    rw [← same, ← Array.length_toList, List.drop_left] at isBehind
    rw [← same, isBehind]
  · refine ⟨?_, .literal isRight rfl number, ?_⟩
    · have word : (Operand.memory (.symbol "c" none) 1).widened link cpu = 200 := by
        rw [Operand.widened_of_ne_four link cpu _ (by decide), Operand.fetched, Address.place,
          Option.getD_none, Int.add_zero, Memory.number, isByte]
        rfl
      rw [← word]
      exact .datum isLeft rfl
    · rw [flags_of_byte link cpu isByte]
      decide

end IlsCompiler
