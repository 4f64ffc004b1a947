import IlsCompiler.Proofs.Assembly.SavedRegisters

namespace IlsCompiler

/-!
# Walks through code

A walk goes through the lines of a function as a processor does that runs the function. At a
conditional jump it may go either way, and a call of another function of the program walks through
that function up to its return. What the results of divisions and system calls are is left open,
and an instruction whose effect is not described may leave anything behind. A write to an element
goes to data: a walk ends where an index has led out of the array into the stack.
-/

variable
    {address : Int}

namespace Memory

theorem write_outside
    (memory : Memory)
    {address place : Int}
    {width : Nat}
    (word : BitVec 64)
    (outside : place < address ∨ address + width ≤ place) :
    memory.write address width word place = memory place := by
  have notInside : ¬(address ≤ place ∧ place < address + width) := by omega
  simp [write, notInside]

theorem store_outside
    (memory : Memory)
    {address place : Int}
    (word : BitVec 64)
    (outside : place < address ∨ address + 8 ≤ place) :
    memory.store address word place = memory place :=
  @write_outside memory address place 8 word outside

theorem word_of_same
    {memory other : Memory}
    (same : ∀ place, address ≤ place → place < address + 8 → memory place = other place) :
    memory.word address = other.word address := by
  rw [word, word, number_congr same]

end Memory

/-- Data that is addressed by a symbol lies outside the stack, which ends at the bottom. -/
def Address.OffStack (link : Linkage) (bottom : Int) (cpu : Cpu) (width : Nat) : Address → Prop
  | .frame _ => True
  | address => address.place link cpu + width ≤ cpu.top ∨ bottom ≤ address.place link cpu

/-- A word is put into a register, if that is none of the two pointers. -/
def Cpu.Puts (cpu later : Cpu) (reg : Reg) (word : BitVec 64) : Prop :=
  ∀ known, cpu.put reg word = some known → later = known

variable
    {reg : Reg}

theorem Cpu.Puts.eq_set
    {cpu later : Cpu}
    {word : BitVec 64}
    (puts : cpu.Puts later reg word)
    (noPointer : reg ≠ .rsp ∧ reg ≠ .rbp) :
    later = cpu.set reg word :=
  puts _ (by simp [put, noPointer])

namespace Instruction

/-- Whether the next line follows an instruction without anything happening in between. -/
def runsOn : Instruction → Bool
  | .jump _ _ => false
  | .call _ => false
  | .ret => false
  | _ => true

/-- What running an instruction can do to the processor. -/
def Executes (link : Linkage) (bottom : Int) (cpu later : Cpu) : Instruction → Prop
  | .push (.register .rbp 8) =>
      ∃ word : BitVec 64, (word.toNat : Int) = cpu.base ∧ later = cpu.push word
  | .pop .rbp =>
      later = { cpu with top := cpu.top + 8, base := (cpu.memory.word cpu.top).toNat }
  | .mov (.register .rbp 8) (.register .rsp 8) => later = { cpu with base := cpu.top }
  | .mov (.register .rsp 8) (.register .rbp 8) => later = { cpu with top := cpu.base }
  | .lea .rsp (.frame offset) => later = { cpu with top := cpu.base + offset }
  | .mov (.memory address width) source =>
      address.OffStack link bottom cpu width ∧
        later =
          { cpu with
            memory := cpu.memory.write (address.place link cpu) width (source.fetched link cpu) }
  | .imul (.register reg 8) source =>
      cpu.Puts later reg (cpu.regs reg * source.fetched link cpu)
  | .cmp _ _ => later = cpu
  | .cqo => ∃ word, later = cpu.set .rdx word
  | .idiv _ => ∃ quotient remainder, later = (cpu.set .rax quotient).set .rdx remainder
  | .syscall => ∃ result next flags, later = ((cpu.set .rax result).set .rcx next).set .r11 flags
  | .add (.register reg 8) source =>
      if reg = .rsp then
        ∀ known, (Issue.plain (.add (.whole .rsp) source)).execute link cpu = some known →
          later = known
      else
        cpu.Puts later reg (cpu.regs reg + source.fetched link cpu)
  | .sub (.register reg 8) source =>
      if reg = .rsp then
        ∀ known, (Issue.plain (.sub (.whole .rsp) source)).execute link cpu = some known →
          later = known
      else
        cpu.Puts later reg (cpu.regs reg - source.fetched link cpu)
  | other => ∀ known, (Issue.plain other).execute link cpu = some known → later = known

end Instruction

/-- Lines without jumps and calls have been run one after the other. -/
inductive Line.Passes (link : Linkage) (bottom : Int) : List Line → Cpu → Cpu → Prop
  | nil (cpu : Cpu) : Passes link bottom [] cpu cpu
  | skip {line : Line} {rest : List Line} {cpu later : Cpu} :
      (∀ written, line ≠ .instruction written) → Passes link bottom rest cpu later →
        Passes link bottom (line :: rest) cpu later
  | step {written : Instruction} {rest : List Line} {cpu between later : Cpu} :
      written.Executes link bottom cpu between → Passes link bottom rest between later →
        Passes link bottom (.instruction written :: rest) cpu later

namespace Line.Passes

variable
    {link : Linkage}
    {bottom : Int}
    {first second : List Line}
    {cpu between later : Cpu}

theorem append_iff :
    Passes link bottom (first ++ second) cpu later ↔
      ∃ between, Passes link bottom first cpu between ∧ Passes link bottom second between later := by
  constructor
  · intro passes
    induction first generalizing cpu with
    | nil => exact ⟨cpu, .nil cpu, passes⟩
    | cons line rest inductionHypothesis =>
        cases passes with
        | skip noInstruction others =>
            obtain ⟨between, earlier, more⟩ := inductionHypothesis others
            exact ⟨between, .skip noInstruction earlier, more⟩
        | step executes others =>
            obtain ⟨between, earlier, more⟩ := inductionHypothesis others
            exact ⟨between, .step executes earlier, more⟩
  · rintro ⟨between, earlier, more⟩
    induction earlier with
    | nil => exact more
    | skip noInstruction _ inductionHypothesis => exact .skip noInstruction (inductionHypothesis more)
    | step executes _ inductionHypothesis => exact .step executes (inductionHypothesis more)

theorem singleton_iff
    {written : Instruction} :
    Passes link bottom [.instruction written] cpu later ↔
      written.Executes link bottom cpu later := by
  constructor
  · intro passes
    cases passes with
    | skip noInstruction _ => exact (noInstruction written rfl).elim
    | step executes others =>
        cases others
        exact executes
  · exact fun executes => .step executes (.nil later)

/-- Where what instructions do is fixed, passing them is running them. -/
theorem eq_of_run
    {issued : List Issue}
    (fixed : ∀ issue ∈ issued, ∀ {cpu later known : Cpu},
      issue.instruction.Executes link bottom cpu later → issue.execute link cpu = some known →
        later = known)
    {known : Cpu}
    (passes : Passes link bottom (issued.map fun issue => .instruction issue.instruction) cpu later)
    (runs : Issue.run link issued cpu = some known) :
    later = known := by
  induction issued generalizing cpu with
  | nil =>
      cases passes
      simpa [Issue.run] using runs
  | cons issue rest inductionHypothesis =>
      obtain ⟨between, executed, more⟩ := Option.bind_eq_some_iff.mp runs
      cases passes with
      | skip noInstruction _ => exact (noInstruction issue.instruction rfl).elim
      | step executes others =>
          cases fixed issue (by simp) executes executed
          exact inductionHypothesis (fun other member => fixed other (by simp [member])) others more

end Line.Passes

/-!
## What the middle of a function leaves alone

Between its prologue and its epilogue a function writes to its locals, to its parameters, to the
stack below everything the prologue saved, and to data. So what the prologue saved is still there
at the epilogue, and so is everything that lies above the parameters.
-/

/--
What is known about the frame of a function: the slots given to locals, the bytes below the frame
pointer, the registers saved below those, the number of parameters, and where the stack ends.
-/
structure Layout where
  slots : Nat
  size : Nat
  saved : List Reg
  params : Nat
  bottom : Int

namespace Layout

/-- The stack pointer when nothing is pushed, at a distance from the frame pointer. -/
def floor (layout : Layout) : Int :=
  -((layout.size + 8 * layout.saved.length : Nat) : Int)

/--
The places, given by the frame pointer, that hold saved registers, the saved frame pointer and the
return address, or lie above the parameters.
-/
def Protects (layout : Layout) (base place : Int) : Prop :=
  (base + layout.floor ≤ place ∧ place < base - layout.size) ∨
    (base ≤ place ∧ place < base + 16) ∨
    (base + 16 + 8 * (layout.params : Int) ≤ place ∧ place < layout.bottom)

/-- Locals have room below the frame pointer, and the frame lies inside the stack. -/
structure Holds (layout : Layout) (base : Int) : Prop where
  room : 8 * layout.slots ≤ layout.size
  inside : base + 16 ≤ layout.bottom

end Layout

/--
The frame pointer, the preserved registers that are not saved and the protected places are as they
were.
-/
structure Cpu.Shelters (layout : Layout) (start cpu : Cpu) : Prop where
  base : cpu.base = start.base
  regs : ∀ reg ∈ Reg.preservedPool, reg ∉ layout.saved → cpu.regs reg = start.regs reg
  memory : ∀ place, layout.Protects start.base place → cpu.memory place = start.memory place

namespace Cpu.Shelters

variable
    {layout : Layout}
    {start cpu later : Cpu}

theorem refl
    (layout : Layout)
    (cpu : Cpu) :
    Shelters layout cpu cpu :=
  ⟨rfl, fun _ _ _ => rfl, fun _ _ => rfl⟩

theorem trans
    {third : Cpu}
    (earlier : Shelters layout start cpu)
    (next : Shelters layout cpu third) :
    Shelters layout start third where
  base := next.base.trans earlier.base
  regs := fun reg preserved unsaved =>
    (next.regs reg preserved unsaved).trans (earlier.regs reg preserved unsaved)
  memory := fun place isProtected =>
    (next.memory place (earlier.base ▸ isProtected)).trans (earlier.memory place isProtected)

/-- A register is written that is saved or need not be preserved. -/
theorem set
    (free : reg ∈ Reg.preservedPool → reg ∈ layout.saved)
    (cpu : Cpu)
    (word : BitVec 64) :
    Shelters layout cpu (cpu.set reg word) := by
  refine ⟨rfl, fun other preserved unsaved => ?_, fun _ _ => rfl⟩
  exact Cpu.regs_set_of_ne _ _ _ (by rintro rfl; exact unsaved (free preserved))

/-- The stack pointer is none of the registers that are sheltered. -/
theorem of_top
    (layout : Layout)
    (cpu : Cpu)
    (top : Int) :
    Shelters layout cpu { cpu with top := top } :=
  ⟨rfl, fun _ _ _ => rfl, fun _ _ => rfl⟩

/-- Memory is written at places that are not protected. -/
theorem write
    {width : Nat}
    (free : ∀ place, layout.Protects cpu.base place → place < address ∨ address + width ≤ place)
    (word : BitVec 64) :
    Shelters layout cpu { cpu with memory := cpu.memory.write address width word } :=
  ⟨rfl, fun _ _ _ => rfl, fun place isProtected =>
    Memory.write_outside _ _ (free place isProtected)⟩

/-- Words are pushed below what is protected. -/
theorem push
    (holds : layout.Holds cpu.base)
    (below : cpu.top ≤ cpu.base + layout.floor)
    (word : BitVec 64) :
    Shelters layout cpu (cpu.push word) := by
  refine ⟨rfl, fun _ _ _ => rfl, fun place isProtected => Memory.store_outside _ _ (.inr ?_)⟩
  have room := holds.room
  rcases isProtected with ⟨above, _⟩ | ⟨above, _⟩ | ⟨above, _⟩ <;>
    simp only [Layout.floor] at below above <;> omega

end Cpu.Shelters

namespace Instruction

variable
    {link : Linkage}
    {bottom : Int}
    {cpu later : Cpu}
    {source : Operand}
    {next : Instruction}

/-- An instruction that computes into a register changes that register. -/
theorem Executes.of_computes
    (noPointer : reg ≠ .rsp ∧ reg ≠ .rbp)
    (member : next ∈ computations reg source)
    (executes : next.Executes link bottom cpu later) :
    ∃ word, later = cpu.set reg word := by
  have puts : ∀ word, cpu.put reg word = some (cpu.set reg word) := by
    intro word
    simp [Cpu.put, noPointer]
  simp only [computations, List.mem_cons, List.not_mem_nil, or_false] at member
  rcases member with rfl | rfl | rfl | rfl | rfl | rfl | rfl
  · refine ⟨source.fetched link cpu, ?_⟩
    have known := puts (source.fetched link cpu)
    cases reg <;> first | exact absurd rfl noPointer.1 | exact absurd rfl noPointer.2 |
      exact executes _ known
  · exact ⟨_, executes _ (puts _)⟩
  · exact ⟨_, executes _ (puts _)⟩
  · simp only [Executes, Operand.whole, noPointer.1, ↓reduceIte] at executes
    exact ⟨_, executes.eq_set noPointer⟩
  · simp only [Executes, Operand.whole, noPointer.1, ↓reduceIte] at executes
    exact ⟨_, executes.eq_set noPointer⟩
  · exact ⟨_, Cpu.Puts.eq_set executes noPointer⟩
  · exact ⟨_, executes _ (puts _)⟩

/-- A push stores some word below the stack pointer. -/
theorem Executes.of_push
    (executes : (Instruction.push source).Executes link bottom cpu later) :
    ∃ word, later = cpu.push word := by
  unfold Executes at executes
  split at executes
  next =>
    obtain ⟨word, _, same⟩ := executes
    exact ⟨word, same⟩
  all_goals first | contradiction | exact ⟨_, executes _ rfl⟩

/-- A pop takes a word from the stack. -/
theorem Executes.of_pop
    (noPointer : reg ≠ .rsp ∧ reg ≠ .rbp)
    (executes : (Instruction.pop reg).Executes link bottom cpu later) :
    later = { cpu with top := cpu.top + 8 }.set reg (cpu.memory.word cpu.top) := by
  have pops : cpu.pop reg = some ({ cpu with top := cpu.top + 8 }.set reg (cpu.memory.word cpu.top)) := by
    simp [Cpu.pop, Cpu.put, noPointer]
  cases reg <;> first | exact absurd rfl noPointer.1 | exact absurd rfl noPointer.2 |
    exact executes _ pops

/-- What an instruction that pushes words by computing does to the stack pointer. -/
theorem Executes.of_adjust
    {words : Int}
    (member : next ∈ computations .rsp source)
    (pushes : next.pushes? = some words)
    (executes : next.Executes link bottom cpu later) :
    later = { cpu with top := cpu.top - 8 * words } := by
  have whole : ∀ {text : String} {count : Int}, words? text = some count →
      ∃ bytes, Text.readSigned? text.toList = some bytes ∧ bytes = 8 * count := by
    intro text count counted
    obtain ⟨bytes, read, isWhole⟩ := Option.bind_eq_some_iff.mp counted
    split at isWhole
    next divides =>
      simp only [StackFrame.slotSize, Option.some.injEq] at divides isWhole
      exact ⟨bytes, read, by omega⟩
    next => cases isWhole
  simp only [computations, List.mem_cons, List.not_mem_nil, or_false] at member
  rcases member with rfl | rfl | rfl | rfl | rfl | rfl | rfl
  · simp [pushes?, writesPointer, target?, Operand.whole] at pushes
  · simp [pushes?, writesPointer, target?] at pushes
  · simp [pushes?, writesPointer, target?] at pushes
  · cases source with
    | immediate text =>
        obtain ⟨count, counted, rfl⟩ := Option.map_eq_some_iff.mp pushes
        obtain ⟨bytes, read, rfl⟩ := whole counted
        have known : (Issue.plain (.add (.whole .rsp) (.immediate text))).execute link cpu =
            some { cpu with top := cpu.top + 8 * count } := by
          show (Text.readSigned? text.toList).map _ = _
          rw [read]
          rfl
        rw [executes _ known]
        simp only [Cpu.mk.injEq, and_self, and_true]
        omega
    | _ => simp [pushes?, writesPointer, target?, Operand.whole] at pushes
  · cases source with
    | immediate text =>
        obtain ⟨bytes, read, rfl⟩ := whole pushes
        have known : (Issue.plain (.sub (.whole .rsp) (.immediate text))).execute link cpu =
            some { cpu with top := cpu.top - 8 * words } := by
          show (Text.readSigned? text.toList).map _ = _
          rw [read]
          rfl
        exact executes _ known
    | _ => simp [pushes?, writesPointer, target?, Operand.whole] at pushes
  · simp [pushes?, writesPointer, target?, Operand.whole] at pushes
  · simp [pushes?, writesPointer, target?, Operand.whole] at pushes

/-- The register that a computation writes is none of the pointers, unless it only pushes. -/
theorem noPointer_of_pushes
    {words : Int}
    (member : next ∈ computations reg source)
    (pushes : next.pushes? = some words)
    (other : reg ≠ .rsp) :
    next.target? = some reg ∧ reg ≠ .rbp ∧ words = 0 := by
  simp only [computations, List.mem_cons, List.not_mem_nil, or_false] at member
  have isTarget : next.target? = some reg := by
    rcases member with rfl | rfl | rfl | rfl | rfl | rfl | rfl <;> rfl
  have general : next.pushes? = if next.writesPointer then none else some 0 := by
    rcases member with rfl | rfl | rfl | rfl | rfl | rfl | rfl
    · rfl
    · rfl
    · rfl
    · cases reg <;> first | exact absurd rfl other | rfl
    · cases reg <;> first | exact absurd rfl other | rfl
    · rfl
    · rfl
  rw [general] at pushes
  split at pushes
  · cases pushes
  next plain =>
    cases pushes
    simp only [writesPointer, isTarget, Bool.or_eq_true, decide_eq_true_eq, Option.some.injEq,
      not_or] at plain
    exact ⟨isTarget, plain.2, rfl⟩

/-- An instruction that fits where it stands shelters what it has to. -/
theorem Fits.shelters
    {permitted : Permitted}
    {layout : Layout}
    {level words : Int}
    {next : Instruction}
    (fits : next.Fits permitted layout.slots layout.saved level)
    (owned : ∀ position, permitted.parameters position → position < layout.params)
    (holds : layout.Holds cpu.base)
    (top : cpu.top = cpu.base + layout.floor - 8 * level)
    (deep : 0 ≤ level)
    (pushes : next.pushes? = some words)
    (runsOn : next.runsOn)
    (executes : next.Executes link layout.bottom cpu later) :
    cpu.Shelters layout later ∧ later.top = cpu.top - 8 * words := by
  have room := holds.room
  have inside := holds.inside
  cases fits.common with
  | @compute reg source _ member =>
      by_cases isTop : reg = .rsp
      · subst isTop
        rw [executes.of_adjust member pushes]
        exact ⟨.of_top layout cpu _, rfl⟩
      · obtain ⟨isTarget, notBase, rfl⟩ := noPointer_of_pushes member pushes isTop
        obtain ⟨word, rfl⟩ := executes.of_computes ⟨isTop, notBase⟩ member
        exact ⟨.set (fun preserved => fits.targets reg preserved isTarget) cpu word, by simp⟩
  | store address width source =>
      obtain ⟨offStack, rfl⟩ := executes
      obtain rfl : words = 0 := by
        simpa [pushes?, writesPointer, target?, eq_comm] using pushes
      refine ⟨.write (fun place isProtected => ?_) _, by simp⟩
      have inFrame := fits.operands (.memory address width) (by simp [Instruction.operands])
      cases address with
      | frame offset =>
          obtain ⟨rfl, ⟨number, inSlots, isSlot⟩ | ⟨position, isParameter⟩⟩ := inFrame
          · simp only [StackFrame.slotAddress, StackFrame.slotSize, Address.frame.injEq] at isSlot
            simp only [Layout.Protects, Layout.floor] at isProtected
            simp only [Address.place, StackFrame.slotSize]
            omega
          · have isOwned := owned position
              (fits.stores position StackFrame.slotSize source (by rw [isParameter]))
            simp only [StackFrame.parameterAddress, StackFrame.slotSize,
              Address.frame.injEq] at isParameter
            simp only [Layout.Protects, Layout.floor] at isProtected
            simp only [Address.place, StackFrame.slotSize]
            omega
      | symbol name offset =>
          simp only [Address.OffStack] at offStack
          simp only [Layout.Protects, Layout.floor] at isProtected top
          omega
      | indexed name index scale =>
          simp only [Address.OffStack] at offStack
          simp only [Layout.Protects, Layout.floor] at isProtected top
          omega
  | cmp left right =>
      cases executes
      obtain rfl : words = 0 := by
        simpa [pushes?, writesPointer, target?, eq_comm] using pushes
      exact ⟨.refl layout cpu, by simp⟩
  | cqo =>
      obtain ⟨word, rfl⟩ := executes
      obtain rfl : words = 0 := by
        simpa [pushes?, writesPointer, target?, eq_comm] using pushes
      exact ⟨.set (fun preserved => absurd preserved (by decide)) _ _, by simp⟩
  | idiv divisor =>
      obtain ⟨quotient, remainder, rfl⟩ := executes
      obtain rfl : words = 0 := by
        simpa [pushes?, writesPointer, target?, eq_comm] using pushes
      have first : cpu.Shelters layout (cpu.set .rax quotient) :=
        .set (fun preserved => absurd preserved (by decide)) _ _
      exact ⟨first.trans (.set (fun preserved => absurd preserved (by decide)) _ _), by simp⟩
  | syscall =>
      obtain ⟨result, behind, flags, rfl⟩ := executes
      obtain rfl : words = 0 := by
        simpa [pushes?, writesPointer, target?, eq_comm] using pushes
      have first : cpu.Shelters layout (cpu.set .rax result) :=
        .set (fun preserved => absurd preserved (by decide)) _ _
      have second : (cpu.set .rax result).Shelters layout ((cpu.set .rax result).set .rcx behind) :=
        .set (fun preserved => absurd preserved (by decide)) _ _
      exact ⟨(first.trans second).trans (.set (fun preserved => absurd preserved (by decide)) _ _),
        by simp⟩
  | push source =>
      obtain ⟨word, rfl⟩ := executes.of_push
      cases pushes
      exact ⟨.push holds (by omega) word, by simp [Cpu.push]⟩
  | pop reg =>
      simp only [pushes?] at pushes
      split at pushes
      · cases pushes
      next noPointer =>
        cases pushes
        rw [executes.of_pop (by simpa using noPointer)]
        have first := Cpu.Shelters.of_top layout cpu (cpu.top + 8)
        refine ⟨first.trans (.set (fun preserved => fits.targets reg preserved rfl) _ _), ?_⟩
        simp only [Cpu.top_set]
        omega
  | call name => cases runsOn
  | jump condition label => cases runsOn

end Instruction

end IlsCompiler
