import IlsCompiler.Proofs.Assembly.Peephole

namespace IlsCompiler

/-!
# A processor with a stack and calls

The code around a call works on registers and on the stack, and the routine that is called works
on both as well. Here memory has a byte at every address and a call is whatever a routine that
keeps to the calling convention does. Running the lines that are left of code is still running
all of it.
-/

/-- Memory: a byte at every address. -/
abbrev Memory := Int → BitVec 8

namespace Memory

/-- The number in some bytes from an address on, the lowest byte first. -/
def number (memory : Memory) (address : Int) : Nat → Nat
  | 0 => 0
  | bytes + 1 => (memory address).toNat + 256 * number memory (address + 1) bytes

/-- The word at an address. -/
def word (memory : Memory) (address : Int) : BitVec 64 :=
  .ofNat 64 (memory.number address 8)

/-- Memory with a word written at an address. -/
def store (memory : Memory) (address : Int) (word : BitVec 64) : Memory :=
  fun place =>
    if address ≤ place ∧ place < address + 8 then
      .ofNat 8 (word.toNat / 256 ^ (place - address).toNat)
    else
      memory place

variable
    {memory other : Memory}
    {address : Int}

theorem number_congr
    {bytes : Nat}
    (same : ∀ place, address ≤ place → place < address + bytes → memory place = other place) :
    memory.number address bytes = other.number address bytes := by
  induction bytes generalizing address with
  | zero => rfl
  | succ bytes inductionHypothesis =>
      rw [number, number, same address (by omega) (by omega), inductionHypothesis]
      intro place above below
      exact same place (by omega) (by push_cast; omega)

theorem word_congr
    (same : ∀ place, address ≤ place → memory place = other place) :
    memory.word address = other.word address := by
  rw [word, word, number_congr fun place above _ => same place above]

/-- Memory with the lowest bytes of a word written at an address. -/
def write (memory : Memory) (address : Int) (width : Nat) (word : BitVec 64) : Memory :=
  fun place =>
    if address ≤ place ∧ place < address + width then
      .ofNat 8 (word.toNat / 256 ^ (place - address).toNat)
    else
      memory place

/-- What is written can be read back, also in part. -/
theorem number_write
    (memory : Memory)
    (address : Int)
    (word : BitVec 64)
    {width start bytes : Nat}
    (within : start + bytes ≤ width) :
    (memory.write address width word).number (address + start) bytes =
      word.toNat / 256 ^ start % 256 ^ bytes := by
  induction bytes generalizing start with
  | zero => simp [number, Nat.mod_one]
  | succ bytes inductionHypothesis =>
      have inside : address ≤ address + (start : Int) ∧
          address + (start : Int) < address + width := by
        omega
      have rest := @inductionHypothesis (start + 1) (by omega)
      rw [show address + ((start + 1 : Nat) : Int) = address + start + 1 by omega] at rest
      have isByte : (memory.write address width word (address + start)).toNat =
          word.toNat / 256 ^ start % 256 := by
        have distance : (address + (start : Int) - address).toNat = start := by omega
        simp only [write, inside, and_self, ↓reduceIte, distance, BitVec.toNat_ofNat,
          Nat.reducePow]
      rw [number, rest, isByte, Nat.pow_succ, ← Nat.div_div_eq_div_mul, Nat.pow_succ',
        Nat.mod_mul]

@[simp] theorem word_store
    (memory : Memory)
    (address : Int)
    (written : BitVec 64) :
    (memory.store address written).word address = written := by
  have whole : (memory.store address written).number (address + (0 : Nat)) 8 = _ :=
    @number_write memory address written 8 0 8 (by omega)
  have inRange := written.isLt
  rw [Int.natCast_zero, Int.add_zero, Nat.pow_zero, Nat.div_one,
    Nat.mod_eq_of_lt (by simpa using inRange)] at whole
  rw [word, whole, BitVec.ofNat_toNat, BitVec.setWidth_eq]

theorem store_above
    (memory : Memory)
    {address place : Int}
    (written : BitVec 64)
    (above : address + 8 ≤ place) :
    memory.store address written place = memory place := by
  have outside : ¬(address ≤ place ∧ place < address + 8) := by omega
  simp [store, outside]

end Memory

/--
The state of the processor: the stack pointer, the frame pointer, the other registers, and the
memory.
-/
structure Cpu where
  top : Int
  base : Int
  regs : Reg → BitVec 64
  memory : Memory

/--
What code is linked with: where symbols lie, and what a call does to the processor until the
routine has returned. The number is that of the words passed to the routine on the stack.
-/
structure Linkage where
  address : String → Int
  routine : String → Nat → Cpu → Cpu

/-- The registers that a routine may change. -/
def Reg.callerSaved : List Reg :=
  [.rax, .rcx, .rdx, .rsi, .rdi, .r8, .r9, .r10, .r11]

/--
Routines keep to the calling convention. They return with the stack pointer past the return
address, so where it was in front of the call, and above it they change nothing but the words
that were passed to them.
-/
structure Linkage.Keeps (link : Linkage) : Prop where
  top : ∀ name passed cpu, (link.routine name passed cpu).top = cpu.top
  base : ∀ name passed cpu, (link.routine name passed cpu).base = cpu.base
  regs : ∀ name passed cpu, ∀ reg ∉ Reg.callerSaved,
    (link.routine name passed cpu).regs reg = cpu.regs reg
  memory : ∀ name (passed : Nat) (cpu : Cpu) (place : Int), cpu.top + 8 * (passed : Int) ≤ place →
    (link.routine name passed cpu).memory place = cpu.memory place

namespace Cpu

/-- Change a register. -/
def set (cpu : Cpu) (reg : Reg) (word : BitVec 64) : Cpu :=
  { cpu with regs := fun other => if other = reg then word else cpu.regs other }

/-- Change a register that is none of the two pointers. -/
def put (cpu : Cpu) (reg : Reg) (word : BitVec 64) : Option Cpu :=
  if reg = .rsp ∨ reg = .rbp then none else some (cpu.set reg word)

/-- Push a word. -/
def push (cpu : Cpu) (word : BitVec 64) : Cpu :=
  { cpu with top := cpu.top - 8, memory := cpu.memory.store (cpu.top - 8) word }

/-- Pop a word into a register. -/
def pop (cpu : Cpu) (reg : Reg) : Option Cpu :=
  { cpu with top := cpu.top + 8 }.put reg (cpu.memory.word cpu.top)

section Registers

variable
    (cpu : Cpu)
    (reg : Reg)
    (word : BitVec 64)

@[simp] theorem top_set :
    (cpu.set reg word).top = cpu.top :=
  rfl

@[simp] theorem memory_set :
    (cpu.set reg word).memory = cpu.memory :=
  rfl

@[simp] theorem regs_set_same :
    (cpu.set reg word).regs reg = word := by
  simp [set]

@[simp] theorem regs_set_of_ne
    {other : Reg}
    (apart : other ≠ reg) :
    (cpu.set reg word).regs other = cpu.regs other := by
  simp [set, apart]

@[simp] theorem set_set
    (later : BitVec 64) :
    (cpu.set reg word).set reg later = cpu.set reg later := by
  simp only [set, Cpu.mk.injEq, true_and, and_true]
  funext other
  split <;> rfl

end Registers

end Cpu

/-- The place of an address. -/
def Address.place (link : Linkage) (cpu : Cpu) : Address → Int
  | .frame offset => cpu.base + offset
  | .symbol name offset => link.address name + offset.getD 0
  | .indexed name index scale => link.address name + (cpu.regs index).toInt * scale

/-- What an operand stands for; a constant that is no number is a symbol. -/
def Operand.fetched (link : Linkage) (cpu : Cpu) : Operand → BitVec 64
  | .immediate text =>
      match Text.integer? 64 text with
      | some value => .ofInt 64 value
      | none => .ofInt 64 (link.address text)
  | .register reg width => .ofNat 64 ((cpu.regs reg).toNat % 256 ^ width)
  | .memory address width => .ofNat 64 (cpu.memory.number (address.place link cpu) width)

@[simp] theorem Operand.fetched_whole
    (link : Linkage)
    (cpu : Cpu)
    (reg : Reg) :
    (Operand.whole reg).fetched link cpu = cpu.regs reg := by
  have inRange := (cpu.regs reg).isLt
  simp only [Operand.whole, fetched]
  rw [Nat.mod_eq_of_lt (by simpa using inRange), BitVec.ofNat_toNat, BitVec.setWidth_eq]

/-- An instruction, and if it is a call the number of words passed on the stack. -/
structure Issue where
  instruction : Instruction
  passed : Nat
deriving DecidableEq, Repr

variable
    {link : Linkage}

namespace Issue

/-- An instruction that is no call. -/
def plain (instruction : Instruction) : Issue :=
  ⟨instruction, 0⟩

/-- What an instruction of the code around a call does. -/
def execute (link : Linkage) (cpu : Cpu) (issue : Issue) : Option Cpu :=
  match issue.instruction with
  | .mov (.register reg 8) source => cpu.put reg (source.fetched link cpu)
  | .movsxd reg source => cpu.put reg (((source.fetched link cpu).setWidth 32).signExtend 64)
  | .movzx reg source => cpu.put reg (source.fetched link cpu)
  | .xor (.register reg 8) source => cpu.put reg (cpu.regs reg ^^^ source.fetched link cpu)
  | .push source => some (cpu.push (source.fetched link cpu))
  | .pop reg => cpu.pop reg
  | .sub (.register .rsp 8) (.immediate text) =>
      (Text.readSigned? text.toList).map fun bytes => { cpu with top := cpu.top - bytes }
  | .add (.register .rsp 8) (.immediate text) =>
      (Text.readSigned? text.toList).map fun bytes => { cpu with top := cpu.top + bytes }
  | .call name => some (link.routine name issue.passed cpu)
  | _ => none

/-- Run instructions one after the other. -/
def run (link : Linkage) : List Issue → Cpu → Option Cpu
  | [], cpu => some cpu
  | first :: rest, cpu => (first.execute link cpu).bind (run link rest)

theorem run_append
    (link : Linkage)
    (first second : List Issue)
    (cpu : Cpu) :
    run link (first ++ second) cpu = (run link first cpu).bind (run link second) := by
  induction first generalizing cpu with
  | nil => rfl
  | cons issue rest inductionHypothesis =>
      simp only [List.cons_append, run, Option.bind_assoc]
      exact congrArg _ (funext inductionHypothesis)

theorem run_append_of_run
    {first second : List Issue}
    {cpu between : Cpu}
    (runs : run link first cpu = some between) :
    run link (first ++ second) cpu = run link second between := by
  rw [run_append, runs, Option.bind_some]

end Issue

variable
    {left right : Char}

/-- Trimming stops at what is no white space. -/
theorem Text.trimChars_between
    (solidLeft : isSpace left = false)
    (solidRight : isSpace right = false)
    (front middle back : List Char) :
    ∃ front' back',
      trimChars (front ++ left :: (middle ++ right :: back)) =
        front' ++ left :: (middle ++ right :: back') := by
  have stops : ∀ {solid : Char}, isSpace solid = false → ∀ first rest : List Char,
      (first ++ solid :: rest).dropWhile isSpace = first.dropWhile isSpace ++ solid :: rest := by
    intro solid isSolid first rest
    rw [List.dropWhile_append]
    split
    next none_ => simp [List.isEmpty_iff.mp none_, isSolid]
    next => rfl
  refine ⟨front.dropWhile isSpace, (back.reverse.dropWhile isSpace).reverse, ?_⟩
  have reversed :
      (front.dropWhile isSpace ++ left :: (middle ++ right :: back)).reverse =
        back.reverse ++ right :: (front.dropWhile isSpace ++ left :: middle).reverse := by
    simp
  rw [trimChars, stops solidLeft, reversed, stops solidRight]
  simp

namespace Move

theorem words_run
    {middle : List Char}
    (named : ∀ value ∈ middle, isNameChar value)
    {right : Char}
    (ends : isNameChar right = false)
    {run : List Char}
    (begun : run ++ middle ≠ [])
    (back : List Char) :
    String.ofList (run ++ middle) ∈ words run (middle ++ right :: back) := by
  induction middle generalizing run with
  | nil =>
      rw [List.append_nil] at begun
      simp [words, ends, begun]
  | cons value rest inductionHypothesis =>
      have later := @inductionHypothesis (fun other member => named other (by simp [member]))
        (run ++ [value]) (by simp)
      rw [List.append_assoc, List.singleton_append] at later
      rw [List.cons_append, words, if_pos (named value (by simp))]
      exact later

/-- A run of name characters between two others is one of the words. -/
theorem mem_words
    {middle : List Char}
    (named : ∀ value ∈ middle, isNameChar value)
    (some_ : middle ≠ [])
    (begins : isNameChar left = false)
    (ends : isNameChar right = false)
    (run front back : List Char) :
    String.ofList middle ∈ words run (front ++ left :: (middle ++ right :: back)) := by
  have behind : String.ofList middle ∈ words [] (middle ++ right :: back) :=
    @words_run middle named right ends [] some_ back
  induction front generalizing run with
  | nil =>
      rw [List.nil_append, words]
      simp only [begins, Bool.false_eq_true, ↓reduceIte]
      split
      · exact behind
      · exact List.mem_cons_of_mem _ behind
  | cons value rest inductionHypothesis =>
      rw [List.cons_append, words]
      split
      · exact inductionHypothesis _
      · split
        · exact inductionHypothesis _
        · exact List.mem_cons_of_mem _ (inductionHypothesis _)

/-- An operand that addresses memory by a register mentions the register. -/
theorem mentions_indexed
    (name : String)
    (index : Reg)
    (scale width : Nat) :
    mentions (String.ofList (Text.trimChars
      (Operand.memory (.indexed name index scale) width).text.toList)) index = true := by
  have written : (Operand.memory (.indexed name index scale) width).text.toList =
      ((Ty.qualifierFor width).toList ++ ' ' :: '[' :: (name.toList ++ [' '])) ++
        '+' :: ((' ' :: index.name.toList) ++
          '*' :: ((toString scale).toList ++ [']'])) := by
    simp [Operand.text, Address.text, String.toList_append]
  obtain ⟨front, back, trimmed⟩ := Text.trimChars_between
    (by decide : Text.isSpace '+' = false) (by decide : Text.isSpace '*' = false)
    ((Ty.qualifierFor width).toList ++ ' ' :: '[' :: (name.toList ++ [' ']))
    (' ' :: index.name.toList) ((toString scale).toList ++ [']'])
  have member : String.ofList index.name.toList ∈
      words [] (front ++ ['+'] ++ ' ' :: (index.name.toList ++ '*' :: back)) :=
    mem_words (List.all_eq_true.mp (by cases index <;> decide)) (by cases index <;> decide)
      (by decide) (by decide) _ _ _
  rw [String.ofList_toList] at member
  unfold mentions
  rw [written, trimmed, String.toList_ofList, List.any_eq_true]
  refine ⟨index.name, ?_, by cases index <;> decide⟩
  simpa using member

end Move

namespace Instruction

/-- A move makes another one useless only where it goes to the same register and reads others. -/
theorem fetched_of_redundant
    {reg other : Reg}
    {source later : Operand}
    (redundant : Move.isRedundant (Line.text (.instruction (.mov (.whole reg) source)))
      (Instruction.text (.mov (.whole other) later)) = true) :
    reg = other ∧ ∀ (link : Linkage) (cpu : Cpu) (word : BitVec 64),
      later.fetched link (cpu.set reg word) = later.fetched link cpu := by
  obtain ⟨rfl, unnamed⟩ := notMentions_of_redundant redundant
  refine ⟨rfl, fun link cpu word => ?_⟩
  cases later with
  | immediate text => rfl
  | register read width =>
      have apart : read ≠ reg := by
        rintro rfl
        rw [Move.mentions_register] at unnamed
        cases unnamed
      simp only [Operand.fetched, Cpu.regs_set_of_ne _ _ _ apart]
  | memory address width =>
      cases address with
      | indexed name index scale =>
          have apart : index ≠ reg := by
            rintro rfl
            rw [Move.mentions_indexed] at unnamed
            cases unnamed
          simp only [Operand.fetched, Address.place, Cpu.regs_set_of_ne _ _ _ apart,
            Cpu.memory_set]
      | frame offset => rfl
      | symbol name offset => rfl

end Instruction

namespace Issue

variable
    {cpu later : Cpu}

theorem execute_mov
    {target source : Operand}
    {passed : Nat}
    (executed : execute link cpu ⟨.mov target source, passed⟩ = some later) :
    ∃ reg,
      target = .whole reg ∧ (reg ≠ .rsp ∧ reg ≠ .rbp) ∧
        later = cpu.set reg (source.fetched link cpu) := by
  unfold execute at executed
  split at executed
  next reg source same =>
    cases same
    unfold Cpu.put at executed
    split at executed
    · cases executed
    next noPointer =>
      cases executed
      exact ⟨reg, rfl, not_or.mp noPointer, rfl⟩
  all_goals simp_all

theorem known_of_execute
    {issue : Issue}
    (executed : issue.execute link cpu = some later) :
    ∀ text, issue.instruction ≠ .verbatim text := by
  intro text isText
  simp [execute, isText] at executed

/-- What an instruction does is what it does behind a move that it makes useless. -/
theorem execute_of_redundant
    {first second : Issue}
    {cpu between later : Cpu}
    (redundant : Move.isRedundant (Line.text (.instruction first.instruction))
      second.instruction.text = true)
    (executed : first.execute link cpu = some between)
    (follows : second.execute link between = some later) :
    second.execute link cpu = some later := by
  obtain ⟨firstInstruction, firstPassed⟩ := first
  obtain ⟨secondInstruction, secondPassed⟩ := second
  obtain ⟨_, start⟩ := Move.mov_of_isRedundant redundant
  rw [Move.withoutTab_text] at start
  obtain ⟨target, source, rfl⟩ := Instruction.isMove_of_start (known_of_execute executed) start
  obtain ⟨_, next⟩ := Instruction.start_of_redundant redundant
  obtain ⟨other, last, rfl⟩ := Instruction.isMove_of_start (known_of_execute follows) next
  obtain ⟨reg, rfl, noPointer, rfl⟩ := execute_mov executed
  obtain ⟨otherReg, rfl, _, rfl⟩ := execute_mov follows
  obtain ⟨rfl, same⟩ := Instruction.fetched_of_redundant redundant
  rw [same, Cpu.set_set]
  simp [execute, Operand.whole, Cpu.put, noPointer]

/-- Instructions without those that the instruction right behind them makes useless. -/
def written : List Issue → List Issue
  | first :: second :: rest =>
      if Move.isRedundant (Line.text (.instruction first.instruction))
          second.instruction.text then
        written (second :: rest)
      else
        first :: written (second :: rest)
  | short => short

theorem map_written
    (issued : List Issue) :
    (written issued).map instruction = Instruction.written (issued.map instruction) := by
  fun_induction written issued with
  | case1 first second rest redundant inductionHypothesis =>
      rw [inductionHypothesis]
      simp [Instruction.written, redundant]
  | case2 first second rest kept inductionHypothesis =>
      rw [List.map_cons, inductionHypothesis]
      simp [Instruction.written, kept]
  | case3 short unmatched =>
      rcases short with _ | ⟨first, _ | ⟨second, rest⟩⟩
      · rfl
      · rfl
      · exact (unmatched _ _ _ rfl).elim

/-- Running what is left of code does what running all of it does. -/
theorem run_written
    {issued : List Issue}
    (runs : run link issued cpu = some later) :
    run link (written issued) cpu = some later := by
  fun_induction written issued generalizing cpu with
  | case1 first second rest redundant inductionHypothesis =>
      obtain ⟨between, executed, more⟩ := Option.bind_eq_some_iff.mp runs
      obtain ⟨next, follows, others⟩ := Option.bind_eq_some_iff.mp more
      refine inductionHypothesis ?_
      rw [run, execute_of_redundant redundant executed follows, Option.bind_some, others]
  | case2 first second rest kept inductionHypothesis =>
      obtain ⟨between, executed, more⟩ := Option.bind_eq_some_iff.mp runs
      rw [run, executed, Option.bind_some, inductionHypothesis more]
  | case3 => exact runs

/-- A call is not taken back, and takes nothing back. -/
theorem written_call
    (name : String)
    (passed : Nat)
    (front back : List Issue) :
    written (front ++ ⟨.call name, passed⟩ :: back) =
      written front ++ ⟨.call name, passed⟩ :: written back := by
  have stays : ∀ next : Instruction,
      Move.isRedundant (Line.text (.instruction (.call name))) next.text = false := by
    intro next
    refine Bool.eq_false_iff.mpr fun redundant => ?_
    obtain ⟨_, start⟩ := Move.mov_of_isRedundant redundant
    simp [Move.withoutTab_text, Instruction.text, Move.afterStart?] at start
  have takes : ∀ previous : String,
      Move.isRedundant previous (Instruction.text (.call name)) = false := by
    intro previous
    refine Bool.eq_false_iff.mpr fun redundant => ?_
    obtain ⟨_, start⟩ := Instruction.start_of_redundant redundant
    simp [Instruction.text, Move.afterStart?] at start
  fun_induction written front with
  | case1 first second rest redundant inductionHypothesis =>
      rw [← inductionHypothesis]
      simp [written, redundant]
  | case2 first second rest kept inductionHypothesis =>
      show _ = first :: (written (second :: rest) ++ _)
      rw [← inductionHypothesis]
      simp [written, kept]
  | case3 short unmatched =>
      have alone : written (⟨.call name, passed⟩ :: back) =
          ⟨.call name, passed⟩ :: written back := by
        cases back with
        | nil => rfl
        | cons next rest => simp [written, stays]
      rcases short with _ | ⟨first, _ | ⟨second, rest⟩⟩
      · simpa using alone
      · rw [List.singleton_append, written, takes, ← alone]
        simp
      · exact (unmatched _ _ _ rfl).elim

end Issue

end IlsCompiler
