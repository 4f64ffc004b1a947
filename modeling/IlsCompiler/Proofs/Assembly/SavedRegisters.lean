import IlsCompiler.Proofs.Assembly.Processor
import IlsCompiler.Proofs.Assembly.CodeSteps

namespace IlsCompiler

/-!
# Registers across calls

A call may overwrite the registers that temporaries hold. The code of a call saves those on the
stack before it pushes the arguments and takes them back afterwards, and finding the arguments,
which may make calls in turn, changes no register that is held and nothing on the stack. So
what temporaries hold survives a call, however deep calls are nested in its arguments.
-/

/-- Words lie one above the other from an address on. -/
def Memory.Holds (memory : Memory) : Int → List (BitVec 64) → Prop
  | _, [] => True
  | address, first :: rest => memory.word address = first ∧ memory.Holds (address + 8) rest

variable
    {words : List (BitVec 64)}
    {address : Int}

theorem Memory.Holds.congr
    {memory other : Memory}
    (holds : memory.Holds address words)
    (same : ∀ place, address ≤ place → place < address + 8 * (words.length : Int) →
      other place = memory place) :
    other.Holds address words := by
  induction words generalizing address with
  | nil => trivial
  | cons first rest inductionHypothesis =>
      obtain ⟨isFirst, others⟩ := holds
      rw [List.length_cons, Int.natCast_succ] at same
      refine ⟨Eq.trans ?_ isFirst, inductionHypothesis others ?_⟩
      · unfold word
        rw [number_congr fun place above below => same place above (by omega)]
      · intro place above below
        exact same place (by omega) (by omega)

theorem Memory.Holds.concat
    {memory : Memory}
    {last : BitVec 64}
    (holds : memory.Holds address words)
    (isLast : memory.word (address + 8 * words.length) = last) :
    memory.Holds address (words ++ [last]) := by
  induction words generalizing address with
  | nil => exact ⟨by simpa using isLast, trivial⟩
  | cons first rest inductionHypothesis =>
      obtain ⟨isFirst, others⟩ := holds
      refine ⟨isFirst, inductionHypothesis others ?_⟩
      rw [← isLast, List.length_cons]
      congr 1
      push_cast
      omega

/--
Code that pushed some words has changed nothing at the stack pointer it started with and above,
nor the given registers.
-/
structure Cpu.Spares (held : List Reg) (words : Nat) (cpu later : Cpu) : Prop where
  top : later.top = cpu.top - 8 * words
  base : later.base = cpu.base
  regs : ∀ reg ∈ held, later.regs reg = cpu.regs reg
  memory : ∀ place, cpu.top ≤ place → later.memory place = cpu.memory place

namespace Cpu.Spares

theorem refl
    (held : List Reg)
    (cpu : Cpu) :
    Spares held 0 cpu cpu :=
  ⟨by simp, rfl, fun _ _ => rfl, fun _ _ => rfl⟩

variable
    {held : List Reg}

theorem trans
    {words more : Nat}
    {first second third : Cpu}
    (earlier : Spares held words first second)
    (later : Spares held more second third) :
    Spares held (words + more) first third where
  top := by rw [later.top, earlier.top]; push_cast; omega
  base := later.base.trans earlier.base
  regs := fun reg member => (later.regs reg member).trans (earlier.regs reg member)
  memory := fun place above =>
    (later.memory place (by rw [earlier.top]; omega)).trans (earlier.memory place above)

theorem mono
    {held fewer : List Reg}
    {words : Nat}
    {first second : Cpu}
    (spares : Spares held words first second)
    (within : fewer ⊆ held) :
    Spares fewer words first second :=
  ⟨spares.top, spares.base, fun reg member => spares.regs reg (within member), spares.memory⟩

theorem set
    {reg : Reg}
    (free : reg ∉ held)
    (cpu : Cpu)
    (word : BitVec 64) :
    Spares held 0 cpu (cpu.set reg word) := by
  refine ⟨by simp, rfl, fun other member => ?_, fun _ _ => rfl⟩
  exact Cpu.regs_set_of_ne _ _ _ (by rintro rfl; exact free member)

theorem push
    (held : List Reg)
    (cpu : Cpu)
    (word : BitVec 64) :
    Spares held 1 cpu (cpu.push word) :=
  ⟨rfl, rfl, fun _ _ => rfl, fun place above =>
    Memory.store_above _ _ (by show cpu.top - 8 + 8 ≤ place; omega)⟩

end Cpu.Spares

namespace Emit.Saved

/-- The instructions that save registers. -/
def pushes (saved : Saved) : List Issue :=
  saved.regs.map (fun reg => .plain (.push (.whole reg))) ++
    if saved.padded then
      [.plain (.sub (.whole .rsp) (.number StackFrame.slotSize))]
    else
      []

/-- The instructions that take saved registers back. -/
def pops (saved : Saved) : List Issue :=
  (if saved.padded then
      [.plain (.add (.whole .rsp) (.number StackFrame.slotSize))]
    else
      []) ++
    saved.regs.reverse.map fun reg => .plain (.pop reg)

end Emit.Saved

namespace Issue

theorem execute_sub
    (link : Linkage)
    (cpu : Cpu)
    (bytes : Nat) :
    execute link cpu (.plain (.sub (.whole .rsp) (.number bytes))) =
      some { cpu with top := cpu.top - bytes } := by
  show (Text.readSigned? (toString bytes).toList).map _ = _
  rw [show toString bytes = toString (bytes : Int) from rfl, Text.readSigned?_toString]
  rfl

theorem execute_add
    (link : Linkage)
    (cpu : Cpu)
    (bytes : Nat) :
    execute link cpu (.plain (.add (.whole .rsp) (.number bytes))) =
      some { cpu with top := cpu.top + bytes } := by
  show (Text.readSigned? (toString bytes).toList).map _ = _
  rw [show toString bytes = toString (bytes : Int) from rfl, Text.readSigned?_toString]
  rfl

/-- Pushed registers lie on the stack, the last of them on top. -/
theorem run_pushRegs
    (link : Linkage)
    (regs : List Reg)
    (cpu : Cpu) :
    ∃ later,
      run link (regs.map fun reg => .plain (.push (.whole reg))) cpu = some later ∧
        later.regs = cpu.regs ∧ Cpu.Spares [] regs.length cpu later ∧
        later.memory.Holds later.top (regs.reverse.map cpu.regs) := by
  induction regs generalizing cpu with
  | nil => exact ⟨cpu, rfl, rfl, .refl _ cpu, trivial⟩
  | cons reg rest inductionHypothesis =>
      obtain ⟨later, runs, sameRegs, spares, holds⟩ := inductionHypothesis (cpu.push (cpu.regs reg))
      have both := (Cpu.Spares.push [] cpu (cpu.regs reg)).trans spares
      refine ⟨later, ?_, sameRegs, by rwa [List.length_cons, Nat.add_comm], ?_⟩
      · show (some (cpu.push ((Operand.whole reg).fetched link cpu))).bind _ = _
        rw [Operand.fetched_whole, Option.bind_some, runs]
      · rw [List.reverse_cons, List.map_append]
        refine holds.concat ?_
        have place : later.top + 8 * ((rest.reverse.map cpu.regs).length : Int) =
            (cpu.push (cpu.regs reg)).top := by
          rw [spares.top]
          simp
        show later.memory.word (later.top + 8 * ((rest.reverse.map cpu.regs).length : Int)) = _
        rw [place, Memory.word_congr fun place above => spares.memory place above]
        exact Memory.word_store _ _ _

/-- Registers are popped in the order in which their values lie on the stack. -/
theorem run_popRegs
    (link : Linkage)
    {regs : List Reg}
    (noPointer : ∀ reg ∈ regs, reg ≠ .rsp ∧ reg ≠ .rbp)
    (values : Reg → BitVec 64)
    {cpu : Cpu}
    (holds : cpu.memory.Holds cpu.top (regs.map values)) :
    ∃ later,
      run link (regs.map fun reg => .plain (.pop reg)) cpu = some later ∧
        later.top = cpu.top + 8 * regs.length ∧ later.base = cpu.base ∧
        later.memory = cpu.memory ∧
        (∀ reg ∈ regs, later.regs reg = values reg) ∧
        ∀ reg ∉ regs, later.regs reg = cpu.regs reg := by
  induction regs generalizing cpu with
  | nil => exact ⟨cpu, rfl, by simp, rfl, rfl, by simp, fun _ _ => rfl⟩
  | cons reg rest inductionHypothesis =>
      obtain ⟨isFirst, others⟩ := holds
      have popped : cpu.pop reg = some ({ cpu with top := cpu.top + 8 }.set reg (values reg)) := by
        unfold Cpu.pop Cpu.put
        rw [if_neg (by simpa using noPointer reg (by simp)), isFirst]
      obtain ⟨later, runs, top, base, memory, restored, kept⟩ :=
        @inductionHypothesis (fun other member => noPointer other (by simp [member]))
          ({ cpu with top := cpu.top + 8 }.set reg (values reg)) others
      refine ⟨later, ?_, ?_, base, memory, ?_, ?_⟩
      · show (cpu.pop reg).bind _ = _
        rw [popped, Option.bind_some, runs]
      · rw [top, List.length_cons, Cpu.top_set]
        push_cast
        omega
      · intro other member
        by_cases again : other ∈ rest
        · exact restored other again
        · obtain rfl : other = reg := by simpa [again] using member
          rw [kept other again, Cpu.regs_set_same]
      · intro other absent
        simp only [List.mem_cons, not_or] at absent
        rw [kept other absent.2, Cpu.regs_set_of_ne _ _ _ absent.1]

theorem run_pushes
    (link : Linkage)
    (saved : Emit.Saved)
    (cpu : Cpu) :
    ∃ later,
      run link saved.pushes cpu = some later ∧ later.regs = cpu.regs ∧
        Cpu.Spares [] saved.words cpu later ∧
        later.memory.Holds (later.top + if saved.padded then 8 else 0)
          (saved.regs.reverse.map cpu.regs) := by
  obtain ⟨later, runs, sameRegs, spares, holds⟩ := run_pushRegs link saved.regs cpu
  unfold Emit.Saved.pushes Emit.Saved.words
  rw [run_append_of_run runs]
  cases saved.padded with
  | false => exact ⟨later, rfl, sameRegs, by simpa using spares, by simpa using holds⟩
  | true =>
      refine ⟨{ later with top := later.top - 8 }, ?_, sameRegs, ?_, ?_⟩
      · simp only [↓reduceIte, run, execute_sub, Option.bind_some]
        rfl
      · exact ⟨by have := spares.top; simp only [↓reduceIte]; push_cast; omega, spares.base,
          by simp, spares.memory⟩
      · simpa using holds

theorem run_pops
    (link : Linkage)
    {saved : Emit.Saved}
    (noPointer : ∀ reg ∈ saved.regs, reg ≠ .rsp ∧ reg ≠ .rbp)
    (values : Reg → BitVec 64)
    {cpu : Cpu}
    (holds : cpu.memory.Holds (cpu.top + if saved.padded then 8 else 0)
      (saved.regs.reverse.map values)) :
    ∃ later,
      run link saved.pops cpu = some later ∧ later.top = cpu.top + 8 * saved.words ∧
        later.base = cpu.base ∧ later.memory = cpu.memory ∧
        (∀ reg ∈ saved.regs, later.regs reg = values reg) ∧
        ∀ reg ∉ saved.regs, later.regs reg = cpu.regs reg := by
  have pops : ∀ start : Cpu, start.memory.Holds start.top (saved.regs.reverse.map values) →
      ∃ later,
        run link (saved.regs.reverse.map fun reg => .plain (.pop reg)) start = some later ∧
          later.top = start.top + 8 * saved.regs.length ∧ later.base = start.base ∧
          later.memory = start.memory ∧ (∀ reg ∈ saved.regs, later.regs reg = values reg) ∧
          ∀ reg ∉ saved.regs, later.regs reg = start.regs reg := by
    intro start lies
    simpa using @run_popRegs link saved.regs.reverse
      (fun reg member => noPointer reg (by simpa using member)) values start lies
  unfold Emit.Saved.pops Emit.Saved.words
  cases padded : saved.padded with
  | false =>
      obtain ⟨later, runs, others⟩ := pops cpu (by simpa [padded] using holds)
      exact ⟨later, runs, by simpa using others⟩
  | true =>
      obtain ⟨later, runs, top, others⟩ := pops { cpu with top := cpu.top + 8 }
        (by simpa [padded] using holds)
      refine ⟨later, ?_, ?_, others⟩
      · rw [if_pos rfl, List.singleton_append, run, execute_add, Option.bind_some, ← runs]
        rfl
      · rw [top]
        simp only [↓reduceIte]
        push_cast
        omega

end Issue

end IlsCompiler
