import IlsCompiler.Proofs.Assembly.Operands
import IlsCompiler.Proofs.Program.Words

namespace IlsCompiler

/-!
# Code for arithmetic

The code of an operation loads its left side into the register of the result, or both
sides into the registers of a division, and leaves the word of the operation in the
register of the result. It touches no other register that is held.
-/

/-- The registers that code for an operation uses beside that of its result. -/
def Reg.isScratch (reg : Reg) : Prop :=
  reg = .rax ∨ reg = .rdx ∨ reg = .rsi

theorem Reg.not_scratch_of_pooled
    {reg : Reg}
    (pooled : reg ∈ Reg.pooled) :
    ¬reg.isScratch ∧ reg ≠ .rbp ∧ reg ≠ .rsp := by
  revert pooled
  unfold isScratch
  cases reg <;> decide

/-- Code to which instructions on registers have been added. -/
structure FunctionCode.Issues (issued : List Instruction) (before after : FunctionCode) :
    Prop where
  body : after.body = before.body.addAll issued
  slots : before.frame.slots <+: after.frame.slots
  scalar : ∀ instruction ∈ issued, instruction.isScalar

namespace FunctionCode.Issues

theorem refl
    (code : FunctionCode) :
    Issues [] code code :=
  ⟨rfl, List.prefix_refl _, by simp⟩

theorem trans
    {firstIssued secondIssued : List Instruction}
    {first second third : FunctionCode}
    (earlier : Issues firstIssued first second)
    (later : Issues secondIssued second third) :
    Issues (firstIssued ++ secondIssued) first third := by
  refine ⟨?_, earlier.slots.trans later.slots, ?_⟩
  · rw [later.body, earlier.body, Body.addAll_append]
  · intro instruction member
    rcases List.mem_append.mp member with inFirst | inSecond
    · exact earlier.scalar instruction inFirst
    · exact later.scalar instruction inSecond

theorem of_slotted
    {before after : FunctionCode}
    (slotted : before.Slotted after) :
    Issues [] before after ∧ after.pool = before.pool := by
  obtain ⟨frame, rfl, grown⟩ := slotted
  exact ⟨⟨rfl, grown, by simp⟩, rfl⟩

end FunctionCode.Issues

/-- Running code that may fault ends in a machine with a property. -/
def Machine.Reaches (machine : Machine) (issued : List Instruction)
    (property : Machine → Prop) : Prop :=
  machine.run issued = .fault ∨ ∃ later, machine.run issued = .next later ∧ property later

namespace Machine.Reaches

variable
    {machine : Machine}
    {property : Machine → Prop}
    {issued : List Instruction}

theorem of_next
    {later : Machine}
    (runs : machine.run issued = .next later)
    (holds : property later) :
    machine.Reaches issued property :=
  .inr ⟨later, runs, holds⟩

theorem append
    {first second : List Instruction}
    {between : Machine → Prop}
    (earlier : machine.Reaches first between)
    (later : ∀ middle, between middle → middle.Reaches second property) :
    machine.Reaches (first ++ second) property := by
  unfold Reaches
  rw [Machine.run_append]
  rcases earlier with faults | ⟨middle, runs, holds⟩
  · exact .inl (by rw [faults]; rfl)
  · rw [runs]
    exact later middle holds

theorem mono
    {weaker : Machine → Prop}
    (reaches : machine.Reaches issued property)
    (implies : ∀ later, property later → weaker later) :
    machine.Reaches issued weaker := by
  rcases reaches with faults | ⟨later, runs, holds⟩
  · exact .inl faults
  · exact .inr ⟨later, runs, implies later holds⟩

theorem known
    {issued : List Instruction}
    (reaches : machine.Reaches issued property) :
    machine.run issued ≠ .unknown := by
  rcases reaches with faults | ⟨later, runs, _⟩
  · simp [faults]
  · simp [runs]

end Machine.Reaches

namespace Emit

open Stateful FunctionCode

variable
    {listing : Listing}
    {before after : FunctionCode}
    {id : Nat}
    {done : Unit}

/-- Loading a variable puts its word into the register. -/
theorem load_atHand
    {reg : Reg}
    (numbered : listing.Numbered)
    (sound : before.pool.Sound)
    (atHand : listing.AtHand before.pool id)
    (writable : reg ≠ .rbp ∧ reg ≠ .rsp)
    (run : load listing reg id before = .ok (done, after)) :
    ∃ issued,
      Issues issued before after ∧ after.pool = before.pool ∧
        ∀ frame : StackFrame, after.frame.slots <+: frame.slots → ∀ machine : Machine,
          machine.run issued =
            .next (machine.set reg (listing.wordOf before.pool frame machine id)) := by
  obtain ⟨operand, between, resolved, moved⟩ := bind_ok_iff.mp run
  obtain ⟨slotted, loaded, _⟩ := resolve_atHand numbered sound atHand resolved
  obtain ⟨issued, rfl, scalar, runs⟩ := moveInto_ok writable moved
  obtain ⟨issues, samePool⟩ := Issues.of_slotted slotted
  have adds : Issues issued between { between with body := between.body.addAll issued } :=
    ⟨rfl, List.prefix_refl _, scalar⟩
  refine ⟨issued, issues.trans adds, samePool, ?_⟩
  intro frame grown machine
  exact runs machine _ (loaded frame grown machine)

/-- A variable as an operand beside a register stands for its word where it is used. -/
theorem operable_atHand
    {scratch : Reg}
    {operand : Operand}
    (numbered : listing.Numbered)
    (sound : before.pool.Sound)
    (atHand : listing.AtHand before.pool id)
    (writable : scratch ≠ .rbp ∧ scratch ≠ .rsp)
    (run : operable listing id scratch before = .ok (operand, after)) :
    ∃ issued,
      Issues issued before after ∧ after.pool = before.pool ∧ operand.isWide = false ∧
        ∀ frame : StackFrame, after.frame.slots <+: frame.slots → ∀ machine : Machine,
          ∃ later,
            machine.run issued = .next later ∧
              Machine.SameBut (fun reg => reg = scratch) machine later ∧
              operand.word? later = some (listing.wordOf before.pool frame machine id) := by
  obtain ⟨found, between, resolved, settled⟩ := bind_ok_iff.mp run
  obtain ⟨slotted, loaded, _⟩ := resolve_atHand numbered sound atHand resolved
  obtain ⟨issues, samePool⟩ := Issues.of_slotted slotted
  unfold settle at settled
  cases mustMove : found.isNarrow || found.isWide with
  | true =>
      simp only [mustMove, ↓reduceIte] at settled
      obtain ⟨_, _, moved, returned⟩ := bind_ok_iff.mp settled
      obtain ⟨rfl, rfl⟩ := pure_ok_iff.mp returned
      obtain ⟨issued, rfl, scalar, runs⟩ := moveInto_ok writable moved
      have adds : Issues issued between { between with body := between.body.addAll issued } :=
        ⟨rfl, List.prefix_refl _, scalar⟩
      refine ⟨issued, issues.trans adds, samePool, rfl, ?_⟩
      intro frame grown machine
      refine ⟨_, runs machine _ (loaded frame grown machine), .set _ _ rfl, ?_⟩
      simp [Operand.whole, Operand.word?]
  | false =>
      simp only [mustMove, Bool.false_eq_true, ↓reduceIte] at settled
      obtain ⟨rfl, rfl⟩ := pure_ok_iff.mp settled
      simp only [Bool.or_eq_false_iff] at mustMove
      refine ⟨[], issues, samePool, mustMove.2, ?_⟩
      intro frame grown machine
      exact ⟨machine, rfl, .refl _,
        Operand.word?_of_loaded? (loaded frame grown machine) mustMove.1⟩

/-- The registers that an operation with its result in a register may change. -/
def Changes (target reg : Reg) : Prop :=
  reg = target ∨ reg.isScratch

section Operations

variable
    {left right : Nat}
    {target : Reg}
    (numbered : listing.Numbered)
    (sound : before.pool.Sound)
    (leftAtHand : listing.AtHand before.pool left)
    (rightAtHand : listing.AtHand before.pool right)
    (pooled : target ∈ Reg.pooled)

include numbered sound leftAtHand rightAtHand pooled

/-- A sum, difference or product is left in the register of the result. -/
theorem combine_atHand
    (rightApart : ∀ reg, before.pool.held? right = some reg → reg ≠ target)
    {build : Operand → Operand → Instruction}
    {op : BitVec 64 → BitVec 64 → BitVec 64}
    (scalar : ∀ first second, (build first second).isScalar)
    (executes : ∀ machine first second,
      (build first second).execute machine = Instruction.combine machine op first second)
    (run : (do
      load listing target left
      let operand ← operable listing right Reg.sourceIndex
      ins (build (.whole target) operand) : Emit Unit) before = .ok (done, after)) :
    ∃ issued,
      Issues issued before after ∧ after.pool = before.pool ∧
        ∀ frame : StackFrame, after.frame.slots <+: frame.slots → ∀ machine : Machine,
          machine.Reaches issued fun later =>
            Machine.SameBut (Changes target) machine later ∧
              later.regs target = op (listing.wordOf before.pool frame machine left)
                (listing.wordOf before.pool frame machine right) := by
  have writable := (Reg.not_scratch_of_pooled pooled).2
  have notSource : target ≠ .rsi := fun same =>
    (Reg.not_scratch_of_pooled pooled).1 (.inr (.inr same))
  obtain ⟨_, middle, loaded, later⟩ := bind_ok_iff.mp run
  obtain ⟨operand, between, operated, added⟩ := bind_ok_iff.mp later
  obtain ⟨loads, loadIssues, loadPool, loadRuns⟩ :=
    load_atHand numbered sound leftAtHand writable loaded
  rw [← loadPool] at sound rightAtHand
  obtain ⟨settles, settleIssues, settlePool, notWide, settleRuns⟩ :=
    operable_atHand numbered sound rightAtHand (by decide) operated
  cases ins_ok_iff.mp added
  have adds : Issues [build (.whole target) operand] between
      { between with body := between.body.add (build (.whole target) operand) } :=
    ⟨rfl, List.prefix_refl _, by simpa using scalar _ _⟩
  refine ⟨loads ++ (settles ++ [build (.whole target) operand]),
    loadIssues.trans (settleIssues.trans adds), settlePool.trans loadPool, ?_⟩
  intro frame grown machine
  have loadGrown := (settleIssues.slots.trans (List.prefix_refl _)).trans grown
  let leftWord := listing.wordOf before.pool frame machine left
  have rightWord : listing.wordOf middle.pool frame (machine.set target leftWord) right =
      listing.wordOf before.pool frame machine right := by
    rw [loadPool]
    have changes : Machine.SameBut (fun reg => reg = target) machine
        (machine.set target leftWord) := .set _ _ rfl
    exact Listing.wordOf_of_sameBut changes rightApart frame
  obtain ⟨settled, settledRuns, settledSame, operandWord⟩ :=
    settleRuns frame grown (machine.set target leftWord)
  have held : settled.regs target = leftWord := by
    rw [settledSame.regs target notSource, Machine.regs_set_same]
  apply Machine.Reaches.of_next
  · rw [Machine.run_append, loadRuns frame loadGrown machine]
    show Machine.run _ _ = _
    rw [Machine.run_append, settledRuns]
    show Machine.run _ _ = _
    rw [Machine.run_singleton, executes]
    simp only [Instruction.combine, Operand.whole, notWide, and_self, ↓reduceIte, operandWord,
      Option.map_some, held, Machine.write, writable, or_self]
    rfl
  · refine ⟨?_, by rw [Machine.regs_set_same, rightWord]⟩
    refine Machine.SameBut.trans (.set machine leftWord (.inl rfl)) (.trans ?_ (.set _ _ (.inl rfl)))
    exact ⟨fun reg same => settledSame.regs reg fun equal => same (.inr (.inr (.inr equal))),
      settledSame.slots, settledSame.data⟩

/-- A quotient or remainder is moved to the register of the result. -/
theorem divide_atHand
    {answer : Reg}
    {op : ArithOp}
    (division : (op = .div ∧ answer = .rax) ∨ (op = .mod ∧ answer = Reg.remainder))
    (run : divide listing target left right answer before = .ok (done, after)) :
    ∃ issued,
      Issues issued before after ∧ after.pool = before.pool ∧
        ∀ frame : StackFrame, after.frame.slots <+: frame.slots → ∀ machine : Machine,
          machine.Reaches issued fun later =>
            Machine.SameBut (Changes target) machine later ∧
              later.regs target = op.word (listing.wordOf before.pool frame machine left)
                (listing.wordOf before.pool frame machine right) := by
  have writable := (Reg.not_scratch_of_pooled pooled).2
  unfold divide at run
  simp only [bind_ok_iff] at run
  obtain ⟨_, middle, leftLoaded, _, between, rightLoaded, _, _, spread, _, _, divided, moved⟩ :=
    run
  obtain ⟨firstLoads, firstIssues, firstPool, firstRuns⟩ :=
    load_atHand numbered sound leftAtHand (by decide) leftLoaded
  -- No temporary holds a register of the division, so the right side is still at hand.
  have free : ∀ reg, before.pool.held? right = some reg → ¬reg = .rax := by
    intro reg held same
    have isPooled := sound.mem_pooled (Pool.mem_held_of_held? held)
    exact (Reg.not_scratch_of_pooled isPooled).1 (.inl same)
  rw [← firstPool] at sound rightAtHand
  obtain ⟨secondLoads, secondIssues, secondPool, secondRuns⟩ :=
    load_atHand numbered sound rightAtHand (by decide) rightLoaded
  cases ins_ok_iff.mp spread
  cases ins_ok_iff.mp divided
  cases ins_ok_iff.mp moved
  let rest : List Instruction :=
    [.cqo, .idiv Reg.sourceIndex] ++ [.mov (.whole target) (.whole answer)]
  have adds : Issues rest between
      { between with
        body := ((between.body.add .cqo).add (.idiv Reg.sourceIndex)).add
          (.mov (.whole target) (.whole answer)) } :=
    ⟨rfl, List.prefix_refl _, by simp [rest, Instruction.isScalar, Operand.whole]⟩
  refine ⟨firstLoads ++ (secondLoads ++ rest), firstIssues.trans (secondIssues.trans adds),
    secondPool.trans firstPool, ?_⟩
  intro frame grown machine
  let leftWord := listing.wordOf before.pool frame machine left
  let rightWord := listing.wordOf before.pool frame machine right
  have rightSame : listing.wordOf middle.pool frame (machine.set .rax leftWord) right =
      rightWord := by
    rw [firstPool]
    have changes : Machine.SameBut (fun reg => reg = .rax) machine
        (machine.set .rax leftWord) := .set _ _ rfl
    exact Listing.wordOf_of_sameBut changes free frame
  let loaded := (machine.set .rax leftWord).set Reg.sourceIndex rightWord
  have loadedSame : Machine.SameBut (Changes target) machine loaded :=
    .trans (.set _ _ (.inr (.inl rfl))) (.set _ _ (.inr (.inr (.inr rfl))))
  have loads : ∀ more, machine.run (firstLoads ++ (secondLoads ++ more)) = loaded.run more := by
    intro more
    rw [Machine.run_append, firstRuns frame (secondIssues.slots.trans grown) machine]
    show Machine.run _ _ = _
    rw [Machine.run_append, secondRuns frame grown, rightSame]
    rfl
  unfold Machine.Reaches
  rw [loads]
  have inRax : loaded.regs .rax = leftWord := by
    simp [loaded, Machine.regs_set_of_ne _ _ _ (by decide : Reg.rax ≠ Reg.sourceIndex)]
  have inSource : loaded.regs Reg.sourceIndex = rightWord := by
    simp [loaded]
  have divides := loaded.run_division (by decide : Reg.sourceIndex ≠ .rdx)
  rw [inRax, inSource] at divides
  have reaches : loaded.Reaches [.cqo, .idiv Reg.sourceIndex] fun later =>
      Machine.SameBut (Changes target) loaded later ∧
        later.regs answer = op.word leftWord rightWord := by
    rcases divides with faults | ⟨later, runs, quotient, remainder, others, slots, data⟩
    · exact .inl faults
    · refine .of_next runs ⟨⟨?_, slots, data⟩, ?_⟩
      · intro reg same
        exact others reg (fun equal => same (.inr (.inl equal)))
          fun equal => same (.inr (.inr (.inl equal)))
      · rcases division with ⟨rfl, rfl⟩ | ⟨rfl, rfl⟩
        · exact quotient
        · exact remainder
  refine reaches.append fun later found => .of_next ?_ ⟨?_, Machine.regs_set_same later target _⟩
  · rw [Machine.run_singleton]
    simp [Instruction.execute, Instruction.move, Operand.whole, Operand.word?, Machine.write,
      writable, found.2]
    rfl
  · exact loadedSame.trans (found.1.trans (.set _ _ (.inl rfl)))

/-- The code of an operation leaves the word of the operation in the register of its result. -/
theorem arith_atHand
    {result : Nat}
    {v : Variable}
    {name : String}
    {scope : Nat}
    (found : listing.fixed? result = some v)
    (storage : v.storage = .temporary name scope)
    (held : (result, target) ∈ before.pool.held)
    (rightApart : ∀ reg, before.pool.held? right = some reg → reg ≠ target)
    {op : ArithOp}
    (run : arith listing result left right op before = .ok (done, after)) :
    ∃ issued,
      Issues issued before after ∧ after.pool = before.pool ∧
        ∀ frame : StackFrame, after.frame.slots <+: frame.slots → ∀ machine : Machine,
          machine.Reaches issued fun later =>
            Machine.SameBut (Changes target) machine later ∧
              later.regs target = op.word (listing.wordOf before.pool frame machine left)
                (listing.wordOf before.pool frame machine right) := by
  unfold arith at run
  obtain ⟨reg, middle, registered, later⟩ := bind_ok_iff.mp run
  obtain ⟨rfl, rfl⟩ : reg = target ∧ middle = before := by
    obtain ⟨w, lookup, fixed⟩ := Listing.lookup?_of_fixed? found
    have isTemporary : w.storage = .temporary name scope := by
      apply Variable.fixed_temporary_iff.mp
      rw [fixed, storage]
    unfold resultRegister at registered
    simp only [lookup, isTemporary] at registered
    have number : w.id = result := by
      have same := numbered result v found
      rw [← fixed] at same
      exact same
    have isHeld := sound.held?_of_mem held
    rcases temporary_ok registered with ⟨same, rfl⟩ | ⟨absent, _⟩
    · rw [number, isHeld] at same
      cases same
      exact ⟨rfl, rfl⟩
    · rw [number, isHeld] at absent
      cases absent
  cases op with
  | div => exact divide_atHand numbered sound leftAtHand rightAtHand pooled (.inl ⟨rfl, rfl⟩) later
  | mod => exact divide_atHand numbered sound leftAtHand rightAtHand pooled (.inr ⟨rfl, rfl⟩) later
  | add =>
      exact combine_atHand numbered sound leftAtHand rightAtHand pooled rightApart
        (fun _ _ => rfl) (fun _ _ _ => rfl) later
  | sub =>
      exact combine_atHand numbered sound leftAtHand rightAtHand pooled rightApart
        (fun _ _ => rfl) (fun _ _ _ => rfl) later
  | mul =>
      exact combine_atHand numbered sound leftAtHand rightAtHand pooled rightApart
        (fun _ _ => rfl) (fun _ _ _ => rfl) later
  | unknown =>
      obtain ⟨_, _, _, later⟩ := bind_ok_iff.mp later
      obtain ⟨_, _, _, failed⟩ := bind_ok_iff.mp later
      exact (fail_ok_iff.mp failed).elim

end Operations

end Emit

end IlsCompiler
