import IlsCompiler.Proofs.Assembly.PreservedRegisters
import IlsCompiler.Proofs.Assembly.CallSites
import IlsCompiler.Proofs.Assembly.Results

namespace IlsCompiler

/-!
# Parameters

A function that is called finds the words that its caller pushed at fixed distances from its frame
pointer, behind the return address and the frame pointer of the caller.
-/

/-- Instructions that execute as they run are passed. -/
theorem Line.Passes.of_run
    {link : Linkage}
    {bottom : Int}
    {issued : List Issue}
    (each : ∀ issue ∈ issued, ∀ {cpu known : Cpu},
      issue.execute link cpu = some known → issue.instruction.Executes link bottom cpu known)
    {cpu later : Cpu}
    (runs : Issue.run link issued cpu = some later) :
    Passes link bottom (issued.map fun issue => .instruction issue.instruction) cpu later := by
  induction issued generalizing cpu with
  | nil =>
      cases runs
      exact .nil _
  | cons issue rest inductionHypothesis =>
      obtain ⟨between, executed, others⟩ := Option.bind_eq_some_iff.mp runs
      have first := each issue (by simp) executed
      exact .step first
        (inductionHypothesis (fun other member => each other (by simp [member])) others)

variable
    {position : Nat}

namespace Line.Passes

variable
    {link : Linkage}
    {bottom : Int}
    {function : Signature}
    {frame : StackFrame}
    {saved : List Reg}

/--
Behind the start of a function the place of a parameter in its frame is where its caller pushed the
word of the argument, and the word is still there.
-/
theorem parameter
    (sublist : saved.Sublist Reg.preservedPool)
    {atCall begun : Cpu}
    {words : List (BitVec 64)}
    (holds : atCall.memory.Holds atCall.top words)
    {back : BitVec 64}
    (passes : Passes link bottom
      (FunctionCode.opening function ++ Emit.setup (frame.size saved.length) saved)
      (atCall.push back) begun)
    {word : BitVec 64}
    (found : words[position]? = some word) :
    (StackFrame.parameterAddress position).place link begun = atCall.top + 8 * (position : Int) ∧
      atCall.memory.word (atCall.top + 8 * (position : Int)) = word ∧
      begun.memory.word ((StackFrame.parameterAddress position).place link begun) = word := by
  have enters := passes.enters sublist
  have base : begun.base = atCall.top - 8 - 8 := enters.base
  have place : (StackFrame.parameterAddress position).place link begun =
      atCall.top + 8 * (position : Int) := by
    simp only [StackFrame.parameterAddress, Address.place, base, StackFrame.slotSize]
    omega
  have above : ∀ other, atCall.top ≤ other → begun.memory other = atCall.memory other := by
    intro other isAbove
    rw [enters.memory other (by show atCall.top - 8 ≤ other; omega)]
    exact Memory.store_outside _ _ (.inr (by omega))
  have pushed := holds.word_eq found
  refine ⟨place, pushed, ?_⟩
  rw [place, ← pushed]
  exact Memory.word_of_same fun other from_ _ => above other (by omega)

end Line.Passes

end IlsCompiler

namespace IlsCompiler

/-!
## Callers and callees

The lines of a call and the lines of the function that it calls fit together. What the caller pushes
for an argument is at the place of the parameter when the start of the function has run, and what
the function returns is in the operand that the caller finds for the result.
-/

open FunctionCode Lower LoweringState

namespace Lower

end Lower

end IlsCompiler
