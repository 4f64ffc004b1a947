import IlsCompiler.Proofs.Assembly.Functions
import IlsCompiler.Proofs.Assembly.Peephole
import IlsCompiler.Proofs.Assembly.Resolution

namespace IlsCompiler

/-!
# The level of the stack

Between the prologue and the epilogue of a function every instruction moves the stack pointer by
a fixed number of words. The level in front of a line is the number of words that are on the
stack there beyond the frame. It is zero at labels and jumps and even at calls.
-/

namespace Instruction

/-- The register that an instruction writes. -/
def target? : Instruction → Option Reg
  | .mov (.register reg _) _ => some reg
  | .movsxd reg _ => some reg
  | .movzx reg _ => some reg
  | .add (.register reg _) _ => some reg
  | .sub (.register reg _) _ => some reg
  | .imul (.register reg _) _ => some reg
  | .xor (.register reg _) _ => some reg
  | .lea reg _ => some reg
  | .pop reg => some reg
  | _ => none

/-- Whether an instruction writes the stack pointer or the frame pointer as its target. -/
def writesPointer (instruction : Instruction) : Bool :=
  instruction.target? = some .rsp || instruction.target? = some .rbp

/-- The whole words in a number of bytes given in text form. -/
def words? (text : String) : Option Int :=
  (Text.readSigned? text.toList).bind fun bytes =>
    if bytes % StackFrame.slotSize = 0 then some (bytes / StackFrame.slotSize) else none

/--
How many words an instruction pushes. There is no answer for one that does something else with
the stack pointer or the frame pointer, and for one after which the function does not go on.
-/
def pushes? : Instruction → Option Int
  | .push _ => some 1
  | .pop reg => if reg = .rsp ∨ reg = .rbp then none else some (-1)
  | .sub (.register .rsp 8) (.immediate text) => words? text
  | .add (.register .rsp 8) (.immediate text) => (words? text).map fun words => -words
  | .ret => none
  | .verbatim _ => none
  | other => if other.writesPointer then none else some 0

/-- The forms of instructions that compute a value into a register. -/
def computations (reg : Reg) (source : Operand) : List Instruction :=
  [.mov (.whole reg) source, .movsxd reg source, .movzx reg source, .add (.whole reg) source,
    .sub (.whole reg) source, .imul (.whole reg) source, .xor (.whole reg) source]

/-- The forms of instructions that stand between a prologue and an epilogue. -/
inductive Common : Instruction → Prop
  | compute {reg : Reg} {source : Operand} {next : Instruction} :
      next ∈ computations reg source → Common next
  | store (address : Address) (width : Nat) (source : Operand) :
      Common (.mov (.memory address width) source)
  | cmp (left right : Operand) : Common (.cmp left right)
  | cqo : Common .cqo
  | idiv (divisor : Reg) : Common (.idiv divisor)
  | syscall : Common .syscall
  | push (source : Operand) : Common (.push source)
  | pop (target : Reg) : Common (.pop target)
  | call (name : String) : Common (.call name)
  | jump (condition : Option CmpOp) (label : String) : Common (.jump condition label)

end Instruction

/-- The level behind a line, if the line may stand at a level. -/
def Line.level? (level : Int) : Line → Option Int
  | .label _ => if level = 0 then some 0 else none
  | .instruction (.jump _ _) => if level = 0 then some 0 else none
  | .instruction (.call _) => if level % 2 = 0 then some level else none
  | .instruction other => other.pushes?.map fun words => level + words
  | _ => none

/-- The level behind lines, if each of them may stand where it does. -/
def Line.levels? : Int → List Line → Option Int
  | level, [] => some level
  | level, line :: rest => (line.level? level).bind fun next => levels? next rest

namespace Line

theorem levels?_append
    (level : Int)
    (first second : List Line) :
    levels? level (first ++ second) =
      (levels? level first).bind fun next => levels? next second := by
  induction first generalizing level with
  | nil => simp [levels?]
  | cons line rest inductionHypothesis =>
      simp [levels?, inductionHypothesis, Option.bind_assoc]

/-- A line that can be taken back leaves the level as it is. -/
theorem level?_of_redundant
    {line : Line}
    {level next : Int}
    {text : String}
    (known : line.level? level = some next)
    (redundant : Move.isRedundant line.text text = true) :
    next = level := by
  obtain ⟨rest, start⟩ := Move.mov_of_isRedundant redundant
  cases line with
  | instruction written =>
      rw [Move.withoutTab_text] at start
      obtain ⟨target, source, rfl⟩ := Instruction.isMove_of_start
        (by rintro text rfl; simp [level?, Instruction.pushes?] at known) start
      simp only [level?, Instruction.pushes?] at known
      split at known
      · cases known
      · simpa using known.symm
  | label name => simp [Line.text, Move.withoutTab, Move.afterStart?] at start
  | raw text => simp [level?] at known
  | blank => simp [level?] at known

end Line

theorem Body.keptFor_cases
    (body : Body)
    (next : Instruction) :
    body.keptFor next = body.lines.toList ∨
      ∃ last,
        body.lines.toList = body.keptFor next ++ [last] ∧
          Move.isRedundant last.text next.text = true := by
  unfold keptFor
  split
  next last found =>
    split
    next redundant =>
      have isLast : body.lines.toList.getLast? = some last := by simpa using found
      obtain ⟨front, shape⟩ := List.getLast?_eq_some_iff.mp isLast
      exact .inr ⟨last, by simp [shape], redundant⟩
    next => exact .inl rfl
  next => exact .inl rfl

/-- The name of a line that is a label. -/
def Line.label? : Line → Option String
  | .label name => some name
  | _ => none

/-- The labels of a body, in order. -/
def Body.labels (body : Body) : List String :=
  body.lines.toList.filterMap Line.label?

/-- An instruction takes no label back. -/
@[simp] theorem Body.labels_add
    (body : Body)
    (next : Instruction) :
    (body.add next).labels = body.labels := by
  have added : (body.add next).labels = (body.keptFor next).filterMap Line.label? := by
    rw [labels, lines_add, List.filterMap_append]
    exact List.append_nil _
  rcases body.keptFor_cases next with same | ⟨last, shape, redundant⟩
  · rw [added, same, labels]
  · have noLabel : last.label? = none := by
      obtain ⟨rest, start⟩ := Move.mov_of_isRedundant redundant
      cases last with
      | label name => simp [Line.text, Move.withoutTab, Move.afterStart?] at start
      | _ => rfl
    rw [added, labels, shape, List.filterMap_append]
    simp [noLabel]

@[simp] theorem Body.labels_label
    (body : Body)
    (name : String) :
    (body.label name).labels = body.labels ++ [name] := by
  simp [labels, label, Line.label?]

/-- The functions that code may call and the positions of the parameters it may overwrite. -/
structure Permitted where
  calls : Call → Prop
  parameters : Nat → Prop

/-- Everything is permitted. -/
def Permitted.everything : Permitted :=
  { calls := fun _ => True, parameters := fun _ => True }

/--
Whether an instruction may stand at a level where some slots have been given to locals: it has a
common form, the preserved registers that it writes are among the given ones, what it finds in
the frame is a parameter or a slot, and a function that it calls finds its arguments on the stack.
-/
structure Instruction.Fits (permitted : Permitted) (slots : Nat) (regs : List Reg) (level : Int)
    (next : Instruction) : Prop where
  common : next.Common
  targets : ∀ reg ∈ Reg.preservedPool, next.target? = some reg → reg ∈ regs
  operands : ∀ operand ∈ next.operands, operand.InFrame slots
  stores : ∀ position width source,
    next = .mov (.memory (StackFrame.parameterAddress position) width) source →
      permitted.parameters position
  calls : ∀ name, next = .call name →
    name = PrintFormat.routine ∨
      ∃ call, permitted.calls call ∧ call.name = name ∧ (call.arguments.length : Int) ≤ level

variable
    {next : Instruction}

theorem Instruction.Fits.mono
    {permitted : Permitted}
    {slots more : Nat}
    {regs others : List Reg}
    {level : Int}
    (fits : next.Fits permitted slots regs level)
    (grown : slots ≤ more)
    (within : ∀ reg ∈ Reg.preservedPool, reg ∈ regs → reg ∈ others) :
    next.Fits permitted more others level :=
  { fits with
    targets := fun reg preserved isTarget =>
      within reg preserved (fits.targets reg preserved isTarget)
    operands := fun operand member => (fits.operands operand member).mono grown }

namespace Line

/-- Every instruction of some lines fits where it stands, at a level that is not negative. -/
def Fit (permitted : Permitted) (slots : Nat) (regs : List Reg) (lines : List Line) : Prop :=
  ∀ front next rest level,
    lines = front ++ .instruction next :: rest → levels? 0 front = some level →
      0 ≤ level ∧ next.Fits permitted slots regs level

namespace Fit

variable
    {permitted : Permitted}
    {slots : Nat}
    {regs : List Reg}
    {lines : List Line}

theorem nil :
    Fit permitted slots regs [] := by
  intro front next rest level shape
  simp at shape

theorem mono
    {more : Nat}
    {others : List Reg}
    (fit : Fit permitted slots regs lines)
    (grown : slots ≤ more)
    (within : ∀ reg ∈ Reg.preservedPool, reg ∈ regs → reg ∈ others) :
    Fit permitted more others lines := by
  intro front next rest level shape known
  obtain ⟨deep, fits⟩ := fit front next rest level shape known
  exact ⟨deep, fits.mono grown within⟩

theorem of_append
    {more : List Line}
    (fit : Fit permitted slots regs (lines ++ more)) :
    Fit permitted slots regs lines := by
  intro front next rest level shape known
  exact fit front next (rest ++ more) level (by simp [shape]) known

/-- One more line has to fit behind the others. -/
theorem concat
    {line : Line}
    (fit : Fit permitted slots regs lines)
    (fits : ∀ next level, line = .instruction next → levels? 0 lines = some level →
      0 ≤ level ∧ next.Fits permitted slots regs level) :
    Fit permitted slots regs (lines ++ [line]) := by
  intro front next rest level shape known
  rcases List.eq_nil_or_concat rest with rfl | ⟨between, final, rfl⟩
  · obtain ⟨rfl, ends⟩ := List.append_inj' shape rfl
    cases ends
    exact fits next level rfl known
  · have split : lines ++ [line] = (front ++ .instruction next :: between) ++ [final] := by
      simpa using shape
    obtain ⟨rfl, -⟩ := List.append_inj' split rfl
    exact fit front next between level rfl known

end Fit

end Line

namespace Emit

theorem words?_number
    (words : Nat) :
    Instruction.words? (toString (StackFrame.slotSize * words)) = some (words : Int) := by
  have read := Text.readSigned?_toString ((StackFrame.slotSize * words : Nat) : Int)
  simp only [Instruction.words?]
  rw [show toString (StackFrame.slotSize * words) =
    toString ((StackFrame.slotSize * words : Nat) : Int) from rfl, read]
  simp [StackFrame.slotSize]

theorem level?_reserve
    (level : Int)
    (words : Nat) :
    Line.level? level
        (.instruction (.sub (.whole .rsp) (.number (StackFrame.slotSize * words)))) =
      some (level + words) := by
  show (Instruction.words? _).map _ = _
  rw [words?_number]
  rfl

theorem level?_drop
    (level : Int)
    (words : Nat) :
    Line.level? level
        (.instruction (.add (.whole .rsp) (.number (StackFrame.slotSize * words)))) =
      some (level - words) := by
  show ((Instruction.words? _).map _).map _ = _
  rw [words?_number]
  rfl

end Emit

end IlsCompiler
