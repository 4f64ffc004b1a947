import Mathlib.Algebra.Group.Int.Defs
import Mathlib.Algebra.Group.Nat.Defs
import IlsCompiler.Proofs.Assembly.CallLines

namespace IlsCompiler

/-!
# What instructions do

The registers, the frame of the running function and the data section, and what the
instructions for moves and arithmetic do to them. A division whose quotient has no place
in a register faults. Everything else that an instruction could say is outside this
machine: its meaning is unknown here, and so is that of an instruction that cannot be
encoded.
-/

/--
The registers, the words of the frame by their distance from the frame pointer, and the
bytes behind each symbol of the data section.
-/
structure Machine where
  regs : Reg → BitVec 64
  slots : Int → BitVec 64
  data : String → Nat → BitVec 8

/-- How running code ends. -/
inductive Outcome where
  | next (machine : Machine)
  | fault
  | unknown

/-- Go on from where running code ended. -/
def Outcome.andThen (outcome : Outcome) (rest : Machine → Outcome) : Outcome :=
  match outcome with
  | .next machine => rest machine
  | .fault => .fault
  | .unknown => .unknown

namespace Machine

/-- Write a register. -/
def set (machine : Machine) (reg : Reg) (word : BitVec 64) : Machine :=
  { machine with regs := fun other => if other = reg then word else machine.regs other }

/-- Write a word of the frame. -/
def store (machine : Machine) (offset : Int) (word : BitVec 64) : Machine :=
  { machine with slots := fun other => if other = offset then word else machine.slots other }

/-- The four bytes at a symbol, the lowest one first. -/
def dword (machine : Machine) (name : String) : BitVec 32 :=
  machine.data name 3 ++ machine.data name 2 ++ machine.data name 1 ++ machine.data name 0

/-- Write a register that code may change; the frame pointer and stack pointer stay. -/
def write (machine : Machine) (reg : Reg) (word : Option (BitVec 64)) : Outcome :=
  match word with
  | some known => if reg = .rbp ∨ reg = .rsp then .unknown else .next (machine.set reg known)
  | none => .unknown

section Registers

variable
    (machine : Machine)
    (reg : Reg)
    (word : BitVec 64)

@[simp] theorem regs_set_same :
    (machine.set reg word).regs reg = word := by
  simp [set]

@[simp] theorem regs_set_of_ne
    {other : Reg}
    (apart : other ≠ reg) :
    (machine.set reg word).regs other = machine.regs other := by
  simp [set, apart]

/-- Of two writes to one register the second stays. -/
@[simp] theorem set_set
    (later : BitVec 64) :
    (machine.set reg word).set reg later = machine.set reg later := by
  unfold set
  congr 1
  funext other
  split <;> simp [*]

/-- Writing what a register holds changes nothing. -/
theorem set_regs :
    machine.set reg (machine.regs reg) = machine := by
  have same : (fun other => if other = reg then machine.regs reg else machine.regs other) =
      machine.regs := by
    funext other
    split <;> simp [*]
  unfold set
  rw [same]

end Registers

end Machine

namespace Operand

/-- Whether a distance from the frame pointer is that of a whole word. -/
def isAligned (offset : Int) : Bool :=
  offset % 8 = 0

/-- The word that an operand of full width stands for. -/
def word? (machine : Machine) : Operand → Option (BitVec 64)
  | .immediate text => (Text.integer? 64 text).map (BitVec.ofInt 64)
  | .register reg width => if width = 8 then some (machine.regs reg) else none
  | .memory (.frame offset) width =>
      if width = 8 ∧ isAligned offset then some (machine.slots offset) else none
  | .memory _ _ => none

end Operand

namespace Instruction

/-- Combine a register with a second operand, which is no number outside 32 bits. -/
def combine (machine : Machine) (op : BitVec 64 → BitVec 64 → BitVec 64)
    (target source : Operand) : Outcome :=
  match target with
  | .register reg width =>
      if width = 8 ∧ source.isWide = false then
        machine.write reg ((source.word? machine).map (op (machine.regs reg)))
      else
        .unknown
  | _ => .unknown

/-- Write an operand of full width; memory takes a register or a number of 32 bits. -/
def move (machine : Machine) (target source : Operand) : Outcome :=
  match target with
  | .register reg width =>
      if width = 8 then machine.write reg (source.word? machine) else .unknown
  | .memory (.frame offset) width =>
      if width = 8 ∧ Operand.isAligned offset ∧ source.isMemory = false ∧
          source.isWide = false then
        match source.word? machine with
        | some word => .next (machine.store offset word)
        | none => .unknown
      else
        .unknown
  | _ => .unknown

/--
Divide the double word in two registers by a third one. The quotient goes to the first
register and the remainder to the second; both have the sign that truncation gives them.
-/
def divide (machine : Machine) (divisor : Reg) : Outcome :=
  let dividend := (machine.regs .rdx ++ machine.regs .rax).toInt
  let by_ := (machine.regs divisor).toInt
  if by_ = 0 ∨ Text.fits 64 (dividend.tdiv by_) = false then
    .fault
  else
    .next ((machine.set .rax (.ofInt 64 (dividend.tdiv by_))).set .rdx
      (.ofInt 64 (dividend.tmod by_)))

/-- What an instruction does. -/
def execute (machine : Machine) : Instruction → Outcome
  | .mov target source => move machine target source
  | .movsxd target (.memory (.symbol name none) 4) =>
      machine.write target (some ((machine.dword name).signExtend 64))
  | .movzx target (.memory (.symbol name none) 1) =>
      machine.write target (some ((machine.data name 0).setWidth 64))
  | .add target source => combine machine (· + ·) target source
  | .sub target source => combine machine (· - ·) target source
  | .imul target source => combine machine (· * ·) target source
  | .cqo =>
      machine.write .rdx
        (some (if (machine.regs .rax).msb then BitVec.allOnes 64 else BitVec.ofNat 64 0))
  | .idiv divisor => divide machine divisor
  | _ => .unknown

end Instruction

namespace Machine

/-- Run instructions one after the other. -/
def run (machine : Machine) : List Instruction → Outcome
  | [] => .next machine
  | first :: rest => (first.execute machine).andThen fun later => later.run rest

theorem run_append
    (machine : Machine)
    (first second : List Instruction) :
    machine.run (first ++ second) = (machine.run first).andThen fun later => later.run second := by
  induction first generalizing machine with
  | nil => rfl
  | cons instruction rest inductionHypothesis =>
      simp only [List.cons_append, run]
      cases instruction.execute machine with
      | next later => exact inductionHypothesis later
      | fault => rfl
      | unknown => rfl

theorem run_singleton
    (machine : Machine)
    (instruction : Instruction) :
    machine.run [instruction] = instruction.execute machine := by
  simp only [run]
  cases instruction.execute machine <;> rfl

/-- The sign of a word, spread over the word above it, leaves the value as it is. -/
theorem toInt_spread
    (word : BitVec 64) :
    ((if word.msb then BitVec.allOnes 64 else BitVec.ofNat 64 0) ++ word).toInt = word.toInt := by
  have wide : word.signExtend 128 =
      (if word.msb then BitVec.allOnes 64 else BitVec.ofNat 64 0) ++ word := by
    rw [BitVec.signExtend_eq_append_of_le (by decide : 64 ≤ 128)]
    rfl
  rw [← wide, BitVec.toInt_signExtend_of_le (by decide)]

/-- A word with the value of a number in its range is that number. -/
theorem ofInt_of_toInt
    {word : BitVec 64}
    {value : Int}
    (same : word.toInt = value.bmod (2 ^ 64)) :
    BitVec.ofInt 64 value = word := by
  apply BitVec.eq_of_toInt_eq
  rw [BitVec.toInt_ofInt, same]

/-- Spreading the sign and dividing gives the truncated quotient and its remainder. -/
theorem run_division
    (machine : Machine)
    {divisor : Reg}
    (apart : divisor ≠ .rdx) :
    machine.run [.cqo, .idiv divisor] = .fault ∨
      ∃ later,
        machine.run [.cqo, .idiv divisor] = .next later ∧
          later.regs .rax = (machine.regs .rax).sdiv (machine.regs divisor) ∧
          later.regs .rdx = (machine.regs .rax).srem (machine.regs divisor) ∧
          (∀ other, other ≠ .rax → other ≠ .rdx → later.regs other = machine.regs other) ∧
          later.slots = machine.slots ∧ later.data = machine.data := by
  let spread := machine.set .rdx
    (if (machine.regs .rax).msb then BitVec.allOnes 64 else BitVec.ofNat 64 0)
  have runs : machine.run [.cqo, .idiv divisor] = Instruction.divide spread divisor :=
    run_singleton spread (.idiv divisor)
  have dividend : (spread.regs .rdx ++ spread.regs .rax).toInt = (machine.regs .rax).toInt := by
    simp only [spread, regs_set_same, regs_set_of_ne _ _ _ (by decide : Reg.rax ≠ .rdx)]
    exact toInt_spread _
  have by_ : spread.regs divisor = machine.regs divisor := regs_set_of_ne _ _ _ apart
  rw [runs, Instruction.divide, dividend, by_]
  split
  · exact .inl rfl
  · right
    refine ⟨_, rfl, ?_, ?_, ?_, rfl, rfl⟩
    · rw [regs_set_of_ne _ _ _ (by decide), regs_set_same]
      exact ofInt_of_toInt (BitVec.toInt_sdiv _ _)
    · rw [regs_set_same]
      apply BitVec.eq_of_toInt_eq
      rw [BitVec.toInt_ofInt, ← BitVec.toInt_srem]
      exact BitVec.toInt_bmod_cancel _
    · intro other notRax notRdx
      rw [regs_set_of_ne _ _ _ notRdx, regs_set_of_ne _ _ _ notRax]
      exact regs_set_of_ne _ _ _ notRdx

end Machine

/-!
## Moves that are taken back

A move that the next instruction makes useless is taken back before that instruction is
written. For code that works on registers this changes nothing: what is left does what
all of the code would have done.
-/

/-- Text that starts with no white space starts the same when it is trimmed. -/
theorem Text.trimChars_cons
    {first : Char}
    (solid : isSpace first = false)
    (rest : List Char) :
    ∃ more, trimChars (first :: rest) = first :: more := by
  have ends : ∀ front : List Char,
      (front ++ [first]).dropWhile isSpace = front.dropWhile isSpace ++ [first] := by
    intro front
    induction front with
    | nil => simp [solid]
    | cons value others inductionHypothesis =>
        rw [List.cons_append, List.dropWhile_cons, List.dropWhile_cons]
        split
        · exact inductionHypothesis
        · rfl
  refine ⟨(rest.reverse.dropWhile isSpace).reverse, ?_⟩
  simp [trimChars, solid, ends]

theorem Reg.ofSpelling?_name
    (reg : Reg) :
    ofSpelling? reg.name = some reg := by
  cases reg <;> decide

namespace Move

/-- The first comma of a move stands behind its target. -/
theorem cutComma?_append
    {target : List Char}
    (noComma : ',' ∉ target)
    (source : List Char) :
    cutComma? (target ++ ',' :: ' ' :: source) = some (target, source) := by
  induction target with
  | nil => rfl
  | cons value rest inductionHypothesis =>
      simp only [List.mem_cons, not_or] at noComma
      rw [List.cons_append, cutComma?]
      · rw [inductionHypothesis noComma.2]
      · rintro other rfl
        exact (noComma.1 rfl).elim

/-- A text that starts with another mnemonic is no move. -/
theorem parse?_eq_none
    {line : String}
    (other : afterStart? "mov ".toList line.toList = none) :
    parse? line = none := by
  unfold parse?
  rw [other]
  rfl

/-- An operand that is part of a register mentions the register. -/
theorem mentions_register
    (reg : Reg)
    (width : Nat) :
    mentions (String.ofList (Text.trimChars (Operand.register reg width).text.toList)) reg =
      true := by
  simp only [Operand.text, Reg.sized]
  split <;> cases reg <;> decide +kernel

end Move

namespace Instruction

/-- Whether an instruction writes nothing but registers. -/
def isScalar : Instruction → Bool
  | .mov (.register _ 8) _ => true
  | .movsxd _ _ => true
  | .movzx _ _ => true
  | .add _ _ => true
  | .sub _ _ => true
  | .imul _ _ => true
  | .cqo => true
  | .idiv _ => true
  | _ => false

/-- Whether an instruction writes a word of the frame. -/
def isStore : Instruction → Bool
  | .mov (.memory (.frame _) 8) _ => true
  | _ => false

/-- Instructions without those that the instruction right behind them makes useless. -/
def written : List Instruction → List Instruction
  | first :: second :: rest =>
      if Move.isRedundant (Line.text (.instruction first)) second.text then
        written (second :: rest)
      else
        first :: written (second :: rest)
  | short => short

/-- Only a move, and an instruction given by its text alone, reads like a move. -/
theorem isMove_of_start
    {instruction : Instruction}
    {rest : List Char}
    (known : ∀ text, instruction ≠ .verbatim text)
    (start : Move.afterStart? "mov ".toList instruction.text.toList = some rest) :
    ∃ target source, instruction = .mov target source := by
  cases instruction with
  | mov target source => exact ⟨target, source, rfl⟩
  | verbatim text => exact (known text rfl).elim
  | jump condition label =>
      cases condition with
      | none => simp [Instruction.text, jumpMnemonic, Move.afterStart?] at start
      | some test => cases test <;> simp [Instruction.text, jumpMnemonic, Move.afterStart?] at start
  | _ => simp [Instruction.text, binaryText, Move.afterStart?] at start

theorem start_of_redundant
    {previous : String}
    {next : Instruction}
    (redundant : Move.isRedundant previous next.text = true) :
    ∃ rest, Move.afterStart? "mov ".toList next.text.toList = some rest := by
  cases start : Move.afterStart? "mov ".toList next.text.toList with
  | none => simp [Move.isRedundant, Move.parse?_eq_none start] at redundant
  | some rest => exact ⟨rest, rfl⟩

variable
    {first second : Instruction}

/-- Only a plain move is made useless by the next instruction, and only by a plain move. -/
theorem moves_of_redundant
    (scalar : first.isScalar)
    (next : second.isScalar ∨ second.isStore)
    (redundant : Move.isRedundant (Line.text (.instruction first)) second.text = true) :
    ∃ reg source target other,
      first = .mov (.whole reg) source ∧ second = .mov target other := by
  obtain ⟨_, start⟩ := Move.mov_of_isRedundant redundant
  rw [Move.withoutTab_text] at start
  obtain ⟨firstTarget, source, rfl⟩ := isMove_of_start (by rintro text rfl; cases scalar) start
  obtain ⟨_, nextStart⟩ := start_of_redundant redundant
  obtain ⟨target, other, rfl⟩ := isMove_of_start (by rintro text rfl; simp [isScalar, isStore] at next)
    nextStart
  unfold isScalar at scalar
  split at scalar
  next reg _ same =>
    cases same
    exact ⟨reg, source, target, other, rfl, rfl⟩
  all_goals simp_all

/-- A move into a register is read back as a move into that register. -/
theorem parse?_mov_whole
    (reg : Reg)
    (source : Operand) :
    Move.parse? (Instruction.text (.mov (.whole reg) source)) =
      some (reg.name, String.ofList (Text.trimChars source.text.toList)) := by
  have noComma : ',' ∉ reg.name.toList := by
    cases reg <;> decide
  have trimmed : String.ofList (Text.trimChars reg.name.toList) = reg.name := by
    cases reg <;> decide
  have written : (Instruction.text (.mov (.whole reg) source)).toList =
      'm' :: 'o' :: 'v' :: ' ' :: (reg.name.toList ++ ',' :: ' ' :: source.text.toList) := by
    simp [Instruction.text, binaryText, Operand.whole, Operand.text, Reg.sized,
      String.toList_append]
  unfold Move.parse?
  rw [written]
  simp [Move.afterStart?, Move.cutComma?_append noComma, trimmed]

variable
    {source later : Operand}
    {reg other : Reg}

/-- A move makes another one useless where it goes to the same register and does not name it. -/
theorem notMentions_of_redundant
    (redundant : Move.isRedundant (Line.text (.instruction (.mov (.whole reg) source)))
      (Instruction.text (.mov (.whole other) later)) = true) :
    reg = other ∧
      Move.mentions (String.ofList (Text.trimChars later.text.toList)) reg = false := by
  unfold Move.isRedundant at redundant
  rw [Move.withoutTab_text, parse?_mov_whole, parse?_mov_whole] at redundant
  simp only at redundant
  split at redundant
  next sameName =>
    have same : some reg = some other := by
      rw [← Reg.ofSpelling?_name, sameName, Reg.ofSpelling?_name]
    cases same
    simp only [Reg.ofSpelling?_name, Bool.not_eq_true'] at redundant
    exact ⟨rfl, redundant⟩
  next => cases redundant

/-- A move into a register makes another one useless only where it reads something else. -/
theorem word?_of_redundant
    (redundant : Move.isRedundant (Line.text (.instruction (.mov (.whole reg) source)))
      (Instruction.text (.mov (.whole other) later)) = true)
    (machine : Machine)
    (word : BitVec 64) :
    reg = other ∧ later.word? (machine.set reg word) = later.word? machine := by
  obtain ⟨rfl, unnamed⟩ := notMentions_of_redundant redundant
  refine ⟨rfl, ?_⟩
  cases later with
  | immediate text => rfl
  | memory address width => cases address <;> rfl
  | register read width =>
      have apart : read ≠ reg := by
        rintro rfl
        rw [Move.mentions_register] at unnamed
        cases unnamed
      simp only [Operand.word?, Machine.regs_set_of_ne _ _ _ apart]

/-- No instruction that writes memory makes a move into a register useless. -/
theorem not_redundant_store
    (reg : Reg)
    (source later : Operand)
    (offset : Int) :
    Move.isRedundant (Line.text (.instruction (.mov (.whole reg) source)))
      (Instruction.text (.mov (.memory (.frame offset) 8) later)) = false := by
  obtain ⟨operands, written⟩ : ∃ operands,
      (Instruction.text (.mov (.memory (.frame offset) 8) later)).toList =
        'm' :: 'o' :: 'v' :: ' ' :: 'q' :: operands :=
    ⟨_, by simp [Instruction.text, binaryText, Operand.text, Ty.qualifierFor,
      String.toList_append]; rfl⟩
  have noName : ∀ front : List Char, reg.name ≠ String.ofList (Text.trimChars ('q' :: front)) := by
    intro front same
    have chars := congrArg String.toList same
    obtain ⟨more, trimmed⟩ := Text.trimChars_cons (by decide : Text.isSpace 'q' = false) front
    rw [String.toList_ofList, trimmed] at chars
    revert chars
    cases reg <;> simp [Reg.name]
  unfold Move.isRedundant
  rw [Move.withoutTab_text, parse?_mov_whole]
  cases cut : Move.cutComma? operands with
  | none => simp [Move.parse?, written, Move.afterStart?, Move.cutComma?, cut]
  | some pair =>
      simp [Move.parse?, written, Move.afterStart?, Move.cutComma?, cut, noName]

/-- What an instruction does is what it does behind a move that it makes useless. -/
theorem execute_of_redundant
    (scalar : first.isScalar)
    (next : second.isScalar ∨ second.isStore)
    (redundant : Move.isRedundant (Line.text (.instruction first)) second.text = true)
    {machine later : Machine}
    (executed : first.execute machine = .next later) :
    second.execute later = second.execute machine := by
  obtain ⟨reg, source, target, other, rfl, rfl⟩ := moves_of_redundant scalar next redundant
  obtain ⟨word, rfl⟩ : ∃ word, later = machine.set reg word := by
    simp only [execute, move, Operand.whole, ↓reduceIte, Machine.write] at executed
    split at executed
    · split at executed
      · cases executed
      · cases executed
        exact ⟨_, rfl⟩
    · cases executed
  rcases next with isScalar | isStore
  · obtain ⟨targetReg, rfl⟩ : ∃ targetReg, target = .whole targetReg := by
      unfold Instruction.isScalar at isScalar
      split at isScalar
      next targetReg _ same =>
        cases same
        exact ⟨targetReg, rfl⟩
      all_goals simp_all
    obtain ⟨rfl, sameWord⟩ := word?_of_redundant redundant machine word
    simp only [execute, move, Operand.whole, ↓reduceIte, sameWord, Machine.write,
      Machine.set_set]
  · obtain ⟨offset, rfl⟩ : ∃ offset, target = .memory (.frame offset) 8 := by
      unfold Instruction.isStore at isStore
      split at isStore
      next offset _ same =>
        cases same
        exact ⟨offset, rfl⟩
      · cases isStore
    rw [not_redundant_store] at redundant
    cases redundant

/-- Running what is left of code does what running all of it does. -/
theorem run_written
    {issued : List Instruction}
    (scalar : ∀ instruction ∈ issued.dropLast, instruction.isScalar)
    (last : ∀ instruction ∈ issued, instruction.isScalar ∨ instruction.isStore)
    {machine : Machine}
    (known : machine.run issued ≠ .unknown) :
    machine.run (written issued) = machine.run issued := by
  induction issued generalizing machine with
  | nil => rfl
  | cons first rest inductionHypothesis =>
      cases rest with
      | nil => rfl
      | cons second rest =>
          have restScalar : ∀ instruction ∈ (second :: rest).dropLast, instruction.isScalar :=
            fun instruction member => scalar instruction (by simp [member])
          have restLast : ∀ instruction ∈ second :: rest,
              instruction.isScalar ∨ instruction.isStore :=
            fun instruction member => last instruction (by simp [member])
          have runs : machine.run (first :: second :: rest) =
              (first.execute machine).andThen fun later => later.run (second :: rest) := rfl
          rw [written]
          split
          next redundant =>
            have isScalar := scalar first (by simp)
            cases executed : first.execute machine with
            | next later =>
                have same := execute_of_redundant isScalar (last second (by simp)) redundant
                  executed
                have skips : machine.run (first :: second :: rest) =
                    machine.run (second :: rest) := by
                  rw [runs, executed]
                  simp only [Outcome.andThen, Machine.run, same]
                rw [skips] at known ⊢
                exact inductionHypothesis restScalar restLast known
            | fault =>
                obtain ⟨reg, source, _, _, rfl, rfl⟩ := moves_of_redundant isScalar
                  (last second (by simp)) redundant
                simp only [execute, move, Operand.whole, ↓reduceIte, Machine.write] at executed
                split at executed
                · split at executed <;> cases executed
                · cases executed
            | unknown =>
                rw [runs, executed] at known
                exact (known rfl).elim
          next =>
            show (first.execute machine).andThen _ = (first.execute machine).andThen _
            cases executed : first.execute machine with
            | next later =>
                rw [runs, executed] at known
                exact inductionHypothesis restScalar restLast known
            | fault => rfl
            | unknown => rfl

end Instruction

namespace Body

open Instruction

/-- Append instructions one after the other. -/
def addAll (body : Body) (issued : List Instruction) : Body :=
  issued.foldl add body

theorem addAll_append
    (body : Body)
    (first second : List Instruction) :
    body.addAll (first ++ second) = (body.addAll first).addAll second := by
  simp [addAll]

/-- The lines of a body that stay when an instruction is appended. -/
def keptFor (body : Body) (next : Instruction) : List Line :=
  match body.lines.back? with
  | some last =>
      if Move.isRedundant last.text next.text then
        body.lines.toList.dropLast
      else
        body.lines.toList
  | none => body.lines.toList

theorem lines_add
    (body : Body)
    (next : Instruction) :
    (body.add next).lines.toList = body.keptFor next ++ [.instruction next] := by
  unfold add keptFor
  cases body.lines.back? with
  | none => simp
  | some last =>
      simp only
      split <;> simp

/-- Of a body at most the last line goes when more instructions are appended. -/
theorem lines_addAll
    (body : Body)
    (first : Instruction)
    (rest : List Instruction) :
    (body.addAll (first :: rest)).lines.toList =
      body.keptFor first ++ (written (first :: rest)).map .instruction := by
  induction rest generalizing body first with
  | nil => exact lines_add body first
  | cons second rest inductionHypothesis =>
      have more : body.addAll (first :: second :: rest) =
          (body.add first).addAll (second :: rest) := rfl
      have back : (body.add first).lines.back? = some (.instruction first) := by
        rw [← Array.getLast?_toList, lines_add, List.getLast?_concat]
      rw [more, inductionHypothesis, written, keptFor, back]
      simp only [lines_add]
      split <;> simp

end Body

end IlsCompiler
