import IlsCompiler.Proofs.Assembly.NodeLevels
import IlsCompiler.Proofs.Assembly.FileSections

namespace IlsCompiler

/-!
# Runs of a function on the stack

What a run of a function does with the stack pointer and the frame pointer. Everything else about
the machine is left open: a conditional jump may go either way, and an instruction whose effect
on the two pointers is not described may leave anything in them. A routine that is called
returns with both as they were.
-/

/-- The two registers that delimit the frame of a function, as addresses. -/
structure Stack where
  rsp : Int
  rbp : Int
deriving DecidableEq, Repr

/-- The pointers behind an instruction, if its effect on them is described. -/
def Stack.after? (stack : Stack) : Instruction → Option Stack
  | .push _ => some { stack with rsp := stack.rsp - StackFrame.slotSize }
  | .pop reg =>
      if reg = .rsp ∨ reg = .rbp then
        none
      else
        some { stack with rsp := stack.rsp + StackFrame.slotSize }
  | .sub (.register .rsp 8) (.immediate text) =>
      (Text.readSigned? text.toList).map fun bytes => { stack with rsp := stack.rsp - bytes }
  | .add (.register .rsp 8) (.immediate text) =>
      (Text.readSigned? text.toList).map fun bytes => { stack with rsp := stack.rsp + bytes }
  | .mov (.register .rbp 8) (.register .rsp 8) => some { stack with rbp := stack.rsp }
  | .mov (.register .rsp 8) (.register .rbp 8) => some { stack with rsp := stack.rbp }
  | .lea .rsp (.frame offset) => some { stack with rsp := stack.rbp + offset }
  | .verbatim _ => none
  | other => if other.writesPointer then none else some stack

/-- Whether an instruction is followed by the next line. -/
def Instruction.isStraight : Instruction → Bool
  | .jump _ _ => false
  | .ret => false
  | _ => true

/-- A place in the lines of a function and the pointers there. -/
structure Point where
  position : Nat
  stack : Stack

/-- One step of a run through the lines of a function. -/
inductive Body.Step (body : Body) : Point → Point → Prop
  | pass {position : Nat} {stack : Stack} {line : Line} :
      body.lines[position]? = some line → (∀ written, line ≠ .instruction written) →
        body.Step ⟨position, stack⟩ ⟨position + 1, stack⟩
  | execute {position : Nat} {stack next : Stack} {written : Instruction} :
      body.lines[position]? = some (.instruction written) → written.isStraight →
        (∀ known, stack.after? written = some known → next = known) →
        body.Step ⟨position, stack⟩ ⟨position + 1, next⟩
  | jump {position target : Nat} {stack : Stack} {condition : Option CmpOp} {label : String} :
      body.lines[position]? = some (.instruction (.jump condition label)) →
        body.lines[target]? = some (.label label) →
        body.Step ⟨position, stack⟩ ⟨target, stack⟩
  | fall {position : Nat} {stack : Stack} {condition : CmpOp} {label : String} :
      body.lines[position]? = some (.instruction (.jump (some condition) label)) →
        body.Step ⟨position, stack⟩ ⟨position + 1, stack⟩

/-- A run through the lines of a function comes from one place to another. -/
def Body.Runs (body : Body) : Point → Point → Prop :=
  Relation.ReflTransGen body.Step

namespace Stack

/-- An instruction that pushes words moves the stack pointer by them. -/
theorem after?_of_pushes?
    {written : Instruction}
    {words : Int}
    (pushes : written.pushes? = some words)
    (stack : Stack) :
    stack.after? written = some { stack with rsp := stack.rsp - StackFrame.slotSize * words } := by
  unfold Instruction.pushes? at pushes
  split at pushes
  · cases pushes
    simp [after?]
  · split at pushes
    · cases pushes
    next other =>
      cases pushes
      simp [after?, other]
  next text =>
    obtain ⟨bytes, read, whole⟩ := Option.bind_eq_some_iff.mp pushes
    split at whole
    next divides =>
      cases whole
      simp only [after?, read, Option.map_some, Option.some.injEq, Stack.mk.injEq, and_true]
      simp only [StackFrame.slotSize] at divides ⊢
      omega
    · cases whole
  next text =>
    obtain ⟨number, counted, rfl⟩ := Option.map_eq_some_iff.mp pushes
    obtain ⟨bytes, read, whole⟩ := Option.bind_eq_some_iff.mp counted
    split at whole
    next divides =>
      cases whole
      simp only [after?, read, Option.map_some, Option.some.injEq, Stack.mk.injEq, and_true]
      simp only [StackFrame.slotSize] at divides ⊢
      omega
    · cases whole
  · cases pushes
  · cases pushes
  next notPush notPop notSub notAdd notRet notVerbatim =>
    split at pushes
    · cases pushes
    next noPointer =>
      cases pushes
      unfold after?
      split <;> simp_all [Instruction.writesPointer, Instruction.target?]

/-- The pointers behind lines that run straight on. -/
def run? : List Line → Stack → Option Stack
  | [], stack => some stack
  | .instruction written :: rest, stack => (stack.after? written).bind (run? rest)
  | _ :: rest, stack => run? rest stack

theorem run?_append
    (first second : List Line)
    (stack : Stack) :
    run? (first ++ second) stack = (run? first stack).bind (run? second) := by
  induction first generalizing stack with
  | nil => rfl
  | cons line rest inductionHypothesis =>
      cases line with
      | instruction written =>
          simp only [List.cons_append, run?]
          cases stack.after? written with
          | none => rfl
          | some next => exact inductionHypothesis next
      | _ => exact inductionHypothesis stack

end Stack

/-- An instruction that the next line follows moves the level by what it pushes. -/
theorem Line.pushes?_of_level?
    {written : Instruction}
    {start next : Int}
    (straight : written.isStraight)
    (moves : level? start (.instruction written) = some next) :
    ∃ words, written.pushes? = some words ∧ next = start + words := by
  cases written with
  | jump => cases straight
  | call name =>
      simp only [level?] at moves
      split at moves
      · cases moves
        exact ⟨0, by simp [Instruction.pushes?, Instruction.writesPointer, Instruction.target?],
          by simp⟩
      · cases moves
  | _ =>
      simp only [level?] at moves
      obtain ⟨words, pushes, rfl⟩ := Option.map_eq_some_iff.mp moves
      exact ⟨words, pushes, rfl⟩

/-- Whether a line is neither a label nor a jump nor a call. -/
def Line.isPlain : Line → Bool
  | .label _ => false
  | .instruction (.jump _ _) => false
  | .instruction (.call _) => false
  | _ => true

/--
Where a run through a function can be: on the way through the lines at its start, behind some of
the lines in the middle with the level they have, or at the end.
-/
inductive Body.Within (head lines : List Line) (entry base : Stack) : Point → Prop
  | start {front : List Line} {line : Line} {rest : List Line} {stack : Stack} :
      head = front ++ line :: rest → Stack.run? front entry = some stack →
        Within head lines entry base ⟨front.length, stack⟩
  | middle {front : List Line} {line : Line} {rest : List Line} {level : Int} :
      lines = front ++ line :: rest → Line.levels? 0 front = some level →
        Within head lines entry base
          ⟨head.length + front.length,
            { base with rsp := base.rsp - StackFrame.slotSize * level }⟩
  | finish {position : Nat} {stack : Stack} :
      head.length + lines.length ≤ position →
        Within head lines entry base ⟨position, stack⟩

namespace Body.Within

variable
    {body : Body}
    {head lines tail : List Line}
    {entry base : Stack}
    {last : Int}

/-- Behind lines in the middle a run is still in the middle, or at the end. -/
theorem of_level
    {front : List Line}
    {level : Int}
    (known : Line.levels? 0 front = some level)
    {rest : List Line}
    (shape : lines = front ++ rest) :
    Within head lines entry base
      ⟨head.length + front.length,
        { base with rsp := base.rsp - StackFrame.slotSize * level }⟩ := by
  cases rest with
  | nil =>
      refine .finish (Nat.le_of_eq ?_)
      rw [shape, List.append_nil]
  | cons line rest => exact .middle shape known

/-- Behind the lines at the start a run is in the middle, at level zero. -/
theorem of_run
    {front : List Line}
    {stack : Stack}
    (known : Stack.run? front entry = some stack)
    (runs : Stack.run? head entry = some base)
    {rest : List Line}
    (shape : head = front ++ rest) :
    Within head lines entry base ⟨front.length, stack⟩ := by
  cases rest with
  | nil =>
      rw [List.append_nil] at shape
      subst shape
      cases known.symm.trans runs
      have begins := @of_level head lines entry base [] 0 rfl lines rfl
      simpa using begins
  | cons line rest => exact .start shape known

/-- The line at a place in the middle. -/
theorem line_eq
    (shape : body.lines.toList = head ++ lines ++ tail)
    {front : List Line}
    {line : Line}
    {rest : List Line}
    (here : lines = front ++ line :: rest) :
    body.lines[head.length + front.length]? = some line := by
  rw [← Array.getElem?_toList, shape, here]
  simp

theorem level?_of_middle
    (level : Line.levels? 0 lines = some last)
    {front : List Line}
    {line : Line}
    {rest : List Line}
    (here : lines = front ++ line :: rest)
    {start : Int}
    (known : Line.levels? 0 front = some start) :
    ∃ next, line.level? start = some next ∧
      Line.levels? 0 (front ++ [line]) = some next := by
  rw [here, Line.levels?_append, known] at level
  cases one : line.level? start with
  | none => simp [Line.levels?, one] at level
  | some next =>
      refine ⟨next, rfl, ?_⟩
      rw [Line.levels?_append, known]
      simp [Line.levels?, one]

/-- Labels stand in the middle only. -/
theorem label_in_middle
    (shape : body.lines.toList = head ++ lines ++ tail)
    (plain : ∀ line ∈ head ++ tail, line.isPlain)
    {position : Nat}
    {label : String}
    (found : body.lines[position]? = some (.label label)) :
    ∃ front rest,
      lines = front ++ .label label :: rest ∧ position = head.length + front.length := by
  have member : ∀ other : List Line, .label label ∈ other →
      (∀ line ∈ other, line.isPlain) → False :=
    fun other isIn each => absurd (each _ isIn) (by simp [Line.isPlain])
  rw [← Array.getElem?_toList, shape] at found
  by_cases inHead : position < head.length
  · rw [List.append_assoc, List.getElem?_append_left inHead] at found
    exact (member head (List.mem_of_getElem? found)
      fun line isIn => plain line (List.mem_append_left _ isIn)).elim
  · rw [List.append_assoc, List.getElem?_append_right (by omega)] at found
    by_cases inLines : position - head.length < lines.length
    · rw [List.getElem?_append_left inLines] at found
      obtain ⟨_, isThere⟩ := List.getElem?_eq_some_iff.mp found
      refine ⟨lines.take (position - head.length), lines.drop (position - head.length + 1), ?_, ?_⟩
      · rw [← isThere, ← List.drop_eq_getElem_cons inLines, List.take_append_drop]
      · rw [List.length_take]
        omega
    · rw [List.getElem?_append_right (by omega)] at found
      exact (member tail (List.mem_of_getElem? found)
        fun line isIn => plain line (List.mem_append_right _ isIn)).elim

theorem plain_of_finish
    (shape : body.lines.toList = head ++ lines ++ tail)
    (plain : ∀ line ∈ head ++ tail, line.isPlain)
    {position : Nat}
    (behind : head.length + lines.length ≤ position)
    {line : Line}
    (found : body.lines[position]? = some line) :
    line.isPlain := by
  rw [← Array.getElem?_toList, shape,
    List.getElem?_append_right (by rw [List.length_append]; omega)] at found
  exact plain line (List.mem_append_right _ (List.mem_of_getElem? found))

/-- One step keeps a run where it can be. -/
theorem step
    (shape : body.lines.toList = head ++ lines ++ tail)
    (plain : ∀ line ∈ head ++ tail, line.isPlain)
    (level : Line.levels? 0 lines = some last)
    (runs : Stack.run? head entry = some base)
    {before after : Point}
    (within : Within head lines entry base before)
    (steps : body.Step before after) :
    Within head lines entry base after := by
  cases within with
  | @start front line rest stack here known =>
      have isPlain : line.isPlain := plain line (by simp [here])
      have found : body.lines[front.length]? = some line := by
        rw [← Array.getElem?_toList, shape, here]
        simp
      have whole : Stack.run? (line :: rest) stack = some base := by
        rw [here, Stack.run?_append, known] at runs
        simpa using runs
      have next : ∀ {behind}, Stack.run? [line] stack = some behind →
          Within head lines entry base ⟨front.length + 1, behind⟩ := by
        intro behind one
        have further : Stack.run? (front ++ [line]) entry = some behind := by
          rw [Stack.run?_append, known]
          exact one
        have arrives := @of_run head lines entry base _ _ further runs rest (by simp [here])
        simpa using arrives
      cases steps with
      | pass isLine noInstruction =>
          cases found.symm.trans isLine
          cases line with
          | instruction written => exact (noInstruction written rfl).elim
          | _ => exact next rfl
      | @execute _ _ behind written isLine _ described =>
          cases found.symm.trans isLine
          cases effect : stack.after? written with
          | none => simp [Stack.run?, effect] at whole
          | some known =>
              cases described known effect
              exact next (by simp [Stack.run?, effect])
      | jump isLine =>
          cases found.symm.trans isLine
          cases isPlain
      | fall isLine =>
          cases found.symm.trans isLine
          cases isPlain
  | @middle front line rest start here known =>
      have found := line_eq shape here
      obtain ⟨next, moves, further⟩ := level?_of_middle level here known
      have arrives : ∀ {behind : Stack},
          behind = { base with rsp := base.rsp - StackFrame.slotSize * next } →
            Within head lines entry base ⟨head.length + front.length + 1, behind⟩ := by
        rintro behind rfl
        have stays := @of_level head lines entry base _ _ further rest (by simp [here])
        simpa [Nat.add_assoc] using stays
      cases steps with
      | pass isLine noInstruction =>
          cases found.symm.trans isLine
          cases line with
          | instruction written => exact (noInstruction written rfl).elim
          | label name =>
              simp only [Line.level?] at moves
              split at moves
              next zero =>
                cases moves
                exact arrives (by rw [zero])
              next => cases moves
          | _ => cases moves
      | @execute _ _ behind written isLine straight described =>
          cases found.symm.trans isLine
          obtain ⟨words, pushes, rfl⟩ := Line.pushes?_of_level? straight moves
          refine arrives (described _ ?_)
          rw [Stack.after?_of_pushes? pushes]
          simp only [Option.some.injEq, Stack.mk.injEq, and_true]
          rw [Int.mul_add]
          omega
      | jump isLine target =>
          cases found.symm.trans isLine
          simp only [Line.level?] at moves
          split at moves
          next zero =>
            obtain ⟨earlier, later, there, rfl⟩ := label_in_middle shape plain target
            have reached := level
            rw [there, Line.levels?_append] at reached
            cases levelThere : Line.levels? 0 earlier with
            | none => simp [levelThere] at reached
            | some atLabel =>
                obtain ⟨_, allowed, _⟩ := level?_of_middle level there levelThere
                simp only [Line.level?] at allowed
                split at allowed
                next isZero =>
                  subst isZero zero
                  exact .middle there levelThere
                next => cases allowed
          next => cases moves
      | fall isLine =>
          cases found.symm.trans isLine
          simp only [Line.level?] at moves
          split at moves
          next zero =>
            cases moves
            exact arrives (by rw [zero])
          next => cases moves
  | finish behind =>
      cases steps with
      | pass isLine => exact .finish (by omega)
      | execute isLine => exact .finish (by omega)
      | jump isLine => cases plain_of_finish shape plain behind isLine
      | fall isLine => cases plain_of_finish shape plain behind isLine

/-- A whole run stays where it can be. -/
theorem of_runs
    (shape : body.lines.toList = head ++ lines ++ tail)
    (plain : ∀ line ∈ head ++ tail, line.isPlain)
    (level : Line.levels? 0 lines = some last)
    (runs : Stack.run? head entry = some base)
    {point : Point}
    (run : body.Runs ⟨0, entry⟩ point) :
    Within head lines entry base point := by
  induction run with
  | refl =>
      have begins := @of_run head lines entry base [] entry rfl runs head rfl
      simpa using begins
  | tail _ steps inductionHypothesis => exact step shape plain level runs inductionHypothesis steps

/-- Every call of a run stands on an aligned stack, if the stack is aligned in the middle. -/
theorem aligned
    (shape : body.lines.toList = head ++ lines ++ tail)
    (plain : ∀ line ∈ head ++ tail, line.isPlain)
    (level : Line.levels? 0 lines = some last)
    (runs : Stack.run? head entry = some base)
    (even : base.rsp % 16 = 0)
    {point : Point}
    (run : body.Runs ⟨0, entry⟩ point)
    {routine : String}
    (calls : body.lines[point.position]? = some (.instruction (.call routine))) :
    point.stack.rsp % 16 = 0 := by
  cases of_runs shape plain level runs run with
  | @start front line rest stack here known =>
      have isPlain : line.isPlain := plain line (by simp [here])
      have found : body.lines[front.length]? = some line := by
        rw [← Array.getElem?_toList, shape, here]
        simp
      cases found.symm.trans calls
      cases isPlain
  | @middle front line rest start here known =>
      cases (line_eq shape here).symm.trans calls
      obtain ⟨_, allowed, _⟩ := level?_of_middle level here known
      simp only [Line.level?] at allowed
      split at allowed
      next halves =>
        simp only [StackFrame.slotSize]
        omega
      next => cases allowed
  | finish behind => cases plain_of_finish shape plain behind calls

end Body.Within

/-!
## Alignment of the stack at calls

The prologue of a function reserves its frame and saves registers so that the stack is aligned
behind it, and every call stands at an even level. So the stack is aligned at every call that a
run of the function comes to, if it was entered with the stack that a call leaves.
-/

namespace Instruction

/-- Instructions that are no moves are not taken back. -/
theorem written_append
    {front : List Instruction}
    (noMove : ∀ instruction ∈ front, ∀ next : String,
      Move.isRedundant (Line.text (.instruction instruction)) next = false)
    (back : List Instruction) :
    written (front ++ back) = front ++ written back := by
  induction front with
  | nil => rfl
  | cons first rest inductionHypothesis =>
      have others := inductionHypothesis fun other member => noMove other (by simp [member])
      cases behind : rest ++ back with
      | nil =>
          obtain ⟨rfl, rfl⟩ := List.append_eq_nil_iff.mp behind
          rfl
      | cons second more =>
          rw [List.cons_append, behind, written, noMove first (by simp), ← behind, others]
          rfl

end Instruction

namespace Emit

open Stateful FunctionCode

variable
    {before after : FunctionCode}
    {done : Unit}

/-- The instructions at the end of a function, in front of its return. -/
def closing (isVoid : Bool) (size : Nat) (saved : List Reg) : List Instruction :=
  (if isVoid then [.xor (.whole .rax) (.whole .rax)] else []) ++
    (if saved.isEmpty then
      []
    else
      .lea .rsp (.frame (-((size + StackFrame.slotSize * saved.length : Nat) : Int))) ::
        saved.reverse.map .pop) ++
    [.mov (.whole .rsp) (.whole .rbp), .pop .rbp]

/-- Nothing at the end of a function is taken back. -/
theorem written_closing
    (isVoid : Bool)
    (size : Nat)
    (saved : List Reg) :
    Instruction.written (closing isVoid size saved) = closing isVoid size saved := by
  unfold closing
  rw [Instruction.written_append]
  · rfl
  · intro instruction member next
    refine Bool.eq_false_iff.mpr fun redundant => ?_
    obtain ⟨_, start⟩ := Move.mov_of_isRedundant redundant
    rcases List.mem_append.mp member with isClear | isRestore
    · split at isClear
      · rw [List.mem_singleton.mp isClear] at start
        simp [Move.withoutTab_text, Instruction.text, Instruction.binaryText,
          Move.afterStart?] at start
      · cases isClear
    · split at isRestore
      · cases isRestore
      · rcases List.mem_cons.mp isRestore with rfl | isPop
        · simp [Move.withoutTab_text, Instruction.text, Instruction.binaryText,
            Move.afterStart?] at start
        · obtain ⟨reg, _, rfl⟩ := List.mem_map.mp isPop
          simp [Move.withoutTab_text, Instruction.text, Move.afterStart?] at start

theorem forM_ins_ok
    {regs : List Reg}
    (run : (regs.forM fun reg => ins (.pop reg)) before = .ok (done, after)) :
    after = { before with body := before.body.addAll (regs.map .pop) } := by
  induction regs generalizing before with
  | nil =>
      obtain ⟨-, rfl⟩ := pure_ok_iff.mp run
      rfl
  | cons reg rest inductionHypothesis =>
      obtain ⟨_, between, added, others⟩ := bind_ok_iff.mp run
      cases ins_ok_iff.mp added
      exact inductionHypothesis others

/-- The epilogue adds its instructions and fills the place that the prologue reserved. -/
theorem epilogue_body
    (run : epilogue before = .ok (done, after)) :
    after.body =
      (before.body.addAll (closing before.signature.isVoid
        (before.frame.size before.pool.touched.length) before.pool.touched)).fill
          before.frame.reserved
          (setup (before.frame.size before.pool.touched.length) before.pool.touched) := by
  unfold epilogue at run
  obtain ⟨_, _, got, later⟩ := bind_ok_iff.mp run
  obtain ⟨rfl, rfl⟩ := get_ok_iff.mp got
  -- The instructions come in up to three groups, the first two of which may be left out.
  have finish : ∀ {issued : List Instruction} {code : FunctionCode},
      code = { before with body := before.body.addAll issued } →
      (do
        ins (.mov (.whole .rsp) (.whole .rbp))
        ins (.pop .rbp)
        modify fun current : FunctionCode =>
          { current with
            body := current.body.fill current.frame.reserved
              (setup (before.frame.size before.pool.touched.length) before.pool.touched) } :
          Emit Unit) code = .ok (done, after) →
      after.body = (before.body.addAll
        (issued ++ [.mov (.whole .rsp) (.whole .rbp), .pop .rbp])).fill before.frame.reserved
          (setup (before.frame.size before.pool.touched.length) before.pool.touched) := by
    rintro issued code rfl run
    simp only [bind_ok_iff, ins_ok_iff, modify_ok_iff] at run
    obtain ⟨_, _, rfl, _, _, rfl, rfl⟩ := run
    rw [Body.addAll_append]
    rfl
  have restored : ∀ {issued : List Instruction} {code : FunctionCode},
      code = { before with body := before.body.addAll issued } →
      (do
        if !before.pool.touched.isEmpty then
          ins (.lea .rsp (.frame (-((before.frame.size before.pool.touched.length +
            StackFrame.slotSize * before.pool.touched.length : Nat) : Int))))
          before.pool.touched.reverse.forM fun reg => ins (.pop reg)
        ins (.mov (.whole .rsp) (.whole .rbp))
        ins (.pop .rbp)
        modify fun current : FunctionCode =>
          { current with
            body := current.body.fill current.frame.reserved
              (setup (before.frame.size before.pool.touched.length) before.pool.touched) } :
          Emit Unit) code = .ok (done, after) →
      after.body = (before.body.addAll
        (issued ++ (if before.pool.touched.isEmpty then
          []
        else
          .lea .rsp (.frame (-((before.frame.size before.pool.touched.length +
            StackFrame.slotSize * before.pool.touched.length : Nat) : Int))) ::
              before.pool.touched.reverse.map .pop) ++
          [.mov (.whole .rsp) (.whole .rbp), .pop .rbp])).fill before.frame.reserved
            (setup (before.frame.size before.pool.touched.length) before.pool.touched) := by
    rintro issued code rfl run
    cases isEmpty : before.pool.touched.isEmpty with
    | true =>
        simp only [isEmpty, Bool.not_true, Bool.false_eq_true, ↓reduceIte] at run ⊢
        rw [List.append_nil]
        exact finish rfl run
    | false =>
        simp only [isEmpty, Bool.not_false, Bool.false_eq_true, ↓reduceIte] at run ⊢
        obtain ⟨_, _, addressed, run⟩ := bind_ok_iff.mp run
        obtain ⟨_, _, popped, run⟩ := bind_ok_iff.mp run
        cases ins_ok_iff.mp addressed
        cases forM_ins_ok popped
        refine finish ?_ run
        rw [Body.addAll_append]
        rfl
  unfold closing
  cases isVoid : before.signature.isVoid with
  | true =>
      simp only [isVoid, ↓reduceIte] at later ⊢
      obtain ⟨_, _, cleared, later⟩ := bind_ok_iff.mp later
      exact restored (ins_ok_iff.mp cleared) later
  | false =>
      simp only [isVoid, Bool.false_eq_true, ↓reduceIte] at later ⊢
      exact restored rfl later

end Emit

namespace Body

/-- Lines that are filled in stand in the place of the line that was there. -/
theorem lines_fill
    {body : Body}
    {front : List Line}
    {line : Line}
    {rest : List Line}
    (shape : body.lines.toList = front ++ line :: rest)
    (filling : List Line) :
    (body.fill front.length filling).lines.toList = front ++ filling ++ rest := by
  have size : body.lines.size = front.length + (rest.length + 1) := by
    rw [← Array.length_toList, shape]
    simp
  have none_ : List.drop (front.length + 1) front = [] := List.drop_eq_nil_of_le (by omega)
  have all : front.length + (rest.length + 1) - (front.length + 1) = rest.length := by omega
  simp [fill, shape, size, List.drop_append, none_, all]

theorem lines_ret
    (body : Body) :
    (body.add .ret).lines.toList = body.lines.toList ++ [.instruction .ret] := by
  have notMove : Move.parse? (Instruction.text .ret) = none := by decide
  unfold add
  split <;> simp [Move.not_redundant_of_parse? notMove]

end Body

namespace FunctionCode

open Emit

/-- The lines at the start of a function up to the place for its frame. -/
def opening (function : Signature) : List Line :=
  [.raw (function.name ++ ":"), .instruction (.push (.whole .rbp)),
    .instruction (.mov (.whole .rbp) (.whole .rsp))]

/-- Behind the prologue there are no lines yet. -/
theorem leveled_prologued
    {permitted : Permitted}
    (function : Signature)
    (calls : List Nat)
    (locals : Nat) :
    (prologued function calls locals).Leveled permitted :=
  ⟨⟨[], by simp [prologued], rfl, .nil⟩, Pool.sound_full, Pool.records_full,
    by simp [prologued, StackFrame.ofFunction]⟩

/-- The lines at the end of a function. -/
def ending (isVoid : Bool) (size : Nat) (saved : List Reg) : List Line :=
  (closing isVoid size saved).map .instruction ++ [.instruction .ret]

theorem exists_closing
    (isVoid : Bool)
    (size : Nat)
    (saved : List Reg) :
    ∃ first rest, closing isVoid size saved = first :: rest := by
  cases shape : closing isVoid size saved with
  | nil => simp [closing] at shape
  | cons first rest => exact ⟨first, rest, rfl⟩

/-- The end of a function stands behind what is left of the lines in front of it. -/
theorem lines_of_epilogue
    {code ended : FunctionCode}
    {first : Instruction}
    {rest : List Instruction}
    {lines : List Line}
    (place : code.frame.reserved = 3)
    (shape : closing code.signature.isVoid (code.frame.size code.pool.touched.length)
      code.pool.touched = first :: rest)
    (kept : code.body.keptFor first = (prologueLines code.signature).toList ++ lines)
    (run : epilogue code = .ok ((), ended)) :
    (ended.body.add .ret).lines.toList =
      opening code.signature ++
        setup (code.frame.size code.pool.touched.length) code.pool.touched ++ lines ++
        ending code.signature.isVoid (code.frame.size code.pool.touched.length)
          code.pool.touched := by
  let size := code.frame.size code.pool.touched.length
  let last := closing code.signature.isVoid size code.pool.touched
  have added : (code.body.addAll last).lines.toList =
      opening code.signature ++ .blank :: (lines ++ last.map .instruction) := by
    have isLast : last = first :: rest := shape
    rw [isLast, Body.lines_addAll, kept, ← isLast, written_closing]
    simp [opening, prologueLines, last]
  have filled := epilogue_body run
  rw [place] at filled
  have isFilled : ended.body.lines.toList =
      opening code.signature ++ setup size code.pool.touched ++ lines ++
        last.map .instruction := by
    rw [filled]
    have whole := Body.lines_fill added (setup size code.pool.touched)
    rw [← List.append_assoc] at whole
    exact whole
  rw [Body.lines_ret, isFilled, ending, List.append_assoc]

/-- The lines of a function: its start, the lines at their levels, and its end. -/
theorem Leveled.lines_of_epilogue
    {permitted : Permitted}
    {code ended : FunctionCode}
    (leveled : code.Leveled permitted)
    (place : code.frame.reserved = 3)
    (run : epilogue code = .ok ((), ended)) :
    ∃ lines,
      (ended.body.add .ret).lines.toList =
          opening code.signature ++
            setup (code.frame.size code.pool.touched.length) code.pool.touched ++ lines ++
            ending code.signature.isVoid (code.frame.size code.pool.touched.length)
              code.pool.touched ∧
        Line.levels? 0 lines = some (code.frame.pushed : Int) ∧
        Line.Fit permitted code.frame.slots.length code.pool.used lines := by
  obtain ⟨first, rest, shape⟩ := exists_closing code.signature.isVoid
    (code.frame.size code.pool.touched.length) code.pool.touched
  obtain ⟨lines, kept, level, fit⟩ := leveled.keptFor first
  exact ⟨lines, FunctionCode.lines_of_epilogue place shape kept run, level, fit⟩

/-- The lines at the end of a function are neither labels nor jumps nor calls. -/
theorem plain_end
    (isVoid : Bool)
    (size : Nat)
    (saved : List Reg) :
    ∀ line ∈ ending isVoid size saved, line.isPlain := by
  intro line member
  rcases List.mem_append.mp member with isClosing | isRet
  · obtain ⟨instruction, isThere, rfl⟩ := List.mem_map.mp isClosing
    simp only [closing, List.mem_append] at isThere
    rcases isThere with (isClear | isRestore) | isLast
    · split at isClear
      · rw [List.mem_singleton.mp isClear]
        rfl
      · cases isClear
    · split at isRestore
      · cases isRestore
      · rcases List.mem_cons.mp isRestore with rfl | isPop
        · rfl
        · obtain ⟨reg, _, rfl⟩ := List.mem_map.mp isPop
          rfl
    · simp only [List.mem_cons, List.not_mem_nil, or_false] at isLast
      rcases isLast with rfl | rfl <;> rfl
  · rw [List.mem_singleton.mp isRet]
    rfl

theorem plain_start
    (function : Signature)
    (size : Nat)
    (saved : List Reg) :
    ∀ line ∈ opening function ++ setup size saved, line.isPlain := by
  intro line member
  rcases List.mem_append.mp member with isOpening | isSetup
  · simp only [opening, List.mem_cons, List.not_mem_nil, or_false] at isOpening
    rcases isOpening with rfl | rfl | rfl <;> rfl
  · unfold setup at isSetup
    rcases List.mem_append.mp isSetup with isReserve | isSave
    · split at isReserve
      · cases isReserve
      · rw [List.mem_singleton.mp isReserve]
        rfl
    · obtain ⟨reg, _, rfl⟩ := List.mem_map.mp isSave
      rfl

end FunctionCode

namespace Lower

open LoweringState FunctionCode

/-- What the nodes of a function call and assign to is permitted if it is for all its nodes. -/
theorem Coded.writes
    {permitted : Permitted}
    {listing : Listing}
    {function : Signature}
    {body : List Stmt}
    {before after bound between : LoweringState}
    {file final : AssemblyFile}
    {almost ended : FunctionCode}
    (pending : listing.Pends permitted)
    (coded : Coded listing function body before after bound between file final almost ended)
    (arePermitted : ∀ node ∈ after.listing.since before.listing,
      node.IsPermitted permitted listing)
    (known : before.listing.Parameters function)
    (lowered : functionBody function body before = .ok ((), after)) :
    Steady permitted (prologued function file.calls (declarationsIn body)) almost := by
  obtain ⟨same, other, begins, _, _, sameLowered, inner, _, nodes⟩ := functionBody_since known lowered
  cases begins.symm.trans coded.parametersBound
  cases sameLowered.symm.trans coded.bodyLowered
  obtain ⟨added, addedNodes, isInner⟩ := inner.inner
  refine Emit.nodes_steady pending isInner (fun node member => arePermitted node ?_)
    (coded.emits.nodes_of addedNodes)
  have since : between.closed.listing.since
      (before.prepared function (declarationsIn body)).listing = added := by
    simp [Listing.since, addedNodes]
  rw [nodes, since]
  simp [member]

end Lower

end IlsCompiler
