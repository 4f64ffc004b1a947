import IlsCompiler.Proofs.Assembly.FrameWalks

namespace IlsCompiler

/-!
# Words that are loaded

Loading an operand into a register leaves its word there, small memory widened to eight bytes. When
a temporary is declared it is given a register, which is loaded with the word of what the temporary
is made from.
-/

/-- An operand as a word: four bytes of memory are a signed number. -/
def Operand.widened (link : Linkage) (cpu : Cpu) : Operand → BitVec 64
  | .memory address 4 => (((Operand.memory address 4).fetched link cpu).setWidth 32).signExtend 64
  | operand => operand.fetched link cpu

theorem Operand.widened_of_ne_four
    (link : Linkage)
    (cpu : Cpu)
    (address : Address)
    {width : Nat}
    (notFour : width ≠ 4) :
    (Operand.memory address width).widened link cpu =
      (Operand.memory address width).fetched link cpu := by
  unfold widened
  split
  next same =>
    cases same
    contradiction
  next => rfl

/-- Behind the lines that are left some lines are added, of which there is at most one. -/
theorem Body.lines_of_load
    (body : Body)
    {loading : List Instruction}
    (short : loading.length ≤ 1) :
    ∃ kept,
      (kept = body.lines.toList ∨ ∃ last, body.lines.toList = kept ++ [last]) ∧
        (body.addAll loading).lines.toList = kept ++ loading.map .instruction := by
  cases loading with
  | nil => exact ⟨_, .inl rfl, (List.append_nil _).symm⟩
  | cons instruction rest =>
      obtain rfl : rest = [] := List.length_eq_zero_iff.mp (by simpa using short)
      refine ⟨body.keptFor instruction, ?_, body.lines_add instruction⟩
      rcases body.keptFor_cases instruction with same | ⟨last, shape, _⟩
      · exact .inl same
      · exact .inr ⟨last, shape⟩

namespace Emit

open Stateful FunctionCode

variable
    {before after : FunctionCode}

/-- Loading an operand into a register leaves its word there. -/
theorem moveInto_loads
    {reg : Reg}
    (noPointer : reg ≠ .rsp ∧ reg ≠ .rbp)
    {operand : Operand}
    (run : moveInto reg operand before = .ok ((), after)) :
    ∃ loading : List Instruction,
      loading.length ≤ 1 ∧ after = { before with body := before.body.addAll loading } ∧
        ∀ {link : Linkage} {bottom : Int} {cpu later : Cpu},
          Line.Passes link bottom (loading.map .instruction) cpu later →
            later.regs reg = operand.widened link cpu := by
  have one : ∀ {instruction : Instruction},
      ins instruction before = .ok ((), after) →
      (∀ {link : Linkage} {bottom : Int} {cpu later : Cpu},
        instruction.Executes link bottom cpu later →
          later.regs reg = operand.widened link cpu) →
      ∃ loading : List Instruction,
        loading.length ≤ 1 ∧ after = { before with body := before.body.addAll loading } ∧
          ∀ {link : Linkage} {bottom : Int} {cpu later : Cpu},
            Line.Passes link bottom (loading.map .instruction) cpu later →
              later.regs reg = operand.widened link cpu := by
    intro instruction added result
    exact ⟨[instruction], by simp, ins_ok_iff.mp added, fun passes =>
      result (Line.Passes.singleton_iff.mp passes)⟩
  have put : ∀ {cpu later : Cpu} {word : BitVec 64},
      (∀ known, cpu.put reg word = some known → later = known) → later.regs reg = word := by
    intro cpu later word puts
    rw [puts (cpu.set reg word) (by simp [Cpu.put, noPointer]), Cpu.regs_set_same]
  have moved : ∀ {source : Operand} {link : Linkage} {bottom : Int} {cpu later : Cpu},
      (Instruction.mov (.whole reg) source).Executes link bottom cpu later →
        later.regs reg = source.fetched link cpu := by
    intro source link bottom cpu later executes
    cases reg <;> first | exact absurd rfl noPointer.1 | exact absurd rfl noPointer.2 |
      exact put executes
  cases operand with
  | immediate text => exact one run moved
  | register other width =>
      by_cases isWhole : width = 8
      · subst isWhole
        simp only [moveInto] at run
        split at run
        next isTarget =>
          obtain ⟨-, rfl⟩ := pure_ok_iff.mp run
          refine ⟨[], by simp, rfl, fun {link _ cpu _} passes => ?_⟩
          cases passes
          subst isTarget
          exact (Operand.fetched_whole link cpu other).symm
        next => exact one run moved
      · have isMove : moveInto reg (.register other width) =
            ins (.mov (.whole reg) (.register other width)) := by
          unfold moveInto
          split
          next same =>
            cases same
            exact (isWhole rfl).elim
          next same => cases same
          next => rfl
        rw [isMove] at run
        exact one run moved
  | memory address width =>
      simp only [moveInto] at run
      split at run
      next isFour =>
        subst isFour
        exact one run fun executes => put executes
      next notFour =>
        have isPlain := fun link cpu => Operand.widened_of_ne_four link cpu address notFour
        split at run
        · exact one run fun executes => (put executes).trans (isPlain _ _).symm
        · exact one run fun executes => (moved executes).trans (isPlain _ _).symm

end Emit

end IlsCompiler

namespace IlsCompiler

/-!
## The register for results

A return loads its value into the register for results and jumps to the end of the function. What
stands there takes the frame down and changes registers that are preserved, but not this one. So
the value is still in it when the function has returned.
-/

namespace Line.Passes

variable
    {link : Linkage}
    {bottom : Int}
    {cpu later : Cpu}

/-- A register that no instruction changes is as it was. -/
theorem keeps
    {reg : Reg}
    {issued : List Instruction}
    (each : ∀ instruction ∈ issued, ∀ {cpu later : Cpu},
      instruction.Executes link bottom cpu later → later.regs reg = cpu.regs reg)
    (passes : Passes link bottom (issued.map .instruction) cpu later) :
    later.regs reg = cpu.regs reg := by
  induction issued generalizing cpu with
  | nil =>
      cases passes
      rfl
  | cons instruction rest inductionHypothesis =>
      cases passes with
      | skip noInstruction _ => exact (noInstruction instruction rfl).elim
      | step executes others =>
          rw [inductionHypothesis (fun other member => each other (by simp [member])) others,
            each instruction (by simp) executes]

/-- The end of a function that is not void leaves the register for results alone. -/
theorem keeps_result
    {size : Nat}
    {saved : List Reg}
    (sublist : saved.Sublist Reg.preservedPool)
    (passes : Passes link bottom ((Emit.closing false size saved).map .instruction) cpu later) :
    later.regs .rax = cpu.regs .rax := by
  refine keeps (fun instruction member before after executes => ?_) passes
  simp only [Emit.closing, Bool.false_eq_true, ↓reduceIte, List.nil_append, List.mem_append,
    List.mem_cons, List.not_mem_nil, or_false] at member
  rcases member with isRestore | rfl | rfl
  · split at isRestore
    · cases isRestore
    · rcases List.mem_cons.mp isRestore with rfl | isPop
      · cases executes
        rfl
      · obtain ⟨reg, isSaved, rfl⟩ := List.mem_map.mp isPop
        have preserved := sublist.subset (List.mem_reverse.mp isSaved)
        have noPointer := noPointer_of_preserved sublist reg (List.mem_reverse.mp isSaved)
        have popped : (Issue.plain (.pop reg)).execute link before =
            some ({ before with top := before.top + 8 }.set reg (before.memory.word before.top)) := by
          simp [Issue.plain, Issue.execute, Cpu.pop, Cpu.put, noPointer]
        rw [fixed_pop noPointer executes popped]
        refine Cpu.regs_set_of_ne _ _ _ ?_
        rintro rfl
        exact absurd preserved (by decide)
  · cases executes
    rfl
  · cases executes
    rfl

end Line.Passes

variable
    {front : List Line}

/-- A line that is no move is not taken back. -/
theorem Body.keptFor_of_noMove
    {body : Body}
    {last : Line}
    (shape : body.lines.toList = front ++ [last])
    (noMove : Line.target? last = none)
    (next : Instruction) :
    body.keptFor next = front ++ [last] := by
  rcases body.keptFor_cases next with same | ⟨other, others, redundant⟩
  · rw [same, shape]
  · obtain ⟨-, isLast⟩ := List.append_inj' (others.symm.trans shape) rfl
    cases isLast
    exact absurd (Move.target?_of_isRedundant redundant).1 (by simp [noMove])

theorem Line.target?_jump
    (condition : Option CmpOp)
    (label : String) :
    Line.target? (.instruction (.jump condition label)) = none := by
  have noStart : Move.afterStart? "mov ".toList
      (Instruction.text (.jump condition label)).toList = none := by
    rcases condition with _ | condition
    · simp [Instruction.text, Instruction.jumpMnemonic, Move.afterStart?]
    · cases condition <;> simp [Instruction.text, Instruction.jumpMnemonic, Move.afterStart?]
  rw [Line.target?, Move.withoutTab_text, Move.parse?, noStart]
  rfl

theorem Line.target?_label
    (name : String) :
    Line.target? (.label name) = none := by
  simp [Line.target?, Move.parse?, Line.text, Move.withoutTab, Move.afterStart?]

/-- A jump takes no line back. -/
theorem Body.lines_jump
    (body : Body)
    (condition : Option CmpOp)
    (label : String) :
    (body.add (.jump condition label)).lines.toList =
      body.lines.toList ++ [.instruction (.jump condition label)] := by
  rw [lines_add]
  rcases body.keptFor_cases (.jump condition label) with same | ⟨last, _, redundant⟩
  · rw [same]
  · have noMove := (Move.target?_of_isRedundant redundant)
    rw [Line.target?_jump] at noMove
    simp [← noMove.2] at noMove

/-- The code of a return finds the operand of its value, loads it and jumps. -/
theorem Emit.return_lines
    {listing : Listing}
    {reached loaded final : FunctionCode}
    {id : VarId}
    {v : Variable}
    {line : Nat}
    {label : String}
    (known : listing.lookup? id = some v)
    (leaves : Emit.node listing (.leave id line) reached = .ok ((), loaded))
    (jumps : Emit.node listing (.jump label none) loaded = .ok ((), final)) :
    ∃ (operand : Operand) (found : FunctionCode) (loading : List Instruction) (kept : List Line),
      Emit.resolve listing (Emit.depth listing) id Reg.sourceIndex reached = .ok (operand, found) ∧
        (kept = found.body.lines.toList ∨ ∃ last, found.body.lines.toList = kept ++ [last]) ∧
        final.body.lines.toList = kept ++ (loading ++ [Instruction.jump none label]).map .instruction ∧
        ∀ {link : Linkage} {bottom : Int} {cpu later : Cpu},
          Line.Passes link bottom (loading.map .instruction) cpu later →
            later.regs .rax = operand.widened link cpu := by
  have isLeave : Emit.leave listing id reached = .ok ((), loaded) := Emit.atLine_ok_iff.mp leaves
  simp only [Emit.leave, known, Option.isSome_some, ↓reduceIte, Emit.load] at isLeave
  obtain ⟨operand, found, resolves, moves⟩ := Stateful.bind_ok_iff.mp isLeave
  obtain ⟨loading, short, rfl, result⟩ := Emit.moveInto_loads (by decide) moves
  obtain rfl := Emit.ins_ok_iff.mp jumps
  obtain ⟨kept, isKept, lines⟩ := Body.lines_of_load found.body short
  refine ⟨operand, found, loading, kept, resolves, isKept, ?_, result⟩
  rw [Body.lines_jump, lines, List.map_append, List.append_assoc]
  rfl

/-- Lines up to a jump stay as they are. -/
theorem Body.Keeps.prefix_of_jump
    {before after : Body}
    (kept : before.Keeps after)
    {condition : Option CmpOp}
    {label : String}
    (shape : before.lines.toList = front ++ [.instruction (.jump condition label)]) :
    before.lines.toList <+: after.lines.toList := by
  rcases kept with whole | ⟨others, last, _, same, _, isMove, _⟩
  · exact whole
  · obtain ⟨-, isLast⟩ := List.append_inj' (same.symm.trans shape) rfl
    cases isLast
    simp [Line.target?_jump] at isMove

/--
The lines of a return of a value in a function. Behind lines that find the operand of the value some
instructions load it, and a jump leads to a label, the only one of its name. What stands behind the
label ends with the return of the function, and leaves the word of the operand in the register for
results.
-/
structure Returned (written : Body) (operand : Operand) (front : List Line)
    (loading : List Instruction) (middle : List Line) (label : String) (last : List Instruction) :
    Prop where
  lines : written.lines.toList =
    front ++ loading.map .instruction ++ .instruction (.jump none label) :: middle ++
      .label label :: (last ++ [Instruction.ret]).map .instruction
  only : .label label ∉ front ++ middle
  result : ∀ {link : Linkage} {bottom : Int} {cpu loaded later : Cpu},
    Line.Passes link bottom (loading.map .instruction) cpu loaded →
      Line.Passes link bottom (last.map .instruction) loaded later →
        later.regs .rax = operand.widened link cpu

open FunctionCode

variable
    {function : Signature}

/-- Code that has grown behind a prologue still begins with its lines. -/
theorem FunctionCode.lines_of_prologued
    {calls : List Nat}
    {locals : Nat}
    {code : FunctionCode}
    (kept : (prologued function calls locals).body.Keeps code.body) :
    ∃ made, code.body.lines.toList = (prologueLines function).toList ++ made := by
  have same : code.body.lines.toList.take 4 = (prologueLines function).toList :=
    @Body.Keeps.take_of_blank _ _ kept 3 rfl
  exact ⟨code.body.lines.toList.drop 4, by rw [← same, List.take_append_drop]⟩

/-- Lines that load something stand behind the lines of a prologue. -/
theorem FunctionCode.split_prologueLines
    {made kept : List Line}
    {loading : List Instruction}
    (same : (prologueLines function).toList ++ made = kept ++ loading.map .instruction) :
    ∃ front, kept = (prologueLines function).toList ++ front ∧
      made = front ++ loading.map .instruction := by
  rcases List.append_eq_append_iff.mp same with ⟨front, isKept, isMade⟩ | ⟨front, isStart, isLoad⟩
  · exact ⟨front, isKept, isMade⟩
  · cases front with
    | nil => exact ⟨[], by simpa using isStart.symm, by simpa using isLoad.symm⟩
    | cons line rest =>
        -- The last line of the prologue is blank, so it loads nothing.
        exfalso
        have isBlank : (line :: rest).getLast? = some .blank := by
          have last := congrArg List.getLast? isStart
          rw [List.getLast?_append] at last
          cases known : (line :: rest).getLast? with
          | none => simp at known
          | some other => simpa [known, prologueLines] using last.symm
        have member : Line.blank ∈ loading.map .instruction := by
          rw [isLoad]
          exact List.mem_append_left _ (List.mem_of_getLast? isBlank)
        simp at member

/-- The code of nodes inside a function is made without leaving anything on the stack. -/
theorem Listing.Emits.steady
    {listing earlier later : Listing}
    {before after : FunctionCode}
    (emits : listing.Emits earlier later before after)
    (grown : earlier.Extends later)
    (inner : ∀ node ∈ later.since earlier, node.isInner) :
    Steady .everything before after :=
  Emit.nodes_steady listing.pends_everything inner
    (fun node _ => node.isPermitted_everything listing) (emits.nodes_of grown.nodes_eq)

namespace Lower

open LoweringState

variable
    {listing : Listing}
    {almost ended : FunctionCode}

/-- The lines of a function end with the label at its end and what stands behind every body. -/
theorem Coded.lines_eq
    {body : List Stmt}
    {before after bound between : LoweringState}
    {file final : AssemblyFile}
    (coded : Coded listing function body before after bound between file final almost ended)
    (known : before.listing.Parameters function)
    (lowered : functionBody function body before = .ok ((), after))
    (grown : after.listing.Extends listing)
    (distinct : (Listing.labelsOf listing.nodes.toList).Nodup) :
    ∃ inner,
      almost.body.lines.toList =
          (prologueLines function).toList ++ inner ++ [.label between.innermost.endLabel] ∧
        .label between.innermost.endLabel ∉ inner ∧
        (ended.body.add .ret).lines.toList =
          opening function ++
            Emit.setup (almost.frame.size almost.pool.touched.length) almost.pool.touched ++
            (inner ++ [.label between.innermost.endLabel]) ++
            ending function.isVoid (almost.frame.size almost.pool.touched.length)
              almost.pool.touched := by
  obtain ⟨same, other, begins, binds, _, sameLowered, inside, _, _⟩ :=
    functionBody_since known lowered
  cases begins.symm.trans coded.parametersBound
  cases sameLowered.symm.trans coded.bodyLowered
  have isInner := isInner_of_proceeds inside
  -- The label is the last node, behind those that empty the scope.
  have first := ((proceeds_begun before function (declarationsIn body)).trans
    (binds.trans ((statements_proceeds coded.bodyLowered).trans
      (computes_emptied between).toProceeds))).extends_
  have second : between.emptied.listing.Extends between.closed.listing :=
    (proceeds_labelled between.emptied between.innermost.endLabel).extends_
  obtain ⟨prev, toPrev, toLast⟩ := coded.emits.split first second
  have isLabel : { prev with body := prev.body.label between.innermost.endLabel } = almost :=
    Stateful.modify_ok_iff.mp (toLast.node_of_push (nodes_labelled _ _))
  obtain ⟨_, writesPrev⟩ := toPrev.steady first
    (fun node member => isInner node (by
      rw [first.since_trans second]
      exact List.mem_append_left _ member)) rfl
  obtain ⟨inner, prevLines⟩ := lines_of_prologued writesPrev.keeps
  have lines : almost.body.lines.toList =
      (prologueLines function).toList ++ inner ++ [.label between.innermost.endLabel] := by
    rw [← isLabel, ← prevLines]
    simp [Body.label]
  have labels : almost.body.labels =
      Listing.labelsOf (between.closed.listing.since
        (before.prepared function (declarationsIn body)).listing) :=
    Emit.nodes_labels isInner (coded.emits.nodes_of inside.extends_.nodes_eq)
  have alone : almost.body.labels.Nodup := by
    rw [labels]
    refine distinct.sublist ?_
    rw [(coded.ends.trans grown).nodes_eq, inside.extends_.nodes_eq, Listing.labelsOf_append,
      Listing.labelsOf_append]
    exact (List.sublist_append_right _ _).trans (List.sublist_append_left _ _)
  obtain ⟨first, rest, shape⟩ := exists_closing almost.signature.isVoid
    (almost.frame.size almost.pool.touched.length) almost.pool.touched
  have continues := ((coded.emits.steady inside.extends_ isInner) rfl).2.continues
  have isFunction : almost.signature = function := continues.signature
  have written := lines_of_epilogue continues.reserved shape (by
    rw [Body.keptFor_of_noMove lines (Line.target?_label _), isFunction, List.append_assoc])
    coded.epilogue
  rw [isFunction] at written
  refine ⟨inner, lines, fun member => ?_, written⟩
  rw [Body.labels, lines, List.filterMap_append, List.filterMap_append] at alone
  have apart := (List.nodup_append.mp alone).2.2 between.innermost.endLabel
    (List.mem_append_right _ (List.mem_filterMap.mpr ⟨_, member, rfl⟩))
  exact apart between.innermost.endLabel (by simp [Line.label?]) rfl

/-- The value of a return is in the register for results when its function returns. -/
theorem Coded.returned
    {part : FunctionSection}
    {bound between : LoweringState}
    {opens closes : AssemblyFile}
    (coded : Coded listing part.function part.body part.start part.finish bound between opens closes
      almost ended)
    (parameters : part.start.listing.Parameters part.function)
    (lowered : functionBody part.function part.body part.start = .ok ((), part.finish))
    (grown : part.finish.listing.Extends listing)
    (distinct : (Listing.labelsOf listing.nodes.toList).Nodup)
    {line : Nat}
    {expr : Expr}
    {start finish : LoweringState}
    (visits : Visits (.leave line (some expr)) start finish (.body part.body) bound)
    {code final : FunctionCode}
    (toStart : listing.Emits
      (part.start.prepared part.function (declarationsIn part.body)).listing start.listing
      (.prologued part.function opens.calls (declarationsIn part.body)) code)
    (emits : listing.Emits start.listing finish.listing code final)
    (toEnd : listing.Emits finish.listing between.closed.listing final almost)
    (path : Path listing (.leave line (some expr)) start finish bound between) :
    ∃ id valued reached operand found made loading middle,
      expression expr start = .ok (some id, valued) ∧
        listing.Emits start.listing valued.listing code reached ∧
        Emit.resolve listing (Emit.depth listing) id Reg.sourceIndex reached =
          .ok (operand, found) ∧
        (found.body.lines.toList = (prologueLines part.function).toList ++ made ∨
          ∃ last, found.body.lines.toList =
            (prologueLines part.function).toList ++ made ++ [last]) ∧
        Returned (ended.body.add .ret) operand
          (opening part.function ++
            Emit.setup (almost.frame.size almost.pool.touched.length) almost.pool.touched ++ made)
          loading middle between.innermost.endLabel
          (Emit.closing false (almost.frame.size almost.pool.touched.length)
            almost.pool.touched) := by
  obtain ⟨_, _, begins, binds, _, sameLowered, inside, _, _⟩ :=
    functionBody_since parameters lowered
  cases begins.symm.trans coded.parametersBound
  cases sameLowered.symm.trans coded.bodyLowered
  obtain ⟨inFunction, ends⟩ := inFunction_of_begun binds
  have sameEnd : between.innermost.endLabel = bound.innermost.endLabel :=
    (statements_proceeds coded.bodyLowered).endLabel
  obtain ⟨id, valued, exprLowered, notVoid, ⟨v, isValue⟩, rfl⟩ :=
    leave_value_ok visits inFunction (sameEnd ▸ ends) path.lowered
  have values := (expression_computes exprLowered).extends_
  have leaves : valued.listing.Extends (valued.appended (.leave id line)).listing :=
    extends_appended _ _
  have finishes : ((valued.appended (.leave id line)).appended
      (.jump between.innermost.endLabel none)).listing.Extends between.closed.listing :=
    path.ends.trans (proceeds_closed between).extends_
  have known : valued.listing.Extends listing :=
    leaves.trans ((extends_appended _ _).trans (finishes.trans (coded.ends.trans grown)))
  obtain ⟨w, isKnown, -⟩ := Listing.lookup?_of_fixed? (known.fixed?_of isValue)
  obtain ⟨loaded, upToLoad, jumpRun⟩ := emits.split_appended (values.trans leaves)
  obtain ⟨reached, toValue, leaveRun⟩ := upToLoad.split_appended values
  obtain ⟨operand, found, loading, kept, resolves, isKept, lines, result⟩ :=
    Emit.return_lines isKnown leaveRun jumpRun
  -- What is made from the start of the function up to the jump, and behind it.
  have starts := ((proceeds_begun part.start part.function (declarationsIn part.body)).trans
    binds).extends_.trans path.grows.extends_
  have returns : start.listing.Extends ((valued.appended (.leave id line)).appended
      (.jump between.innermost.endLabel none)).listing :=
    (values.trans leaves).trans (extends_appended _ _)
  have isInner := isInner_of_proceeds inside
  rw [(starts.trans returns).since_trans finishes, starts.since_trans returns] at isInner
  have still := (toStart.steady starts (fun node member => isInner node (by simp [member]))).trans
    (emits.steady returns fun node member => isInner node (by simp [member]))
  have rests := toEnd.steady finishes fun node member => isInner node (by simp [member])
  obtain ⟨noWords, writes⟩ := still rfl
  obtain ⟨made, madeLines⟩ := FunctionCode.lines_of_prologued writes.keeps
  obtain ⟨front, rfl, rfl⟩ := FunctionCode.split_prologueLines (madeLines.symm.trans lines)
  obtain ⟨rest, almostLines⟩ := (rests noWords).2.keeps.prefix_of_jump
    (lines.trans (by rw [List.map_append, ← List.append_assoc]; rfl))
  obtain ⟨inner, innerLines, apart, written⟩ := coded.lines_eq parameters lowered grown distinct
  -- What stands behind the jump ends with the label.
  obtain ⟨middle, rfl⟩ : ∃ middle, inner =
      front ++ loading.map .instruction ++ .instruction (.jump none between.innermost.endLabel) ::
        middle := by
    rw [lines, innerLines] at almostLines
    rcases List.eq_nil_or_concat rest with rfl | ⟨middle, last, rfl⟩
    · have isLast := congrArg List.getLast? almostLines
      simp at isLast
    · refine ⟨middle, ?_⟩
      rw [List.concat_eq_append, ← List.append_assoc] at almostLines
      have same := (List.append_inj' almostLines rfl).1
      simpa using same.symm
  refine ⟨id, valued, reached, operand, found, front, loading, middle, exprLowered, toValue,
    resolves, ?_, ?_, ?_, ?_⟩
  · simpa [eq_comm] using isKept
  · rw [written, notVoid]
    simp [ending]
  · intro member
    rcases List.mem_append.mp member with isFront | isMiddle
    · rcases List.mem_append.mp isFront with isStart | isMade
      · simpa [Line.isPlain] using plain_start _ _ _ _ isStart
      · exact apart (by simp [isMade])
    · exact apart (by simp [isMiddle])
  · intro link bottom cpu loadedCpu later loads closes
    rw [closes.keeps_result List.filter_sublist, result loads]

end Lower

end IlsCompiler
