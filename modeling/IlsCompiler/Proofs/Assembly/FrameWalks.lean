import IlsCompiler.Proofs.Assembly.LinkedCode
import IlsCompiler.Proofs.Assembly.Shelters

namespace IlsCompiler

/-!
# Walks through the frame of a function

The start of a function makes its frame and saves registers. The lines in the middle leave alone
what was saved, also across calls, because a call that returns has changed nothing above the words
that were passed to it. So the end of the function finds what the start saved, and a function
returns with the two pointers and the preserved registers as it was called with them.
-/

/--
A function has returned: the pointers, the preserved registers, the return address and all that
lies above the words passed to it are as they were when it was called.
-/
structure Cpu.Returns (params : Nat) (bottom : Int) (entry last : Cpu) : Prop where
  top : last.top = entry.top
  base : last.base = entry.base
  regs : ∀ reg ∈ Reg.preservedPool, last.regs reg = entry.regs reg
  back : ∀ place, entry.top ≤ place → place < entry.top + 8 →
    last.memory place = entry.memory place
  above : ∀ place, entry.top + 8 + 8 * (params : Int) ≤ place → place < bottom →
    last.memory place = entry.memory place

/-- The start of a function has made its frame and saved registers. -/
structure Cpu.Enters (layout : Layout) (entry start : Cpu) : Prop where
  base : start.base = entry.top - 8
  top : start.top = start.base + layout.floor
  regs : start.regs = entry.regs
  memory : ∀ place, entry.top ≤ place → start.memory place = entry.memory place
  pointer : ((start.memory.word start.base).toNat : Int) = entry.base
  saves : start.memory.Holds start.top (layout.saved.reverse.map entry.regs)

theorem StackFrame.le_size
    (frame : StackFrame)
    (saved : Nat) :
    slotSize * frame.locals ≤ frame.size saved := by
  unfold size
  dsimp only
  split <;> simp

/-- What is known about the frame of a function that has code. -/
def Shaped.layout (frame : StackFrame) (saved : List Reg) (function : Signature) (bottom : Int) :
    Layout where
  slots := frame.slots.length
  size := frame.size saved.length
  saved := saved
  params := function.params.length
  bottom := bottom

theorem Shaped.holds
    {listing : Listing}
    {function : Signature}
    {locals : Nat}
    {frame : StackFrame}
    {saved : List Reg}
    {lines : List Line}
    {written : Body}
    (shaped : Shaped listing function locals frame saved lines written)
    {bottom base : Int}
    (inside : base + 16 ≤ bottom) :
    (layout frame saved function bottom).Holds base := by
  refine ⟨?_, inside⟩
  have reserved := frame.le_size saved.length
  have room := shaped.room
  simp only [StackFrame.slotSize, layout] at reserved ⊢
  omega

namespace Line.Passes

variable
    {link : Linkage}
    {bottom : Int}
    {entry cpu later : Cpu}
    {known : Cpu}
    {reg : Reg}

/-- A push of a register that is no pointer is fixed. -/
theorem fixed_push
    (noPointer : reg ≠ .rsp ∧ reg ≠ .rbp)
    (executes : (Instruction.push (.whole reg)).Executes link bottom cpu later)
    (executed : (Issue.plain (.push (.whole reg))).execute link cpu = some known) :
    later = known := by
  cases reg <;> first | exact absurd rfl noPointer.1 | exact absurd rfl noPointer.2 |
    exact executes _ executed

/-- A pop into a register that is no pointer is fixed. -/
theorem fixed_pop
    (noPointer : reg ≠ .rsp ∧ reg ≠ .rbp)
    (executes : (Instruction.pop reg).Executes link bottom cpu later)
    (executed : (Issue.plain (.pop reg)).execute link cpu = some known) :
    later = known := by
  cases reg <;> first | exact absurd rfl noPointer.1 | exact absurd rfl noPointer.2 |
    exact executes _ executed

variable
    {saved : List Reg}

theorem noPointer_of_preserved
    (sublist : saved.Sublist Reg.preservedPool) :
    ∀ reg ∈ saved, reg ≠ .rsp ∧ reg ≠ .rbp := by
  intro reg member
  have preserved := sublist.subset member
  constructor <;> (rintro rfl; exact absurd preserved (by decide))

/-- Running the lines at the start of a function makes its frame. -/
theorem enters
    {function : Signature}
    {frame : StackFrame}
    (sublist : saved.Sublist Reg.preservedPool)
    {start : Cpu}
    (passes : Passes link bottom
      (FunctionCode.opening function ++ Emit.setup (frame.size saved.length) saved) entry start) :
    entry.Enters (Shaped.layout frame saved function bottom) start := by
  obtain ⟨framed, opens, sets⟩ := append_iff.mp passes
  obtain ⟨reserved, reserves, saves⟩ := append_iff.mp sets
  -- The name, the saved frame pointer and the new frame pointer.
  obtain ⟨pointer, isBase, rfl⟩ : ∃ pointer : BitVec 64,
      (pointer.toNat : Int) = entry.base ∧
        framed = { entry.push pointer with base := entry.top - 8 } := by
    cases opens with
    | skip _ opens =>
        cases opens with
        | skip isNone => exact (isNone _ rfl).elim
        | step pushes opens =>
            obtain ⟨pointer, isBase, rfl⟩ := pushes
            cases singleton_iff.mp opens
            exact ⟨pointer, isBase, rfl⟩
  -- The room for locals.
  obtain rfl : reserved = { entry.push pointer with
      base := entry.top - 8
      top := entry.top - 8 - (frame.size saved.length : Nat) } := by
    split at reserves
    next none_ =>
      cases reserves
      rw [none_]
      simp [Cpu.push]
    next =>
      exact singleton_iff.mp reserves _ (Issue.execute_sub link _ (frame.size saved.length))
  -- The saved registers.
  obtain ⟨known, runs, sameRegs, spares, holds⟩ := Issue.run_pushRegs link saved
    { entry.push pointer with
      base := entry.top - 8
      top := entry.top - 8 - (frame.size saved.length : Nat) }
  obtain rfl : start = known := by
    refine @eq_of_run link bottom _ _ (saved.map fun reg => .plain (.push (.whole reg))) ?_ _
      (by rw [List.map_map]; exact saves) runs
    intro issue member cpu later known executes executed
    obtain ⟨reg, isSaved, rfl⟩ := List.mem_map.mp member
    exact fixed_push (noPointer_of_preserved sublist reg isSaved) executes executed
  have kept : ∀ place, entry.top - 8 ≤ place →
      start.memory place = (entry.push pointer).memory place := by
    intro place above
    refine spares.memory place ?_
    show entry.top - 8 - (frame.size saved.length : Nat) ≤ place
    omega
  refine ⟨spares.base, ?_, sameRegs, ?_, ?_, holds⟩
  · rw [spares.top, spares.base]
    simp only [Shaped.layout, Layout.floor]
    omega
  · intro place above
    rw [kept place (by omega)]
    exact Memory.store_outside _ _ (.inr (by omega))
  · have stored : (entry.push pointer).memory.word (entry.top - 8) = pointer :=
      Memory.word_store _ _ _
    rw [spares.base]
    show ((start.memory.word (entry.top - 8)).toNat : Int) = _
    rw [Memory.word_of_same fun place above _ => kept place above, stored, isBase]

/-- The saved registers are taken back from where the start of the function put them. -/
theorem restores
    {layout : Layout}
    (sublist : layout.saved.Sublist Reg.preservedPool)
    {start middle last : Cpu}
    (enters : entry.Enters layout start)
    (shelters : start.Shelters layout middle)
    (passes : Passes link bottom
      ((if layout.saved.isEmpty then
        []
      else
        .lea .rsp (.frame (-((layout.size + StackFrame.slotSize * layout.saved.length : Nat) : Int))) ::
          layout.saved.reverse.map .pop).map .instruction) middle last) :
    last.base = start.base ∧ last.memory = middle.memory ∧
      ∀ reg ∈ Reg.preservedPool, last.regs reg = entry.regs reg := by
  have unsaved : ∀ reg ∈ Reg.preservedPool, reg ∉ layout.saved →
      middle.regs reg = entry.regs reg := fun reg preserved notSaved =>
    (shelters.regs reg preserved notSaved).trans (congrFun enters.regs reg)
  cases isEmpty : layout.saved.isEmpty with
  | true =>
      rw [isEmpty] at passes
      cases passes
      refine ⟨shelters.base, rfl, fun reg preserved => unsaved reg preserved ?_⟩
      simp [List.isEmpty_iff.mp isEmpty]
  | false =>
      simp only [isEmpty, Bool.false_eq_true, ↓reduceIte, List.map_cons] at passes
      cases passes with
      | skip isNone => exact (isNone _ rfl).elim
      | step addresses pops =>
          cases addresses
          have holds : middle.memory.Holds start.top (layout.saved.reverse.map entry.regs) := by
            refine enters.saves.congr fun place above below => shelters.memory place (.inl ?_)
            have top := enters.top
            simp only [List.length_map, List.length_reverse, Layout.floor] at below top ⊢
            omega
          have top : middle.base + -((layout.size + StackFrame.slotSize * layout.saved.length : Nat) :
              Int) = start.top := by
            rw [shelters.base, enters.top]
            rfl
          obtain ⟨known, runs, _, base, memory, restored, kept⟩ := @Issue.run_popRegs link
            layout.saved.reverse
            (fun reg member => noPointer_of_preserved sublist reg (by simpa using member))
            entry.regs { middle with top := start.top } holds
          rw [top] at pops
          obtain rfl : last = known := by
            refine @eq_of_run link bottom _ _
              (layout.saved.reverse.map fun reg => .plain (.pop reg)) ?_ _
              (by rw [List.map_map] at pops ⊢; exact pops) runs
            intro issue member cpu later known executes executed
            obtain ⟨reg, isSaved, rfl⟩ := List.mem_map.mp member
            exact fixed_pop (noPointer_of_preserved sublist reg (by simpa using isSaved)) executes
              executed
          refine ⟨base.trans shelters.base, memory, fun reg preserved => ?_⟩
          by_cases isSaved : reg ∈ layout.saved
          · exact restored reg (by simpa using isSaved)
          · rw [kept reg (by simpa using isSaved)]
            exact unsaved reg preserved isSaved

/-- Running the lines at the end of a function gives back what the start saved. -/
theorem returns
    {layout : Layout}
    (sublist : layout.saved.Sublist Reg.preservedPool)
    {isVoid : Bool}
    {start middle last : Cpu}
    (holds : layout.Holds start.base)
    (enters : entry.Enters layout start)
    (shelters : start.Shelters layout middle)
    (passes : Passes link bottom
      ((Emit.closing isVoid layout.size layout.saved).map .instruction) middle last) :
    entry.Returns layout.params layout.bottom last := by
  rw [Emit.closing, List.map_append, List.map_append] at passes
  obtain ⟨restored, passes, leaves⟩ := append_iff.mp passes
  obtain ⟨cleared, clears, restores_⟩ := append_iff.mp passes
  have stillShelters : start.Shelters layout cleared := by
    cases isVoid with
    | false =>
        cases clears
        exact shelters
    | true =>
        obtain ⟨word, rfl⟩ := (singleton_iff.mp clears).of_computes (by decide)
          (by simp [Instruction.computations] : _ ∈ Instruction.computations .rax (.whole .rax))
        exact shelters.trans (.set (fun preserved => absurd preserved (by decide)) _ _)
  obtain ⟨base, memory, regs⟩ := restores sublist enters stillShelters restores_
  -- The frame pointer is taken back last.
  have isLast : last = { restored with
      top := restored.base + 8
      base := (restored.memory.word restored.base).toNat } := by
    cases leaves with
    | skip isNone => exact (isNone _ rfl).elim
    | step moves leaves =>
        cases moves
        exact singleton_iff.mp leaves
  have inside := holds.inside
  have isBase := enters.base
  have same : ∀ place, layout.Protects start.base place →
      last.memory place = start.memory place := by
    intro place isProtected
    rw [isLast]
    exact (congrFun memory place).trans (stillShelters.memory place isProtected)
  have pointer : restored.memory.word restored.base = start.memory.word start.base := by
    rw [base]
    refine Memory.word_of_same fun place above below => ?_
    exact (congrFun memory place).trans
      (stillShelters.memory place (.inr (.inl ⟨above, by omega⟩)))
  refine ⟨?_, ?_, ?_, ?_, ?_⟩
  · rw [isLast]
    show restored.base + 8 = _
    omega
  · rw [isLast]
    show ((restored.memory.word restored.base).toNat : Int) = _
    rw [pointer, enters.pointer]
  · rw [isLast]
    exact regs
  · intro place above below
    rw [same place (.inr (.inl (by omega))), enters.memory place above]
  · intro place above below
    rw [same place (.inr (.inr (by omega))), enters.memory place (by omega)]

end Line.Passes

/--
Where a walk through a function can be: in the lines at its start, behind some of the lines in the
middle with what the function has to leave alone still there, or in the lines at its end.
-/
inductive Whereabouts (link : Linkage) (layout : Layout) (head lines tail : List Line)
    (entry : Cpu) : Nat → Cpu → Prop
  | start {front : List Line} {line : Line} {rest : List Line} {cpu : Cpu} :
      head = front ++ line :: rest → Line.Passes link layout.bottom front entry cpu →
        Whereabouts link layout head lines tail entry front.length cpu
  | middle {front : List Line} {line : Line} {rest : List Line} {level : Int} {begun cpu : Cpu} :
      lines = front ++ line :: rest → Line.levels? 0 front = some level →
        entry.Enters layout begun → begun.Shelters layout cpu →
        cpu.top = begun.top - 8 * level →
        Whereabouts link layout head lines tail entry (head.length + front.length) cpu
  | finish {front rest : List Line} {begun last cpu : Cpu} :
      tail = front ++ rest → entry.Enters layout begun → begun.Shelters layout last →
        Line.Passes link layout.bottom front last cpu →
        Whereabouts link layout head lines tail entry
          (head.length + lines.length + front.length) cpu

namespace Whereabouts

variable
    {link : Linkage}
    {layout : Layout}
    {body : Body}
    {head lines tail : List Line}
    {entry cpu later : Cpu}
    {position : Nat}
    {line : Line}
    {last : Int}

/-- Behind lines in the middle a walk is still in the middle, or at the end. -/
theorem of_level
    {begun : Cpu}
    {front rest : List Line}
    {level : Int}
    (shape : lines = front ++ rest)
    (known : Line.levels? 0 front = some level)
    (enters : entry.Enters layout begun)
    (shelters : begun.Shelters layout cpu)
    (top : cpu.top = begun.top - 8 * level) :
    Whereabouts link layout head lines tail entry (head.length + front.length) cpu := by
  cases rest with
  | nil =>
      rw [List.append_nil] at shape
      subst shape
      exact @finish link layout head lines tail entry [] tail _ _ _ rfl enters shelters (.nil cpu)
  | cons line rest => exact .middle shape known enters shelters top

/-- Behind lines at the start a walk is still at the start, or in the middle at level zero. -/
theorem of_passes
    (enters : ∀ begun, Line.Passes link layout.bottom head entry begun →
      entry.Enters layout begun)
    {front rest : List Line}
    (shape : head = front ++ rest)
    (passes : Line.Passes link layout.bottom front entry cpu) :
    Whereabouts link layout head lines tail entry front.length cpu := by
  cases rest with
  | nil =>
      rw [List.append_nil] at shape
      subst shape
      exact @of_level link layout head lines tail entry cpu cpu [] lines 0 rfl rfl
        (enters cpu passes) (.refl layout cpu) (by simp)
  | cons line rest => exact .start shape passes

variable
    {front rest : List Line}

/-- The line in front of which a walk is. -/
theorem line_of_start
    (shape : body.lines.toList = head ++ lines ++ tail)
    {here : Line}
    (isHead : head = front ++ here :: rest)
    (found : body.lines[front.length]? = some line) :
    here = line := by
  rw [← Array.getElem?_toList, shape, isHead] at found
  simpa using found

theorem line_of_finish
    (shape : body.lines.toList = head ++ lines ++ tail)
    (isTail : tail = front ++ rest)
    (found : body.lines[head.length + lines.length + front.length]? = some line) :
    ∃ more, rest = line :: more := by
  rw [← Array.getElem?_toList, shape, ← List.length_append,
    List.getElem?_append_right (by omega), isTail] at found
  cases rest with
  | nil => simp at found
  | cons first more => exact ⟨more, by simpa using found⟩

/-- A walk goes on behind a line if what happens there is as it should be for that line. -/
theorem next
    (shape : body.lines.toList = head ++ lines ++ tail)
    (plain : ∀ line ∈ head ++ tail, line.isPlain)
    (level : Line.levels? 0 lines = some last)
    (enters : ∀ begun, Line.Passes link layout.bottom head entry begun →
      entry.Enters layout begun)
    (within : Whereabouts link layout head lines tail entry position cpu)
    (found : body.lines[position]? = some line)
    (outer : line.isPlain → Line.Passes link layout.bottom [line] cpu later)
    (inner : ∀ {front rest : List Line} {start after : Int},
      lines = front ++ line :: rest → Line.levels? 0 front = some start →
        line.level? start = some after → cpu.base = entry.top - 8 →
        cpu.top = cpu.base + layout.floor - 8 * start →
        cpu.Shelters layout later ∧ later.top = cpu.top - 8 * (after - start)) :
    Whereabouts link layout head lines tail entry (position + 1) later := by
  cases within with
  | @start front here rest _ isHead passes =>
      cases line_of_start shape isHead found
      have more := Line.Passes.append_iff.mpr ⟨cpu, passes, outer (plain _ (by simp [isHead]))⟩
      have arrives := @of_passes link layout head lines tail entry later enters
        (front ++ [line]) rest (by simp [isHead]) more
      simpa using arrives
  | @middle front here rest start begun _ isLines known enters_ shelters top =>
      cases (Body.Within.line_eq shape isLines).symm.trans found
      obtain ⟨after, moves, further⟩ := Body.Within.level?_of_middle level isLines known
      have base := shelters.base
      have begunTop := enters_.top
      have begunBase := enters_.base
      obtain ⟨stays, newTop⟩ := inner isLines known moves (by omega) (by omega)
      have arrives := @of_level link layout head lines tail entry later begun (front ++ [line])
        rest after (by simp [isLines]) further enters_ (shelters.trans stays) (by omega)
      simpa [Nat.add_assoc] using arrives
  | @finish front rest begun last _ isTail enters_ shelters passes =>
      obtain ⟨more, rfl⟩ := line_of_finish shape isTail found
      have further := Line.Passes.append_iff.mpr ⟨cpu, passes, outer (plain _ (by simp [isTail]))⟩
      have arrives := @finish link layout head lines tail entry (front ++ [line]) more begun last
        later (by simp [isTail]) enters_ shelters further
      simpa [Nat.add_assoc] using arrives

/-- A jump leads from the middle to a label in the middle, and both are at level zero. -/
theorem jump
    (shape : body.lines.toList = head ++ lines ++ tail)
    (plain : ∀ line ∈ head ++ tail, line.isPlain)
    (level : Line.levels? 0 lines = some last)
    (within : Whereabouts link layout head lines tail entry position cpu)
    {condition : Option CmpOp}
    {label : String}
    {target : Nat}
    (found : body.lines[position]? = some (.instruction (.jump condition label)))
    (isTarget : body.lines[target]? = some (.label label)) :
    Whereabouts link layout head lines tail entry target cpu := by
  cases within with
  | @start front here rest _ isHead passes =>
      cases line_of_start shape isHead found
      cases plain (.instruction (.jump condition label)) (by simp [isHead])
  | @middle front here rest start begun _ isLines known enters shelters top =>
      cases (Body.Within.line_eq shape isLines).symm.trans found
      obtain ⟨_, moves, _⟩ := Body.Within.level?_of_middle level isLines known
      simp only [Line.level?] at moves
      split at moves
      next zero =>
        obtain ⟨earlier, more, there, rfl⟩ := Body.Within.label_in_middle shape plain isTarget
        have reached := level
        rw [there, Line.levels?_append] at reached
        cases levelThere : Line.levels? 0 earlier with
        | none => simp [levelThere] at reached
        | some atLabel =>
            obtain ⟨_, allowed, _⟩ := Body.Within.level?_of_middle level there levelThere
            simp only [Line.level?] at allowed
            split at allowed
            next isZero =>
              subst isZero zero
              exact .middle there levelThere enters shelters top
            next => cases allowed
      next => cases moves
  | @finish front rest begun last _ isTail enters shelters passes =>
      obtain ⟨more, rfl⟩ := line_of_finish shape isTail found
      cases plain (.instruction (.jump condition label)) (by simp [isTail])

end Whereabouts

end IlsCompiler
