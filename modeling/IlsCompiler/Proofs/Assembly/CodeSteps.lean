import IlsCompiler.Proofs.Assembly.StackLevels

namespace IlsCompiler

/-!
# How code is made

The code of a function is made by steps of a few kinds: a local gets a slot, a call is counted, a
register is handed out or taken back, a label or an instruction is added. What holds of the lines
of a function follows from what each of these does. While code is made, the level behind the lines
is the number of words counted as pushed.
-/

variable
    {reg : Reg}

namespace FunctionCode

/-- One thing that is done while the code of a function is made. -/
inductive Write (permitted : Permitted) : FunctionCode → FunctionCode → Prop
  | slot (code : FunctionCode) (id : VarId) :
      code.frame.slots.length < code.frame.locals →
        Write permitted code
          { code with frame := { code.frame with slots := code.frame.slots ++ [id] } }
  | note (code : FunctionCode) (number : Nat) :
      Write permitted code { code with calls := code.calls ++ [number] }
  | take {code : FunctionCode} {pool : Pool} {id : VarId} {mustSurvive : Bool} {reg : Reg} :
      code.pool.assign id mustSurvive = .ok (pool, reg) →
        Write permitted code { code with pool := pool }
  | release (code : FunctionCode) (id : VarId) :
      Write permitted code { code with pool := code.pool.release id }
  | label (code : FunctionCode) (name : String) :
      code.frame.pushed = 0 → Write permitted code { code with body := code.body.label name }
  | issue {code : FunctionCode} {next : Instruction} {pushed : Nat} :
      (code.pool.Sound →
        Line.level? code.frame.pushed (.instruction next) = some (pushed : Int)) →
      next.Fits permitted code.frame.slots.length code.pool.heldRegs code.frame.pushed →
        Write permitted code
          { code with
            body := code.body.add next
            frame := { code.frame with pushed := pushed } }

/-- The things that are done while some code is made, one after the other. -/
def Writes (permitted : Permitted) : FunctionCode → FunctionCode → Prop :=
  Relation.ReflTransGen (Write permitted)

/--
The lines behind the prologue are at the level that is counted and fit where they stand, and the
pool and the frame that they were made with are sound.
-/
structure Leveled (permitted : Permitted) (code : FunctionCode) : Prop where
  lines : ∃ lines,
    code.body.lines.toList = (prologueLines code.signature).toList ++ lines ∧
      Line.levels? 0 lines = some (code.frame.pushed : Int) ∧
      Line.Fit permitted code.frame.slots.length code.pool.used lines
  sound : code.pool.Sound
  records : code.pool.Records
  room : code.frame.slots.length ≤ code.frame.locals

variable
    {permitted : Permitted}
    {before after : FunctionCode}
    {code : FunctionCode}

/-- The lines that stay when an instruction is added are at the level of all lines. -/
theorem Leveled.keptFor
    (leveled : code.Leveled permitted)
    (next : Instruction) :
    ∃ lines,
      code.body.keptFor next = (prologueLines code.signature).toList ++ lines ∧
        Line.levels? 0 lines = some (code.frame.pushed : Int) ∧
        Line.Fit permitted code.frame.slots.length code.pool.used lines := by
  obtain ⟨lines, shape, level, fit⟩ := leveled.lines
  rcases code.body.keptFor_cases next with same | ⟨last, dropped, redundant⟩
  · exact ⟨lines, same.trans shape, level, fit⟩
  · rw [dropped] at shape
    -- The last line of the prologue is blank, so a line that is dropped stands behind it.
    rcases List.eq_nil_or_concat lines with rfl | ⟨front, final, rfl⟩
    · rw [List.append_nil] at shape
      have isBlank : last = .blank := by
        have lasts := congrArg List.getLast? shape
        simpa [prologueLines] using lasts
      subst isBlank
      obtain ⟨rest, start⟩ := Move.mov_of_isRedundant redundant
      simp [Line.text, Move.withoutTab, Move.afterStart?] at start
    · rw [List.concat_eq_append, ← List.append_assoc] at shape
      obtain ⟨kept, ends⟩ := List.append_inj' shape rfl
      cases ends
      rw [List.concat_eq_append] at level fit
      refine ⟨front, kept, ?_, fit.of_append⟩
      rw [Line.levels?_append] at level
      cases known : Line.levels? 0 front with
      | none => simp [known] at level
      | some between =>
          have one : Line.level? between last = some (code.frame.pushed : Int) := by
            simpa [known, Line.levels?] using level
          rw [Line.level?_of_redundant one redundant]

/-- Registers that temporaries hold and a call preserves have been recorded as used. -/
theorem Leveled.recorded
    (leveled : code.Leveled permitted) :
    ∀ reg ∈ Reg.preservedPool, reg ∈ code.pool.heldRegs → reg ∈ code.pool.used :=
  fun reg member held => leveled.records reg held (by revert member; cases reg <;> decide)

/-- Every step of making code keeps the lines at their level. -/
theorem Write.leveled
    (write : Write permitted before after)
    (leveled : before.Leveled permitted) :
    after.Leveled permitted := by
  obtain ⟨lines, shape, level, fit⟩ := leveled.lines
  cases write with
  | slot id room =>
      exact
        { leveled with
          lines := ⟨lines, shape, level, fit.mono (by simp) fun _ _ member => member⟩
          room := by simpa using Nat.succ_le_of_lt room }
  | note => exact ⟨⟨lines, shape, level, fit⟩, leveled.sound, leveled.records, leveled.room⟩
  | take assigned =>
      obtain ⟨records, grown⟩ := leveled.records.assign assigned
      exact ⟨⟨lines, shape, level, fit.mono (Nat.le_refl _) fun _ _ member => grown member⟩,
        leveled.sound.assign assigned, records, leveled.room⟩
  | release id =>
      obtain ⟨records, same⟩ := leveled.records.release id
      exact ⟨⟨lines, shape, level, same ▸ fit⟩, leveled.sound.release id, records, leveled.room⟩
  | label name zero =>
      refine ⟨⟨lines ++ [.label name], by simp [Body.label, shape], ?_, ?_⟩, leveled.sound,
        leveled.records, leveled.room⟩
      · simp [Line.levels?_append, level, Line.levels?, Line.level?, zero]
      · exact fit.concat fun next _ isNext => by cases isNext
  | @issue next pushed moves fits =>
      obtain ⟨kept, keeps, level, fit⟩ := leveled.keptFor next
      have moved := moves leveled.sound
      refine ⟨⟨kept ++ [.instruction next], ?_, ?_, ?_⟩, leveled.sound, leveled.records,
        leveled.room⟩
      · rw [Body.lines_add, keeps, List.append_assoc]
      · rw [Line.levels?_append, level]
        simp [Line.levels?, moved]
      · refine fit.concat fun other behind isNext known => ?_
        cases isNext
        rw [level, Option.some.injEq] at known
        subst known
        exact ⟨by simp, fits.mono (Nat.le_refl _) leveled.recorded⟩

theorem Write.sound
    (write : Write permitted before after)
    (sound : before.pool.Sound) :
    after.pool.Sound := by
  cases write with
  | take assigned => exact sound.assign assigned
  | release id => exact sound.release id
  | _ => exact sound

theorem Write.keeps
    (write : Write permitted before after) :
    before.body.Keeps after.body := by
  cases write with
  | label name => exact .label _ name
  | issue => exact .add _ _
  | _ => exact .refl _

/-- Making code keeps the signature and what the prologue fixed about the frame. -/
structure Continues (before after : FunctionCode) : Prop where
  signature : after.signature = before.signature
  locals : after.frame.locals = before.frame.locals
  reserved : after.frame.reserved = before.frame.reserved
  slots : before.frame.slots.length ≤ after.frame.slots.length

theorem Write.continues
    (write : Write permitted before after) :
    before.Continues after := by
  cases write <;> exact ⟨rfl, rfl, rfl, by simp⟩

theorem Writes.leveled
    (writes : Writes permitted before after)
    (leveled : before.Leveled permitted) :
    after.Leveled permitted := by
  induction writes with
  | refl => exact leveled
  | tail _ write inductionHypothesis => exact write.leveled inductionHypothesis

theorem Writes.continues
    (writes : Writes permitted before after) :
    before.Continues after := by
  induction writes with
  | refl => exact ⟨rfl, rfl, rfl, Nat.le_refl _⟩
  | tail _ write inductionHypothesis =>
      have step := write.continues
      exact ⟨step.signature.trans inductionHypothesis.signature,
        step.locals.trans inductionHypothesis.locals,
        step.reserved.trans inductionHypothesis.reserved,
        Nat.le_trans inductionHypothesis.slots step.slots⟩

theorem Writes.sound
    (writes : Writes permitted before after)
    (sound : before.pool.Sound) :
    after.pool.Sound := by
  induction writes with
  | refl => exact sound
  | tail _ step inductionHypothesis => exact step.sound inductionHypothesis

/-- Making code keeps the lines that were there, but for a last move. -/
theorem Writes.keeps
    (writes : Writes permitted before after) :
    before.body.Keeps after.body := by
  induction writes with
  | refl => exact .refl _
  | tail _ step inductionHypothesis => exact inductionHypothesis.trans step.keeps

/-- Some code is made that moves the level by a number of words and takes no register back. -/
structure Rises (permitted : Permitted) (words : Int) (before after : FunctionCode) : Prop where
  writes : Writes permitted before after
  pushed : (after.frame.pushed : Int) = before.frame.pushed + words
  held : before.pool.heldRegs ⊆ after.pool.heldRegs
  labels : after.body.labels = before.body.labels

namespace Rises

variable
    {first second third : FunctionCode}

theorem refl
    (code : FunctionCode) :
    Rises permitted 0 code code :=
  ⟨.refl, by simp, List.Subset.refl _, rfl⟩

theorem trans
    {words more : Int}
    (earlier : Rises permitted words first second)
    (later : Rises permitted more second third) :
    Rises permitted (words + more) first third :=
  ⟨earlier.writes.trans later.writes, by rw [later.pushed, earlier.pushed, Int.add_assoc],
    List.Subset.trans earlier.held later.held, later.labels.trans earlier.labels⟩

theorem still
    (earlier : Rises permitted 0 first second)
    (later : Rises permitted 0 second third) :
    Rises permitted 0 first third := by
  simpa using earlier.trans later

/-- What lies in the frame still does when more code has been made. -/
theorem reaches
    {words : Int}
    {operand : Operand}
    (rises : Rises permitted words first second)
    (inFrame : first.Reaches operand) :
    second.Reaches operand :=
  Operand.InFrame.mono inFrame rises.writes.continues.slots

end Rises

/-- Code may use registers that temporaries hold and those that values only pass through. -/
def Uses (code : FunctionCode) (reg : Reg) : Prop :=
  Emit.isPassing reg ∨ reg ∈ code.pool.heldRegs

theorem Uses.held
    (uses : code.Uses reg)
    (preserved : reg ∈ Reg.preservedPool) :
    reg ∈ code.pool.heldRegs := by
  refine uses.resolve_left ?_
  rintro (rfl | rfl | rfl) <;> exact absurd preserved (by decide)

theorem Uses.noPointer
    (uses : code.Uses reg)
    (sound : code.pool.Sound) :
    reg ≠ .rsp ∧ reg ≠ .rbp := by
  rcases uses with passing | held
  · exact Emit.noPointer_of_passing passing
  · exact sound.noPointer held

/-- An instruction that may stand at the level moves it. -/
theorem rises_add
    {code : FunctionCode}
    {next : Instruction}
    {pushed : Nat}
    {words : Int}
    (level : code.pool.Sound →
      Line.level? code.frame.pushed (.instruction next) = some (pushed : Int))
    (fits : next.Fits permitted code.frame.slots.length code.pool.heldRegs code.frame.pushed)
    (moved : (pushed : Int) = code.frame.pushed + words) :
    Rises permitted words code
      { code with
        body := code.body.add next
        frame := { code.frame with pushed := pushed } } :=
  ⟨.single (.issue level fits), moved, List.Subset.refl _, by simp⟩

/-- An instruction that pushes nothing leaves the level as it is. -/
theorem rises_still
    {next : Instruction}
    (level : code.pool.Sound →
      Line.level? code.frame.pushed (.instruction next) = some (code.frame.pushed : Int))
    (fits : next.Fits permitted code.frame.slots.length code.pool.heldRegs code.frame.pushed) :
    Rises permitted 0 code { code with body := code.body.add next } :=
  rises_add level fits (by simp)

end FunctionCode

/-- Every call whose result is pending in a listing is permitted. -/
def Listing.Pends (listing : Listing) (permitted : Permitted) : Prop :=
  ∀ id v function call,
    listing.lookup? id = some v → v.storage = .result function call → permitted.calls call

theorem Listing.pends_everything
    (listing : Listing) :
    listing.Pends .everything :=
  fun _ _ _ _ _ _ => trivial

namespace Emit

open Stateful FunctionCode

variable
    {permitted : Permitted}
    {before after : FunctionCode}
    {done : Unit}
    {source : Operand}

/-- A load is one instruction, or none if the operand is the register already. -/
theorem moveInto_cases
    (run : moveInto reg source before = .ok (done, after)) :
    after = before ∨
      ∃ instruction ∈ [.mov (.whole reg) source, .movsxd reg source, .movzx reg source],
        after = { before with body := before.body.add instruction } := by
  unfold moveInto at run
  split at run
  · split at run
    · obtain ⟨-, rfl⟩ := pure_ok_iff.mp run
      exact .inl rfl
    · exact .inr ⟨_, by simp, ins_ok_iff.mp run⟩
  · split at run
    · exact .inr ⟨_, by simp, ins_ok_iff.mp run⟩
    · split at run
      · exact .inr ⟨_, by simp, ins_ok_iff.mp run⟩
      · exact .inr ⟨_, by simp, ins_ok_iff.mp run⟩
  · exact .inr ⟨_, by simp, ins_ok_iff.mp run⟩

/-- An instruction that computes into a register that may be used. -/
theorem computes_rises
    {reg : Reg}
    {source : Operand}
    {instruction : Instruction}
    (uses : before.Uses reg)
    (reaches : before.Reaches source)
    (member : instruction ∈ Instruction.computations reg source) :
    Rises permitted 0 before { before with body := before.body.add instruction } := by
  have common : instruction.Common := .compute member
  simp only [Instruction.computations, List.mem_cons, List.not_mem_nil, or_false] at member
  have isTarget : instruction.target? = some reg := by
    rcases member with rfl | rfl | rfl | rfl | rfl | rfl | rfl <;> rfl
  refine rises_still (fun sound => ?_) ?_
  · have noPointer := uses.noPointer sound
    rcases member with rfl | rfl | rfl | rfl | rfl | rfl | rfl <;>
      simp [Line.level?, Instruction.pushes?, Instruction.writesPointer, Instruction.target?,
        Operand.whole, noPointer]
  · refine ⟨common, fun other preserved isOther => ?_, fun operand isOperand => ?_, ?_, ?_⟩
    · rw [isTarget, Option.some.injEq] at isOther
      exact isOther ▸ uses.held (isOther ▸ preserved)
    · have among : instruction.operands ⊆ [.whole reg, source] := by
        rcases member with rfl | rfl | rfl | rfl | rfl | rfl | rfl <;>
          simp [Instruction.operands]
      have either := among isOperand
      simp only [List.mem_cons, List.not_mem_nil, or_false] at either
      rcases either with rfl | rfl
      · trivial
      · exact reaches
    · rintro position width other rfl
      cases isTarget
    · rintro name rfl
      cases isTarget

/-- An instruction without operands that writes no register that is handed out. -/
theorem bare_rises
    {instruction : Instruction}
    (member : instruction ∈ [.cqo, .idiv Reg.sourceIndex, .syscall]) :
    Respects (Rises permitted 0) (ins instruction) := by
  intro before done after run
  cases ins_ok_iff.mp run
  simp only [List.mem_cons, List.not_mem_nil, or_false] at member
  refine rises_still (fun _ => ?_) ⟨?_, ?_, ?_, ?_, ?_⟩
  · rcases member with rfl | rfl | rfl <;>
      simp [Line.level?, Instruction.pushes?, Instruction.writesPointer, Instruction.target?]
  · rcases member with rfl | rfl | rfl
    · exact .cqo
    · exact .idiv _
    · exact .syscall
  · rcases member with rfl | rfl | rfl <;> simp [Instruction.target?]
  · rcases member with rfl | rfl | rfl <;> simp [Instruction.operands]
  · rintro position width source rfl
    simp at member
  · rintro name rfl
    simp at member

theorem moveInto_rises
    (uses : before.Uses reg)
    (reaches : before.Reaches source)
    (run : moveInto reg source before = .ok (done, after)) :
    Rises permitted 0 before after := by
  rcases moveInto_cases run with rfl | ⟨instruction, member, rfl⟩
  · exact .refl _
  · refine computes_rises uses reaches ?_
    simp only [Instruction.computations, List.mem_cons, List.not_mem_nil, or_false] at member ⊢
    rcases member with rfl | rfl | rfl <;> simp

variable
    {name : String}

/-- A temporary gets a register and is loaded. -/
theorem fill_rises
    {between : FunctionCode}
    {v : Variable}
    (reaches : before.Reaches source)
    (taken : takeRegister name v before = .ok (reg, between))
    (moved : moveInto reg source between = .ok (done, after)) :
    Rises permitted 0 before after := by
  obtain ⟨pool, assigned, rfl⟩ := takeRegister_ok taken
  obtain ⟨isHeld, grown⟩ := Pool.held_of_assign assigned
  have takes : Rises permitted 0 before { before with pool := pool } :=
    ⟨.single (.take assigned), by simp, grown, rfl⟩
  exact takes.still (moveInto_rises (.inr isHeld) reaches moved)

theorem push_rises
    {operand : Operand}
    (reaches : before.Reaches operand)
    (run : push operand before = .ok (done, after)) :
    Rises permitted 1 before after := by
  unfold push countPushed at run
  simp only [bind_ok_iff, modify_ok_iff] at run
  obtain ⟨_, _, added, rfl⟩ := run
  cases ins_ok_iff.mp added
  refine rises_add (fun _ => by simp [Line.level?, Instruction.pushes?])
    ⟨.push _, ?_, ?_, nofun, nofun⟩ (by simp)
  · simp [Instruction.target?]
  · intro other isOperand
    rw [List.mem_singleton.mp isOperand]
    exact reaches

theorem pop_rises
    {reg : Reg}
    (volatile : reg ∈ Reg.volatilePool)
    (deep : 1 ≤ before.frame.pushed)
    (run : (do ins (.pop reg); countPushed (· - 1) : Emit Unit) before = .ok (done, after)) :
    Rises permitted (-1) before after := by
  unfold countPushed at run
  simp only [bind_ok_iff, modify_ok_iff] at run
  obtain ⟨_, _, added, rfl⟩ := run
  cases ins_ok_iff.mp added
  have less : ((before.frame.pushed - 1 : Nat) : Int) = before.frame.pushed + -1 := by omega
  refine rises_add (fun _ => ?_) ⟨.pop _, ?_, ?_, nofun, nofun⟩ less
  · have noPointer : reg ≠ .rsp ∧ reg ≠ .rbp := by
      constructor <;> (rintro rfl; exact absurd volatile (by decide))
    simp [Line.level?, Instruction.pushes?, noPointer, less]
  · rintro other preserved isTarget
    rw [show (Instruction.pop reg).target? = some reg from rfl, Option.some.injEq] at isTarget
    subst isTarget
    exact absurd preserved (by revert volatile; cases reg <;> decide)
  · simp [Instruction.operands]

theorem forM_push_rises
    {regs : List Reg}
    (run : (regs.forM fun reg => push (.whole reg)) before = .ok (done, after)) :
    after.pool = before.pool ∧ Rises permitted regs.length before after := by
  induction regs generalizing before with
  | nil =>
      obtain ⟨-, rfl⟩ := pure_ok_iff.mp run
      exact ⟨rfl, .refl _⟩
  | cons reg rest inductionHypothesis =>
      obtain ⟨_, between, pushed, others⟩ := bind_ok_iff.mp run
      obtain ⟨samePool, rises⟩ := inductionHypothesis others
      have first := @push_rises permitted before between _ (.whole reg) trivial pushed
      have keeps : between.pool = before.pool := by
        unfold push countPushed at pushed
        simp only [bind_ok_iff, modify_ok_iff] at pushed
        obtain ⟨_, _, added, rfl⟩ := pushed
        cases ins_ok_iff.mp added
        rfl
      refine ⟨samePool.trans keeps, ?_⟩
      have both := first.trans rises
      rwa [Int.add_comm, ← Int.natCast_succ] at both

/-- Moving the stack pointer by a number fits everywhere. -/
theorem fits_adjust
    {slots : Nat}
    {regs : List Reg}
    {level : Int}
    {instruction : Instruction}
    {words : Nat}
    (member : instruction ∈ [.sub (.whole .rsp) (.number (StackFrame.slotSize * words)),
      .add (.whole .rsp) (.number (StackFrame.slotSize * words))]) :
    instruction.Fits permitted slots regs level := by
  simp only [List.mem_cons, List.not_mem_nil, or_false] at member
  have computes : instruction ∈
      Instruction.computations .rsp (.number (StackFrame.slotSize * words)) := by
    rcases member with rfl | rfl <;> simp [Instruction.computations]
  have isTarget : instruction.target? = some .rsp := by
    rcases member with rfl | rfl <;> rfl
  refine ⟨.compute computes, fun reg preserved isReg => ?_, fun operand isOperand => ?_, ?_, ?_⟩
  · rw [isTarget, Option.some.injEq] at isReg
    exact absurd (isReg ▸ preserved) (by decide)
  · rcases member with rfl | rfl <;>
      simp only [Instruction.operands, List.mem_cons, List.not_mem_nil, or_false] at isOperand <;>
      rcases isOperand with rfl | rfl <;> trivial
  · rintro position width other rfl
    cases isTarget
  · rintro name rfl
    cases isTarget

/-- How many words were pushed to save live registers. -/
def Saved.words (saved : Saved) : Nat :=
  saved.regs.length + if saved.padded then 1 else 0

/-- The stack is even behind the arguments when the live registers are saved. -/
theorem saveLive_rises
    {arguments : Nat}
    {saved : Saved}
    (run : saveLive arguments before = .ok (saved, after)) :
    saved.regs = before.pool.live ∧ after.pool = before.pool ∧
      (after.frame.pushed + arguments) % 2 = 0 ∧
      Rises permitted saved.words before after := by
  unfold saveLive at run
  obtain ⟨_, _, got, later⟩ := bind_ok_iff.mp run
  obtain ⟨rfl, rfl⟩ := get_ok_iff.mp got
  obtain ⟨_, middle, pushes, later⟩ := bind_ok_iff.mp later
  obtain ⟨_, _, gotAgain, later⟩ := bind_ok_iff.mp later
  obtain ⟨rfl, rfl⟩ := get_ok_iff.mp gotAgain
  have live := @forM_push_rises permitted _ _ _ _ pushes
  split at later
  next even =>
    obtain ⟨rfl, rfl⟩ := pure_ok_iff.mp later
    exact ⟨rfl, live.1, even, by simpa [Saved.words] using live.2⟩
  next odd =>
    unfold countPushed at later
    simp only [bind_ok_iff, modify_ok_iff] at later
    obtain ⟨_, _, added, _, _, rfl, returned⟩ := later
    cases ins_ok_iff.mp added
    obtain ⟨rfl, rfl⟩ := pure_ok_iff.mp returned
    have pads := @rises_add permitted middle _ (middle.frame.pushed + 1) 1
      (fun _ => level?_reserve middle.frame.pushed 1)
      (@fits_adjust permitted _ _ _ _ 1 (List.mem_cons_self ..)) (by simp)
    refine ⟨rfl, live.1, ?_, by simpa [Saved.words] using live.2.trans pads⟩
    show (middle.frame.pushed + 1 + arguments) % 2 = 0
    omega

theorem drop_rises
    {words : Nat}
    (deep : words ≤ before.frame.pushed)
    (run : (do
      ins (.add (.whole .rsp) (.number (StackFrame.slotSize * words)))
      countPushed (· - words) : Emit Unit) before = .ok (done, after)) :
    Rises permitted (-words) before after := by
  unfold countPushed at run
  simp only [bind_ok_iff, modify_ok_iff] at run
  obtain ⟨_, _, added, rfl⟩ := run
  cases ins_ok_iff.mp added
  have less : ((before.frame.pushed - words : Nat) : Int) = before.frame.pushed + -words := by
    omega
  exact rises_add (fun _ => by rw [level?_drop, less]; rfl)
    (@fits_adjust permitted _ _ _ _ words (List.mem_cons_of_mem _ (List.mem_cons_self ..))) less

theorem dropArguments_rises
    {arguments : Nat}
    (deep : arguments ≤ before.frame.pushed)
    (run : dropArguments arguments before = .ok (done, after)) :
    Rises permitted (-arguments) before after := by
  unfold dropArguments at run
  split at run
  · exact drop_rises deep run
  next none_ =>
    obtain ⟨-, rfl⟩ := pure_ok_iff.mp run
    have zero : arguments = 0 := by simpa using none_
    subst zero
    exact .refl _

theorem forM_pop_rises
    {regs : List Reg}
    (volatile : ∀ reg ∈ regs, reg ∈ Reg.volatilePool)
    (deep : regs.length ≤ before.frame.pushed)
    (run : (regs.forM fun reg => do ins (.pop reg); countPushed (· - 1) : Emit Unit) before =
      .ok (done, after)) :
    Rises permitted (-regs.length) before after := by
  induction regs generalizing before with
  | nil =>
      obtain ⟨-, rfl⟩ := pure_ok_iff.mp run
      exact .refl _
  | cons reg rest inductionHypothesis =>
      obtain ⟨_, between, popped, others⟩ := bind_ok_iff.mp run
      rw [List.length_cons] at deep
      have first := @pop_rises permitted _ _ _ _ (volatile reg (by simp)) (by omega) popped
      have fewer := first.pushed
      have later := inductionHypothesis (fun other member => volatile other (by simp [member]))
        (by omega) others
      have both := first.trans later
      rwa [show -1 + -(rest.length : Int) = -((reg :: rest).length : Int) by
        simp only [List.length_cons]; omega] at both

theorem volatile_of_live
    (pool : Pool) :
    ∀ reg ∈ pool.live, reg ∈ Reg.volatilePool :=
  fun _ member => (List.mem_filter.mp member).1

theorem noPointer_of_live
    (pool : Pool) :
    ∀ reg ∈ pool.live, reg ≠ .rsp ∧ reg ≠ .rbp := by
  intro reg member
  have volatile := volatile_of_live pool reg member
  constructor <;> (rintro rfl; exact absurd volatile (by decide))

theorem restoreLive_rises
    {saved : Saved}
    (volatile : ∀ reg ∈ saved.regs, reg ∈ Reg.volatilePool)
    (deep : saved.words ≤ before.frame.pushed)
    (run : restoreLive saved before = .ok (done, after)) :
    Rises permitted (-saved.words) before after := by
  unfold restoreLive at run
  unfold Saved.words at deep ⊢
  have pops : ∀ {start : FunctionCode}, saved.regs.length ≤ start.frame.pushed →
      (saved.regs.reverse.forM fun reg => do ins (.pop reg); countPushed (· - 1) : Emit Unit)
        start = .ok (done, after) → Rises permitted (-saved.regs.length) start after := by
    intro start enough popped
    have rises := @forM_pop_rises permitted _ _ _ _
      (fun reg member => volatile reg (by simpa using member)) (by simpa using enough) popped
    rwa [List.length_reverse] at rises
  cases padded : saved.padded with
  | true =>
      simp only [padded, ↓reduceIte] at run deep ⊢
      rw [← bind_assoc] at run
      obtain ⟨_, between, dropped, popped⟩ := bind_ok_iff.mp run
      have first : Rises permitted (-(1 : Nat)) before between := drop_rises (by omega) dropped
      have fewer := first.pushed
      have both := first.trans (pops (by omega) popped)
      rwa [show -((1 : Nat) : Int) + -(saved.regs.length : Int) =
        -((saved.regs.length + 1 : Nat) : Int) by omega] at both
  | false =>
      simp only [padded, Bool.false_eq_true, ↓reduceIte] at run deep ⊢
      simpa using pops (by omega) run

/-- An operand that is loaded into a passing register, if it is, lies in the frame behind that. -/
theorem settle_rises
    {scratch : Reg}
    (passing : isPassing scratch)
    {mustMove : Bool}
    {operand settled : Operand}
    (reaches : before.Reaches operand)
    (run : settle scratch mustMove operand before = .ok (settled, after)) :
    Rises permitted 0 before after ∧ after.Reaches settled := by
  unfold settle at run
  split at run
  · obtain ⟨_, _, moved, returned⟩ := bind_ok_iff.mp run
    obtain ⟨rfl, rfl⟩ := pure_ok_iff.mp returned
    exact ⟨moveInto_rises (.inl passing) reaches moved, trivial⟩
  · obtain ⟨rfl, rfl⟩ := pure_ok_iff.mp run
    exact ⟨.refl _, reaches⟩

variable
    {listing : Listing}

theorem pushArguments_rises
    {depth : Nat}
    {ids : List VarId}
    (each : ∀ id ∈ ids, Respects (Rises permitted 0) (resolve listing depth id Reg.sourceIndex))
    (run : pushArguments listing depth ids before = .ok (done, after)) :
    Rises permitted ids.length before after := by
  induction ids generalizing before with
  | nil =>
      obtain ⟨-, rfl⟩ := pure_ok_iff.mp run
      exact .refl _
  | cons id rest inductionHypothesis =>
      obtain ⟨_, between, one, others⟩ := bind_ok_iff.mp run
      simp only [bind_ok_iff] at one
      obtain ⟨operand, resolved, isResolved, settled, middle, isSettled, pushed⟩ := one
      obtain ⟨settles, reaches⟩ :=
        @settle_rises permitted _ _ _ (.inl rfl) _ _ _ (resolve_reaches isResolved) isSettled
      have first := (each id (by simp) isResolved).still settles
      have later := inductionHypothesis (fun other member => each other (by simp [member])) others
      have both := (first.trans (push_rises reaches pushed)).trans later
      rwa [show 0 + 1 + (rest.length : Int) = ((id :: rest).length : Int) by
        simp only [List.length_cons]; omega] at both

/--
A call stands at an even level, with what is passed to it on the stack, and leaves the level as it
was.
-/
theorem call_rises
    {passed : Nat}
    {saved : Saved}
    {first second third fourth : FunctionCode}
    (known : name = PrintFormat.routine ∨
      ∃ call, permitted.calls call ∧ call.name = name ∧ call.arguments.length = passed)
    (saves : saveLive passed before = .ok (saved, first))
    (pushRises : Rises permitted passed first second)
    (jumps : ins (.call name) second = .ok ((), third))
    (drops : dropArguments passed third = .ok ((), fourth))
    (restores : restoreLive saved fourth = .ok ((), after)) :
    Rises permitted 0 before after := by
  obtain ⟨isLive, _, even, saveRises⟩ := @saveLive_rises permitted _ _ _ _ saves
  have savedPushed := saveRises.pushed
  have argumentsPushed := pushRises.pushed
  cases ins_ok_iff.mp jumps
  have callRises : Rises permitted 0 second
      { second with body := second.body.add (.call name) } := by
    refine rises_still (fun _ => ?_) ⟨.call _, ?_, ?_, nofun, ?_⟩
    · simp only [Line.level?, ite_eq_left_iff, reduceCtorEq, imp_false, Classical.not_not]
      omega
    · simp [Instruction.target?]
    · simp [Instruction.operands]
    · intro other isCall
      cases isCall
      refine known.imp_right ?_
      rintro ⟨call, isPermitted, named, isPassed⟩
      exact ⟨call, isPermitted, named, by omega⟩
  have dropRises := @dropArguments_rises permitted _ _ _ _
    (by show _ ≤ second.frame.pushed; omega) drops
  have droppedPushed := dropRises.pushed
  have callPushed := callRises.pushed
  have restoreRises := @restoreLive_rises permitted _ _ _ _
    (fun reg member => volatile_of_live _ reg (isLive ▸ member)) (by omega) restores
  have whole := (((saveRises.trans pushRises).trans callRises).trans dropRises).trans restoreRises
  rwa [show (saved.words : Int) + (passed : Int) + 0 + -passed + -saved.words = 0 by omega] at whole

/-- Resolving operands leaves the level of the stack as it is. -/
theorem law_rises
    (pending : listing.Pends permitted) :
    Law listing permitted.calls (Rises permitted 0) where
  refl := Rises.refl
  trans := fun _ _ _ => Rises.still
  slot := fun code id room => ⟨.single (.slot code id room), by simp, List.Subset.refl _, rfl⟩
  load := fun passing reaches moved => moveInto_rises (.inl passing) reaches moved
  fill := fun earlier _ reaches taken moved => earlier.still (fill_rises reaches taken moved)
  pending := fun found storage => pending _ _ _ _ found storage
  call := fun {depth call saved before} _ _ _ _ _ isPermitted each saves pushes jumps drops
      restores => by
    have counts : Rises permitted 0 before { before with calls := before.calls ++ [call.id] } :=
      ⟨.single (.note before call.id), by simp, List.Subset.refl _, rfl⟩
    have pushRises := pushArguments_rises (fun id member => each id (by simpa using member)) pushes
    rw [List.length_reverse] at pushRises
    exact counts.still
      (call_rises (.inr ⟨call, isPermitted, rfl, rfl⟩) saves pushRises jumps drops restores)

end Emit

end IlsCompiler
