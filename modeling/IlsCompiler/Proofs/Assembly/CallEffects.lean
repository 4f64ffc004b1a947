import IlsCompiler.Proofs.Assembly.NodeLevels
import IlsCompiler.Proofs.Assembly.SavedRegisters

namespace IlsCompiler

/-!
# What calls leave alone

Each step of making code adds instructions. What those do to the registers that temporaries
hold, to the stack and to the memory above it follows the recursion by which operands are found:
a call saves what it would overwrite, and the code of its arguments keeps to the same rule.
-/

/-- The pools that come about when registers are handed out and taken back. -/
inductive Pool.Arises : Pool → Prop
  | full : Arises .full
  | assign {pool taken : Pool} {id : VarId} {mustSurvive : Bool} {reg : Reg} :
      Arises pool → pool.assign id mustSurvive = .ok (taken, reg) → Arises taken
  | release {pool : Pool} (id : VarId) : Arises pool → Arises (pool.release id)

theorem Pool.Arises.sound
    {pool : Pool}
    (arises : pool.Arises) :
    pool.Sound := by
  induction arises with
  | full => exact sound_full
  | assign _ assigned inductionHypothesis => exact inductionHypothesis.assign assigned
  | release id _ inductionHypothesis => exact inductionHypothesis.release id

variable
    {reg : Reg}

namespace Pool

variable
    {pool : Pool}

/-- A register that is held is live or survives calls. -/
theorem mem_live_of_held
    (sound : pool.Sound)
    (held : reg ∈ pool.heldRegs) :
    reg ∈ pool.live ∨ reg ∉ Reg.callerSaved := by
  obtain ⟨entry, member, rfl⟩ := List.mem_map.mp held
  have pooled := sound.mem_pooled member
  have owned : (pool.owner? entry.2).isSome := by
    simp only [owner?, Option.isSome_map, List.find?_isSome]
    exact ⟨entry, member, by simp⟩
  rcases List.mem_append.mp pooled with isVolatile | isPreserved
  · exact .inl (List.mem_filter.mpr ⟨isVolatile, owned⟩)
  · right
    revert isPreserved
    generalize entry.2 = reg
    cases reg <;> decide

theorem notHeld_of_passing
    (sound : pool.Sound)
    (passing : Emit.isPassing reg) :
    reg ∉ pool.heldRegs := by
  intro held
  obtain ⟨entry, member, rfl⟩ := List.mem_map.mp held
  have pooled := sound.mem_pooled member
  rcases passing with isReg | isReg | isReg <;> exact absurd (isReg ▸ pooled) (by decide)

/-- A register that is handed out to a temporary without one is held by no other. -/
theorem notHeld_of_assign
    {earlier taken : Pool}
    {id : VarId}
    {mustSurvive : Bool}
    (sound : pool.Sound)
    (grows : earlier.held ⊆ pool.held)
    (free : earlier.held? id = none)
    (assigned : pool.assign id mustSurvive = .ok (taken, reg)) :
    taken.Sound ∧ pool.held ⊆ taken.held ∧ reg ∉ earlier.heldRegs := by
  cases held : pool.held? id with
  | none =>
      obtain ⟨takenSound, takenHeld, _, unheld⟩ := sound.assign_free held assigned
      refine ⟨takenSound, fun entry member => by simp [takenHeld, member], fun isHeld => ?_⟩
      exact unheld (List.map_subset _ grows isHeld)
  | some known =>
      rw [assign, held] at assigned
      cases assigned
      refine ⟨sound, fun _ member => member, fun isHeld => ?_⟩
      -- The temporary came to its register in between, so no one held that register before.
      obtain ⟨entry, member, isReg⟩ := List.mem_map.mp isHeld
      have now := mem_held_of_held? held
      have distinct : pool.heldRegs.Nodup := (List.nodup_append.mp sound.nodup).2.1
      have same : entry = (id, reg) :=
        List.inj_on_of_nodup_map distinct (grows member) now isReg
      refine not_owner_of_held? free (List.mem_map.mpr ⟨entry, member, ?_⟩)
      rw [same]

end Pool

variable
    {passed : Nat}
    {instruction : Instruction}
    {name : String}

namespace FunctionCode

/--
A step pushes a number of words and spares what temporaries hold: it adds instructions that do,
wherever they run.
-/
structure Lowered (words : Nat) (before after : FunctionCode) : Prop where
  sound : after.pool.Sound
  grows : before.pool.held ⊆ after.pool.held
  issued : ∃ issued : List Issue,
    after.body = before.body.addAll (issued.map Issue.instruction) ∧
      (∀ issue ∈ issued, ∀ reg source, issue.instruction = .mov (.whole reg) source →
        reg ∉ before.pool.heldRegs) ∧
      ∀ link : Linkage, link.Keeps → ∀ cpu,
        ∃ later, Issue.run link issued cpu = some later ∧
          cpu.Spares before.pool.heldRegs words later

/--
The code of a call in a function: instructions up to the call and behind it, of which the former
run up to the call and the latter bring back what was there, and leave the result.
-/
structure Survives (name : String) (passed : Nat)
    (before after : FunctionCode) : Prop where
  sound : after.pool.Sound
  grows : before.pool.held ⊆ after.pool.held
  issued : ∃ front back : List Issue,
    after.body = before.body.addAll
        ((front ++ ⟨.call name, passed⟩ :: back).map Issue.instruction) ∧
      (∀ issue ∈ front ++ ⟨.call name, passed⟩ :: back, ∀ reg source,
        issue.instruction = .mov (.whole reg) source → reg ∉ before.pool.heldRegs) ∧
      ∀ link : Linkage, link.Keeps → ∀ cpu,
        ∃ atCall later,
          Issue.run link front cpu = some atCall ∧
            Issue.run link back (link.routine name passed atCall) = some later ∧
            cpu.Spares before.pool.heldRegs 0 later ∧
            later.regs .rax = (link.routine name passed atCall).regs .rax

/-- The relation that steps keep whose pool is sound. -/
def Lowers (words : Nat) (before after : FunctionCode) : Prop :=
  before.pool.Sound → Lowered words before after

namespace Lowers

variable
    {first second third : FunctionCode}

theorem of_same
    (body : second.body = first.body)
    (pool : second.pool = first.pool) :
    Lowers 0 first second := by
  intro sound
  refine ⟨pool ▸ sound, by rw [pool]; exact List.Subset.refl _, [], body, by simp, ?_⟩
  intro link _ cpu
  exact ⟨cpu, rfl, .refl _ cpu⟩

theorem trans
    {words more : Nat}
    (earlier : Lowers words first second)
    (later : Lowers more second third) :
    Lowers (words + more) first third := by
  intro sound
  obtain ⟨soundBetween, growsFirst, issuedFirst, bodyFirst, movesFirst, runsFirst⟩ := earlier sound
  obtain ⟨soundEnd, growsSecond, issuedSecond, bodySecond, movesSecond, runsSecond⟩ :=
    later soundBetween
  have heldFirst : first.pool.heldRegs ⊆ second.pool.heldRegs := List.map_subset _ growsFirst
  refine ⟨soundEnd, List.Subset.trans growsFirst growsSecond, issuedFirst ++ issuedSecond, ?_, ?_,
    ?_⟩
  · rw [bodySecond, bodyFirst, List.map_append, Body.addAll_append]
  · intro issue member reg source isMove
    rcases List.mem_append.mp member with isFirst | isSecond
    · exact movesFirst issue isFirst reg source isMove
    · exact fun held => movesSecond issue isSecond reg source isMove (heldFirst held)
  · intro link keeps cpu
    obtain ⟨between, runBetween, sparesFirst⟩ := runsFirst link keeps cpu
    obtain ⟨final, runFinal, sparesSecond⟩ := runsSecond link keeps between
    refine ⟨final, ?_, sparesFirst.trans (sparesSecond.mono heldFirst)⟩
    rw [Issue.run_append_of_run runBetween, runFinal]

/-- One instruction that spares what is held. -/
theorem of_issue
    {words : Nat}
    (body : second.body = first.body.add instruction)
    (pool : second.pool = first.pool)
    (moves : first.pool.Sound → ∀ reg source, instruction = .mov (.whole reg) source →
      reg ∉ first.pool.heldRegs)
    (effect : first.pool.Sound → ∀ link cpu,
      ∃ later, (Issue.plain instruction).execute link cpu = some later ∧
        cpu.Spares first.pool.heldRegs words later) :
    Lowers words first second := by
  intro sound
  refine ⟨pool ▸ sound, by rw [pool]; exact List.Subset.refl _, [.plain instruction], body, ?_, ?_⟩
  · intro issue member reg source isMove
    cases List.mem_singleton.mp member
    exact moves sound reg source isMove
  · intro link _ cpu
    obtain ⟨later, executed, spares⟩ := effect sound link cpu
    exact ⟨later, by rw [Issue.run, executed]; rfl, spares⟩

end Lowers

/-- What survives a call is spared by its code as a whole. -/
theorem Survives.lowered
    {before after : FunctionCode}
    (survives : Survives name passed before after) :
    Lowered 0 before after := by
  obtain ⟨front, back, body, moves, runs⟩ := survives.issued
  refine ⟨survives.sound, survives.grows, _, body, moves, fun link keeps cpu => ?_⟩
  obtain ⟨atCall, later, runFront, runBack, spares, _⟩ := runs link keeps cpu
  refine ⟨later, ?_, spares⟩
  rw [Issue.run_append_of_run runFront, Issue.run, ← runBack]
  rfl

end FunctionCode

namespace Emit

open Stateful FunctionCode

variable
    {listing : Listing}
    {before after : FunctionCode}
    {source : Operand}

/-- The instructions that load a register write that register. -/
theorem execute_moveInto
    (noPointer : reg ≠ .rsp ∧ reg ≠ .rbp)
    (member : instruction ∈ [.mov (.whole reg) source, .movsxd reg source, .movzx reg source])
    (link : Linkage)
    (cpu : Cpu) :
    ∃ word, (Issue.plain instruction).execute link cpu = some (cpu.set reg word) := by
  simp only [List.mem_cons, List.not_mem_nil, or_false] at member
  rcases member with rfl | rfl | rfl <;>
    exact ⟨_, by simp [Issue.plain, Issue.execute, Operand.whole, Cpu.put, noPointer]; rfl⟩

/-- A register that no temporary holds may be loaded. -/
theorem moveInto_lowers
    (noPointer : before.pool.Sound → reg ≠ .rsp ∧ reg ≠ .rbp)
    (unheld : before.pool.Sound → reg ∉ before.pool.heldRegs)
    (run : moveInto reg source before = .ok ((), after)) :
    Lowers 0 before after := by
  rcases moveInto_cases run with rfl | ⟨instruction, member, rfl⟩
  · exact .of_same rfl rfl
  · refine .of_issue rfl rfl ?_ ?_
    · rintro sound other otherSource rfl
      obtain ⟨rfl, -⟩ : other = reg ∧ otherSource = source := by
        simpa [Operand.whole] using member
      exact unheld sound
    · intro sound link cpu
      obtain ⟨word, executed⟩ := execute_moveInto (noPointer sound) member link cpu
      exact ⟨_, executed, .set (unheld sound) cpu word⟩

theorem moveInto_passing_lowers
    (passing : isPassing reg)
    (source : Operand) :
    Respects (Lowers 0) (moveInto reg source) :=
  fun _ _ _ run => moveInto_lowers (fun _ => noPointer_of_passing passing)
    (fun sound => Pool.notHeld_of_passing sound passing) run

/-- A temporary that held no register gets one that no other holds, and is loaded. -/
theorem fill_lowers
    {middle between : FunctionCode}
    {v : Variable}
    (earlier : Lowers 0 before middle)
    (free : before.pool.held? v.id = none)
    (taken : takeRegister name v middle = .ok (reg, between))
    (moved : moveInto reg source between = .ok ((), after)) :
    Lowers 0 before after := by
  obtain ⟨pool, assigned, rfl⟩ := takeRegister_ok taken
  intro sound
  obtain ⟨soundMiddle, grows, issued, body, moves, runs⟩ := earlier sound
  obtain ⟨soundTaken, growsTaken, unheld⟩ :=
    Pool.notHeld_of_assign soundMiddle grows free assigned
  have noPointer := soundTaken.noPointer (Pool.held_of_assign assigned).1
  rcases moveInto_cases moved with rfl | ⟨instruction, member, rfl⟩
  · exact ⟨soundTaken, List.Subset.trans grows growsTaken, issued, body, moves, runs⟩
  · refine ⟨soundTaken, List.Subset.trans grows growsTaken, issued ++ [.plain instruction], ?_, ?_,
      ?_⟩
    · rw [List.map_append, Body.addAll_append, ← body]
      rfl
    · intro issue isIssued other otherSource isMove
      rcases List.mem_append.mp isIssued with old | new
      · exact moves issue old other otherSource isMove
      · cases List.mem_singleton.mp new
        cases (isMove : instruction = _)
        obtain ⟨rfl, -⟩ : other = reg ∧ otherSource = source := by
          simpa [Operand.whole] using member
        exact unheld
    · intro link keeps cpu
      obtain ⟨later, runLater, spares⟩ := runs link keeps cpu
      obtain ⟨word, executed⟩ := execute_moveInto noPointer member link later
      refine ⟨_, ?_, spares.trans (.set unheld later word)⟩
      rw [Issue.run_append_of_run runLater, Issue.run, executed]
      rfl

theorem push_lowers
    (operand : Operand) :
    Respects (Lowers 1) (push operand) := by
  intro before done after run
  unfold push countPushed at run
  simp only [bind_ok_iff, modify_ok_iff] at run
  obtain ⟨_, _, added, rfl⟩ := run
  cases ins_ok_iff.mp added
  refine .of_issue rfl rfl (fun _ _ _ isMove => by cases isMove) ?_
  intro _ link cpu
  exact ⟨_, rfl, .push _ cpu _⟩

theorem settle_lowers
    (mustMove : Bool)
    (operand : Operand) :
    Respects (Lowers 0) (settle Reg.returned mustMove operand) := by
  unfold settle
  split
  · exact respects_bind (fun _ _ _ earlier later => earlier.trans later)
      (moveInto_passing_lowers (.inl rfl) operand) fun _ =>
        respects_pure (fun _ => .of_same rfl rfl) _
  · exact respects_pure (fun _ => .of_same rfl rfl) _

theorem pushArguments_lowers
    {depth : Nat}
    {ids : List VarId}
    (each : ∀ id ∈ ids, Respects (Lowers 0) (resolve listing depth id Reg.sourceIndex))
    (run : pushArguments listing depth ids before = .ok ((), after)) :
    Lowers ids.length before after := by
  induction ids generalizing before with
  | nil =>
      obtain ⟨-, rfl⟩ := pure_ok_iff.mp run
      exact .of_same rfl rfl
  | cons id rest inductionHypothesis =>
      obtain ⟨_, between, one, others⟩ := bind_ok_iff.mp run
      simp only [bind_ok_iff] at one
      obtain ⟨operand, resolved, isResolved, settled, middle, isSettled, pushed⟩ := one
      have first := (each id (by simp) isResolved).trans (settle_lowers _ _ isSettled)
      have later := inductionHypothesis (fun other member => each other (by simp [member])) others
      have both := (first.trans (push_lowers _ pushed)).trans later
      rwa [show 0 + 0 + 1 + rest.length = (id :: rest).length by
        simp only [List.length_cons]; omega] at both

/-- The instructions of a step that only counts besides adding them. -/
def Adds (issued : List Issue) (before after : FunctionCode) : Prop :=
  after.body = before.body.addAll (issued.map Issue.instruction) ∧ after.pool = before.pool

theorem Adds.trans
    {first second : List Issue}
    {between : FunctionCode}
    (earlier : Adds first before between)
    (later : Adds second between after) :
    Adds (first ++ second) before after :=
  ⟨by rw [later.1, earlier.1, List.map_append, Body.addAll_append], later.2.trans earlier.2⟩

variable
    {done : Unit}
    {change : Nat → Nat}

theorem adds_counted
    (run : (do ins instruction; countPushed change : Emit Unit) before = .ok (done, after)) :
    Adds [.plain instruction] before after := by
  unfold countPushed at run
  simp only [bind_ok_iff, modify_ok_iff] at run
  obtain ⟨_, _, added, rfl⟩ := run
  cases ins_ok_iff.mp added
  exact ⟨rfl, rfl⟩

theorem adds_forM
    {regs : List Reg}
    {each : Reg → Instruction}
    (run : (regs.forM fun reg => do ins (each reg); countPushed change : Emit Unit) before =
      .ok (done, after)) :
    Adds (regs.map fun reg => .plain (each reg)) before after := by
  induction regs generalizing before with
  | nil =>
      obtain ⟨-, rfl⟩ := pure_ok_iff.mp run
      exact ⟨rfl, rfl⟩
  | cons reg rest inductionHypothesis =>
      obtain ⟨_, between, one, others⟩ := bind_ok_iff.mp run
      exact (adds_counted one).trans (inductionHypothesis others)

variable
    {saved : Saved}

theorem saveLive_adds
    (run : saveLive passed before = .ok (saved, after)) :
    Adds saved.pushes before after := by
  unfold saveLive at run
  obtain ⟨_, _, got, later⟩ := bind_ok_iff.mp run
  obtain ⟨rfl, rfl⟩ := get_ok_iff.mp got
  obtain ⟨_, middle, pushes, later⟩ := bind_ok_iff.mp later
  obtain ⟨_, _, gotAgain, later⟩ := bind_ok_iff.mp later
  obtain ⟨rfl, rfl⟩ := get_ok_iff.mp gotAgain
  have live := adds_forM pushes
  split at later
  · obtain ⟨rfl, rfl⟩ := pure_ok_iff.mp later
    simpa [Saved.pushes] using live
  · rw [← bind_assoc] at later
    obtain ⟨_, padded, pads, returned⟩ := bind_ok_iff.mp later
    obtain ⟨rfl, rfl⟩ := pure_ok_iff.mp returned
    exact live.trans (adds_counted pads)

/-- The instructions that drop what was passed on the stack. -/
def dropping (passed : Nat) : List Issue :=
  if passed ≠ 0 then
    [.plain (.add (.whole .rsp) (.number (StackFrame.slotSize * passed)))]
  else
    []

theorem dropArguments_adds
    (run : dropArguments passed before = .ok (done, after)) :
    Adds (dropping passed) before after := by
  unfold dropArguments at run
  unfold dropping
  by_cases some_ : passed ≠ 0
  · rw [if_pos some_] at run ⊢
    exact adds_counted run
  · rw [if_neg some_] at run ⊢
    obtain ⟨-, rfl⟩ := pure_ok_iff.mp run
    exact ⟨rfl, rfl⟩

theorem run_dropping
    (link : Linkage)
    (passed : Nat)
    (cpu : Cpu) :
    Issue.run link (dropping passed) cpu = some { cpu with top := cpu.top + 8 * passed } := by
  unfold dropping
  split
  · rw [Issue.run, Issue.execute_add, Option.bind_some]
    rfl
  next none_ =>
    obtain rfl : passed = 0 := by simpa using none_
    simp [Issue.run]

theorem restoreLive_adds
    (run : restoreLive saved before = .ok (done, after)) :
    Adds saved.pops before after := by
  unfold restoreLive at run
  unfold Saved.pops
  cases padded : saved.padded with
  | true =>
      simp only [padded, ↓reduceIte] at run ⊢
      rw [← bind_assoc] at run
      obtain ⟨_, between, dropped, popped⟩ := bind_ok_iff.mp run
      exact (adds_counted dropped).trans (adds_forM popped)
  | false =>
      simp only [padded, Bool.false_eq_true, ↓reduceIte] at run ⊢
      exact adds_forM run

theorem noMove_of_saving
    {saved : Saved}
    {passed : Nat}
    {issue : Issue}
    (member : issue ∈ saved.pushes ∨ issue ∈ dropping passed ∨ issue ∈ saved.pops)
    (target source : Operand) :
    issue.instruction ≠ .mov target source := by
  intro isMove
  rcases member with pushed | dropped | popped
  · simp only [Saved.pushes, List.mem_append, List.mem_map] at pushed
    rcases pushed with ⟨reg, _, rfl⟩ | pads
    · cases isMove
    · split at pads
      · cases List.mem_singleton.mp pads
        cases isMove
      · cases pads
  · unfold dropping at dropped
    split at dropped
    · cases List.mem_singleton.mp dropped
      cases isMove
    · cases dropped
  · simp only [Saved.pops, List.mem_append, List.mem_map] at popped
    rcases popped with pads | ⟨reg, _, rfl⟩
    · split at pads
      · cases List.mem_singleton.mp pads
        cases isMove
      · cases pads
    · cases isMove

variable
    {first second third fourth : FunctionCode}

/-- The instructions of a call, from the first that saves a register to the last that takes one back. -/
theorem call_body
    {issued : List Issue}
    (saves : saveLive passed before = .ok (saved, first))
    (passes : second.body = first.body.addAll (issued.map Issue.instruction))
    (jumps : ins (.call name) second = .ok ((), third))
    (drops : dropArguments passed third = .ok ((), fourth))
    (restores : restoreLive saved fourth = .ok ((), after)) :
    after.body = before.body.addAll
      ((saved.pushes ++ issued ++ ⟨.call name, passed⟩ :: (dropping passed ++ saved.pops)).map
        Issue.instruction) := by
  obtain ⟨firstBody, _⟩ := saveLive_adds saves
  cases ins_ok_iff.mp jumps
  obtain ⟨fourthBody, _⟩ := dropArguments_adds drops
  obtain ⟨afterBody, _⟩ := restoreLive_adds restores
  rw [afterBody, fourthBody, passes, firstBody]
  simp only [List.map_append, List.map_cons, Body.addAll_append]
  rw [← Body.addAll_append]
  rfl

/--
Registers are saved, something is passed, a routine is called, what was passed is dropped and
the registers are taken back: what temporaries hold is as before and the result is there.
-/
theorem call_survives
    (sound : before.pool.Sound)
    (saves : saveLive passed before = .ok (saved, first))
    (passes : Lowers passed first second)
    (jumps : ins (.call name) second = .ok ((), third))
    (drops : dropArguments passed third = .ok ((), fourth))
    (restores : restoreLive saved fourth = .ok ((), after)) :
    Survives name passed before after := by
  have isLive := (@saveLive_rises .everything _ _ _ _ saves).1
  have firstPool := (saveLive_adds saves).2
  obtain ⟨soundSecond, grows, issued, secondBody, moves, runs⟩ := passes (firstPool ▸ sound)
  rw [firstPool] at grows moves runs
  have samePool : after.pool = second.pool := by
    rw [(restoreLive_adds restores).2, (dropArguments_adds drops).2, ins_ok_iff.mp jumps]
  refine ⟨samePool ▸ soundSecond, by rw [samePool]; exact grows, saved.pushes ++ issued,
    dropping passed ++ saved.pops, call_body saves secondBody jumps drops restores, ?_, ?_⟩
  · intro issue member reg source isMove
    simp only [List.mem_append, List.mem_cons] at member
    rcases member with (pushed | passing) | rfl | dropped | popped
    · exact (@noMove_of_saving saved passed _ (.inl pushed) _ _ isMove).elim
    · exact moves issue passing reg source isMove
    · cases isMove
    · exact (@noMove_of_saving saved passed _ (.inr (.inl dropped)) _ _ isMove).elim
    · exact (@noMove_of_saving saved passed _ (.inr (.inr popped)) _ _ isMove).elim
  · intro link keeps cpu
    obtain ⟨onStack, runPushes, sameRegs, saving, holds⟩ := Issue.run_pushes link saved cpu
    obtain ⟨atCall, runPassing, passing⟩ := runs link keeps onStack
    have returned := keeps.memory name passed atCall
    have unchanged : ∀ place, onStack.top ≤ place →
        (link.routine name passed atCall).memory place = onStack.memory place := by
      intro place above
      rw [returned place (by rw [passing.top]; omega), passing.memory place above]
    have stillThere := holds.congr fun place above _ =>
      unchanged place (by split at above <;> omega)
    have topAtCall := keeps.top name passed atCall
    have topPassing := passing.top
    have topSaving := saving.top
    obtain ⟨later, runPops, topLater, baseLater, memoryLater, restored, kept⟩ :=
      @Issue.run_pops link saved (fun reg member => noPointer_of_live _ reg (isLive ▸ member))
        cpu.regs { link.routine name passed atCall with
          top := (link.routine name passed atCall).top + 8 * passed } (by
        show Memory.Holds _ ((link.routine name passed atCall).top + 8 * passed + _) _
        rw [topAtCall, topPassing, Int.sub_add_cancel]
        exact stillThere)
    refine ⟨atCall, later, ?_, ?_, ⟨?_, ?_, ?_, ?_⟩, ?_⟩
    · rw [Issue.run_append_of_run runPushes, runPassing]
    · rw [Issue.run_append_of_run (run_dropping link passed _), runPops]
    · rw [topLater]
      show (link.routine name passed atCall).top + 8 * passed + 8 * saved.words = _
      omega
    · rw [baseLater]
      exact (keeps.base name passed atCall).trans (passing.base.trans saving.base)
    · intro reg held
      by_cases isSaved : reg ∈ saved.regs
      · exact restored reg isSaved
      · have survives : reg ∉ Reg.callerSaved :=
          (Pool.mem_live_of_held sound held).resolve_left (isLive ▸ isSaved)
        rw [kept reg isSaved]
        show (link.routine name passed atCall).regs reg = _
        rw [keeps.regs name passed atCall reg survives, passing.regs reg held, sameRegs]
    · intro place above
      rw [memoryLater]
      show (link.routine name passed atCall).memory place = _
      rw [unchanged place (by omega), saving.memory place above]
    · have free : Reg.rax ∉ saved.regs := by
        rw [isLive]
        intro member
        exact absurd (List.mem_filter.mp member).1 (by decide)
      rw [kept .rax free]

/-- Finding operands spares what temporaries hold. -/
theorem law_lowers
    (listing : Listing) :
    Law listing (fun _ => True) (Lowers 0) where
  refl := fun _ => .of_same rfl rfl
  trans := fun _ _ _ earlier later => earlier.trans later
  slot := fun _ _ _ => .of_same rfl rfl
  load := fun passing _ moved => moveInto_passing_lowers passing _ moved
  fill := fun earlier free _ taken moved => fill_lowers earlier free taken moved
  pending := fun _ _ => trivial
  call := by
    intro depth call saved before first second third fourth after _ each saves pushes jumps drops
      restores sound
    have passes := pushArguments_lowers (fun id member => each id (by simpa using member)) pushes
    rw [List.length_reverse] at passes
    have survives : Survives call.name call.arguments.length
        { before with calls := before.calls ++ [call.id] } after :=
      call_survives sound saves passes jumps drops restores
    exact ⟨survives.sound, survives.grows, survives.lowered.issued⟩

end Emit

/-!
## Temporaries survive calls

The lines of a call, from the first that saves a register to the last that takes one back, leave
every register that a temporary holds as it was, whatever the called routine does within the
calling convention. The result of the routine stays in its register.
-/

/-- Routines that return at once. -/
def Linkage.idle : Linkage :=
  { address := fun _ => 0, routine := fun _ _ cpu => cpu }

theorem Linkage.idle_keeps :
    idle.Keeps :=
  ⟨fun _ _ _ => rfl, fun _ _ _ => rfl, fun _ _ _ _ _ => rfl, fun _ _ _ _ _ => rfl⟩

/-- A processor with nothing in it. -/
def Cpu.zero : Cpu :=
  { top := 0, base := 0, regs := fun _ => 0, memory := fun _ => 0 }

namespace Emit

open Stateful FunctionCode

/--
The code of a call is made: of a function that was not called for this result before, with a
number of words passed on the stack, or of the routine that prints.
-/
inductive CallMade (listing : Listing) (before after : FunctionCode) : String → Nat → Prop
  | function {depth : Nat} {call : Call} :
      call.id ∉ before.calls → userCall listing depth call before = .ok ((), after) →
        CallMade listing before after call.name call.arguments.length
  | print {argument : Variable} {newline : Bool} :
      print listing argument newline before = .ok ((), after) →
        CallMade listing before after PrintFormat.routine 0

variable
    {listing : Listing}
    {before after : FunctionCode}
    {name : String}
    {passed : Nat}

theorem passFormat_lowers
    (format : String)
    (argument : VarId) :
    Respects (Lowers 0) (passFormat listing format argument) := by
  intro before done after run
  simp only [passFormat, bind_ok_iff] at run
  obtain ⟨_, first, moved, _, second, loaded, cleared⟩ := run
  obtain ⟨source, _, resolved, passes⟩ := bind_ok_iff.mp loaded
  have formats : Lowers 0 before first :=
    moveInto_passing_lowers (.inr (.inr rfl)) (.immediate format) moved
  have resolves := ((law_lowers listing).resolution _).1 _ _ (.inr (.inl rfl)) resolved
  have loads := resolves.trans (moveInto_passing_lowers (.inr (.inl rfl)) source passes)
  cases ins_ok_iff.mp cleared
  have clears : Lowers 0 second
      { second with body := second.body.add (.xor (.whole .rax) (.whole .rax)) } := by
    refine .of_issue rfl rfl (fun _ _ _ isMove => by cases isMove) fun sound link cpu => ?_
    exact ⟨_, rfl, .set (Pool.notHeld_of_passing sound (.inl rfl)) cpu _⟩
  exact (formats.trans loads).trans clears

theorem CallMade.pushed
    (made : CallMade listing before after name passed) :
    after.frame.pushed = before.frame.pushed := by
  have rises : Rises .everything 0 before after := by
    have pending := listing.pends_everything
    cases made with
    | function _ run => exact ((law_rises pending).resolution _).2.2.2.2 _ trivial run
    | print run => exact print_rises pending run
  have same := rises.pushed
  omega

theorem CallMade.survives
    (sound : before.pool.Sound)
    (made : CallMade listing before after name passed) :
    Survives name passed before after := by
  cases made with
  | @function depth call unmade run =>
      rcases userCall_ok run with ⟨again, _⟩ | ⟨_, less, saved, first, second, third, fourth, _,
        saves, pushes, jumps, drops, restores⟩
      · exact (unmade again).elim
      · have passes := pushArguments_lowers
          (fun id _ => ((law_lowers listing).resolution less).1 id _ (.inr (.inl rfl))) pushes
        rw [List.length_reverse] at passes
        have survives : Survives call.name call.arguments.length
            { before with calls := before.calls ++ [call.id] } after :=
          call_survives sound saves passes jumps drops restores
        exact ⟨survives.sound, survives.grows, survives.issued⟩
  | print run =>
      obtain ⟨format, saved, first, second, third, _, saves, passes, jumps, restores⟩ :=
        print_ok run
      exact call_survives sound saves (passFormat_lowers _ _ passes) jumps rfl restores

/--
The lines in front of a call stay, but for a last one that moves something to a register that no
temporary holds, where the first instruction of the call overwrites that register.
-/
theorem kept_of_moves
    {first : Issue}
    {rest : List Issue}
    (moves : ∀ issue ∈ first :: rest, ∀ reg source,
      issue.instruction = .mov (.whole reg) source → reg ∉ before.pool.heldRegs)
    {link : Linkage}
    {cpu later : Cpu}
    (runs : Issue.run link (first :: rest) cpu = some later) :
    before.body.keptFor first.instruction = before.body.lines.toList ∨
      ∃ last, ∃ reg ∉ before.pool.heldRegs,
        before.body.lines.toList = before.body.keptFor first.instruction ++ [last] ∧
          last.target? = some reg.name := by
  rcases before.body.keptFor_cases first.instruction with same | ⟨last, dropped, redundant⟩
  · exact .inl same
  · obtain ⟨between, executed, -⟩ := Option.bind_eq_some_iff.mp runs
    obtain ⟨_, start⟩ := Instruction.start_of_redundant redundant
    obtain ⟨target, source, isMove⟩ :=
      Instruction.isMove_of_start (Issue.known_of_execute executed) start
    obtain ⟨instruction, count⟩ := first
    subst isMove
    obtain ⟨reg, rfl, _, _⟩ := Issue.execute_mov executed
    refine .inr ⟨last, reg, moves _ List.mem_cons_self reg source rfl, dropped, ?_⟩
    rw [← (Move.target?_of_isRedundant redundant).2]
    simp [Line.target?, Move.withoutTab_text, Instruction.parse?_mov_whole]

/--
Registers that temporaries hold, the stack pointer and the number of words counted as pushed are
the same behind the lines of a call as in front of them, and the result of the routine is still
in its register there, for every routine that keeps to the calling convention.
-/
theorem temporaries_survive_call
    (arises : before.pool.Arises)
    (made : CallMade listing before after name passed) :
    after.frame.pushed = before.frame.pushed ∧
      ∃ (kept : List Line) (front back : List Issue),
        after.body.lines.toList =
            kept ++ (front ++ ⟨.call name, passed⟩ :: back).map
              (fun issue => Line.instruction issue.instruction) ∧
          (kept = before.body.lines.toList ∨
            ∃ last, ∃ reg ∉ before.pool.heldRegs,
              before.body.lines.toList = kept ++ [last] ∧ last.target? = some reg.name) ∧
          ∀ link : Linkage, link.Keeps → ∀ cpu,
            ∃ atCall later,
              Issue.run link front cpu = some atCall ∧
                Issue.run link back (link.routine name passed atCall) = some later ∧
                (∀ id reg, before.pool.held? id = some reg → later.regs reg = cpu.regs reg) ∧
                later.top = cpu.top ∧
                later.regs .rax = (link.routine name passed atCall).regs .rax := by
  refine ⟨made.pushed, ?_⟩
  have survives := made.survives arises.sound
  obtain ⟨-, -, issued, -, runsWhole⟩ := survives.lowered
  obtain ⟨front, back, body, moves, runs⟩ := survives.issued
  obtain ⟨first, rest, shape⟩ : ∃ first rest,
      front ++ (⟨.call name, passed⟩ : Issue) :: back = first :: rest :=
    List.exists_cons_of_ne_nil (by simp)
  have lines : after.body.lines.toList =
      before.body.keptFor first.instruction ++
        (Issue.written front ++ ⟨.call name, passed⟩ :: Issue.written back).map
          (fun issue => Line.instruction issue.instruction) := by
    rw [body, shape, List.map_cons, Body.lines_addAll, ← List.map_cons, ← Issue.map_written,
      ← shape, Issue.written_call, List.map_map]
    rfl
  refine ⟨_, Issue.written front, Issue.written back, lines, ?_, ?_⟩
  · obtain ⟨atCall, later, runFront, runBack, -⟩ := runs .idle Linkage.idle_keeps .zero
    have whole : Issue.run .idle (first :: rest) .zero = some later := by
      rw [← shape, Issue.run_append_of_run runFront, Issue.run, ← runBack]
      rfl
    exact kept_of_moves (shape ▸ moves) whole
  · intro link keeps cpu
    obtain ⟨atCall, later, runFront, runBack, spares, result⟩ := runs link keeps cpu
    refine ⟨atCall, later, Issue.run_written runFront, Issue.run_written runBack, ?_, ?_, result⟩
    · intro id reg held
      exact spares.regs reg (List.mem_map.mpr ⟨(id, reg), Pool.mem_held_of_held? held, rfl⟩)
    · simpa using spares.top

/-- The call `f(g(7))`, which passes the result of a call that is made on the way. -/
def nestedCall : Call :=
  ⟨2, "f", false, some ⟨"f", .int, [3], 1⟩, [2], 1⟩

/-- The listing of the nested call: the number, and the pending result of the inner call. -/
def nestedListing : Listing :=
  let inner : Signature := ⟨"g", .int, [4], 1⟩
  { Listing.empty "t.ils" with
    vars := #[
      ⟨1, .int, .literal "7", false, none, .literal⟩,
      ⟨2, .int, .literal "rax", false, none,
        .result inner ⟨1, "g", false, some inner, [1], 1⟩⟩] }

/-- Code in which one temporary holds a register that calls overwrite and one another. -/
def holdingCode : FunctionCode :=
  { signature := ⟨"main", .absent, [], 1⟩
    frame := .ofFunction "main"
    body := Body.empty.raw "main:"
    pool :=
      { volatile := [.r8, .r9, .r10, .r11], preserved := [.r12, .r13, .r14, .r15]
        held := [(10, .rcx), (11, .rbx)], used := [.rbx] }
    calls := [] }

theorem nestedCall_spares_temporaries :
    ∃ after,
      userCall nestedListing (depth nestedListing) nestedCall holdingCode = .ok ((), after) ∧
        holdingCode.pool.held? 10 = some .rcx ∧ holdingCode.pool.held? 11 = some .rbx ∧
        after.frame.pushed = 0 ∧
        ∃ (kept : List Line) (front back : List Issue),
          after.body.lines.toList =
              kept ++ (front ++ ⟨.call "f", 1⟩ :: back).map
                (fun issue => Line.instruction issue.instruction) ∧
            ∀ link : Linkage, link.Keeps → ∀ cpu,
              ∃ atCall later,
                Issue.run link front cpu = some atCall ∧
                  Issue.run link back (link.routine "f" 1 atCall) = some later ∧
                  later.regs .rcx = cpu.regs .rcx ∧ later.regs .rbx = cpu.regs .rbx ∧
                  later.top = cpu.top ∧
                  later.regs .rax = (link.routine "f" 1 atCall).regs .rax := by
  have accepted : (userCall nestedListing (depth nestedListing) nestedCall
      holdingCode).toBool = true := by
    decide +kernel
  have arises : holdingCode.pool.Arises :=
    @Pool.Arises.assign _ _ 11 true .rbx (@Pool.Arises.assign _ _ 10 false .rcx .full rfl) rfl
  cases run : userCall nestedListing (depth nestedListing) nestedCall holdingCode with
  | error failure => simp [run, Except.toBool] at accepted
  | ok result =>
      obtain ⟨done, after⟩ := result
      obtain ⟨pushed, kept, front, back, lines, _, runs⟩ :=
        temporaries_survive_call arises (.function (by simp [holdingCode]) run)
      refine ⟨after, rfl, rfl, rfl, pushed, kept, front, back, lines, fun link keeps cpu => ?_⟩
      obtain ⟨atCall, later, runFront, runBack, held, top, returned⟩ := runs link keeps cpu
      exact ⟨atCall, later, runFront, runBack, held 10 .rcx rfl, held 11 .rbx rfl, top, returned⟩

end Emit

end IlsCompiler
