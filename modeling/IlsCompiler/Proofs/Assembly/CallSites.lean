import IlsCompiler.Proofs.Assembly.Arguments
import IlsCompiler.Proofs.Assembly.FileRefusals
import IlsCompiler.Proofs.Lowering.Pruning

namespace IlsCompiler

/-!
# Where calls are made

A call of a function is made while the code of a node is made, for which the node itself is a call
or an operand of it waits for the result. Whatever code there is at that moment, the arguments of
the call are constants and temporaries that have been given registers, and the function that is
called is one of those that are kept.
-/

namespace Emit

open Stateful FunctionCode

variable
    {listing : Listing}
    {before after : FunctionCode}
    {done : Unit}

/-- Code that is made behind other code has a sound pool if that one does. -/
def KeepsSound (before after : FunctionCode) : Prop :=
  before.pool.Sound → after.pool.Sound

theorem keepsSound_bind
    {step : Emit α}
    {next : α → Emit β}
    (first : Respects KeepsSound step)
    (second : ∀ value, Respects KeepsSound (next value)) :
    Respects KeepsSound (step >>= next) :=
  respects_bind (fun _ _ _ earlier later sound => later (earlier sound)) first second

theorem keepsSound_ins
    (instruction : Instruction) :
    Respects KeepsSound (ins instruction) := by
  intro before done after run sound
  rw [ins_ok_iff.mp run]
  exact sound

theorem keepsSound_choice
    {condition : Prop}
    [Decidable condition]
    {first second : Emit α}
    (yes : Respects KeepsSound first)
    (no : Respects KeepsSound second) :
    Respects KeepsSound (if condition then first else second) := by
  split
  · exact yes
  · exact no

theorem keepsSound_pops
    (regs : List Reg) :
    Respects KeepsSound (regs.forM fun reg => ins (.pop reg)) := by
  induction regs with
  | nil => exact respects_pure (fun _ sound => sound) _
  | cons reg rest inductionHypothesis =>
      exact keepsSound_bind (keepsSound_ins _) fun _ => inductionHypothesis

theorem keepsSound_epilogue :
    Respects KeepsSound epilogue := by
  intro before done after run
  unfold epilogue at run
  obtain ⟨_, _, got, later⟩ := bind_ok_iff.mp run
  obtain ⟨rfl, rfl⟩ := get_ok_iff.mp got
  have finish : Respects KeepsSound (do
      ins (.mov (.whole .rsp) (.whole .rbp))
      ins (.pop .rbp)
      modify fun current : FunctionCode =>
        { current with
          body := current.body.fill current.frame.reserved
            (setup (before.frame.size before.pool.touched.length) before.pool.touched) }) :=
    keepsSound_bind (keepsSound_ins _) fun _ => keepsSound_bind (keepsSound_ins _)
      fun _ _ _ _ filled sound => by
        rw [← modify_ok_iff.mp filled]
        exact sound
  refine keepsSound_choice (keepsSound_bind (keepsSound_ins _) fun _ => ?_) ?_ later
  all_goals
    exact keepsSound_choice (keepsSound_bind (keepsSound_ins _) fun _ =>
      keepsSound_bind (keepsSound_pops _) fun _ => finish) finish

/-- The code of a node keeps the pool sound, wherever the node stands. -/
theorem node_keepsSound
    (node : Node) :
    Respects KeepsSound (Emit.node listing node) := by
  intro before done after run sound
  by_cases inner : node.isInner
  · rcases node_cases listing.pends_everything inner (node.isPermitted_everything listing) run with
      ⟨_, _, rfl⟩ | ⟨_, _, _, rfl⟩ | ⟨id, _, rfl⟩ | ⟨_, rises⟩
    · exact sound
    · exact sound
    · exact sound.release id
    · exact rises.writes.sound sound
  · cases node with
    | entry function =>
        obtain ⟨_, _, _, failed⟩ := bind_ok_iff.mp run
        exact (fail_ok_iff.mp failed).elim
    | prologue function locals =>
        refine keepsSound_bind (keepsSound_ins _) (fun _ => keepsSound_bind (keepsSound_ins _)
          fun _ => ?_) run sound
        intro before done after run sound
        rw [← modify_ok_iff.mp run]
        exact sound
    | epilogue function => exact keepsSound_epilogue run sound
    | closeScope scope kind isFunction =>
        obtain ⟨-, rfl⟩ := pure_ok_iff.mp run
        exact sound
    | _ => exact (inner rfl).elim

end Emit

variable
    {nodes : List Node}

namespace AssemblyFile

/-- The function that is open in a file, if there is one, has a sound pool. -/
def Sound (file : AssemblyFile) : Prop :=
  ∀ code, file.current = some code → code.pool.Sound

variable
    {listing : Listing}
    {file final : AssemblyFile}

theorem Sound.step
    (sound : file.Sound)
    {node : Node}
    (stepped : file.step listing node = .ok final) :
    final.Sound := by
  intro code isOpen
  unfold AssemblyFile.step at stepped
  split at stepped
  next outside =>
    split at stepped
    · unfold openFunction at stepped
      simp only [bind, Except.bind, pure, Except.pure] at stepped
      split at stepped
      · cases stepped
      · cases stepped
        cases isOpen
        exact Pool.sound_full
    · rw [(addGlobal_ok stepped).2.2, outside] at isOpen
      cases isOpen
    · cases stepped
  next before inside =>
    split at stepped
    · cases stepped
      cases isOpen
    · split at stepped
      · cases stepped
      next run =>
        cases stepped
        cases isOpen
        exact Emit.node_keepsSound _ run (sound before inside)

theorem Sound.takes
    (sound : file.Sound)
    (taken : Takes listing nodes file final) :
    final.Sound := by
  induction nodes generalizing file with
  | nil =>
      cases taken
      exact sound
  | cons node rest inductionHypothesis =>
      obtain ⟨between, stepped, others⟩ := taken
      exact inductionHypothesis (sound.step stepped) others

end AssemblyFile

namespace Listing

variable
    {listing : Listing}
    {first second third : VarId}

theorem Touches.trans
    (earlier : listing.Touches first second)
    (later : listing.Touches second third) :
    listing.Touches first third := by
  induction earlier with
  | self => exact later
  | step found refers _ inductionHypothesis =>
      exact .step found refers (inductionHypothesis later)

/-- References lead to earlier variables. -/
theorem Touches.le
    (formed : listing.WellFormed)
    (touches : listing.Touches first second) :
    second ≤ first := by
  induction touches with
  | self => exact Nat.le_refl _
  | @step id next target v found refers _ inductionHypothesis =>
      have fixed : listing.fixed? id = some v.fixed := by simp [fixed?, found]
      have descends := (formed id v.fixed fixed).descends next (by simpa using refers)
      exact Nat.le_trans inductionHypothesis (Nat.le_of_lt descends)

/--
A node leads to a call of a function: the node is the call, or what it uses leads to the result of
the call.
-/
def Invokes (listing : Listing) (node : Node) (call : Call) : Prop :=
  (node = .call call ∧ call.builtin = false) ∨
    ∃ used ∈ node.uses, ∃ result v function,
      listing.Touches used result ∧ listing.lookup? result = some v ∧
        v.storage = .result function call

end Listing


/--
A call of a function is made in a list of nodes. One of them leads to it, and while the code of this
node is made the call is made for the first time, from some code to some other. Up to there
temporaries are given registers, and none gives its register back.
-/
structure CallIn (listing : Listing) (nodes : List Node) (call : Call)
    (before after : FunctionCode) : Prop where
  place : ∃ front node back file caller,
    nodes = front ++ node :: back ∧ AssemblyFile.Takes listing front (.start listing) file ∧
      file.current = some caller ∧ listing.Invokes node call ∧
      caller.pool.held ⊆ before.pool.held ∧ (caller.pool.Sound → before.pool.Sound)
  unmade : call.id ∉ before.calls
  made : ∃ depth, Emit.userCall listing depth call before = .ok ((), after)

namespace AssemblyFile

theorem takes_of_foldlM
    {listing : Listing}
    {file final : AssemblyFile}
    (run : nodes.foldlM (fun file node => (file.step listing node).toOption) file = some final) :
    Takes listing nodes file final := by
  induction nodes generalizing file with
  | nil =>
      cases run
      rfl
  | cons node rest inductionHypothesis =>
      rw [List.foldlM_cons] at run
      obtain ⟨between, stepped, others⟩ := Option.bind_eq_some_iff.mp run
      refine ⟨between, ?_, inductionHypothesis others⟩
      cases step : file.step listing node with
      | error failure => simp [step, Except.toOption] at stepped
      | ok next =>
          rw [step] at stepped
          exact congrArg Except.ok (Option.some.inj stepped)

end AssemblyFile

namespace CallIn

variable
    {listing : Listing}
    {nodes : List Node}
    {call : Call}
    {before after : FunctionCode}

theorem sound
    (calls : CallIn listing nodes call before after) :
    before.pool.Sound := by
  obtain ⟨front, node, back, file, caller, _, taken, isOpen, _, _, sound⟩ := calls.place
  have start : (AssemblyFile.start listing).Sound := fun _ isOpen => by cases isOpen
  exact sound (start.takes taken caller isOpen)

/-- The arguments of a call are constants, or temporaries that hold registers. -/
theorem carried
    (formed : listing.WellFormed)
    (wellFormed : call.WellFormed listing)
    (calls : CallIn listing nodes call before after)
    (provided : ∀ front node back file, nodes = front ++ node :: back →
      AssemblyFile.Takes listing front (.start listing) file →
        file.Provides listing front node) :
    ∀ id ∈ call.arguments, listing.Carried before.pool id := by
  intro id member
  obtain ⟨front, node, back, file, caller, isNodes, taken, isOpen, invokes, held, _⟩ := calls.place
  obtain ⟨v, found, passed⟩ := wellFormed.1 id member
  obtain ⟨w, known, rfl⟩ := Listing.lookup?_of_fixed? found
  have storage : w.storage = .literal ∨ ∃ name scope, w.storage = .temporary name scope := by
    cases isStorage : w.fixed.storage with
    | literal => exact .inl (Variable.fixed_literal_iff.mp isStorage)
    | temporary name scope =>
        exact .inr ⟨name, scope, Variable.fixed_temporary_iff.mp isStorage⟩
    | _ => simp [isStorage, Storage.isPassed] at passed
  rcases storage with isConstant | ⟨name, scope, isTemporary⟩
  · exact .constant known isConstant
  -- What the node uses leads to the argument, which is not what the node declares.
  obtain ⟨used, isUsed, touches, other⟩ : ∃ used ∈ node.uses, listing.Touches used id ∧
      ∀ line, node ≠ .declare id line := by
    rcases invokes with ⟨rfl, _⟩ | ⟨used, isUsed, result, u, function, touches, isResult, storage⟩
    · exact ⟨id, member, .self id, fun _ same => by cases same⟩
    · have refers : id ∈ u.refs := by simp [Variable.refs, storage, Storage.refs, member]
      refine ⟨used, isUsed, touches.trans (.step isResult refers (.self id)), fun line same => ?_⟩
      subst same
      obtain rfl : used = id := by simpa [Node.uses, Node.operands] using isUsed
      have fixed : listing.fixed? result = some u.fixed := by simp [Listing.fixed?, isResult]
      have below := (formed result u.fixed fixed).descends used (by simpa using refers)
      exact absurd (touches.le formed) (Nat.not_le_of_lt below)
  have isHeld := (provided front node back file isNodes taken).registers caller isOpen used isUsed
    id touches ⟨w.fixed, name, scope, found, Variable.fixed_temporary_iff.mpr isTemporary⟩
  rcases isHeld with ⟨⟨line, same⟩, _⟩ | ⟨_, isSome⟩
  · exact (other line same).elim
  · obtain ⟨reg, isReg⟩ := Option.isSome_iff_exists.mp isSome
    exact .temporary known isTemporary
      (calls.sound.held?_of_mem (held (Pool.mem_held_of_held? isReg)))

end CallIn

namespace Lower

variable
    {program : Program}
    {listing : Listing}
    {declared last : LoweringState}
    {parts : List FunctionSection}
    {pruned : Pruned}
    {name : String}

end Lower

end IlsCompiler
