import IlsCompiler.Proofs.Assembly.CallLines
import IlsCompiler.Proofs.Assembly.Registers
import IlsCompiler.Proofs.Assembly.Rules
import IlsCompiler.Proofs.Lowering.Variables

namespace IlsCompiler

/-!
# The calls that code for a node makes

Most code makes no call. The result of a pending call is the exception: the call is
made when the result is first asked for. This module says which variables can be asked
for in silence, and what is called when one is asked for that cannot.
-/

/-- Every register in use belongs to a variable up to a bound. -/
def FunctionCode.HeldUpTo (code : FunctionCode) (bound : Nat) : Prop :=
  ∀ entry ∈ code.pool.held, entry.1 ≤ bound

/--
Code becomes other code: calls with the given numbers are made by lines that call the
given routines, and registers are taken only for variables up to the bound.
-/
structure FunctionCode.Becomes (bound : Nat) (numbers : List Nat) (routines : List String)
    (before after : FunctionCode) : Prop where
  calls : after.calls = before.calls ++ numbers
  routines : after.body.calls = before.body.calls ++ routines
  held : ∀ entry ∈ after.pool.held, entry ∈ before.pool.held ∨ entry.1 ≤ bound
  signature : after.signature = before.signature
  reserved : after.frame.reserved = before.frame.reserved
  kept : before.body.Keeps after.body
  pool : before.pool.Sound → after.pool.Sound

variable
    {before after : FunctionCode}
    {routines : List String}
    {numbers : List Nat}

namespace FunctionCode.Becomes

theorem refl
    (bound : Nat)
    (code : FunctionCode) :
    Becomes bound [] [] code code :=
  ⟨by simp, by simp, fun _ member => .inl member, rfl, rfl, .refl _, id⟩

variable
    {first second third : FunctionCode}

theorem trans
    {bound : Nat}
    {firstNumbers secondNumbers : List Nat}
    {firstRoutines secondRoutines : List String}
    (earlier : Becomes bound firstNumbers firstRoutines first second)
    (later : Becomes bound secondNumbers secondRoutines second third) :
    Becomes bound (firstNumbers ++ secondNumbers) (firstRoutines ++ secondRoutines) first third :=
  { calls := by rw [later.calls, earlier.calls, List.append_assoc]
    routines := by rw [later.routines, earlier.routines, List.append_assoc]
    held := by
      intro entry member
      rcases later.held entry member with old | new
      · exact earlier.held entry old
      · exact .inr new
    signature := later.signature.trans earlier.signature
    reserved := later.reserved.trans earlier.reserved
    kept := earlier.kept.trans later.kept
    pool := later.pool ∘ earlier.pool }

/-- Code that makes no call can be left out in front. -/
theorem after_silent
    {bound : Nat}
    (silent : Becomes bound [] [] first second)
    (later : Becomes bound numbers routines second third) :
    Becomes bound numbers routines first third :=
  silent.trans later

/-- Code that makes no call can be left out behind. -/
theorem before_silent
    {bound : Nat}
    (earlier : Becomes bound numbers routines first second)
    (silent : Becomes bound [] [] second third) :
    Becomes bound numbers routines first third := by
  simpa using earlier.trans silent

theorem mono
    {small large : Nat}
    (becomes : Becomes small numbers routines before after)
    (less : small ≤ large) :
    Becomes large numbers routines before after :=
  { becomes with
    held := fun entry member =>
      (becomes.held entry member).imp_right fun new => Nat.le_trans new less }

theorem heldUpTo
    {bound : Nat}
    (becomes : Becomes bound numbers routines before after)
    {small : Nat}
    (held : before.HeldUpTo small)
    (less : small ≤ bound) :
    after.HeldUpTo bound := by
  intro entry member
  rcases becomes.held entry member with old | new
  · exact Nat.le_trans (held entry old) less
  · exact new

end FunctionCode.Becomes

namespace Emit

open Stateful FunctionCode

/-- A step that makes no call, from whatever code it starts. -/
def Silent (bound : Nat) (step : Emit α) : Prop :=
  ∀ ⦃before : FunctionCode⦄ ⦃result : α⦄ ⦃after : FunctionCode⦄,
    step before = .ok (result, after) → Becomes bound [] [] before after

section Steps

variable
    {bound : Nat}

theorem silent_pure
    (value : α) :
    Silent bound (pure value : Emit α) := by
  intro before result after run
  obtain ⟨-, rfl⟩ := pure_ok_iff.mp run
  exact .refl _ _

theorem silent_throw
    (failure : Failure) :
    Silent bound (throw failure : Emit α) := by
  intro before result after run
  exact (throw_ok_iff.mp run).elim

theorem silent_fail
    (fault : EmissionFault)
    (line : Nat) :
    Silent bound (fail fault line : Emit α) :=
  silent_throw _

/-- An instruction that is no call makes none. -/
theorem silent_ins
    {instruction : Instruction}
    (noCall : Line.called? (.instruction instruction) = none) :
    Silent bound (ins instruction) := by
  intro before result after run
  cases modify_ok_iff.mp run
  exact
    { calls := by simp
      routines := by simp [noCall]
      held := fun _ member => .inl member
      signature := rfl
      reserved := rfl
      kept := .add _ _
      pool := id }

theorem silent_countPushed
    (change : Nat → Nat) :
    Silent bound (countPushed change) := by
  intro before result after run
  cases modify_ok_iff.mp run
  exact ⟨by simp, by simp, fun _ member => .inl member, rfl, rfl, .refl _, id⟩

theorem silent_closed :
    Closed fun _ step => Silent bound step where
  pure := silent_pure
  bind first second := by
    intro before result after run
    obtain ⟨value, between, stepRun, nextRun⟩ := bind_ok_iff.mp run
    exact (first stepRun).after_silent (second stepRun nextRun)
  read _ each := by
    intro before result after run
    exact each before run
  ins {instruction} noCall := silent_ins <| by
    cases instruction with
    | call name => exact (noCall name rfl).elim
    | _ => rfl
  countPushed := silent_countPushed

/-- Steps that neither fail nor call make no call, and no more do sequences of them. -/
theorem silent_sequences :
    Sequences (fun _ => True) fun _ wanted step => Silent bound step ∧ Yields wanted step :=
  silent_closed.sequences

theorem silent_slotOperand
    (id : VarId)
    (name : String)
    (isParam : Bool)
    (position : Nat) :
    Silent bound (slotOperand id name isParam position) := by
  unfold slotOperand
  split
  · exact silent_pure _
  · intro before result after run
    obtain ⟨_, _, got, later⟩ := bind_ok_iff.mp run
    obtain ⟨rfl, rfl⟩ := get_ok_iff.mp got
    cases slotted : before.frame.slot id name with
    | error failure =>
        simp only [slotted] at later
        exact (throw_ok_iff.mp later).elim
    | ok pair =>
        rcases pair with ⟨frame, address⟩
        simp only [slotted] at later
        obtain ⟨_, _, written, returned⟩ := bind_ok_iff.mp later
        cases set_ok_iff.mp written
        obtain ⟨-, rfl⟩ := pure_ok_iff.mp returned
        have reserved : frame.reserved = before.frame.reserved := by
          unfold StackFrame.slot at slotted
          split at slotted
          · cases slotted
            rfl
          · simp only at slotted
            split at slotted
            · cases slotted
              rfl
            · cases slotted
        exact ⟨by simp, by simp, fun _ member => .inl member, rfl, reserved, .refl _, fun sound => sound⟩

theorem silent_namedOperand
    (v : Variable)
    (name : String)
    (isGlobal isParam : Bool)
    (position : Nat) :
    Silent bound (namedOperand v name isGlobal isParam position) := by
  unfold namedOperand
  split
  · exact silent_fail _ _
  · split
    · exact silent_fail _ _
    · split
      · exact silent_pure _
      · exact silent_slotOperand _ _ _ _

/-- The pool hands a register to the temporary that asks for one. -/
theorem held_assign
    {pool taken : Pool}
    {id : VarId}
    {mustSurvive : Bool}
    {reg : Reg}
    (assigned : pool.assign id mustSurvive = .ok (taken, reg)) :
    ∀ entry ∈ taken.held, entry ∈ pool.held ∨ entry.1 = id := by
  have given : ∀ {volatile preserved : List Reg} {chosen : Reg},
      ∀ entry ∈ ({ pool with volatile := volatile, preserved := preserved }.give id chosen).held,
        entry ∈ pool.held ∨ entry.1 = id := by
    intro volatile preserved chosen entry member
    simp only [Pool.give, List.mem_append, List.mem_singleton] at member
    rcases member with old | new
    · exact .inl old
    · exact .inr (congrArg Prod.fst new)
  unfold Pool.assign at assigned
  split at assigned
  · cases assigned
    exact fun entry member => .inl member
  · split at assigned
    · unfold Pool.takePreserved? at assigned
      cases free : pool.preserved with
      | nil => simp [free] at assigned
      | cons first rest =>
          simp only [free] at assigned
          cases assigned
          exact given
    · unfold Pool.takeVolatile? Pool.takePreserved? at assigned
      cases free : pool.volatile with
      | cons first rest =>
          simp only [free] at assigned
          cases assigned
          exact given
      | nil =>
          cases kept : pool.preserved with
          | nil => simp [free, kept] at assigned
          | cons first rest =>
              simp only [free, kept] at assigned
              cases assigned
              exact given

theorem silent_takeRegister
    (name : String)
    {v : Variable}
    (below : v.id ≤ bound) :
    Silent bound (takeRegister name v) := by
  intro before result after run
  obtain ⟨pool, assigned, rfl⟩ := takeRegister_ok run
  refine ⟨by simp, by simp, ?_, rfl, rfl, .refl _, fun sound => sound.assign assigned⟩
  intro entry member
  rcases held_assign assigned entry member with old | new
  · exact .inl old
  · exact .inr (new ▸ below)

end Steps

end Emit

/-- Whether a variable with this storage is there without any code: a constant or memory. -/
def Storage.isPlain : Storage → Bool
  | .literal => true
  | .named _ _ _ _ _ => true
  | .array _ _ _ => true
  | _ => false

/--
A variable can be asked for in silence: asking leads to a constant, to memory, or to the
result of a call that has been made.
-/
inductive Listing.Quiet (listing : Listing) (made : List Nat) : Nat → Prop
  | plain {id : Nat} {v : Variable} :
      listing.fixed? id = some v → v.storage.isPlain → listing.Quiet made id
  | constant {id : Nat} {v : Variable} {name text : String} {scope : Nat} :
      listing.fixed? id = some v → v.storage = .temporary name scope →
        v.value = .literal text → listing.Quiet made id
  | copy {id source : Nat} {v : Variable} {name : String} {scope : Nat} :
      listing.fixed? id = some v → v.storage = .temporary name scope →
        v.value = .reference source → source < id → listing.Quiet made source →
        listing.Quiet made id
  | element {id array index : Nat} {v : Variable} :
      listing.fixed? id = some v → v.storage = .element array index → index < id →
        listing.Quiet made index → listing.Quiet made id
  | made {id : Nat} {v : Variable} {function : Signature} {call : Call} :
      listing.fixed? id = some v → v.storage = .result function call → call.id ∈ made →
        listing.Quiet made id

/-- What can be asked for in silence can still be when more calls have been made. -/
theorem Listing.Quiet.mono
    {listing : Listing}
    {made more : List Nat}
    {id : Nat}
    (quiet : listing.Quiet made id)
    (subset : ∀ number ∈ made, number ∈ more) :
    listing.Quiet more id := by
  induction quiet with
  | plain found isPlain => exact .plain found isPlain
  | constant found storage value => exact .constant found storage value
  | copy found storage value less _ inductionHypothesis =>
      exact .copy found storage value less inductionHypothesis
  | element found storage less _ inductionHypothesis =>
      exact .element found storage less inductionHypothesis
  | made found storage member => exact .made found storage (subset _ member)

/--
Asking for a variable makes calls with the given numbers by lines that call the given
routines: none when it can be asked for in silence, and one when it is the result of a
pending call whose arguments are ready.
-/
inductive Listing.Asked (listing : Listing) (made : List Nat) :
    Nat → List Nat → List String → Prop
  | quiet {id : Nat} : listing.Quiet made id → listing.Asked made id [] []
  | pending {id : Nat} {v : Variable} {function : Signature} {call : Call} :
      listing.fixed? id = some v → v.storage = .result function call → call.id ∉ made →
        (∀ argument ∈ call.arguments, argument < id ∧ listing.Quiet made argument) →
        listing.Asked made id [call.id] [call.name]

namespace Emit

open Stateful FunctionCode

section Asking

variable
    {listing : Listing}
    {made : List Nat}
    {id bound : Nat}

theorem isPlain_fixed
    (storage : Storage) :
    storage.fixed.isPlain = storage.isPlain := by
  fun_cases Storage.fixed storage <;> rfl

variable
    {depth : Nat}
    {operand : Operand}
    {scratch : Reg}

/-- A step that makes no call behind the calls that have been made. -/
def Quietly (made : List Nat) (bound : Nat) (step : Emit α) : Prop :=
  ∀ ⦃before : FunctionCode⦄ ⦃result : α⦄ ⦃after : FunctionCode⦄,
    made ⊆ before.calls → step before = .ok (result, after) → Becomes bound [] [] before after

theorem Silent.quietly
    {step : Emit α}
    (silent : Silent bound step) :
    Quietly made bound step :=
  fun _ _ _ _ run => silent run

theorem quietly_closed :
    Closed fun _ step => Quietly made bound step where
  pure value := (silent_pure value).quietly
  bind first second := by
    intro before result after subset run
    obtain ⟨value, between, stepRun, nextRun⟩ := bind_ok_iff.mp run
    have stepped := first subset stepRun
    exact stepped.after_silent (second stepRun (by simpa [stepped.calls] using subset) nextRun)
  read _ each := fun before _ _ subset run => each before subset run
  ins noCall := (silent_closed.ins noCall).quietly
  countPushed change := (silent_countPushed change).quietly

/-- What can be asked for in silence leads to what can, and to calls that have been made. -/
theorem quiet_leads
    (quiet : listing.Quiet made id)
    {v : Variable}
    (known : listing.lookup? id = some v) :
    (∀ {name scope next}, v.storage = .temporary name scope → v.value.reference? = some next →
      next < id ∧ listing.Quiet made next) ∧
    (∀ {array index}, v.storage = .element array index →
      index < id ∧ listing.Quiet made index) ∧
    ∀ {function call}, v.storage = .result function call → call.id ∈ made := by
  have same : ∀ {w}, listing.fixed? id = some w → v.fixed = w := fun found => by
    simpa [Listing.fixed?, known] using found
  cases quiet with
  | plain found isPlain =>
      cases same found
      rw [Variable.fixed, isPlain_fixed] at isPlain
      refine ⟨fun storage => ?_, fun storage => ?_, fun storage => ?_⟩ <;>
        simp [storage, Storage.isPlain] at isPlain
  | constant found storage value =>
      cases same found
      have isTemporary := Variable.fixed_temporary_iff.mp storage
      refine ⟨fun _ refers => ?_, fun other => ?_, fun other => ?_⟩
      · rw [show v.value = _ from value] at refers
        cases refers
      · cases isTemporary.symm.trans other
      · cases isTemporary.symm.trans other
  | copy found storage value less quiet =>
      cases same found
      have isTemporary := Variable.fixed_temporary_iff.mp storage
      refine ⟨fun _ refers => ?_, fun other => ?_, fun other => ?_⟩
      · rw [show v.value = _ from value] at refers
        cases refers
        exact ⟨less, quiet⟩
      · cases isTemporary.symm.trans other
      · cases isTemporary.symm.trans other
  | element found storage less quiet =>
      cases same found
      have isElement := Variable.fixed_element_iff.mp storage
      refine ⟨fun other => ?_, fun other => ?_, fun other => ?_⟩ <;>
        cases isElement.symm.trans other
      exact ⟨less, quiet⟩
  | made found storage member =>
      cases same found
      have isResult := Variable.fixed_result_iff.mp storage
      refine ⟨fun other => ?_, fun other => ?_, fun other => ?_⟩ <;>
        cases isResult.symm.trans other
      exact member

/-- Variables up to a bound that can be asked for in silence are asked for without a call. -/
def asking (listing : Listing) (made : List Nat) (bound : Nat) : Rule :=
  .closed (fun id => id ≤ bound ∧ listing.Quiet made id) (fun call => call.id ∈ made)
    (fun _ => True) fun _ step => Quietly made bound step

theorem asking_lawful
    (numbered : listing.Numbered) :
    (asking listing made bound).Lawful listing := by
  have number : ∀ {id v}, listing.lookup? id = some v → v.id = id := fun {id v} known =>
    numbered id v.fixed (by simp [Listing.fixed?, known])
  refine Rule.closed_lawful quietly_closed
    ⟨fun isOwned known => by rwa [number known], fun isOwned known storage refers => ?_,
      fun isOwned known storage => ?_, fun isOwned known => (quiet_leads isOwned.2 known).2.2⟩
    trivial (fun _ => trivial) (fun _ _ => (silent_fail _ _).quietly)
    (fun isCalled _ before _ after subset run => ?_)
    (fun name _ isOwned => (silent_takeRegister name isOwned.1).quietly)
    fun _ _ _ _ _ => (silent_namedOperand _ _ _ _ _).quietly
  · obtain ⟨less, quiet⟩ := (quiet_leads isOwned.2 known).1 storage refers
    exact ⟨Nat.le_trans (Nat.le_of_lt less) isOwned.1, quiet⟩
  · obtain ⟨less, quiet⟩ := (quiet_leads isOwned.2 known).2.1 storage
    exact ⟨Nat.le_trans (Nat.le_of_lt less) isOwned.1, quiet⟩
  · rcases userCall_ok run with ⟨_, rfl⟩ | ⟨fresh, _⟩
    · exact .refl _ _
    · exact (fresh (subset isCalled)).elim

/-- A variable that can be asked for in silence makes no call. -/
theorem resolve_quiet
    (numbered : listing.Numbered)
    (quiet : listing.Quiet made id)
    (below : id ≤ bound)
    (subset : made ⊆ before.calls)
    (run : resolve listing depth id scratch before = .ok (operand, after)) :
    Becomes bound [] [] before after :=
  (((asking_lawful numbered).within depth).resolve scratch ⟨below, quiet⟩).1 subset run

variable
    {done : Unit}

/-- Arguments that can be asked for in silence are pushed in silence. -/
theorem pushArguments_quiet
    (numbered : listing.Numbered)
    {ids : List Nat}
    (ready : ∀ argument ∈ ids, argument ≤ bound ∧ listing.Quiet made argument)
    (subset : made ⊆ before.calls)
    (run : pushArguments listing depth ids before = .ok (done, after)) :
    Becomes bound [] [] before after := by
  have lawful := @asking_lawful listing made bound numbered
  exact (lawful.pushArguments (fun _ _ _ => trivial) fun id member =>
    (lawful.within depth).resolve _ (ready id member)).1 subset run

theorem called_becomes
    {name : String}
    (run : ins (.call name) before = .ok (done, after)) :
    Becomes bound [] [name] before after := by
  cases ins_ok_iff.mp run
  exact
    { calls := by simp
      routines := by simp [Line.called?]
      held := fun _ member => .inl member
      signature := rfl
      reserved := rfl
      kept := .add _ _
      pool := id }

/-- A call whose arguments are ready is made by one line. -/
theorem userCall_made
    (numbered : listing.Numbered)
    {call : Call}
    (ready : ∀ argument ∈ call.arguments, argument ≤ bound ∧ listing.Quiet made argument)
    (fresh : call.id ∉ made)
    (same : before.calls = made)
    (run : userCall listing depth call before = .ok (done, after)) :
    Becomes bound [call.id] [call.name] before after := by
  rcases userCall_ok run with
    ⟨known, _⟩ | ⟨_, _, saved, first, second, third, fourth, _, savedRun, pushed, jumped, dropped,
      restored⟩
  · rw [same] at known
    exact (fresh known).elim
  · have counts : Becomes bound [call.id] [] before
        { before with calls := before.calls ++ [call.id] } :=
      ⟨rfl, by simp, fun _ member => .inl member, rfl, rfl, .refl _, id⟩
    have saves : Becomes bound [] [] _ first := (silent_sequences.saveLive _).1 savedRun
    have firstCalls : first.calls = made ++ [call.id] := by
      simpa [same] using saves.calls
    have pushes := pushArguments_quiet numbered
      (fun argument member => ready argument (by simpa using member))
      (by simp [firstCalls]) pushed
    have calls : Becomes bound [] [call.name] second third := called_becomes jumped
    have cleans : Becomes bound [] [] third after :=
      ((silent_sequences.dropArguments _).1 dropped).after_silent
        ((silent_sequences.restoreLive _).1 restored)
    have prepares := counts.before_silent (saves.after_silent pushes)
    exact (prepares.trans calls).before_silent cleans

/-- Asking for a variable makes exactly the calls that asking for it leads to. -/
theorem resolve_asked
    (numbered : listing.Numbered)
    (asked : listing.Asked made id numbers routines)
    (below : id ≤ bound)
    (same : before.calls = made)
    (run : resolve listing depth id scratch before = .ok (operand, after)) :
    Becomes bound numbers routines before after := by
  cases asked with
  | quiet quiet =>
      exact resolve_quiet numbered quiet below (by rw [same]; exact List.Subset.refl _) run
  | pending found storage fresh ready =>
      obtain ⟨w, _, _, known, resolved⟩ := resolve_ok run
      simp only [Listing.fixed?, known, Option.map_some, Option.some.injEq] at found
      subst found
      simp only [Variable.fixed_result_iff.mp storage] at resolved
      obtain ⟨called, rfl⟩ := resolved
      refine userCall_made numbered ?_ fresh same called
      intro argument member
      exact ⟨Nat.le_trans (Nat.le_of_lt (ready argument member).1) below,
        (ready argument member).2⟩

end Asking

end Emit

end IlsCompiler
