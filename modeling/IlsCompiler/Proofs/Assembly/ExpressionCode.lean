import IlsCompiler.Proofs.Assembly.Arithmetic
import IlsCompiler.Proofs.Assembly.ExpressionTraces

namespace IlsCompiler

/-!
# Code for arithmetic expressions

The instructions for an arithmetic expression leave its word in the place of the variable
that stands for its value. Registers that were held before keep their words, and so do
memory and the frame.
-/

/-- The word that a name stands for in a scope. -/
def Listing.reads (listing : Listing) (scopes : ScopeTree) (scope : Nat) (frame : StackFrame)
    (machine : Machine) (name : String) : BitVec 64 :=
  match (scopes.lookup? scope name).bind listing.fixed? with
  | some v => machine.named frame v
  | none => .ofNat 64 0

variable
    {machine later : Machine}

/-- What names stand for depends only on the frame and on memory. -/
theorem Listing.reads_of_sameBut
    {changed : Reg → Prop}
    (same : Machine.SameBut changed machine later)
    (listing : Listing)
    (scopes : ScopeTree)
    (scope : Nat)
    (frame : StackFrame) :
    listing.reads scopes scope frame later = listing.reads scopes scope frame machine := by
  funext name
  unfold reads
  split
  · exact same.named_eq frame _
  · rfl

theorem Machine.SameBut.mono
    {small large : Reg → Prop}
    (same : SameBut small machine later)
    (more : ∀ reg, small reg → large reg) :
    SameBut large machine later :=
  { regs := fun reg unchanged => same.regs reg fun changed => unchanged (more reg changed)
    slots := same.slots
    data := same.data }

/-- A pool that keeps what is held keeps the registers. -/
theorem Pool.heldRegs_of_kept
    {pool later : Pool}
    (kept : ∀ entry ∈ pool.held, entry ∈ later.held)
    {reg : Reg}
    (held : reg ∈ pool.heldRegs) :
    reg ∈ later.heldRegs := by
  obtain ⟨entry, member, rfl⟩ := List.mem_map.mp held
  exact List.mem_map_of_mem (kept entry member)

namespace Listing.AtHand

variable
    {listing : Listing}
    {pool later : Pool}
    {id : Nat}

/-- What is at hand stays at hand while registers are kept. -/
theorem of_kept
    (atHand : listing.AtHand pool id)
    (kept : ∀ reg, (id, reg) ∈ pool.held → (id, reg) ∈ later.held) :
    listing.AtHand later id := by
  cases atHand with
  | literal found storage read => exact .literal found storage read
  | named found storage arithmetic => exact .named found storage arithmetic
  | temporary found storage held => exact .temporary found storage (kept _ held)

/-- What is at hand is no result of a call. -/
theorem not_result
    (atHand : listing.AtHand pool id)
    {v : Variable}
    {function : Signature}
    {call : Call}
    (known : listing.fixed? id = some v) :
    v.storage ≠ .result function call := by
  intro isResult
  cases atHand with
  | literal found storage _ =>
      cases known.symm.trans found
      simp [storage] at isResult
  | named found storage _ =>
      cases known.symm.trans found
      simp [storage] at isResult
  | temporary found storage _ =>
      cases known.symm.trans found
      simp [storage] at isResult

/-- The word of what is at hand is the same in a pool that keeps its register. -/
theorem wordOf_of_kept
    (atHand : listing.AtHand pool id)
    (sound : pool.Sound)
    (soundLater : later.Sound)
    (kept : ∀ reg, (id, reg) ∈ pool.held → (id, reg) ∈ later.held)
    (frame : StackFrame)
    (machine : Machine) :
    listing.wordOf later frame machine id = listing.wordOf pool frame machine id := by
  cases atHand with
  | literal found storage _ => simp [wordOf, found, storage]
  | named found storage _ => simp [wordOf, found, storage]
  | temporary found storage held =>
      simp [wordOf, found, storage, sound.held?_of_mem held,
        soundLater.held?_of_mem (kept _ held)]

end Listing.AtHand

variable
    {text : String}
    {number : Int}

namespace LoweringState

/-- A constant number is found under the next number, with its text as its value. -/
theorem fixed?_withLiteral_number
    (state : LoweringState)
    {bits : Nat}
    (read : Text.integer? bits text = some number) :
    (state.withLiteral (.scalar .int text)).listing.fixed? (state.listing.vars.size + 1) =
      some
        { id := state.listing.vars.size + 1, type := .int, value := .literal text,
          preserved := false, lastUse := none, storage := .literal } := by
  have shown := Bytes.display_ofString (Text.ascii_of_integer? read)
  simp [withLiteral, Listing.addLiteral, Storage.fixed, shown]

end LoweringState

variable
    {id : Nat}
    {name : String}

namespace Emit

open Stateful FunctionCode

/-- A new temporary with a constant value gets a free register. -/
theorem declare_constant
    {listing : Listing}
    {before after : FunctionCode}
    {v : Variable}
    {scope : Nat}
    (numbered : listing.Numbered)
    (found : listing.fixed? id = some v)
    (storage : v.storage = .temporary name scope)
    (value : v.value = .literal text)
    (sound : before.pool.Sound)
    (free : before.pool.held? id = none)
    (run : declare listing id before = .ok ((), after)) :
    ∃ reg,
      Issues [.mov (.whole reg) (.immediate text)] before after ∧ after.pool.Sound ∧
        after.pool.held = before.pool.held ++ [(id, reg)] ∧ reg ∈ Reg.pooled ∧
        reg ∉ before.pool.heldRegs := by
  obtain ⟨w, lookup, rfl⟩ := Listing.lookup?_of_fixed? found
  have isTemporary := Variable.fixed_temporary_iff.mp storage
  have same : w.id = id := numbered id w.fixed found
  change w.value = .literal text at value
  unfold declare at run
  simp only [lookup, isTemporary] at run
  obtain ⟨_, _, registered, returned⟩ := bind_ok_iff.mp run
  obtain ⟨-, rfl⟩ := pure_ok_iff.mp returned
  rcases temporary_ok registered with
    ⟨held, _⟩ | ⟨_, less, source, middle, between, _, resolved, taken, moved⟩
  · rw [same, free] at held
    cases held
  · rw [value] at resolved
    obtain ⟨rfl, rfl⟩ := stored_literal_ok resolved
    obtain ⟨pool, assigned, rfl⟩ := takeRegister_ok taken
    rw [same] at assigned
    obtain ⟨soundLater, held, pooled, apart⟩ := sound.assign_free free assigned
    cases ins_ok_iff.mp moved
    exact ⟨_, ⟨rfl, List.prefix_refl _, by simp [Instruction.isScalar, Operand.whole]⟩,
      soundLater, held, pooled, apart⟩

end Emit

namespace Lower

open LoweringState FunctionCode

/--
The code of an arithmetic expression: instructions on registers that leave the word of the
expression in its place, and change no register that was held before.
-/
structure Computed (listing : Listing) (expr : Expr) (before after : LoweringState)
    (code final : FunctionCode) (id : Nat) (issued : List Instruction) : Prop where
  issues : Issues issued code final
  atHand : (typeIn after id).isArithmetic → listing.AtHand final.pool id
  kept : ∀ entry ∈ code.pool.held, entry ∈ final.pool.held
  fresh : listing.IsTemporary id → before.listing.vars.size < id
  reaches : (typeIn after id).isArithmetic →
    ∀ frame : StackFrame, final.frame.slots <+: frame.slots → ∀ machine : Machine,
      machine.Reaches issued fun later =>
        Machine.SameBut (fun reg => reg ∉ code.pool.heldRegs) machine later ∧
          listing.wordOf final.pool frame later id =
            expr.word (listing.reads before.listing.scopes before.scope frame machine)

variable
    {listing : Listing}
    {before after : LoweringState}
    {code final : FunctionCode}
    {line : Nat}
    {expr : Expr}

/-- A constant is at hand without any code. -/
theorem withLiteral_computed
    (read : Text.integer? 64 text = some number)
    (word : ∀ reads, expr.word reads = .ofInt 64 number)
    (grown : (before.withLiteral (.scalar .int text)).listing.Extends listing)
    (emits : listing.Emits before.listing (before.withLiteral (.scalar .int text)).listing
      code final) :
    Computed listing expr before (before.withLiteral (.scalar .int text)) code final
      (before.listing.vars.size + 1) [] := by
  have found := grown.fixed?_of (fixed?_withLiteral_number before read)
  cases emits.eq_of_same_nodes (nodes_withLiteral before _)
  exact
    { issues := .refl _
      atHand := fun _ => .literal found rfl read
      kept := fun _ member => member
      fresh := fun _ => Nat.lt_succ_self _
      reaches := by
        intro _ frame _ machine
        refine .of_next rfl ⟨.refl _, ?_⟩
        simp only [Listing.wordOf, found, word]
        show BitVec.ofInt 64 ((Text.integer? 64 text).getD 0) = _
        rw [read]
        rfl }

/-- A named variable of a scope is at hand without any code. -/
theorem name_computed
    (numbered : listing.Numbered)
    (lowered : expression (.name line name) before = .ok (some id, after))
    (grown : after.listing.Extends listing)
    (emits : listing.Emits before.listing after.listing code final) :
    Computed listing (.name line name) before after code final id [] := by
  obtain ⟨v, resolved, same⟩ := expression_name_ok lowered
  obtain ⟨rfl, number, bound, known, isNamed⟩ := resolve_ok resolved
  cases same
  cases emits.eq_of_same_nodes rfl
  have here : after.listing.fixed? number = some v.fixed := by simp [Listing.fixed?, known]
  have found := grown.fixed?_of here
  have same : v.id = number := numbered number v.fixed found
  rw [same]
  cases storage : v.storage with
  | named label isGlobal isParam position scope =>
      obtain ⟨place, fixedStorage⟩ : ∃ place,
          v.fixed.storage = .named label isGlobal isParam position place := by
        cases isParam <;> simp [Variable.fixed, Storage.fixed, storage]
      exact
        { issues := .refl _
          atHand := fun arithmetic => .named found fixedStorage (by
            simpa [typeIn, here] using arithmetic)
          kept := fun _ member => member
          fresh := by
            rintro ⟨w, _, _, isFound, isTemporary⟩
            cases isFound.symm.trans found
            simp [fixedStorage] at isTemporary
          reaches := by
            intro _ frame _ machine
            refine .of_next rfl ⟨.refl _, ?_⟩
            simp [Listing.wordOf, found, fixedStorage, Expr.word, Listing.reads, bound] }
  | _ => simp [storage, Storage.isNamed] at isNamed

/-- Destroying an operand takes a register from nobody but a temporary. -/
theorem destroyed_issues
    (tidy : before.Tidy)
    (grown : before.listing.Extends listing)
    (sound : code.pool.Sound)
    (emits : listing.Emits before.listing (before.destroyed id).listing code final) :
    Issues [] code final ∧ final.pool.Sound ∧
      ∀ entry ∈ code.pool.held, (entry.1 = id → ¬listing.IsTemporary id) →
        entry ∈ final.pool.held := by
  unfold destroyed at emits
  split at emits
  next isPending =>
    have run := emits.node_of_push (nodes_appended _ _)
    cases Stateful.modify_ok_iff.mp run
    have pending : before.Pending id := by simpa [Pending] using isPending
    obtain ⟨v, name, scope, found, storage⟩ := tidy id pending
    have isTemporary : listing.IsTemporary id := ⟨v, name, scope, grown.fixed?_of found, storage⟩
    refine ⟨⟨rfl, List.prefix_refl _, by simp⟩, sound.release id, ?_⟩
    intro entry member apart
    exact (Pool.mem_held_release fun same => apart same isTemporary).mpr member
  next =>
    cases emits.eq_of_same_nodes rfl
    exact ⟨.refl _, sound, fun _ member _ => member⟩

/-- Copying what is at hand does nothing. -/
theorem materialize_atHand
    {pool : Pool}
    {id copied : Nat}
    (materialized : materialize id line before = .ok (copied, after))
    (grown : before.listing.Extends listing)
    (atHand : listing.AtHand pool id) :
    copied = id ∧ after = before := by
  rcases materialize_ok materialized with ⟨v, _, _, found, storage, _⟩ | ⟨rfl, rfl, _⟩
  · exact (atHand.not_result (grown.fixed?_of found) storage).elim
  · exact ⟨rfl, rfl⟩

/--
An operation on operands that are at hand leaves its word in a free register, and gives
back the registers of its operands only.
-/
theorem operation_computed
    (numbered : listing.Numbered)
    {op : ArithOp}
    {left right id : Nat}
    (operated : operation op left right line before = .ok (id, after))
    (grown : after.listing.Extends listing)
    (emits : listing.Emits before.listing after.listing code final)
    (agrees : before.Agrees code)
    (tidy : before.Tidy)
    (leftAtHand : listing.AtHand code.pool left)
    (rightAtHand : listing.AtHand code.pool right)
    (leftBelow : left ≤ before.listing.vars.size)
    (rightBelow : right ≤ before.listing.vars.size) :
    id = before.listing.vars.size + 1 ∧ listing.AtHand final.pool id ∧
      (∀ entry ∈ code.pool.held,
        (entry.1 = left ∨ entry.1 = right → ¬listing.IsTemporary entry.1) →
          entry ∈ final.pool.held) ∧
      ∃ issued,
        Issues issued code final ∧
          ∀ frame : StackFrame, final.frame.slots <+: frame.slots → ∀ machine : Machine,
            machine.Reaches issued fun later =>
              Machine.SameBut (fun reg => reg ∉ code.pool.heldRegs) machine later ∧
                listing.wordOf final.pool frame later id =
                  op.word (listing.wordOf code.pool frame machine left)
                    (listing.wordOf code.pool frame machine right) := by
  have wholeGrows := (operation_computes operated).extends_.trans grown
  obtain ⟨_, _, leftOperand, rightOperand, middle, between, leftCopied, rightCopied, rfl, rfl⟩ :=
    operation_ok operated
  obtain ⟨rfl, rfl⟩ := materialize_atHand leftCopied wholeGrows leftAtHand
  obtain ⟨rfl, rfl⟩ := materialize_atHand rightCopied wholeGrows rightAtHand
  -- The listings that lowering goes through.
  let added := between.withTemporary .int (.literal "0") true line
  let computed := added.appended
    (.arith (between.listing.vars.size + 1) leftOperand rightOperand op line)
  let released := computed.destroyed leftOperand
  have addedComputes : between.Computes added := computes_withTemporary _ _ _ _ _
  have computedComputes : added.Computes computed := computes_appended _ rfl
  have releasedComputes : computed.Computes released := computes_destroyed _ _
  have tempGrows := addedComputes.extends_
  have arithGrows := computedComputes.extends_
  have firstGrows := releasedComputes.extends_
  have secondGrows := (computes_destroyed released rightOperand).extends_
  obtain ⟨first, tempEmits, emits⟩ := emits.split tempGrows
    (arithGrows.trans (firstGrows.trans secondGrows))
  obtain ⟨second, arithEmits, emits⟩ := emits.split arithGrows (firstGrows.trans secondGrows)
  obtain ⟨third, firstDestroys, secondDestroys⟩ := emits.split firstGrows secondGrows
  have releasedWhole := secondGrows.trans grown
  have computedWhole := firstGrows.trans releasedWhole
  have addedWhole := arithGrows.trans computedWhole
  -- The result gets a register that nobody holds.
  have resultFound := addedWhole.fixed?_of
    (fixed?_withTemporary between .int (.literal "0") true line)
  have declared := tempEmits.declare_of_push
    (nodes_withTemporary between .int (.literal "0") true line)
  obtain ⟨target, declares, firstSound, firstHeld, pooled, targetFree⟩ :=
    Emit.declare_constant numbered resultFound rfl rfl agrees.pool
      (agrees.held.held?_eq_none (Nat.lt_succ_self _)) declared
  have grownHeld : ∀ entry ∈ code.pool.held, entry ∈ first.pool.held := by
    intro entry member
    rw [firstHeld]
    exact List.mem_append_left _ member
  have resultHeld : (between.listing.vars.size + 1, target) ∈ first.pool.held := by
    rw [firstHeld]
    exact List.mem_append_right _ (by simp)
  have rightApart : ∀ reg, first.pool.held? rightOperand = some reg → reg ≠ target := by
    intro reg held same
    have member := Pool.mem_held_of_held? held
    rw [firstHeld] at member
    rcases List.mem_append.mp member with old | new
    · exact targetFree (same ▸ List.mem_map_of_mem old)
    · cases List.mem_singleton.mp new
      exact Nat.not_succ_le_self _ rightBelow
  have arithRun := Emit.atLine_ok_iff.mp (arithEmits.node_of_push (nodes_appended _ _))
  obtain ⟨arithIssued, arithIssues, arithPool, arithReaches⟩ :=
    Emit.arith_atHand numbered firstSound (leftAtHand.of_kept fun _ => grownHeld _)
      (rightAtHand.of_kept fun _ => grownHeld _) pooled resultFound rfl resultHeld rightApart
      arithRun
  -- The operands give their registers back.
  have computedTidy := computedComputes.tidy (addedComputes.tidy tidy)
  rw [← arithPool] at firstSound
  obtain ⟨firstIssues, thirdSound, firstKept⟩ :=
    destroyed_issues computedTidy computedWhole firstSound firstDestroys
  obtain ⟨secondIssues, finalSound, secondKept⟩ :=
    destroyed_issues (releasedComputes.tidy computedTidy) releasedWhole thirdSound secondDestroys
  have kept : ∀ entry ∈ first.pool.held,
      (entry.1 = leftOperand ∨ entry.1 = rightOperand → ¬listing.IsTemporary entry.1) →
        entry ∈ final.pool.held := by
    intro entry member apart
    rw [← arithPool] at member
    refine secondKept entry (firstKept entry member ?_) ?_
    · intro same
      exact same ▸ apart (.inl same)
    · intro same
      exact same ▸ apart (.inr same)
  have finalHeld : (between.listing.vars.size + 1, target) ∈ final.pool.held := by
    refine kept _ resultHeld ?_
    rintro (isLeft | isRight)
    · exact (Nat.not_succ_le_self _ (Nat.le_trans (Nat.le_of_eq isLeft) leftBelow)).elim
    · exact (Nat.not_succ_le_self _ (Nat.le_trans (Nat.le_of_eq isRight) rightBelow)).elim
  refine ⟨rfl, .temporary resultFound rfl finalHeld,
    fun entry member => kept entry (grownHeld entry member), _,
    declares.trans (arithIssues.trans (firstIssues.trans secondIssues)), ?_⟩
  intro frame grownFrame machine
  have secondFrame : second.frame.slots <+: frame.slots :=
    firstIssues.slots.trans (secondIssues.slots.trans grownFrame)
  -- Clearing the register of the result leaves the operands as they are.
  let cleared := machine.set target (.ofInt 64 0)
  have clears : machine.run [.mov (.whole target) (.immediate "0")] = .next cleared := by
    have writable := (Reg.not_scratch_of_pooled pooled).2
    have zero : Text.integer? 64 "0" = some 0 := by decide +kernel
    simp [Machine.run_singleton, Instruction.execute, Instruction.move, Operand.whole,
      Operand.word?, zero, Machine.write, writable, cleared]
  have clearedSame : Machine.SameBut (fun reg => reg = target) machine cleared := .set _ _ rfl
  have operandWord : ∀ operand, listing.AtHand code.pool operand →
      listing.wordOf first.pool frame cleared operand =
        listing.wordOf code.pool frame machine operand := by
    intro operand atHand
    rw [atHand.wordOf_of_kept agrees.pool (arithPool ▸ firstSound) (fun _ => grownHeld _)]
    refine Listing.wordOf_of_sameBut clearedSame ?_ frame
    rintro reg held rfl
    exact targetFree (List.mem_map_of_mem (Pool.mem_held_of_held? held))
  have reaches := arithReaches frame secondFrame cleared
  rw [operandWord _ leftAtHand, operandWord _ rightAtHand] at reaches
  have changes : ∀ reg, Emit.Changes target reg → reg ∉ code.pool.heldRegs := by
    rintro reg (rfl | scratch) member
    · exact targetFree member
    · obtain ⟨entry, held, rfl⟩ := List.mem_map.mp member
      exact (Reg.not_scratch_of_pooled (agrees.pool.mem_pooled held)).1 scratch
  refine (Machine.Reaches.of_next clears rfl).append ?_
  rintro _ rfl
  rw [List.append_nil, List.append_nil]
  refine reaches.mono ?_
  rintro later ⟨same, word⟩
  refine ⟨.trans (clearedSame.mono ?_) (same.mono changes), ?_⟩
  · rintro reg rfl
    exact targetFree
  · simp [Listing.wordOf, resultFound, finalSound.held?_of_mem finalHeld, word]

/-- The code of an arithmetic expression computes its word. -/
theorem expression_computed
    (numbered : listing.Numbered)
    (arithmetic : expr.isArithmetic)
    (lowered : expression expr before = .ok (some id, after))
    (grown : after.listing.Extends listing)
    (emits : listing.Emits before.listing after.listing code final)
    (agrees : before.Agrees code)
    (tidy : before.Tidy) :
    ∃ issued, Computed listing expr before after code final id issued := by
  induction expr using Expr.inductionOn generalizing before after code final id with
  | missing => cases arithmetic
  | array => cases arithmetic
  | element => cases arithmetic
  | call => cases arithmetic
  | name line name => exact ⟨[], name_computed numbered lowered grown emits⟩
  | literal line value =>
      obtain ⟨same, rfl⟩ := expression_literal_ok lowered
      cases same
      unfold Expr.isArithmetic at arithmetic
      split at arithmetic <;> try contradiction
      next known =>
        cases known
        obtain ⟨number, read⟩ := Option.isSome_iff_exists.mp arithmetic
        refine ⟨[], withLiteral_computed read (fun reads => ?_) grown emits⟩
        simp [Expr.word, Expr.literalValue, read, Except.toOption]
  | binary line op left right leftHypothesis rightHypothesis =>
      simp only [Expr.isArithmetic, Bool.and_eq_true] at arithmetic
      rcases expression_binary_ok lowered with
        ⟨_, value, evaluated, same, rfl⟩ |
          ⟨_, leftValue, middle, rightValue, between, result, leftLowered, rightLowered,
            operated, same⟩
      · cases same
        have fits := (Expr.word_of_evaluate (fun _ => .ofNat 64 0) evaluated).1
        refine ⟨[], withLiteral_computed (Text.integer?_toString fits) (fun reads => ?_) grown
          emits⟩
        exact (Expr.word_of_evaluate reads evaluated).2
      · cases same
        have leftComputes := expression_computes leftLowered
        have rightComputes := expression_computes rightLowered
        have leftGrows := leftComputes.extends_
        have rightGrows := rightComputes.extends_
        have resultGrows := (operation_computes operated).extends_
        obtain ⟨one, leftEmits, emits⟩ := emits.split leftGrows (rightGrows.trans resultGrows)
        obtain ⟨two, rightEmits, resultEmits⟩ := emits.split rightGrows resultGrows
        have rightWhole := resultGrows.trans grown
        have leftWhole := rightGrows.trans rightWhole
        obtain ⟨leftIssued, leftComputed⟩ := leftHypothesis arithmetic.1 leftLowered leftWhole
          leftEmits agrees tidy
        have leftTraced := expression_traced numbered leftLowered leftWhole leftEmits agrees
        have leftAgrees := leftTraced.agrees agrees leftGrows
        obtain ⟨rightIssued, rightComputed⟩ := rightHypothesis arithmetic.2 rightLowered
          rightWhole rightEmits leftAgrees (leftComputes.tidy tidy)
        have rightTraced := expression_traced numbered rightLowered rightWhole rightEmits
          leftAgrees
        have rightAgrees := rightTraced.agrees leftAgrees rightGrows
        have leftBelow := Nat.le_trans leftTraced.below rightGrows.size
        -- Both operands have a word, since the operation insists on it.
        obtain ⟨leftType, rightType, _⟩ := operation_ok operated
        have leftSame : typeIn between leftValue = typeIn middle leftValue := by
          unfold typeIn
          rw [rightGrows.stable _ leftTraced.below]
        rw [leftSame] at leftType
        have leftAtHand := (leftComputed.atHand leftType).of_kept fun reg =>
          rightComputed.kept (leftValue, reg)
        obtain ⟨rfl, atHand, kept, issued, issues, reaches⟩ := operation_computed numbered
          operated grown resultEmits rightAgrees (rightComputes.tidy (leftComputes.tidy tidy))
          leftAtHand (rightComputed.atHand rightType) leftBelow rightTraced.below
        refine ⟨leftIssued ++ (rightIssued ++ issued), ?_⟩
        exact
          { issues := leftComputed.issues.trans (rightComputed.issues.trans issues)
            atHand := fun _ => atHand
            kept := by
              intro entry member
              have old : entry.1 ≤ before.listing.vars.size := agrees.held entry member
              refine kept entry (rightComputed.kept entry (leftComputed.kept entry member)) ?_
              rintro (isLeft | isRight) isTemporary
              · have new := leftComputed.fresh (isLeft ▸ isTemporary)
                exact Nat.not_lt_of_le old (isLeft ▸ new)
              · have new := rightComputed.fresh (isRight ▸ isTemporary)
                exact Nat.not_lt_of_le (Nat.le_trans old leftGrows.size) (isRight ▸ new)
            fresh := fun _ =>
              Nat.lt_succ_of_le (Nat.le_trans leftGrows.size rightGrows.size)
            reaches := by
              intro _ frame grownFrame machine
              have rightFrame := issues.slots.trans grownFrame
              have leftFrame := rightComputed.issues.slots.trans rightFrame
              refine (leftComputed.reaches leftType frame leftFrame machine).append ?_
              rintro first ⟨firstSame, leftWord⟩
              refine (rightComputed.reaches rightType frame rightFrame first).append ?_
              rintro second ⟨secondSame, rightWord⟩
              refine (reaches frame grownFrame second).mono ?_
              rintro third ⟨thirdSame, word⟩
              have leftLater : listing.wordOf two.pool frame second leftValue =
                  listing.wordOf one.pool frame first leftValue := by
                rw [(leftComputed.atHand leftType).wordOf_of_kept leftAgrees.pool
                  rightAgrees.pool fun reg => rightComputed.kept (leftValue, reg)]
                refine Listing.wordOf_of_sameBut secondSame ?_ frame
                intro reg held free
                exact free (List.mem_map_of_mem (Pool.mem_held_of_held? held))
              refine ⟨firstSame.trans ((secondSame.mono ?_).trans (thirdSame.mono ?_)), ?_⟩
              · intro reg free member
                exact free (Pool.heldRegs_of_kept leftComputed.kept member)
              · intro reg free member
                exact free (Pool.heldRegs_of_kept rightComputed.kept
                  (Pool.heldRegs_of_kept leftComputed.kept member))
              · rw [word, leftLater, leftWord, rightWord, leftComputes.scopes,
                  scope_of_proceeds leftComputes.toProceeds,
                  Listing.reads_of_sameBut firstSame]
                rfl }

end Lower

end IlsCompiler
