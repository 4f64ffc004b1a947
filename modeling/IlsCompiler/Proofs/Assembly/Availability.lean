import Mathlib.Data.List.Perm.Subperm
import IlsCompiler.Proofs.Assembly.Registers
import IlsCompiler.Proofs.Assembly.Rules
import IlsCompiler.Proofs.Lowering.Locals

namespace IlsCompiler

/-!
# What code holds

While the code of a function is made, the temporaries that are pending hold registers and nobody
else does, and only locals of the function have slots. A variable that is alive can therefore be
found: its temporaries hold their registers already, its locals have slots or get one for which
there is room, and what it refers to are earlier variables, so that the references come to an end.
-/

theorem Variable.isOperand_fixed
    (v : Variable) :
    v.fixed.isOperand = v.isOperand := by
  obtain ⟨id, type, value, preserved, lastUse, storage⟩ := v
  cases storage with
  | named name isGlobal isParam position scope => cases isParam <;> rfl
  | _ => rfl

variable
    {id : VarId}
    {listing : Listing}

/-- What is alive is found, is pending if it is destroyed, and refers to what is alive. -/
theorem Listing.Alive.looked_up
    {pending : List VarId}
    (alive : listing.Alive pending id) :
    ∃ v, listing.lookup? id = some v ∧ (v.needsDestroy → id ∈ pending) ∧
      ∀ next ∈ v.refs, listing.Alive pending next := by
  cases alive with
  | intro found held others =>
      obtain ⟨v, isFound, rfl⟩ := lookup?_of_fixed? found
      exact ⟨v, isFound, by simpa using held, by simpa using others⟩

/-- A variable that is found has the properties of a well-formed one. -/
theorem Listing.WellFormed.looked_up
    (formed : listing.WellFormed)
    {v : Variable}
    (found : listing.lookup? id = some v) :
    (∀ next ∈ v.refs, next < id) ∧ v.storage.WellFormed listing ∧
      (∀ next, v.value.reference? = some next → listing.IsOperand next) ∧
      (v.needsDestroy → v.isOperand) := by
  have known := formed id v.fixed (by simp [fixed?, found])
  refine ⟨by simpa using known.descends, ?_, known.value, ?_⟩
  · have storage := known.storage
    obtain ⟨number, type, value, preserved, lastUse, place⟩ := v
    cases place with
    | named => trivial
    | _ => exact storage
  · simpa [Variable.isOperand_fixed] using known.scalar

/-- A variable that is found has the slot that its kind gives it. -/
theorem Listing.hasSlot_of_lookup?
    {v : Variable}
    (found : listing.lookup? id = some v) :
    listing.hasSlot id = v.hasSlot := by
  simp [hasSlot, fixed?, found, Variable.hasSlot]

namespace FunctionCode

/-- Code with the same registers and slots given away. -/
structure Alike (before after : FunctionCode) : Prop where
  pool : after.pool = before.pool
  slots : after.frame.slots = before.frame.slots
  locals : after.frame.locals = before.frame.locals

theorem Alike.trans
    {first second third : FunctionCode}
    (earlier : first.Alike second)
    (later : second.Alike third) :
    first.Alike third :=
  ⟨later.pool.trans earlier.pool, later.slots.trans earlier.slots,
    later.locals.trans earlier.locals⟩

/--
The temporaries that are pending hold registers and nobody else does. Slots belong to the given
locals, for which the frame has just the room, and the locals that are pending are among them.
-/
structure Holds (listing : Listing) (locals pending : List VarId) (code : FunctionCode) :
    Prop where
  sound : code.pool.Sound
  held : ∀ id ∈ pending, listing.IsTemporary id → (code.pool.held? id).isSome
  only : ∀ entry ∈ code.pool.held, entry.1 ∈ pending
  distinct : pending.Nodup
  known : ∀ id ∈ pending, listing.hasSlot id = true → id ∈ locals
  slots : code.frame.slots.Nodup
  given : code.frame.slots ⊆ locals
  room : locals.length = code.frame.locals

variable
    {listing : Listing}
    {locals pending : List VarId}
    {code after : FunctionCode}

theorem Holds.alike
    (holds : code.Holds listing locals pending)
    (alike : code.Alike after) :
    after.Holds listing locals pending := by
  obtain ⟨pool, slots, room⟩ := alike
  exact
    { sound := pool ▸ holds.sound
      held := fun id member isTemporary => by
        rw [pool]
        exact holds.held id member isTemporary
      only := pool ▸ holds.only
      distinct := holds.distinct
      known := holds.known
      slots := slots ▸ holds.slots
      given := slots ▸ holds.given
      room := room ▸ holds.room }

/-- Whoever is not pending holds no register. -/
theorem Holds.unheld
    (holds : code.Holds listing locals pending)
    (absent : id ∉ pending) :
    code.pool.held? id = none := by
  cases found : code.pool.held? id with
  | none => rfl
  | some reg => exact (absent (holds.only _ (Pool.mem_held_of_held? found))).elim

/-- There is a slot for each of the locals, and it lies within the frame. -/
theorem Holds.slot
    (holds : code.Holds listing locals pending)
    (member : id ∈ locals)
    (name : String) :
    ∃ frame number,
      code.frame.slot id name = .ok (frame, StackFrame.slotAddress number) ∧
        number < code.frame.locals ∧ Holds listing locals pending { code with frame := frame } := by
  unfold StackFrame.slot
  cases placed : code.frame.slots.idxOf? id with
  | some number =>
      have fits : number < code.frame.locals := by
        obtain ⟨inside, -, -⟩ := List.idxOf?_eq_some_iff.mp placed
        have fewer := (holds.slots.subperm holds.given).length_le
        rw [holds.room] at fewer
        exact Nat.lt_of_lt_of_le inside fewer
      exact ⟨_, number, rfl, fits, holds⟩
  | none =>
      have absent : id ∉ code.frame.slots := by
        intro isThere
        have isSome := List.isSome_idxOf?.mpr isThere
        rw [placed] at isSome
        cases isSome
      have distinct : (code.frame.slots ++ [id]).Nodup := by
        simpa [List.nodup_append, absent] using
          ⟨holds.slots, fun other isThere same => absent (same ▸ isThere)⟩
      have within : code.frame.slots ++ [id] ⊆ locals :=
        List.append_subset.mpr ⟨holds.given, by simpa using member⟩
      have fits : code.frame.slots.length < code.frame.locals := by
        have fewer := (List.Nodup.subperm distinct within).length_le
        rwa [List.length_append, List.length_singleton, holds.room] at fewer
      refine ⟨{ code.frame with slots := code.frame.slots ++ [id] }, _, if_pos fits, fits, ?_⟩
      exact { holds with slots := distinct, given := within }

end FunctionCode

namespace Emit

open Stateful FunctionCode

/--
For what emission may refuse a lowered listing: for what it does not support, for symbols that are
defined twice, for want of registers, and where something is odd for operands of a wrong type.
-/
def IsReason (odd : Prop) (code : Code) : Prop :=
  code = .unsupportedFeature ∨ code = .duplicateLabel ∨ code = .registerExhaustion ∨
    code = .invalidOperandType ∧ odd

/-- How emission may refuse a lowered listing. -/
def Refusal (odd : Prop) (failure : Failure) : Prop :=
  failure.IsReported ∧ IsReason odd failure.code

/-- A step that does not fail and gives no register and no slot away. -/
def Plain (step : Emit α) : Prop :=
  ∀ before, ∃ value after, step before = .ok (value, after) ∧ before.Alike after

variable
    {step : Emit α}

section Plain

theorem plain_pure
    (value : α) :
    Plain (pure value) :=
  fun before => ⟨value, before, rfl, rfl, rfl, rfl⟩

theorem plain_ins
    (instruction : Instruction) :
    Plain (ins instruction) :=
  fun _ => ⟨(), _, rfl, rfl, rfl, rfl⟩

theorem plain_closed :
    Closed fun _ step => Plain step where
  pure := plain_pure
  bind first second := by
    intro before
    obtain ⟨found, between, earlier, alike⟩ := first before
    obtain ⟨value, after, later, alikeLater⟩ := second earlier between
    exact ⟨value, after, bind_ok_iff.mpr ⟨found, between, earlier, later⟩, alike.trans alikeLater⟩
  read _ each := fun before => each before before
  ins _ := plain_ins _
  countPushed _ := fun _ => ⟨(), _, rfl, rfl, rfl, rfl⟩

theorem plain_bind
    {next : α → Emit β}
    (first : Plain step)
    (second : ∀ value, Plain (next value)) :
    Plain (step >>= next) :=
  plain_closed.bind first fun _ value _ _ => second value

/-- Steps that neither fail nor call are plain, and so are sequences of them. -/
theorem plain_sequences :
    Sequences (fun _ => True) fun _ wanted step => Plain step ∧ Yields wanted step :=
  plain_closed.sequences

theorem plain_epilogue :
    Plain epilogue :=
  (plain_sequences.epilogue fun _ _ =>
    ⟨fun _ => ⟨(), _, rfl, rfl, rfl, rfl⟩, fun _ _ _ _ => trivial⟩).1

end Plain

variable
    {listing : Listing}
    {locals pending : List VarId}
    {odd : Prop}
    {code : FunctionCode}

theorem Plain.ensures
    (plain : Plain step)
    {allowed : Failure → Prop}
    (holds : code.Holds listing locals pending) :
    Ensures allowed (fun _ after => after.Holds listing locals pending) step code := by
  obtain ⟨value, after, run, alike⟩ := plain code
  exact ensures_of_ok run (holds.alike alike)

end Emit

/-!
## Operands are available

The operand of a variable that is alive is found: every reference leads to an earlier variable that
exists, temporaries are in registers, locals in slots, and a pending call fits the function that it
calls. What emission may still refuse is a value of a kind that it has no code for.
-/

namespace Emit

open Stateful FunctionCode

variable
    {listing : Listing}
    {locals pending : List VarId}
    {odd : Prop}
    {code : FunctionCode}

theorem ensures_fail
    {fault : EmissionFault}
    {line : Nat}
    {wanted : α → FunctionCode → Prop}
    (isReason : IsReason odd fault.code) :
    Ensures (Refusal odd) wanted (fail fault line : Emit α) code :=
  ensures_throw ⟨rfl, isReason⟩

/-- An operand that is a number is the text of a constant. -/
def IsConstant (listing : Listing) (id : VarId) (operand : Operand) : Prop :=
  ∀ text, operand = .immediate text →
    ∃ v, listing.lookup? id = some v ∧ v.storage = .literal ∧ v.value.text = text

theorem isConstant_register
    (listing : Listing)
    (id : VarId)
    (reg : Reg) :
    IsConstant listing id (.whole reg) :=
  fun _ isText => nomatch isText

theorem isConstant_memory
    (listing : Listing)
    (id : VarId)
    (address : Address)
    (width : Nat) :
    IsConstant listing id (.memory address width) :=
  fun _ isText => nomatch isText

/-- What finding an operand leaves behind. -/
def Finds (listing : Listing) (locals pending : List VarId) (id : VarId) (operand : Operand)
    (after : FunctionCode) : Prop :=
  after.Holds listing locals pending ∧ IsConstant listing id operand

theorem namedOperand_ensures
    {v : Variable}
    {id : VarId}
    {name : String}
    {isGlobal isParam : Bool}
    {position scope : Nat}
    (storage : v.storage = .named name isGlobal isParam position scope)
    (scalar : v.type.isArray = false ∨ odd)
    (known : v.hasSlot = true → v.id ∈ locals)
    (holds : code.Holds listing locals pending) :
    Ensures (Refusal odd) (Finds listing locals pending id)
      (namedOperand v name isGlobal isParam position) code := by
  unfold namedOperand
  split
  next isArray =>
    refine ensures_fail (.inr (.inr (.inr ⟨rfl, scalar.resolve_left ?_⟩)))
    simp [isArray]
  next =>
    split
    · exact ensures_fail (.inl rfl)
    next =>
      split
      · exact ensures_of_ok rfl ⟨holds, isConstant_memory _ _ _ _⟩
      next notGlobal =>
        unfold slotOperand
        split
        · exact ensures_of_ok rfl ⟨holds, isConstant_memory _ _ _ _⟩
        next notParam =>
          have hasSlot : v.hasSlot = true := by
            simp [Variable.hasSlot, Variable.needsDestroy, Storage.isNamed, storage, notGlobal,
              notParam]
          obtain ⟨frame, number, placed, _, keeps⟩ := holds.slot (known hasSlot) name
          refine ensures_get ?_
          simp only [placed]
          exact ensures_of_ok rfl ⟨keeps, isConstant_memory _ _ _ _⟩

/-- The address of an element is found where a constant index is a number. -/
theorem elementAt_ensures
    {array : String}
    {width : Nat}
    {scratch : Reg}
    {index : Operand}
    (numeric : ∀ text, index = .immediate text → (Text.integer? 64 text).isSome)
    (holds : code.Holds listing locals pending) :
    Ensures (Refusal odd) (Finds listing locals pending id)
      (elementAt array width scratch index) code := by
  unfold elementAt
  cases index with
  | immediate text =>
      simp only [constantElement]
      cases read : Text.integer? 64 text with
      | none => simp [read] at numeric
      | some position =>
          simp only
          split <;> exact ensures_of_ok rfl ⟨holds, isConstant_memory _ _ _ _⟩
  | register reg size => exact ensures_of_ok rfl ⟨holds, isConstant_memory _ _ _ _⟩
  | memory address size =>
      exact ensures_bind ((plain_sequences.moveInto _ trivial).1.ensures holds) fun _ _ keeps =>
        ensures_of_ok rfl ⟨keeps, isConstant_memory _ _ _ _⟩

/-- A call of a declared function is made when its arguments can be found. -/
theorem userCall_ensures
    {call : Call}
    {depth : Nat}
    (formed : call.WellFormed listing)
    (notBuiltin : call.builtin = false)
    (each : ∀ id ∈ call.arguments, ∀ scratch state, state.Holds listing locals pending →
      Ensures (Refusal odd) (Finds listing locals pending id)
        (resolve listing depth id scratch) state)
    (holds : code.Holds listing locals pending) :
    Ensures (Refusal odd) (fun _ after => after.Holds listing locals pending)
      (userCall listing (depth + 1) call) code := by
  obtain ⟨_, fits⟩ := formed
  rw [if_neg (by simp [notBuiltin])] at fits
  obtain ⟨function, isFunction, _, arity⟩ := fits
  rw [userCall]
  refine ensures_get ?_
  split
  · exact ensures_of_ok rfl holds
  · refine ensures_modify ?_
    have counted : Holds listing locals pending
        { code with calls := code.calls ++ [call.id] } := holds.alike ⟨rfl, rfl, rfl⟩
    simp only [isFunction, arity, ne_eq, not_true_eq_false, ↓reduceIte]
    refine ensures_bind ((plain_sequences.saveLive _).1.ensures counted) fun saved _ keepsFirst => ?_
    refine ensures_bind (ensures_forM (fun id member state keeps => ?_) keepsFirst)
      fun _ _ keepsSecond => ?_
    · refine ensures_bind (each id (by simpa using member) _ _ keeps) fun operand _ found => ?_
      exact ensures_bind ((plain_sequences.settle _ _ trivial).1.ensures found.1) fun _ _ settled =>
        (plain_sequences.push trivial).1.ensures settled
    · exact (plain_bind (plain_ins _) fun _ => plain_bind (plain_sequences.dropArguments _).1
        fun _ => (plain_sequences.restoreLive _).1).ensures keepsSecond

/--
The operand of a variable that is alive is found. The recursion ends because references lead to
earlier variables, and each of them takes at most three steps.
-/
theorem resolve_ensures
    (numbered : listing.Numbered)
    (formed : listing.WellFormed)
    {id : Nat}
    {depth : Nat}
    (scratch : Reg)
    (alive : listing.Alive pending id)
    (valued : listing.IsOperand id ∨ odd)
    (fuel : 3 * id + 1 ≤ depth)
    (holds : code.Holds listing locals pending) :
    Ensures (Refusal odd) (Finds listing locals pending id)
      (resolve listing depth id scratch) code := by
  induction id using Nat.strongRecOn generalizing depth scratch code with
  | _ id inductionHypothesis =>
      obtain ⟨v, found, held, others⟩ := alive.looked_up
      obtain ⟨descends, place, _, _⟩ := formed.looked_up found
      have known : listing.fixed? id = some v.fixed := by simp [Listing.fixed?, found]
      have number : v.id = id := numbered id v.fixed known
      obtain ⟨less, rfl⟩ : ∃ less, depth = less + 1 := ⟨depth - 1, by omega⟩
      have scalar : v.isOperand ∨ odd := by
        refine valued.imp_left ?_
        rintro ⟨w, isFound, isOperand⟩
        rw [Listing.fixed?, found, Option.map_some, Option.some.injEq] at isFound
        rwa [← isFound, Variable.isOperand_fixed] at isOperand
      rw [resolve]
      simp only [found]
      cases storage : v.storage with
      | literal =>
          refine ensures_of_ok rfl ⟨holds, fun text isText => ⟨v, found, storage, ?_⟩⟩
          cases isText
          rfl
      | named name isGlobal isParam position scope =>
          refine namedOperand_ensures storage ?_ ?_ holds
          · exact scalar.imp_left fun isOperand => by simpa [Variable.isOperand, storage] using isOperand
          · intro isLocal
            rw [number]
            exact holds.known id (held (Variable.needsDestroy_of_hasSlot isLocal))
              (by rw [Listing.hasSlot_of_lookup? found, isLocal])
      | temporary name scope =>
          have destroyed : v.needsDestroy = true := by simp [Variable.needsDestroy, storage]
          have isTemporary : listing.IsTemporary id :=
            ⟨v.fixed, name, scope, known, Variable.fixed_temporary_iff.mpr storage⟩
          obtain ⟨reg, inReg⟩ := Option.isSome_iff_exists.mp
            (holds.held id (held destroyed) isTemporary)
          have positive := (Listing.le_size_of_fixed? known).1
          obtain ⟨fewer, rfl⟩ : ∃ fewer, less = fewer + 1 := ⟨less - 1, by omega⟩
          dsimp only
          rw [temporary]
          refine ensures_bind (ensures_get ?_) fun reg _ keeps =>
            ensures_of_ok rfl ⟨keeps, isConstant_register _ _ _⟩
          simp only [number, inReg]
          exact ensures_of_ok rfl holds
      | element owner index =>
          rw [storage] at place
          obtain ⟨⟨w, isOwner, isNamed⟩, isOperand, numeric⟩ := place
          have below : @LT.lt Nat _ index id :=
            descends index (by simp [Variable.refs, storage, Storage.refs])
          have positive := (Listing.le_size_of_fixed? known).1
          obtain ⟨fewer, rfl⟩ : ∃ fewer, less = fewer + 1 := ⟨less - 1, by omega⟩
          obtain ⟨whole, isWhole, rfl⟩ := Listing.lookup?_of_fixed? isOwner
          rw [Variable.isNamed_fixed] at isNamed
          dsimp only
          rw [element]
          simp only [isWhole]
          cases ownerPlace : whole.storage with
          | named name isGlobal isParam position scope =>
              obtain ⟨number, type, value, preserved, lastUse, other⟩ := whole
              cases ownerPlace
              simp only
              split
              · refine ensures_bind (inductionHypothesis index below scratch
                  (others index (by simp [Variable.refs, storage, Storage.refs])) (.inl isOperand)
                  (by omega) holds) fun operand _ finds => ?_
                refine elementAt_ensures (fun text isText => ?_) finds.1
                obtain ⟨u, isIndex, isLiteral, rfl⟩ := finds.2 text isText
                exact numeric u.fixed (by simp [Listing.fixed?, isIndex])
                  (Variable.fixed_literal_iff.mpr isLiteral)
              · exact ensures_fail (.inl rfl)
          | _ => simp [ownerPlace, Storage.isNamed] at isNamed
      | result function call =>
          rw [storage] at place
          have below : ∀ next : Nat, next ∈ call.arguments → next < id := fun next member =>
            descends next (by simp [Variable.refs, storage, Storage.refs, member])
          have positive := (Listing.le_size_of_fixed? known).1
          obtain ⟨fewer, rfl⟩ : ∃ fewer, less = fewer + 1 := ⟨less - 1, by omega⟩
          refine ensures_bind (userCall_ensures place.2 place.1 ?_ holds) fun _ _ keeps =>
            ensures_of_ok rfl ⟨keeps, isConstant_register _ _ _⟩
          intro (next : Nat) member register state keeps
          have isBelow := below next member
          refine inductionHypothesis next isBelow register
            (others next (by simp [Variable.refs, storage, Storage.refs, member])) (.inl ?_)
            (by omega) keeps
          obtain ⟨w, isArgument, passed⟩ := place.2.1 next member
          refine ⟨w, isArgument, ?_⟩
          unfold Variable.isOperand
          cases isStorage : w.storage <;> simp_all [Storage.isPassed]
      | array element length init =>
          refine ensures_fail (.inr (.inr (.inr ⟨rfl, scalar.resolve_left ?_⟩)))
          simp [Variable.isOperand, storage]

end Emit

end IlsCompiler
