import IlsCompiler.Proofs.Assembly.Availability

namespace IlsCompiler

/-!
# What emission refuses in a function

A node that a ledger allows and that is well formed becomes code, or is refused for something that
emission does not support or has no registers for. Behind it the registers and slots are as the
ledger says: a declared temporary has got its register, and a destroyed one has given it back.
-/

variable
    {listing : Listing}

/-- Earlier variables need nothing that is declared later. -/
theorem Listing.Alive.earlier
    (formed : listing.WellFormed)
    {pending : List VarId}
    {id next : Nat}
    (alive : listing.Alive (pending ++ [id]) next)
    (below : next < id) :
    listing.Alive pending next := by
  induction alive with
  | @intro number v found held _ inductionHypothesis =>
      refine .intro found (fun destroyed => ?_) fun other member => ?_
      · refine (List.mem_append.mp (held destroyed)).resolve_right fun same => ?_
        exact Nat.ne_of_lt below (List.mem_singleton.mp same)
      · exact inductionHypothesis other member
          (Nat.lt_trans ((formed number v found).descends other member) below)

variable
    {id : VarId}

theorem Listing.IsPassed.isOperand
    (isPassed : listing.IsPassed id) :
    listing.IsOperand id := by
  obtain ⟨v, found, passed⟩ := isPassed
  refine ⟨v, found, ?_⟩
  unfold Variable.isOperand
  cases storage : v.storage <;> simp_all [Storage.isPassed]

/--
Something that lowering lets pass and emission may have no code for: an element that is an array
itself, an array that is returned, or an operation that is none.
-/
def Node.IsOdd (listing : Listing) (function : Signature) : Node → Prop
  | .assign target _ _ _ _ => ∃ v, listing.fixed? target = some v ∧ v.type.element.isArray
  | .arith _ _ _ op _ => op = .unknown
  | .leave _ _ => function.result.isArray
  | _ => False

namespace FunctionCode

variable
    {listing : Listing}
    {locals pending : List VarId}
    {code : FunctionCode}

/-- A local is declared without a register. -/
theorem Holds.declared
    (holds : code.Holds listing locals pending)
    (absent : id ∉ pending)
    (isNamed : ¬listing.IsTemporary id)
    (known : id ∈ locals) :
    code.Holds listing locals (pending ++ [id]) where
  sound := holds.sound
  held := by
    intro other member isTemporary
    rcases List.mem_append.mp member with old | new
    · exact holds.held other old isTemporary
    · exact (isNamed (List.mem_singleton.mp new ▸ isTemporary)).elim
  only := fun entry member => List.mem_append_left _ (holds.only entry member)
  distinct := by
    simpa [List.nodup_append, absent] using
      ⟨holds.distinct, fun other member same => absent (same ▸ member)⟩
  known := by
    intro other member isLocal
    rcases List.mem_append.mp member with old | new
    · exact holds.known other old isLocal
    · exact List.mem_singleton.mp new ▸ known
  slots := holds.slots
  given := holds.given
  room := holds.room

/-- A temporary is declared and gets a register. -/
theorem Holds.taken
    (holds : code.Holds listing locals pending)
    (absent : id ∉ pending)
    (isTemporary : listing.hasSlot id = false)
    {pool : Pool}
    {mustSurvive : Bool}
    {reg : Reg}
    (assigned : code.pool.assign id mustSurvive = .ok (pool, reg)) :
    Holds listing locals (pending ++ [id]) { code with pool := pool } := by
  obtain ⟨sound, held, _, _⟩ := holds.sound.assign_free (holds.unheld absent) assigned
  exact
    { sound := sound
      held := by
        intro other member isOther
        obtain ⟨register, inRegister⟩ : ∃ register, (other, register) ∈ pool.held := by
          rw [held]
          rcases List.mem_append.mp member with old | new
          · obtain ⟨register, isHeld⟩ := Option.isSome_iff_exists.mp (holds.held other old isOther)
            exact ⟨register, List.mem_append_left _ (Pool.mem_held_of_held? isHeld)⟩
          · exact ⟨reg, List.mem_append_right _ (by simp [List.mem_singleton.mp new])⟩
        show (pool.held? other).isSome
        rw [sound.held?_of_mem inRegister]
        rfl
      only := by
        intro entry member
        change entry ∈ pool.held at member
        rw [held] at member
        rcases List.mem_append.mp member with old | new
        · exact List.mem_append_left _ (holds.only entry old)
        · exact List.mem_append_right _ (by simp [List.mem_singleton.mp new])
      distinct := by
        simpa [List.nodup_append, absent] using
          ⟨holds.distinct, fun other member same => absent (same ▸ member)⟩
      known := by
        intro other member isLocal
        rcases List.mem_append.mp member with old | new
        · exact holds.known other old isLocal
        · rw [List.mem_singleton.mp new, isTemporary] at isLocal
          cases isLocal
      slots := holds.slots
      given := holds.given
      room := holds.room }

/-- A variable that is destroyed gives back its register if it has one. -/
theorem Holds.released
    (holds : code.Holds listing locals pending)
    (id : VarId) :
    Holds listing locals (pending.erase id) { code with pool := code.pool.release id } where
  sound := holds.sound.release id
  held := by
    intro other member isTemporary
    obtain ⟨differs, old⟩ := holds.distinct.mem_erase_iff.mp member
    obtain ⟨register, isHeld⟩ := Option.isSome_iff_exists.mp (holds.held other old isTemporary)
    have inRegister := (@Pool.mem_held_release code.pool id (other, register) differs).mpr
      (Pool.mem_held_of_held? isHeld)
    show ((code.pool.release id).held? other).isSome
    rw [(holds.sound.release id).held?_of_mem inRegister]
    rfl
  only := by
    intro entry member
    have differs : entry.1 ≠ id := Pool.not_mem_held_release member
    exact (List.mem_erase_of_ne differs).mpr
      (holds.only entry ((Pool.mem_held_release differs).mp member))
  distinct := holds.distinct.erase id
  known := fun other member => holds.known other (List.mem_of_mem_erase member)
  slots := holds.slots
  given := holds.given
  room := holds.room

end FunctionCode

namespace Emit

open Stateful FunctionCode

variable
    {listing : Listing}
    {function : Signature}
    {locals pending : List VarId}
    {odd : Prop}
    {code : FunctionCode}

/-- What is allowed of a step stays allowed when its failures get a line. -/
theorem ensures_atLine
    {line : Nat}
    {wanted : α → FunctionCode → Prop}
    {step : Emit α}
    (ensures : Ensures (Refusal odd) wanted step code) :
    Ensures (Refusal odd) wanted (atLine line step) code where
  fails failure failed := by
    unfold atLine at failed
    cases run : step code with
    | ok result => simp [run] at failed
    | error found =>
        simp only [run, Except.error.injEq] at failed
        subst failed
        simpa [Refusal] using ensures.fails found run
  holds value after run := ensures.holds value after (atLine_ok_iff.mp run)

variable
    {id : Nat}

/-- Whatever is alive is found within the depth that code is made with. -/
theorem depth_enough
    (alive : listing.Alive pending id) :
    3 * id + 3 ≤ depth listing := by
  have inside : id ≤ listing.vars.size := alive.le_size
  unfold depth
  omega

variable
    {name : String}
    {v : Variable}

/-- A register is taken for a temporary, or there is none left. -/
theorem takeRegister_ensures
    {id : VarId}
    (number : v.id = id)
    (absent : id ∉ pending)
    (isTemporary : listing.hasSlot id = false)
    (holds : code.Holds listing locals pending) :
    Ensures (Refusal odd) (fun _ after => after.Holds listing locals (pending ++ [id]))
      (takeRegister name v) code := by
  subst number
  unfold takeRegister
  refine ensures_get ?_
  cases assigned : code.pool.assign v.id v.preserved with
  | error shortage =>
      refine ensures_fail (.inr (.inr (.inl ?_)))
      cases shortage <;> rfl
  | ok result => exact ensures_of_ok rfl (holds.taken absent isTemporary assigned)

section Operands

variable
    (numbered : listing.Numbered)
    (formed : listing.WellFormed)

include numbered formed

theorem load_ensures
    {reg : Reg}
    (alive : listing.Alive pending id)
    (valued : listing.IsOperand id ∨ odd)
    (holds : code.Holds listing locals pending) :
    Ensures (Refusal odd) (fun _ after => after.Holds listing locals pending)
      (load listing reg id) code := by
  have enough := depth_enough alive
  refine ensures_bind (resolve_ensures numbered formed _ alive valued (by omega) holds)
    fun _ _ finds => ?_
  exact (plain_sequences.moveInto _ trivial).1.ensures finds.1

theorem operable_ensures
    {scratch : Reg}
    (alive : listing.Alive pending id)
    (valued : listing.IsOperand id ∨ odd)
    (holds : code.Holds listing locals pending) :
    Ensures (Refusal odd) (fun _ after => after.Holds listing locals pending)
      (operable listing id scratch) code := by
  have enough := depth_enough alive
  refine ensures_bind (resolve_ensures numbered formed _ alive valued (by omega) holds)
    fun _ _ finds => ?_
  exact (plain_sequences.settle _ _ trivial).1.ensures finds.1

/-- A stored value is a constant, or the operand of the variable that it is taken from. -/
theorem stored_ensures
    {value : Value}
    {less : Nat}
    (enough : depth listing ≤ less + 2)
    (alive : ∀ next, value.reference? = some next → listing.Alive pending next)
    (valued : ∀ next, value.reference? = some next → listing.IsOperand next ∨ odd)
    (holds : code.Holds listing locals pending) :
    Ensures (Refusal odd) (fun _ after => after.Holds listing locals pending)
      (stored listing (less + 1) value) code := by
  cases value with
  | literal text =>
      rw [stored]
      exact ensures_of_ok rfl holds
  | reference next =>
      rw [stored]
      have isAlive := alive next rfl
      have fuel := depth_enough isAlive
      obtain ⟨v, found, -⟩ := isAlive.looked_up
      simp only [found]
      exact (resolve_ensures numbered formed _ isAlive (valued next rfl) (by omega) holds).mono
        fun _ _ finds => finds.1

/-- A temporary that is declared gets a register for its value, or there is none left. -/
theorem temporary_ensures
    {scope less : Nat}
    (enough : depth listing ≤ less + 2)
    (found : listing.lookup? id = some v)
    (storage : v.storage = .temporary name scope)
    (absent : id ∉ pending)
    (alive : listing.Alive (pending ++ [id]) id)
    (holds : code.Holds listing locals pending) :
    Ensures (Refusal odd) (fun _ after => after.Holds listing locals (pending ++ [id]))
      (temporary listing (less + 2) v name) code := by
  have known : listing.fixed? id = some v.fixed := by simp [Listing.fixed?, found]
  have number : v.id = id := numbered id v.fixed known
  obtain ⟨descends, -, refers, -⟩ := formed.looked_up found
  have member : ∀ next, v.value.reference? = some next → next ∈ v.refs := by
    intro next isNext
    simp [Variable.refs, isNext]
  obtain ⟨w, isFound, -, others⟩ := alive.looked_up
  rw [found, Option.some.injEq] at isFound
  subst isFound
  rw [temporary]
  refine ensures_get ?_
  simp only [number, holds.unheld absent]
  refine ensures_bind (stored_ensures numbered formed enough
    (fun next isNext => Listing.Alive.earlier formed (others next (member next isNext))
      (descends next (member next isNext)))
    (fun next isNext => .inl (refers next isNext)) holds) fun source middle keeps => ?_
  refine ensures_bind (takeRegister_ensures number absent ?_ keeps) fun reg after taken => ?_
  · rw [Listing.hasSlot_of_lookup? found]
    simp [Variable.hasSlot, Storage.isNamed, storage]
  · exact ensures_bind ((plain_sequences.moveInto _ trivial).1.ensures taken) fun _ _ settled =>
      ensures_of_ok rfl settled

/-- The place of a named variable that is no array is found, and so is that of a known element. -/
theorem storeValue_ensures
    {target : Variable}
    {isGlobal isParam : Bool}
    {position scope : Nat}
    {selected : Nat}
    {value : Value}
    (storage : target.storage = .named name isGlobal isParam position scope)
    (known : target.hasSlot = true → target.id ∈ locals)
    (place : if selected = 0 then
        target.type.isArray = false
      else
        listing.Alive pending selected ∧
          ∃ v owner index, listing.lookup? selected = some v ∧ v.storage = .element owner index)
    (alive : ∀ next, value.reference? = some next → listing.Alive pending next)
    (valued : ∀ next, value.reference? = some next → listing.IsOperand next ∨ odd)
    (holds : code.Holds listing locals pending) :
    Ensures (Refusal odd) (fun _ after => after.Holds listing locals pending)
      (storeValue listing target selected value) code := by
  have enough : depth listing = (depth listing - 1) + 1 := by unfold depth; omega
  unfold storeValue
  rw [enough]
  refine ensures_bind (stored_ensures numbered formed (by omega) alive valued holds)
    fun operand first keeps => ?_
  refine ensures_bind ((plain_sequences.settle _ _ trivial).1.ensures keeps)
    fun source second settled => ?_
  simp only [storage]
  by_cases whole : selected = 0
  · rw [if_pos whole] at place ⊢
    refine ensures_bind (@namedOperand_ensures listing locals pending odd second target 0 _ _ _ _ _
      storage (.inl place) known settled) fun _ _ finds => ?_
    exact (plain_sequences.store trivial trivial).1.ensures finds.1
  · rw [if_neg whole] at place ⊢
    obtain ⟨alive, v, owner, index, isSelected, isElement⟩ := place
    obtain ⟨number, type, initial, preserved, lastUse, inside⟩ := v
    cases isElement
    simp only [isSelected]
    -- The address of an element is found in the same way as the element as an operand.
    have fuel := depth_enough alive
    have finds := @resolve_ensures listing locals pending odd second numbered formed selected
      (depth listing + 1) Reg.targetIndex alive
      (.inl ⟨_, by simp [Listing.fixed?, isSelected]; rfl, rfl⟩) (by omega) settled
    rw [resolve] at finds
    simp only [isSelected] at finds
    rw [enough] at finds
    exact ensures_bind finds fun _ _ addressed =>
      (plain_sequences.store trivial trivial).1.ensures addressed.1

theorem declare_ensures
    (found : listing.lookup? id = some v)
    (destroyed : v.needsDestroy = true)
    (absent : id ∉ pending)
    (alive : listing.Alive (pending ++ [id]) id)
    (known : v.hasSlot = true → id ∈ locals)
    (holds : code.Holds listing locals pending) :
    Ensures (Refusal odd) (fun _ after => after.Holds listing locals (pending ++ [id]))
      (declare listing id) code := by
  have isFixed : listing.fixed? id = some v.fixed := by simp [Listing.fixed?, found]
  have number : v.id = id := numbered id v.fixed isFixed
  have enough : depth listing = (depth listing - 2) + 2 := by unfold depth; omega
  unfold declare
  simp only [found]
  cases storage : v.storage with
  | temporary name scope =>
      simp only
      rw [enough]
      refine ensures_bind (temporary_ensures numbered formed (by omega) found storage absent alive
        holds) fun _ _ keeps => ensures_of_ok rfl keeps
  | named name isGlobal isParam position scope =>
      have isLocal : isGlobal = false ∧ isParam = false := by
        simpa [Variable.needsDestroy, storage] using destroyed
      have hasSlot : v.hasSlot = true := by simp [Variable.hasSlot, destroyed, storage, Storage.isNamed]
      have isNamed : ¬listing.IsTemporary id := by
        rintro ⟨w, other, inner, isFound, isTemporary⟩
        rw [isFixed, Option.some.injEq] at isFound
        rw [← isFound, Variable.fixed_temporary_iff, storage] at isTemporary
        cases isTemporary
      obtain ⟨-, -, refers, scalar⟩ := formed.looked_up found
      obtain ⟨w, isFound, -, others⟩ := alive.looked_up
      rw [found, Option.some.injEq] at isFound
      subst isFound
      simp only [isLocal.1, isLocal.2]
      refine storeValue_ensures numbered formed storage (fun _ => number ▸ known hasSlot) ?_ ?_ ?_
        (holds.declared absent isNamed (known hasSlot))
      · rw [if_pos rfl]
        simpa [Variable.isOperand, storage] using scalar destroyed
      · intro next isNext
        exact others next (by simp [Variable.refs, isNext])
      · exact fun next isNext => .inl (refers next isNext)
  | _ => simp [Variable.needsDestroy, storage] at destroyed

theorem assign_ensures
    {target selected line : Nat}
    {value : Value}
    {type : Ty}
    (nodeFormed : (Node.assign target value type selected line).WellFormed (some function) listing)
    (alive : ∀ id ∈ (Node.assign target value type selected line).uses, listing.Alive pending id)
    (allowed : (Node.assign target value type selected line).IsOdd listing function → odd)
    (holds : code.Holds listing locals pending) :
    Ensures (Refusal odd) (fun _ after => after.Holds listing locals pending)
      (assign listing target value selected) code := by
  obtain ⟨w, isFixed, isNamed, -, selects, refers⟩ := nodeFormed
  obtain ⟨v, found, rfl⟩ := Listing.lookup?_of_fixed? isFixed
  have number : v.id = target := numbered target v.fixed isFixed
  have targetAlive : listing.Alive pending target :=
    alive target (Node.mem_uses_of_operands (by simp only [Node.operands]; split <;> simp))
  obtain ⟨v', isFound, held, -⟩ := targetAlive.looked_up
  rw [found, Option.some.injEq] at isFound
  subst isFound
  rw [Variable.isNamed_fixed] at isNamed
  unfold assign
  simp only [found]
  cases storage : v.storage with
  | named name isGlobal isParam position scope =>
      refine storeValue_ensures numbered formed storage ?_ ?_ ?_ ?_ holds
      · intro hasSlot
        rw [number]
        exact holds.known target (held (Variable.needsDestroy_of_hasSlot hasSlot))
          (by rw [Listing.hasSlot_of_lookup? found, hasSlot])
      · by_cases whole : selected = 0
        · rw [if_pos whole] at selects ⊢
          exact selects
        · rw [if_neg whole] at selects ⊢
          obtain ⟨u, owner, index, isSelected, isElement⟩ := selects
          obtain ⟨u', selectedFound, rfl⟩ := Listing.lookup?_of_fixed? isSelected
          refine ⟨?_, u', owner, index, selectedFound, Variable.fixed_element_iff.mp isElement⟩
          exact alive selected (Node.mem_uses_of_operands (by simp [Node.operands, whole]))
      · intro next isNext
        exact alive next (by simp [Node.uses, isNext])
      · intro next isNext
        exact (refers next isNext).imp_right fun isArray => allowed ⟨v.fixed, isFixed, isArray⟩
  | _ => simp [storage, Storage.isNamed] at isNamed

theorem arith_ensures
    {result left right line : Nat}
    {op : ArithOp}
    (nodeFormed : (Node.arith result left right op line).WellFormed (some function) listing)
    (alive : ∀ id ∈ (Node.arith result left right op line).uses, listing.Alive pending id)
    (allowed : op = .unknown → odd)
    (holds : code.Holds listing locals pending) :
    Ensures (Refusal odd) (fun _ after => after.Holds listing locals pending)
      (arith listing result left right op) code := by
  obtain ⟨isTemporary, leftValued, rightValued⟩ := nodeFormed
  have resultAlive := alive result (by simp [Node.uses, Node.operands])
  have leftAlive := alive left (by simp [Node.uses, Node.operands])
  have rightAlive := alive right (by simp [Node.uses, Node.operands])
  obtain ⟨v, found, held, -⟩ := resultAlive.looked_up
  have isFixed : listing.fixed? result = some v.fixed := by simp [Listing.fixed?, found]
  have number : v.id = result := numbered result v.fixed isFixed
  obtain ⟨w, name, scope, isFound, storage⟩ := isTemporary
  rw [isFixed, Option.some.injEq] at isFound
  rw [← isFound, Variable.fixed_temporary_iff] at storage
  obtain ⟨reg, inReg⟩ := Option.isSome_iff_exists.mp (holds.held result
    (held (by simp [Variable.needsDestroy, storage]))
    ⟨v.fixed, name, scope, isFixed, Variable.fixed_temporary_iff.mpr storage⟩)
  have enough : depth listing = (depth listing - 1) + 1 := by unfold depth; omega
  have taken : Ensures (Refusal odd) (fun _ after => after.Holds listing locals pending)
      (resultRegister listing result) code := by
    unfold resultRegister
    simp only [found, storage]
    rw [enough, temporary]
    refine ensures_get ?_
    simp only [number, inReg]
    exact ensures_of_ok rfl holds
  have divides : ∀ target answer state, state.Holds listing locals pending →
      Ensures (Refusal odd) (fun _ after => after.Holds listing locals pending)
        (divide listing target left right answer) state := by
    intro target answer state keeps
    refine ensures_bind (load_ensures numbered formed leftAlive (.inl leftValued) keeps)
      fun _ _ first => ?_
    refine ensures_bind (load_ensures numbered formed rightAlive (.inl rightValued) first)
      fun _ _ second => ?_
    exact (plain_bind (plain_ins _) fun _ => plain_bind (plain_ins _) fun _ =>
      plain_ins _).ensures second
  refine ensures_bind taken fun target state keeps => ?_
  cases op with
  | div => exact divides _ _ _ keeps
  | mod => exact divides _ _ _ keeps
  | _ =>
      refine ensures_bind (load_ensures numbered formed leftAlive (.inl leftValued) keeps)
        fun _ _ first => ?_
      refine ensures_bind (operable_ensures numbered formed rightAlive (.inl rightValued) first)
        fun _ _ second => ?_
      first
        | exact (plain_ins _).ensures second
        | exact ensures_fail (.inr (.inr (.inr ⟨rfl, allowed rfl⟩)))

theorem compare_ensures
    {left right line : Nat}
    (nodeFormed : (Node.compare left right line).WellFormed (some function) listing)
    (alive : ∀ id ∈ (Node.compare left right line).uses, listing.Alive pending id)
    (holds : code.Holds listing locals pending) :
    Ensures (Refusal odd) (fun _ after => after.Holds listing locals pending)
      (compare listing left right) code := by
  have leftAlive := alive left (by simp [Node.uses, Node.operands])
  have rightAlive := alive right (by simp [Node.uses, Node.operands])
  have enough := depth_enough leftAlive
  refine ensures_bind (operable_ensures numbered formed rightAlive (.inl nodeFormed.2) holds)
    fun _ _ first => ?_
  refine ensures_bind (resolve_ensures numbered formed _ leftAlive (.inl nodeFormed.1) (by omega)
    first) fun _ _ finds => ?_
  exact ensures_bind ((plain_sequences.settle _ _ trivial).1.ensures finds.1) fun _ _ settled =>
    (plain_ins _).ensures settled

omit numbered formed in
/-- There is a format for what a builtin that prints accepts. -/
theorem formatted
    {builtin : Builtin}
    {type : Ty}
    (member : builtin ∈ Builtin.all)
    (notExit : builtin.name ≠ "exit")
    (accepts : builtin.accepts type = true) :
    ∃ format, PrintFormat.nameFor? type builtin.newline = some format := by
  have printable : Builtin.isPrintable type = true := by
    simp only [Builtin.all, List.mem_cons, List.not_mem_nil, or_false] at member
    rcases member with rfl | rfl | rfl
    · exact accepts
    · exact accepts
    · exact (notExit rfl).elim
  simp only [Builtin.isPrintable, Bool.or_eq_true, decide_eq_true_eq] at printable
  rcases printable with ((rfl | rfl) | rfl) | rfl <;> exact ⟨_, rfl⟩

/-- A builtin is one that emission knows, and its argument is one that it has a format for. -/
theorem builtinCall_ensures
    {call : Call}
    (callFormed : call.WellFormed listing)
    (isBuiltin : call.builtin = true)
    (alive : ∀ id ∈ call.arguments, listing.Alive pending id)
    (holds : code.Holds listing locals pending) :
    Ensures (Refusal odd) (fun _ after => after.Holds listing locals pending)
      (builtinCall listing call) code := by
  obtain ⟨passed, called⟩ := callFormed
  rw [if_pos isBuiltin] at called
  obtain ⟨builtin, known, arity, accepted⟩ := called
  have member := List.mem_of_find?_eq_some known
  have single : builtin.arity = 1 := by
    have each : ∀ other ∈ Builtin.all, other.arity = 1 := by decide
    exact each builtin member
  obtain ⟨argument, isOnly⟩ := List.length_eq_one_iff.mp (arity.trans single)
  have isArgument : argument ∈ call.arguments := by simp [isOnly]
  obtain ⟨v, found, -, -⟩ := (alive argument isArgument).looked_up
  have isFixed : listing.fixed? argument = some v.fixed := by simp [Listing.fixed?, found]
  have number : v.id = argument := numbered argument v.fixed isFixed
  have accepts : builtin.accepts v.type = true := by
    obtain ⟨w, isFound, accepts⟩ := accepted argument isArgument
    rw [isFixed, Option.some.injEq] at isFound
    subst isFound
    exact accepts
  have loads : ∀ reg state, state.Holds listing locals pending →
      Ensures (Refusal odd) (fun _ after => after.Holds listing locals pending)
        (load listing reg v.id) state := by
    intro reg state keeps
    rw [number]
    exact load_ensures numbered formed (alive argument isArgument)
      (.inl (passed argument isArgument).isOperand) keeps
  unfold builtinCall
  simp only [known, isOnly, List.length_singleton, single, ne_eq, not_true_eq_false, ↓reduceIte,
    List.head?_cons, Option.bind_some, found, accepts, Bool.not_true, Bool.false_eq_true]
  split
  · refine ensures_bind ((plain_ins _).ensures holds) fun _ _ first => ?_
    exact ensures_bind (loads _ _ first) fun _ _ second => (plain_ins _).ensures second
  next notExit =>
    obtain ⟨format, isFormat⟩ := formatted member notExit accepts
    unfold print
    simp only [isFormat]
    refine ensures_bind ((plain_sequences.saveLive _).1.ensures holds) fun saved _ first => ?_
    refine ensures_bind ((plain_ins _).ensures first) fun _ _ second => ?_
    refine ensures_bind (loads _ _ second) fun _ _ third => ?_
    exact (plain_bind (plain_ins _) fun _ => plain_bind (plain_ins _) fun _ =>
      (plain_sequences.restoreLive _).1).ensures third

theorem leave_ensures
    {value line : Nat}
    (nodeFormed : (Node.leave value line).WellFormed (some function) listing)
    (alive : ∀ id ∈ (Node.leave value line).uses, listing.Alive pending id)
    (allowed : (Node.leave value line).IsOdd listing function → odd)
    (holds : code.Holds listing locals pending) :
    Ensures (Refusal odd) (fun _ after => after.Holds listing locals pending)
      (leave listing value) code := by
  unfold leave
  split
  next isThere =>
    have differs : value ≠ 0 := by
      rintro rfl
      simp [Listing.lookup?] at isThere
    refine load_ensures numbered formed (alive value (by simp [Node.uses, Node.operands, differs]))
      ?_ holds
    refine (nodeFormed.resolve_left differs).imp_right ?_
    rintro ⟨owner, isOwner, isArray⟩
    cases isOwner
    exact allowed isArray
  next => exact ensures_of_ok rfl holds

/--
A node inside a function, not its prologue or epilogue, becomes code or is refused, and behind it
the ledger has the registers and slots as they are.
-/
theorem node_ensures
    {ledger : Ledger}
    {node : Node}
    (isInner : node.isInner)
    (nodeFormed : node.WellFormed (some function) listing)
    (allows : ledger.Allows listing node)
    (allowed : node.IsOdd listing function → odd)
    (known : ∀ id line, node = .declare id line → listing.hasSlot id = true → id ∈ locals)
    (holds : code.Holds listing locals ledger.pending) :
    Ensures (Refusal odd)
      (fun _ after => after.Holds listing locals (ledger.after listing node).pending)
      (Emit.node listing node) code := by
  cases node with
  | label name => exact ensures_of_ok rfl (holds.alike ⟨rfl, rfl, rfl⟩)
  | entry => cases isInner
  | prologue => cases isInner
  | epilogue => cases isInner
  | openScope => exact ensures_of_ok rfl holds
  | closeScope => exact ensures_of_ok rfl holds
  | declare id line =>
      obtain ⟨w, isFixed, destroyed⟩ := nodeFormed
      obtain ⟨v, found, rfl⟩ := Listing.lookup?_of_fixed? isFixed
      have isDestroyed : listing.isDestroyed id = true := by
        rw [Listing.isDestroyed_eq isFixed, destroyed]
      have pended : (ledger.after listing (.declare id line)).pending = ledger.pending ++ [id] := by
        simp [Ledger.after, isDestroyed]
      obtain ⟨fresh, alive⟩ := allows
      rw [pended] at alive ⊢
      refine ensures_atLine (declare_ensures numbered formed found (by simpa using destroyed)
        (fresh isDestroyed).1 alive (fun hasSlot => known id line rfl ?_) holds)
      rw [Listing.hasSlot_of_lookup? found, hasSlot]
  | assign target value type selected line =>
      exact ensures_atLine (assign_ensures numbered formed nodeFormed allows allowed holds)
  | arith result left right op line =>
      exact ensures_atLine (arith_ensures numbered formed nodeFormed allows allowed holds)
  | compare left right line =>
      exact ensures_atLine (compare_ensures numbered formed nodeFormed allows holds)
  | jump label condition => exact (plain_ins _).ensures holds
  | call invoked =>
      refine ensures_atLine ?_
      unfold Emit.call
      split
      next isBuiltin => exact builtinCall_ensures numbered formed nodeFormed isBuiltin allows holds
      next notBuiltin =>
        have enough : depth listing = (depth listing - 1) + 1 := by unfold depth; omega
        rw [enough]
        refine userCall_ensures nodeFormed (by simpa using notBuiltin) ?_ holds
        intro id member scratch state keeps
        have fuel := depth_enough (allows id member)
        exact resolve_ensures numbered formed scratch (allows id member)
          (.inl (nodeFormed.1 id member).isOperand) (by omega) keeps
  | leave value line =>
      exact ensures_atLine (leave_ensures numbered formed nodeFormed allows allowed holds)
  | destroy id =>
      have released := holds.released id
      exact ensures_of_ok rfl released

end Operands

end Emit

end IlsCompiler
