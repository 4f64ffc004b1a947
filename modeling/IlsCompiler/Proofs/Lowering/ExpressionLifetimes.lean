import IlsCompiler.Proofs.Lowering.Lifetimes
import Mathlib.Logic.Relation

namespace IlsCompiler

/-!
# Lifetimes in expressions

Lowering an expression goes by steps that keep everything alive that was alive before: what is
destroyed on the way are temporaries that the expression has made itself. Its value is alive at
the end and was not pending at the start, so that the operation around it may destroy it.
-/

variable
    {id : VarId}
    {v : Variable}
    {listing : Listing}

namespace LoweringState

/-- Steps one after the other. -/
def Steps : LoweringState → LoweringState → Prop :=
  Relation.ReflTransGen Step

variable
    {before after : LoweringState}

theorem Steps.kept
    (steps : Steps before after)
    (kept : before.Kept) :
    after.Kept := by
  induction steps with
  | refl => exact kept
  | tail _ step inductionHypothesis => exact step.kept inductionHypothesis

/-- A variable may be named: it is alive, and a parameter belongs to the current function. -/
structure Offers (state : LoweringState) (id : VarId) : Prop where
  alive : state.Alive id
  owned : ∀ v, state.listing.fixed? id = some v → v.storage.isParameter →
    ∃ function, state.function = some function ∧ id ∈ function.params

theorem Offers.mono
    (offers : before.Offers id)
    (grown : before.listing.Extends after.listing)
    (kept : before.pending ⊆ after.pending)
    (function : ∀ owner, before.function = some owner → after.function = some owner) :
    after.Offers id where
  alive := offers.alive.mono grown kept
  owned := by
    intro v found isParameter
    rw [grown.stable id offers.alive.le_size] at found
    obtain ⟨owner, isOwner, member⟩ := offers.owned v found isParameter
    exact ⟨owner, function owner isOwner, member⟩

/-- Every name that the innermost scope sees is that of a variable that may be named. -/
def Visible (state : LoweringState) : Prop :=
  ∀ name id, state.listing.scopes.lookup? state.scope name = some id → state.Offers id

/-- A state inside a function from which expressions can be lowered. -/
structure Settled (state : LoweringState) : Prop where
  numbered : state.listing.Numbered
  tidy : state.Tidy
  deep : 2 ≤ state.frames.length
  visible : state.Visible

/-- Lowering proceeds by steps that leave scopes, names and what is pending alone. -/
structure Works (before after : LoweringState) : Prop extends before.Proceeds after where
  steps : Steps before after
  scopes : after.listing.scopes = before.listing.scopes
  locals : after.frames.map (fun open_ => open_.locals) =
    before.frames.map fun open_ => open_.locals
  outer : after.frames.tail = before.frames.tail
  held : before.innermost.temporaries ⊆ after.innermost.temporaries
  unbound : ∀ id v, before.listing.vars.size < id → after.listing.fixed? id = some v →
    v.hasSlot = false

theorem pending_eq
    (state : LoweringState) :
    state.pending = state.innermost.held ++ pendingOf state.frames.tail := by
  unfold pending LoweringState.innermost
  cases state.frames <;> rfl

/-- What is pending stays so when the outer scopes are left alone. -/
theorem pending_mono
    (outer : after.frames.tail = before.frames.tail)
    (held : before.innermost.held ⊆ after.innermost.held) :
    before.pending ⊆ after.pending := by
  rw [pending_eq, pending_eq, outer]
  intro id member
  rcases List.mem_append.mp member with inner | isOuter
  · exact List.mem_append_left _ (held inner)
  · exact List.mem_append_right _ isOuter

variable
    {state : LoweringState}

theorem pending_iff
    {id : VarId} :
    state.Pending id ↔
      id ∈ state.innermost.temporaries ∨ ∃ open_ ∈ state.frames.tail, id ∈ open_.temporaries := by
  unfold Pending LoweringState.innermost
  cases state.frames with
  | nil => simp [Frame.outermost]
  | cons first rest => simp

theorem Tidy.le_size
    (tidy : state.Tidy)
    (isPending : state.Pending id) :
    id ≤ state.listing.vars.size := by
  obtain ⟨v, _, _, found, _⟩ := tidy id isPending
  exact (Listing.le_size_of_fixed? found).2

/-- What is named is no temporary and so is not pending. -/
theorem Tidy.unpending_of_named
    (tidy : state.Tidy)
    (found : state.listing.fixed? id = some v)
    (isNamed : v.storage.isNamed) :
    ¬state.Pending id := by
  intro isPending
  obtain ⟨w, _, _, isFound, storage⟩ := tidy id isPending
  rw [found, Option.some.injEq] at isFound
  rw [isFound, storage] at isNamed
  cases isNamed

theorem innermost_locals
    (locals : after.frames.map (fun open_ => open_.locals) =
      before.frames.map fun open_ => open_.locals) :
    after.innermost.locals = before.innermost.locals := by
  have first : ∀ frames : List Frame,
      (frames.headD .outermost).locals = (frames.map fun open_ => open_.locals).headD [] := by
    intro frames
    cases frames <;> rfl
  unfold LoweringState.innermost
  rw [first, first, locals]

namespace Works

variable
    {before between after : LoweringState}
    {id : VarId}

theorem refl
    (state : LoweringState) :
    state.Works state :=
  { toProceeds := .refl _
    steps := .refl
    scopes := rfl
    locals := rfl
    outer := rfl
    held := List.Subset.refl _
    unbound := Listing.fresh_none rfl }

theorem trans
    (earlier : before.Works between)
    (later : between.Works after) :
    before.Works after :=
  { toProceeds := earlier.toProceeds.trans later.toProceeds
    steps := earlier.steps.trans later.steps
    scopes := later.scopes.trans earlier.scopes
    locals := later.locals.trans earlier.locals
    outer := later.outer.trans earlier.outer
    held := List.Subset.trans earlier.held later.held
    unbound := by
      intro id v isNew found
      by_cases isOld : id ≤ between.listing.vars.size
      · rw [later.extends_.stable id isOld] at found
        exact earlier.unbound id v isNew found
      · exact later.unbound id v (Nat.lt_of_not_le isOld) found }

theorem holds
    (works : before.Works after) :
    before.innermost.held ⊆ after.innermost.held := by
  intro id member
  rcases List.mem_append.mp member with isTemporary | isLocal
  · exact List.mem_append_left _ (works.held isTemporary)
  · refine List.mem_append_right _ ?_
    rwa [innermost_locals works.locals]

theorem alive
    (works : before.Works after)
    (wasAlive : before.Alive id) :
    after.Alive id :=
  wasAlive.mono works.extends_ (pending_mono works.outer works.holds)

theorem unpending
    (works : before.Works after)
    (unheld : ¬after.Pending id) :
    ¬before.Pending id := by
  intro wasPending
  refine unheld (pending_iff.mpr ?_)
  rcases pending_iff.mp wasPending with inner | outer
  · exact .inl (works.held inner)
  · rw [works.outer]
    exact .inr outer

theorem settled
    (works : before.Works after)
    (settled : before.Settled) :
    after.Settled :=
  { numbered := works.extends_.numbered settled.numbered
    tidy := works.tidy settled.tidy
    deep := by
      have same := congrArg List.length works.frames
      simp only [List.length_map] at same
      rw [same]
      exact settled.deep
    visible := by
      intro name id seen
      rw [works.scopes, Lower.scope_of_proceeds works.toProceeds] at seen
      refine (settled.visible name id seen).mono works.extends_
        (pending_mono works.outer works.holds) fun owner isOwner => ?_
      rw [works.function, isOwner] }

end Works

section Primitives

variable
    {before : LoweringState}

/-- A change of the listing that adds nothing that is destroyed. -/
theorem works_quiet
    (computes : before.Computes { before with listing := listing })
    (nodes : listing.nodes = before.listing.nodes)
    (fresh : ∀ id v, before.listing.vars.size < id → listing.fixed? id = some v →
      v.needsDestroy = false ∧ v.WellFormed listing id) :
    before.Works { before with listing := listing } :=
  { toProceeds := computes.toProceeds
    steps := .single (.quiet computes.extends_ nodes fresh)
    scopes := computes.scopes
    locals := rfl
    outer := rfl
    held := List.Subset.refl _
    unbound := fun id v isNew found => by simp [Variable.hasSlot, (fresh id v isNew found).1] }

/-- A constant, an access or a pending result is added that refers to what is alive. -/
theorem works_added
    (type : Ty)
    (text : String)
    {storage : Storage}
    (place : storage.scope? = none)
    (alive : ∀ next ∈ storage.refs, before.Alive next)
    (formed : storage.WellFormed before.listing) :
    let listing := (before.listing.addVariable type (.literal text) fun _ => storage).1
    before.Works { before with listing := listing } ∧
      LoweringState.Alive { before with listing := listing } (before.listing.vars.size + 1) := by
  intro listing
  have grown : before.listing.Extends listing := extends_addVariable _ _ _ _
  have same : storage.fixed = storage := by
    cases storage with
    | named => cases place
    | _ => rfl
  have found : ∀ id v, before.listing.vars.size < id → listing.fixed? id = some v →
      id = before.listing.vars.size + 1 ∧ v.storage = storage ∧ v.value = .literal text := by
    intro id v isNew isFound
    have isLast : id = before.listing.vars.size + 1 := by
      have inside := (Listing.le_size_of_fixed? isFound).2
      rw [Listing.size_addVariable] at inside
      exact Nat.le_antisymm inside isNew
    subst isLast
    simp only [listing, Listing.fixed?_addVariable, ↓reduceIte, Option.some.injEq] at isFound
    rw [← isFound]
    exact ⟨rfl, same, rfl⟩
  have quiet : ∀ v : Variable, v.storage = storage → v.needsDestroy = false := by
    intro v isStorage
    unfold Variable.needsDestroy
    rw [isStorage]
    cases storage with
    | named => cases place
    | temporary => cases place
    | _ => rfl
  have refs : ∀ v : Variable, v.storage = storage → v.value = .literal text →
      v.refs = storage.refs := by
    intro v isStorage isValue
    simp [Variable.refs, isStorage, isValue, Value.reference?]
  refine ⟨works_quiet (computes_of_listing grown rfl rfl rfl rfl rfl rfl) rfl ?_, ?_⟩
  · intro id v isNew isFound
    obtain ⟨rfl, isStorage, isValue⟩ := found id v isNew isFound
    refine ⟨quiet v isStorage, ⟨?_, ?_, ?_, ?_⟩⟩
    · intro next member
      rw [refs v isStorage isValue] at member
      exact Nat.lt_succ_of_le (alive next member).le_size
    · rw [isStorage]
      exact formed.mono grown
    · rw [isValue]
      rintro _ ⟨⟩
    · rw [quiet v isStorage]
      rintro ⟨⟩
  · obtain ⟨v, isFound⟩ : ∃ v, listing.fixed? (before.listing.vars.size + 1) = some v :=
      ⟨_, by simp [listing]; rfl⟩
    obtain ⟨_, isStorage, isValue⟩ := found _ v (Nat.lt_succ_self _) isFound
    refine .intro isFound (fun destroyed => ?_) ?_
    · rw [quiet v isStorage] at destroyed
      cases destroyed
    · intro next member
      rw [refs v isStorage isValue] at member
      exact (alive next member).mono grown (List.Subset.refl _)

theorem works_withLiteral
    (value : Literal) :
    before.Works (before.withLiteral value) ∧
      (before.withLiteral value).Alive (before.listing.vars.size + 1) := by
  have constant : ∀ (state : LoweringState) (type : Ty) (text : String),
      let listing := (state.listing.addVariable type (.literal text) fun _ => .literal).1
      state.Works { state with listing := listing } ∧
        LoweringState.Alive { state with listing := listing } (state.listing.vars.size + 1) :=
    fun state type text =>
      works_added type text rfl (fun _ member => (List.not_mem_nil member).elim) trivial
  have literal : ∀ (type : Ty) (text : Bytes),
      let listing := (before.listing.addLiteral type text).1
      before.Works { before with listing := listing } ∧
        LoweringState.Alive { before with listing := listing }
          (before.listing.vars.size + 1) := by
    intro type text
    unfold Listing.addLiteral
    split
    · have interned : before.Works
          { before with
            listing := { before.listing with
              strings := (before.listing.strings.intern text).1 } } := by
        refine works_quiet (computes_of_listing ?_ rfl rfl rfl rfl rfl rfl) rfl (Listing.fresh_none rfl)
        exact { Listing.Extends.refl before.listing with strings := StringTable.prefix_intern _ _ }
      obtain ⟨works, alive⟩ := constant
        { before with
          listing := { before.listing with
            strings := (before.listing.strings.intern text).1 } } type _
      exact ⟨interned.trans works, alive⟩
    · exact constant before type text.display
  cases value with
  | scalar type text => exact literal type (Bytes.ofString text)
  | string contents => exact literal .str contents

theorem works_counted
    (function : Signature) :
    before.Works (before.counted function) :=
  works_quiet (computes_counted before function) rfl (Listing.fresh_none rfl)

theorem works_marked
    (ids : List VarId) :
    before.Works (before.marked ids) := by
  obtain ⟨grown, frozen, _⟩ := extends_marks before.listing ids
  refine works_quiet (computes_marked before ids) (congrArg Listing.Frozen.nodes frozen)
    (Listing.fresh_none ?_)
  have each : ∀ (ids : List VarId) (listing : Listing),
      (ids.foldl (fun current id =>
        current.modifyVariable id fun v => { v with preserved := true }) listing).vars.size =
          listing.vars.size := by
    intro ids
    induction ids with
    | nil => exact fun _ => rfl
    | cons first rest inductionHypothesis =>
        intro listing
        rw [List.foldl_cons, inductionHypothesis, Listing.size_modifyVariable]
  exact each ids before.listing

theorem works_node
    {node : Node}
    (inner : node.isInner)
    (work : node.isWork)
    (formed : node.WellFormed before.function before.listing)
    (alive : ∀ id ∈ node.uses, before.Alive id) :
    before.Works (before.appended node) :=
  { toProceeds := proceeds_appended before inner
    steps := .single (.node work formed alive)
    scopes := by simp [appended]
    locals := rfl
    outer := rfl
    held := List.Subset.refl _
    unbound := Listing.fresh_none (by simp) }

theorem works_temporary
    (type : Ty)
    {value : Value}
    (isResult : Bool)
    (line : Nat)
    (deep : 2 ≤ before.frames.length)
    (lent : ∀ next, value.reference? = some next → before.Lends next) :
    before.Works (before.withTemporary type value isResult line) ∧
      (before.withTemporary type value isResult line).Alive (before.listing.vars.size + 1) := by
  have computes := computes_withTemporary before type value isResult line
  obtain ⟨first, rest, isFrames⟩ : ∃ first rest, before.frames = first :: rest :=
    List.exists_cons_of_length_pos (by omega)
  have frames : (before.withTemporary type value isResult line).frames =
      { first with
        temporaries := first.temporaries ++ [before.listing.vars.size + 1] } :: rest := by
    show before.frames.modifyHead _ = _
    rw [isFrames]
    rfl
  have works : before.Works (before.withTemporary type value isResult line) :=
    { toProceeds := computes.toProceeds
      steps := .single (.temporary type isResult line deep lent)
      scopes := computes.scopes
      locals := computes.locals
      outer := by rw [frames, isFrames]; rfl
      held := by
        rw [innermost_eq frames, innermost_eq isFrames]
        exact List.subset_append_left _ _
      unbound := Listing.fresh_last (by simp)
        (fixed?_withTemporary before type value isResult line) rfl }
  refine ⟨works, .intro (fixed?_withTemporary before type value isResult line) ?_ ?_⟩
  · intro _
    rw [pending_eq, innermost_eq frames]
    simp [Frame.held]
  · intro next member
    exact works.alive (lent next (by simpa [Variable.refs, Storage.refs] using member)).1

end Primitives

/-- What an expression has computed since an earlier state, and the variable with its value. -/
structure Yields (before after : LoweringState) (id : VarId) : Prop where
  works : before.Works after
  alive : after.Alive id
  isValue : after.listing.IsValue id
  unpending : ¬before.Pending id

namespace Yields

variable
    {before between after : LoweringState}
    {id : VarId}

/-- A value that is there stays so while more is computed. -/
theorem later
    (yields : before.Yields between id)
    (works : between.Works after) :
    before.Yields after id :=
  ⟨yields.works.trans works, works.alive yields.alive, works.extends_.isValue yields.isValue,
    yields.unpending⟩

/-- What is computed behind some work has been computed since the start of that work. -/
theorem since
    (works : before.Works between)
    (yields : between.Yields after id) :
    before.Yields after id :=
  ⟨works.trans yields.works, yields.alive, yields.isValue, works.unpending yields.unpending⟩

/-- A variable with a new number was not pending before. -/
theorem of_new
    (settled : before.Settled)
    (works : before.Works after)
    (alive : after.Alive id)
    (isValue : after.listing.IsValue id)
    (isNew : before.listing.vars.size < id) :
    before.Yields after id :=
  ⟨works, alive, isValue, fun isPending =>
    Nat.not_lt_of_le (settled.tidy.le_size isPending) isNew⟩

/-- A value of a type that is no array can be an operand. -/
theorem isOperand
    (yields : before.Yields after id)
    (scalar : (Lower.typeIn after id).isArray = false) :
    after.listing.IsOperand id := by
  obtain ⟨v, found, isValue⟩ := yields.isValue
  refine ⟨v, found, ?_⟩
  simp only [Lower.typeIn, found, Option.map_some, Option.getD_some] at scalar
  cases storage : v.storage with
  | array => simp [storage, Storage.isValue] at isValue
  | named => simp [Variable.isOperand, storage, scalar]
  | _ => simp [Variable.isOperand, storage]

end Yields

/-- When a variable is destroyed, the others stay pending. -/
theorem mem_pending_destroyed
    {id other : VarId}
    (member : other ∈ state.pending)
    (differs : other ≠ id) :
    other ∈ (state.destroyed id).pending := by
  unfold LoweringState.destroyed
  split
  · obtain ⟨open_, isOpen, held⟩ := mem_pendingOf.mp member
    refine mem_pendingOf.mpr ⟨_, List.mem_map_of_mem isOpen, ?_⟩
    rcases List.mem_append.mp held with isTemporary | isLocal
    · exact List.mem_append_left _ ((List.mem_erase_of_ne differs).mpr isTemporary)
    · exact List.mem_append_right _ isLocal
  · exact member

/-- A variable that refers to no other outlives the others. -/
theorem alive_destroyed
    {id other : VarId}
    (found : state.listing.fixed? other = some v)
    (bare : v.refs = [])
    (alive : state.Alive other)
    (differs : other ≠ id) :
    (state.destroyed id).Alive other := by
  obtain ⟨w, isFound, held⟩ := alive.found
  rw [found, Option.some.injEq] at isFound
  subst isFound
  refine .intro ((computes_destroyed state id).extends_.fixed?_of found) ?_ ?_
  · exact fun destroyed => mem_pending_destroyed (held destroyed) differs
  · simp [bare]

/-- A temporary that was not pending in an earlier state can be destroyed. -/
theorem Works.destroyed
    {before between : LoweringState}
    (settled : before.Settled)
    (works : before.Works between)
    (unheld : ¬before.Pending id) :
    before.Works (between.destroyed id) := by
  by_cases isPending : between.Pending id
  · have deep := (works.settled settled).deep
    have notOuter : ∀ open_ ∈ between.frames.tail, id ∉ open_.temporaries := by
      intro open_ member inside
      rw [works.outer] at member
      exact unheld (pending_iff.mpr (.inr ⟨open_, member, inside⟩))
    have isInner : id ∈ between.innermost.temporaries := by
      rcases pending_iff.mp isPending with inner | ⟨open_, member, inside⟩
      · exact inner
      · exact (notOuter open_ member inside).elim
    have isState : between.destroyed id =
        { between with
          frames := between.frames.map fun (open_ : Frame) =>
            { open_ with temporaries := open_.temporaries.erase id } }.appended
              (.destroy id) := by
      obtain ⟨open_, member, inside⟩ := isPending
      have found : (between.frames.any fun open_ => decide (id ∈ open_.temporaries)) = true :=
        List.any_eq_true.mpr ⟨open_, member, by simpa using inside⟩
      simp only [LoweringState.destroyed, found, ↓reduceIte]
    have frames : (between.destroyed id).frames =
        between.frames.map fun (open_ : Frame) =>
          { open_ with temporaries := open_.temporaries.erase id } := by
      rw [isState]
      rfl
    refine
      { toProceeds := works.toProceeds.trans (computes_destroyed between id).toProceeds
        steps := works.steps.tail (.destroy deep isInner)
        scopes := (computes_destroyed between id).scopes.trans works.scopes
        locals := (computes_destroyed between id).locals.trans works.locals
        outer := ?_
        held := ?_
        unbound := by
          intro other v isNew found
          refine works.unbound other v isNew ?_
          rwa [← (computes_destroyed between id).extends_.stable other ?_]
          simpa using (Listing.le_size_of_fixed? found).2 }
    · rw [frames, ← List.map_tail, ← works.outer]
      refine (List.map_congr_left fun open_ member => ?_).trans (List.map_id _)
      rw [List.erase_of_not_mem (notOuter open_ member)]
      rfl
    · intro other member
      have differs : other ≠ id := by
        rintro rfl
        exact unheld (pending_iff.mpr (.inl member))
      have held := works.held member
      obtain ⟨first, rest, isFrames⟩ : ∃ first rest, between.frames = first :: rest :=
        List.exists_cons_of_length_pos (by omega)
      rw [isFrames, List.map_cons] at frames
      rw [innermost_eq frames]
      rw [innermost_eq isFrames] at held
      exact (List.mem_erase_of_ne differs).mpr held
  · have isState : between.destroyed id = between := by
      have none_ : (between.frames.any fun open_ => decide (id ∈ open_.temporaries)) = false := by
        refine List.any_eq_false.mpr fun open_ member inside => isPending ?_
        exact ⟨open_, member, by simpa using inside⟩
      simp [LoweringState.destroyed, none_]
    rw [isState]
    exact works

end LoweringState

namespace Lower

open LoweringState

variable
    {before between after : LoweringState}
    {line : Nat}

theorem isArray_of_isArithmetic
    {type : Ty}
    (arithmetic : type.isArithmetic) :
    type.isArray = false := by
  cases type with
  | array => simp [Ty.isArithmetic] at arithmetic
  | _ => rfl

/-- What can be stored where no array is wanted is no array. -/
theorem isArray_of_assignable
    {wanted given : Ty}
    (fits : assignable wanted given line = .ok ())
    (scalar : wanted.isArray = false) :
    given.isArray = false := by
  unfold assignable at fits
  split at fits
  · cases fits
  · split at fits
    next same =>
      rcases same with rfl | ⟨_, arithmetic⟩
      · exact scalar
      · exact isArray_of_isArithmetic arithmetic
    next => cases fits

variable
    {name : String}

/-- A name stands for a variable that is alive and named. -/
theorem resolve_yields
    (settled : before.Settled)
    (resolved : resolve name line before = .ok (v, after)) :
    after = before ∧ before.Yields before v.id ∧
      before.listing.fixed? v.id = some v.fixed ∧ v.fixed.storage.isNamed ∧
      (v.fixed.storage.isParameter →
        ∃ owner, before.function = some owner ∧ v.id ∈ owner.params) := by
  obtain ⟨rfl, id, seen, known, isNamed⟩ := resolve_ok resolved
  have found : after.listing.fixed? id = some v.fixed := by simp [Listing.fixed?, known]
  have same : v.id = id := settled.numbered id v.fixed found
  rw [same]
  have named : v.fixed.storage.isNamed := by simpa using isNamed
  have isValue : v.fixed.storage.isValue := by
    cases storage : v.fixed.storage with
    | array => simp [storage, Storage.isNamed] at named
    | _ => rfl
  have offers := settled.visible name id seen
  exact ⟨rfl,
    ⟨.refl _, offers.alive, ⟨_, found, isValue⟩, settled.tidy.unpending_of_named found named⟩,
    found, named, offers.owned _ found⟩

theorem literal_yields
    (settled : before.Settled)
    (value : Literal) :
    before.Works (before.withLiteral value) ∧
      ∀ id, some (before.listing.vars.size + 1) = some id →
        before.Yields (before.withLiteral value) id := by
  obtain ⟨works, alive⟩ := @works_withLiteral before value
  refine ⟨works, ?_⟩
  rintro _ ⟨⟩
  obtain ⟨v, found, storage⟩ := fixed?_withLiteral before value
  exact .of_new settled works alive ⟨v, found, by rw [storage]; rfl⟩ (Nat.lt_succ_self _)

theorem isPassed_withTemporary
    (state : LoweringState)
    (type : Ty)
    (value : Value)
    (isResult : Bool) :
    (state.withTemporary type value isResult line).listing.IsPassed
      (state.listing.vars.size + 1) :=
  ⟨_, fixed?_withTemporary state type value isResult line, rfl⟩

/-- What is passed is a value and can be an operand, whatever its type. -/
theorem isOperand_of_isPassed
    (passed : listing.IsPassed id) :
    listing.IsOperand id ∧ listing.IsValue id := by
  obtain ⟨v, found, isPassed⟩ := passed
  cases storage : v.storage with
  | literal =>
      exact ⟨⟨v, found, by simp [Variable.isOperand, storage]⟩, v, found, by rw [storage]; rfl⟩
  | temporary =>
      exact ⟨⟨v, found, by simp [Variable.isOperand, storage]⟩, v, found, by rw [storage]; rfl⟩
  | _ => simp [storage, Storage.isPassed] at isPassed

/-- A copy of a value is new and alive. -/
theorem copied_yields
    (settled : before.Settled)
    (yields : before.Yields between id)
    (operand : between.listing.IsOperand id)
    (type : Ty) :
    before.Yields (between.withTemporary type (.reference id) false line)
        (between.listing.vars.size + 1) ∧
      between.Works (between.withTemporary type (.reference id) false line) := by
  have lent : ∀ next, (Value.reference id).reference? = some next →
      between.Lends next := by
    rintro next ⟨⟩
    exact ⟨yields.alive, operand⟩
  obtain ⟨works, alive⟩ :=
    works_temporary type false line (yields.works.settled settled).deep lent
  have passed := @isPassed_withTemporary line between type (.reference id) false
  refine ⟨.of_new settled (yields.works.trans works) alive (isOperand_of_isPassed passed).2 ?_,
    works⟩
  exact Nat.lt_succ_of_le yields.works.extends_.size

theorem materialize_yields
    {id copied : VarId}
    (settled : before.Settled)
    (yields : before.Yields between id)
    (materialized : materialize id line between = .ok (copied, after)) :
    before.Yields after copied ∧ between.Works after := by
  rcases materialize_ok materialized with
    ⟨v, function, call, found, storage, rfl, rfl⟩ | ⟨rfl, rfl, _⟩
  · have operand : v.isOperand := by simp [Variable.isOperand, storage]
    exact copied_yields settled yields ⟨v, found, operand⟩ v.type
  · exact ⟨yields, .refl _⟩

/-- A copy of a result can be an operand, and so can what is not copied. -/
theorem materialize_isOperand
    {id copied : VarId}
    (operand : between.listing.IsOperand id)
    (materialized : materialize id line between = .ok (copied, after)) :
    after.listing.IsOperand copied := by
  rcases materialize_ok materialized with ⟨v, _, _, _, _, rfl, rfl⟩ | ⟨rfl, rfl, _⟩
  · exact (isOperand_of_isPassed (isPassed_withTemporary between v.type _ false)).1
  · exact operand

variable
    {array : Variable}
    {w : Variable}

theorem element_yields
    {index id : VarId}
    (settled : before.Settled)
    (alive : between.Alive array.id)
    (found : between.listing.fixed? array.id = some w)
    (isNamed : w.storage.isNamed)
    (yields : before.Yields between index)
    (accessed : element array index line between = .ok (id, after)) :
    before.Yields after id ∧
      ∃ v owner position,
        after.listing.fixed? id = some v ∧ v.storage = .element owner position ∧
          v.type = w.type.element := by
  obtain ⟨arithmetic, within, position, copied, materialized, rfl, rfl⟩ := element_ok accessed
  obtain ⟨positioned, works⟩ := materialize_yields settled yields materialized
  have operand := materialize_isOperand
    (yields.isOperand (isArray_of_isArithmetic arithmetic)) materialized
  obtain ⟨v, isFound, storage, isType⟩ := fixed?_withElement copied array.id position
  have added := @works_added copied
    (((copied.listing.lookup? array.id).map fun v => v.type.element).getD .absent) ""
    (.element array.id position) rfl ?_ ?_
  · refine ⟨.of_new settled (positioned.works.trans added.1) added.2
      ⟨v, isFound, by rw [storage]; rfl⟩ ?_, v, _, _, isFound, storage, ?_⟩
    · exact Nat.lt_succ_of_le positioned.works.extends_.size
    · rw [isType, works.extends_.fixed?_of found]
      rfl
  · intro next member
    simp only [Storage.refs, List.mem_cons, List.not_mem_nil, or_false] at member
    rcases member with rfl | rfl
    · exact works.alive alive
    · exact positioned.alive
  · refine ⟨⟨w, works.extends_.fixed?_of found, isNamed⟩, operand, ?_⟩
    intro v isPosition isLiteral
    -- A constant index is used as it stands, and lies within the array.
    rcases materialize_ok materialized with ⟨_, _, _, _, _, rfl, rfl⟩ | ⟨rfl, rfl, _⟩
    · rw [fixed?_withTemporary, Option.some.injEq] at isPosition
      rw [← isPosition] at isLiteral
      cases isLiteral
    · have inside := within v isPosition isLiteral
      unfold indexOutside at inside
      cases read : Text.integer? 64 v.value.text with
      | none => simp [read] at inside
      | some number => rfl

theorem operation_yields
    {op : ArithOp}
    {left right id : VarId}
    (settled : before.Settled)
    (leftYields : before.Yields between left)
    (rightYields : before.Yields between right)
    (operated : operation op left right line between = .ok (id, after)) :
    before.Yields after id := by
  obtain ⟨leftNumber, rightNumber, leftOperand, rightOperand, middle, copied, leftCopied,
    rightCopied, rfl, rfl⟩ := operation_ok operated
  obtain ⟨leftHeld, leftWorks⟩ := materialize_yields settled leftYields leftCopied
  obtain ⟨rightHeld, rightWorks⟩ :=
    materialize_yields settled (rightYields.later leftWorks) rightCopied
  have leftIs := materialize_isOperand
    (leftYields.isOperand (isArray_of_isArithmetic leftNumber)) leftCopied
  have rightIs := materialize_isOperand (leftWorks.extends_.isOperand
    (rightYields.isOperand (isArray_of_isArithmetic rightNumber))) rightCopied
  obtain ⟨declared, resultAlive⟩ :=
    @works_temporary copied .int (.literal "0") true line
      (rightHeld.works.settled settled).deep fun _ wrong => nomatch wrong
  have isTemporary : (copied.withTemporary .int (.literal "0") true line).listing.IsTemporary
      (copied.listing.vars.size + 1) :=
    ⟨_, _, _, fixed?_withTemporary copied .int _ true line, rfl⟩
  have stored : (copied.withTemporary .int (.literal "0") true line).Works
      ((copied.withTemporary .int (.literal "0") true line).appended
        (.arith (copied.listing.vars.size + 1) leftOperand rightOperand op line)) := by
    refine works_node rfl rfl ⟨isTemporary,
      (rightWorks.trans declared).extends_.isOperand leftIs, declared.extends_.isOperand rightIs⟩ ?_
    intro used member
    simp only [Node.uses, Node.operands, List.mem_cons, List.not_mem_nil, or_false] at member
    rcases member with rfl | rfl | rfl
    · exact resultAlive
    · exact declared.alive (rightWorks.alive leftHeld.alive)
    · exact declared.alive rightHeld.alive
  have whole := rightHeld.works.trans (declared.trans stored)
  -- Seen from the operands on, the result is new and neither of them.
  have isPassed := stored.extends_.isPassed
    (isPassed_withTemporary copied .int (.literal "0") true)
  have result : before.Yields _ (copied.listing.vars.size + 1) :=
    .of_new settled whole (stored.alive resultAlive) (isOperand_of_isPassed isPassed).2
      (Nat.lt_succ_of_le rightHeld.works.extends_.size)
  have works := (whole.destroyed settled leftHeld.unpending).destroyed settled
    rightHeld.unpending
  have isValue := (computes_destroyed _ rightOperand).extends_.isValue
    ((computes_destroyed _ leftOperand).extends_.isValue result.isValue)
  refine ⟨works, ?_, isValue, result.unpending⟩
  have found := stored.extends_.fixed?_of (fixed?_withTemporary copied .int _ true line)
  have differs : ∀ used : VarId, used ≤ copied.listing.vars.size →
      copied.listing.vars.size + 1 ≠ used := by
    rintro used inside rfl
    exact Nat.not_succ_le_self _ inside
  have leftGone := alive_destroyed found rfl (stored.alive resultAlive)
    (differs leftOperand (rightWorks.alive leftHeld.alive).le_size)
  refine alive_destroyed ((computes_destroyed _ leftOperand).extends_.fixed?_of found) rfl
    leftGone (differs rightOperand rightHeld.alive.le_size)

theorem argument_yields
    {function : String}
    {id copied : VarId}
    (settled : before.Settled)
    (yields : before.Yields between id)
    (passed : argument function id line between = .ok (copied, after)) :
    before.Yields after copied ∧ between.Works after ∧ after.listing.IsPassed copied := by
  rcases argument_ok passed with ⟨v, found, isCopied, scalar, rfl, rfl⟩ | ⟨rfl, rfl, notCopied⟩
  · have operand : v.isOperand := by
      cases storage : v.storage with
      | named => simp [Variable.isOperand, storage, scalar (by rw [storage]; rfl)]
      | array => simp [storage, Storage.isCopied] at isCopied
      | _ => simp [Variable.isOperand, storage]
    obtain ⟨yielded, works⟩ := copied_yields settled yields ⟨v, found, operand⟩ v.type
    exact ⟨yielded, works, isPassed_withTemporary between v.type _ false⟩
  · refine ⟨yields, .refl _, ?_⟩
    obtain ⟨v, found, isValue⟩ := yields.isValue
    refine ⟨v, found, ?_⟩
    have kept := notCopied v found
    cases storage : v.storage with
    | literal => rfl
    | temporary => rfl
    | _ => simp [storage, Storage.isCopied, Storage.isValue] at kept isValue

/-- Variables are alive and can be the arguments of a call. -/
def Passes (state : LoweringState) (ids : List VarId) : Prop :=
  ∀ id ∈ ids, state.Alive id ∧ state.listing.IsPassed id

variable
    {result : Option VarId}
    {function : Signature}
    {given : List VarId}

/-- A call is given arguments that are alive, and its result refers to them. -/
theorem invoke_works
    {isStatement : Bool}
    (passes : Passes before given)
    (declared : before.listing.signature? function.name = some function)
    (arity : given.length = function.params.length)
    (invoked : invoke function given line isStatement before = .ok (result, after)) :
    before.Works after ∧
      ∀ id, result = some id →
        after.Alive id ∧ after.listing.IsValue id ∧ before.listing.vars.size < id := by
  have counted := @works_counted before function
  have formed : (before.nextCall function given line).WellFormed before.listing :=
    ⟨fun id member => (passes id member).2, function, rfl, declared, arity⟩
  have called : ∀ {state : LoweringState}, before.Works state →
      state.Works (state.appended (.call (before.nextCall function given line))) := by
    intro state works
    exact works_node rfl rfl (formed.mono works.extends_) fun id member =>
      works.alive (passes id member).1
  rcases invoke_ok invoked with ⟨_, rfl, rfl⟩ | ⟨_, rfl, rfl⟩
  · have prepared := counted.trans (works_marked given)
    exact ⟨prepared.trans (called prepared), fun _ wrong => nomatch wrong⟩
  · obtain ⟨added, resultAlive⟩ := @works_added (before.counted function) function.result "rax"
      (.result function (before.nextCall function given line)) rfl
      (fun id member => counted.alive (passes id member).1) ⟨rfl, formed.mono counted.extends_⟩
    have prepared := counted.trans added
    obtain ⟨v, found, storage⟩ := fixed?_withResult (before.counted function) function
      (before.nextCall function given line)
    have isValue : ((before.counted function).withResult function
        (before.nextCall function given line)).listing.IsValue (before.listing.vars.size + 1) :=
      ⟨v, found, by rw [storage]; rfl⟩
    split
    · refine ⟨prepared.trans (called prepared), ?_⟩
      rintro id ⟨⟩
      exact ⟨(called prepared).alive resultAlive, (called prepared).extends_.isValue isValue,
        Nat.lt_succ_self _⟩
    · refine ⟨prepared, ?_⟩
      rintro id ⟨⟩
      exact ⟨resultAlive, isValue, Nat.lt_succ_self _⟩

theorem invokeBuiltin_works
    {builtin : Builtin}
    {result : Unit}
    (known : Builtin.ofName? name = some builtin)
    (passes : Passes before given)
    (arity : given.length = builtin.arity)
    (invoked : invokeBuiltin builtin given line before = .ok (result, after)) :
    before.Works after := by
  obtain ⟨accepted, rfl⟩ := invokeBuiltin_ok invoked
  have counted : before.Works
      { before with
        listing := { before.listing with callCount := before.listing.callCount + 1 } } := by
    refine works_quiet (computes_of_listing ?_ rfl rfl rfl rfl rfl rfl) rfl (Listing.fresh_none rfl)
    exact { Listing.Extends.refl before.listing with calls := Nat.le_succ _ }
  have sameName : builtin.name = name := by
    simpa using List.find?_some known
  have formed : (before.nextBuiltinCall builtin given line).WellFormed before.listing := by
    refine ⟨fun id member => (passes id member).2, builtin, ?_, arity, ?_⟩
    · rw [← known, ← sameName]
      rfl
    · intro id member
      obtain ⟨v, found, _⟩ := (passes id member).2
      have accepts := accepted id member
      simp only [typeIn, found, Option.map_some, Option.getD_some] at accepts
      exact ⟨v, found, accepts⟩
  refine counted.trans (works_node rfl rfl (formed.mono counted.extends_) ?_)
  intro id member
  exact counted.alive (passes id member).1

/-- A function that a name was declared for goes by that name, also later. -/
theorem declared_later
    {earlier later : Listing}
    (grown : earlier.Extends later)
    (declared : earlier.signature? name = some function) :
    later.signature? function.name = some function := by
  rw [Listing.name_of_signature? declared]
  exact grown.signatures name function declared

/-- Lowering an expression works by steps and yields its value. -/
theorem evaluated_yields :
    Evaluated
      (fun _ before after result => before.Settled →
        before.Works after ∧ ∀ id, result = some id → before.Yields after id)
      fun _ _ given before after ids => before.Settled →
        before.Works after ∧ ids.length = given.length ∧ Passes after ids where
  name _ resolved settled := by
    obtain ⟨_, yields, _⟩ := resolve_yields settled resolved
    exact ⟨.refl _, fun _ same => Option.some.inj same ▸ yields⟩
  literal _ value _ settled := literal_yields settled value
  folded _ _ _ settled := literal_yields settled _
  binary _ _ _ operated left right settled := by
    obtain ⟨leftWorks, leftYields⟩ := left settled
    obtain ⟨rightWorks, rightYields⟩ := right (leftWorks.settled settled)
    have yields := operation_yields settled ((leftYields _ rfl).later rightWorks)
      ((rightYields _ rfl).since leftWorks) operated
    exact ⟨yields.works, fun _ same => Option.some.inj same ▸ yields⟩
  element _ resolved _ _ accessed index settled := by
    obtain ⟨works, yields⟩ := index settled
    obtain ⟨_, arrayYields, found, isNamed, _⟩ := resolve_yields settled resolved
    have accessYields := (element_yields settled (works.alive arrayYields.alive)
      (works.extends_.fixed?_of found) isNamed (yields _ rfl) accessed).1
    exact ⟨accessYields.works, fun _ same => Option.some.inj same ▸ accessYields⟩
  builtin isKnown arity _ invoked passed settled := by
    obtain ⟨works, sameLength, passes⟩ := passed settled
    exact ⟨works.trans (invokeBuiltin_works isKnown passes (sameLength.trans arity) invoked),
      by simp⟩
  invoke declared arity _ invoked passed settled := by
    obtain ⟨works, sameLength, passes⟩ := passed settled
    obtain ⟨called, isResult⟩ := invoke_works passes (declared_later works.extends_ declared)
      (sameLength.trans arity) invoked
    refine ⟨works.trans called, fun id same => ?_⟩
    split at same
    · cases same
    · obtain ⟨alive, isValue, isNew⟩ := isResult id same
      exact .of_new settled (works.trans called) alive isValue
        (Nat.lt_of_le_of_lt works.extends_.size isNew)
  nil _ _ := ⟨.refl _, rfl, by simp [Passes]⟩
  cons _ passed _ first rest settled := by
    obtain ⟨firstWorks, firstYields⟩ := first settled
    obtain ⟨copyYields, copyWorks, isPassed⟩ := argument_yields settled (firstYields _ rfl) passed
    have front := firstWorks.trans copyWorks
    obtain ⟨restWorks, sameLength, restPasses⟩ := rest (front.settled settled)
    exact ⟨front.trans restWorks, congrArg Nat.succ sameLength, List.forall_mem_cons.mpr
      ⟨⟨restWorks.alive copyYields.alive, restWorks.extends_.isPassed isPassed⟩, restPasses⟩⟩

theorem expression_yields
    {expr : Expr}
    (settled : before.Settled)
    (lowered : expression expr before = .ok (result, after)) :
    before.Works after ∧ ∀ id, result = some id → before.Yields after id :=
  evaluated_yields.expression lowered settled

theorem elementOf_yields
    {index : Expr}
    (settled : before.Settled)
    (alive : before.Alive array.id)
    (found : before.listing.fixed? array.id = some w)
    (isNamed : w.storage.isNamed)
    (lowered : elementOf array name index line before = .ok (id, after)) :
    before.Yields after id ∧
      ∃ v owner position,
        after.listing.fixed? id = some v ∧ v.storage = .element owner position ∧
          v.type = w.type.element := by
  obtain ⟨position, between, _, indexLowered, accessed⟩ := elementOf_ok lowered
  obtain ⟨works, yields⟩ := expression_yields settled indexLowered
  exact element_yields settled (works.alive alive) (works.extends_.fixed?_of found) isNamed
    (yields position rfl) accessed

variable
    {done : Unit}

theorem callStatement_works
    {builtin : Bool}
    {given : List Expr}
    (settled : before.Settled)
    (lowered : callStatement line name builtin given before = .ok (done, after)) :
    before.Works after :=
  (evaluated_yields.callStatement lowered settled).1

theorem works_jump
    (state : LoweringState)
    (label : String)
    (test : Option CmpOp) :
    state.Works (state.appended (.jump label test)) :=
  works_node rfl rfl trivial fun _ member => (List.not_mem_nil member).elim

/-- The sides of a term are compared and destroyed, and then comes its jump. -/
theorem compared_works
    {term : Comparison}
    {left right : VarId}
    {test : CmpOp}
    (settled : before.Settled)
    (lowered : comparison term before = .ok ((left, right, test), between))
    (whenTrue whenFalse : String)
    (rest : List Comparison)
    (joins : List Logic) :
    before.Works
      (compared between left right term.line (termJump whenTrue whenFalse test rest joins)) := by
  obtain ⟨leftValue, middle, rightValue, sides, leftOperand, copied, rightOperand, _, leftLowered,
    rightLowered, _, leftFits, rightFits, leftCopied, rightCopied, same⟩ := comparison_ok lowered
  cases same
  obtain ⟨leftWorks, leftYields⟩ := expression_yields settled leftLowered
  obtain ⟨rightWorks, rightYields⟩ := expression_yields (leftWorks.settled settled) rightLowered
  have leftHere := (leftYields leftValue rfl).later rightWorks
  have rightHere := (rightYields rightValue rfl).since leftWorks
  obtain ⟨leftHeld, leftMoved⟩ := materialize_yields settled leftHere leftCopied
  obtain ⟨rightHeld, rightMoved⟩ :=
    materialize_yields settled (rightHere.later leftMoved) rightCopied
  have scalar : ∀ {type : Ty}, comparable type → type.isArray = false := by
    intro type fits
    exact Bool.eq_false_iff.mpr (not_or.mp fits).2
  have leftIs := materialize_isOperand (leftHere.isOperand (scalar leftFits)) leftCopied
  have rightIs := materialize_isOperand
    (leftMoved.extends_.isOperand (rightHere.isOperand (scalar rightFits))) rightCopied
  have tested : between.Works (between.appended (.compare left right term.line)) := by
    refine works_node rfl rfl ⟨rightMoved.extends_.isOperand leftIs, rightIs⟩ ?_
    intro used member
    simp only [Node.uses, Node.operands, List.mem_cons, List.not_mem_nil, or_false] at member
    rcases member with rfl | rfl
    · exact rightMoved.alive leftHeld.alive
    · exact rightHeld.alive
  have works := ((rightHeld.works.trans tested).destroyed settled leftHeld.unpending).destroyed
    settled rightHeld.unpending
  refine works.trans ?_
  unfold termJump
  split <;> exact works_jump _ _ _

variable
    {whenTrue whenFalse : String}

theorem conditionTerms_works
    {terms : List Comparison}
    {joins : List Logic}
    (settled : before.Settled)
    (lowered : conditionTerms whenTrue whenFalse terms joins before = .ok (done, after)) :
    before.Works after := by
  induction terms generalizing before joins with
  | nil =>
      cases conditionTerms_nil_ok lowered
      exact .refl _
  | cons term rest inductionHypothesis =>
      obtain ⟨left, right, test, between, sidesLowered, restLowered⟩ :=
        conditionTerms_cons_ok lowered
      have works := compared_works settled sidesLowered whenTrue whenFalse rest joins
      exact works.trans (inductionHypothesis (works.settled settled) restLowered)

theorem condition_works
    {test : Option Condition}
    {falseFollows : Bool}
    (settled : before.Settled)
    (lowered : condition test whenTrue whenFalse falseFollows before = .ok (done, after)) :
    before.Works after := by
  obtain ⟨_, _, _, _, termsLowered, rfl⟩ := condition_ok lowered
  have terms := conditionTerms_works settled termsLowered
  split
  · exact terms
  · exact terms.trans (works_jump _ _ _)

/-- What a declaration or assignment stores refers to what it has computed. -/
theorem reference_bound
    {next : VarId}
    (refers : (Lower.bound v).reference? = some next) :
    next = v.id := by
  unfold Lower.bound at refers
  split at refers
  · cases refers
  · cases refers
  · cases refers
    rfl

theorem assign_works
    {index : Option Expr}
    {expr : Expr}
    (settled : before.Settled)
    (lowered : assign line name index expr before = .ok (done, after)) :
    before.Works after := by
  obtain ⟨target, wanted, selected, middle, id, between, resolved, selects, exprLowered, fits,
    stores⟩ := assign_ok lowered
  obtain ⟨_, targetYields, found, isNamed, owned⟩ := resolve_yields settled resolved
  have selecting : before.Works middle ∧
      (selected = 0 → target.type.isArray = false ∧ wanted = target.type) ∧
      (selected ≠ 0 → middle.Alive selected ∧ wanted = target.type.element ∧
        ∃ v owner position,
          middle.listing.fixed? selected = some v ∧ v.storage = .element owner position) := by
    rcases selects with ⟨_, scalar, isWanted, isNone, rfl⟩ | ⟨_, _, accessed, isWanted⟩
    · exact ⟨.refl _, fun _ => ⟨scalar, isWanted⟩, fun isSome => (isSome isNone).elim⟩
    · obtain ⟨yields, v, owner, position, isFound, storage, isType⟩ :=
        elementOf_yields settled targetYields.alive found isNamed accessed
      refine ⟨yields.works, fun isNone => ?_, fun _ => ⟨yields.alive, ?_, v, owner, position,
        isFound, storage⟩⟩
      · have positive := (Listing.le_size_of_fixed? isFound).1
        rw [isNone] at positive
        exact (Nat.lt_irrefl 0 positive).elim
      · rw [isWanted, typeIn, isFound]
        exact isType
  obtain ⟨selectWorks, whole, part⟩ := selecting
  have settledMiddle := selectWorks.settled settled
  obtain ⟨exprWorks, exprYields⟩ := expression_yields settledMiddle exprLowered
  have works := selectWorks.trans exprWorks
  rcases stores with ⟨v, isFound, rfl⟩ | ⟨_, rfl⟩
  · have isId : v.id = id := (works.settled settled).numbered id v isFound
    refine works.trans (works_node rfl rfl ⟨target.fixed, works.extends_.fixed?_of found, isNamed,
      ?_, ?_, ?_⟩ ?_)
    · rw [works.function]
      exact owned
    · split
      next isNone => exact (whole isNone).1
      next isSome =>
        obtain ⟨_, _, v, owner, position, isElement, storage⟩ := part isSome
        exact ⟨v, owner, position, exprWorks.extends_.fixed?_of isElement, storage⟩
    · intro next refers
      rw [reference_bound refers, isId]
      by_cases nested : target.type.element.isArray = true
      · exact .inr nested
      · have scalar : wanted.isArray = false := by
          by_cases isNone : selected = 0
          · rw [(whole isNone).2]
            exact (whole isNone).1
          · rw [(part isNone).2.1]
            exact Bool.eq_false_iff.mpr nested
        exact .inl ((exprYields id rfl).isOperand (isArray_of_assignable fits scalar))
    · intro used member
      rcases List.mem_append.mp member with isOperand | refers
      · simp only [Node.operands] at isOperand
        split at isOperand
        · cases List.mem_singleton.mp isOperand
          exact works.alive targetYields.alive
        next nonzero =>
          simp only [List.mem_cons, List.not_mem_nil, or_false] at isOperand
          rcases isOperand with rfl | rfl
          · exact works.alive targetYields.alive
          · exact exprWorks.alive (part nonzero).1
      · rw [reference_bound (Option.mem_toList.mp refers), isId]
        exact (exprYields id rfl).alive
  · exact works

theorem leave_works
    {result : Option Expr}
    (settled : before.Settled)
    (lowered : leave line result before = .ok (done, after)) :
    before.Works after := by
  obtain ⟨function, _, id, between, inside, _, values, rfl⟩ := leave_ok lowered
  have valued : before.Works between ∧ (id = 0 ∨ between.Alive id ∧
      (between.listing.IsOperand id ∨ function.result.isArray)) := by
    rcases values with ⟨_, rfl, rfl⟩ | ⟨_, _, exprLowered, fits⟩
    · exact ⟨.refl _, .inl rfl⟩
    · obtain ⟨works, yields⟩ := expression_yields settled exprLowered
      refine ⟨works, .inr ⟨(yields id rfl).alive, ?_⟩⟩
      by_cases isArray : function.result.isArray = true
      · exact .inr isArray
      · exact .inl ((yields id rfl).isOperand
          (isArray_of_assignable fits (Bool.eq_false_iff.mpr isArray)))
  obtain ⟨works, value⟩ := valued
  have formed : (Node.leave id line).WellFormed between.function between.listing := by
    rw [works.function]
    exact value.imp_right fun ⟨_, isValue⟩ => isValue.imp_right fun isArray =>
      ⟨function, inside, isArray⟩
  refine (works.trans (@works_node between (.leave id line) rfl rfl formed ?_)).trans
    (works_jump _ _ _)
  intro used member
  simp only [Node.uses, Node.operands] at member
  split at member
  · cases member
  next nonzero =>
    cases List.mem_singleton.mp member
    exact (value.resolve_left nonzero).1

end Lower

end IlsCompiler
