import IlsCompiler.Proofs.Lowering.ProgramLifetimes

namespace IlsCompiler

/-!
# How many locals a function declares

The frame of a function has room for as many locals as there are declarations in its body. Lowering
a statement adds one local for each declaration in it and no other one, so the locals that a whole
function adds are as many as the room that its prologue is told to make.
-/

namespace Listing

/-- Whether a variable is a local that gets a slot. -/
def hasSlot (listing : Listing) (id : VarId) : Bool :=
  (listing.fixed? id).any Variable.hasSlot

/-- The locals that a listing has more than an earlier one. -/
def localsSince (later earlier : Listing) : List VarId :=
  (List.range' (earlier.vars.size + 1) (later.vars.size - earlier.vars.size)).filter later.hasSlot

variable
    {earlier between later : Listing}

theorem mem_localsSince_iff
    (grown : earlier.Extends later)
    {id : Nat} :
    id ∈ later.localsSince earlier ↔
      earlier.vars.size < id ∧ id ≤ later.vars.size ∧ later.hasSlot id = true := by
  have sizes : earlier.vars.size ≤ later.vars.size := grown.size
  rw [localsSince, List.mem_filter, List.mem_range'_1]
  constructor
  · rintro ⟨⟨lower, upper⟩, isLocal⟩
    exact ⟨by omega, by omega, isLocal⟩
  · rintro ⟨lower, upper, isLocal⟩
    exact ⟨⟨by omega, by omega⟩, isLocal⟩

theorem localsSince_trans
    (first : earlier.Extends between)
    (second : between.Extends later) :
    later.localsSince earlier = between.localsSince earlier ++ later.localsSince between := by
  have firstSize := first.size
  have secondSize := second.size
  have numbers : List.range' (earlier.vars.size + 1) (later.vars.size - earlier.vars.size) =
      List.range' (earlier.vars.size + 1) (between.vars.size - earlier.vars.size) ++
        List.range' (between.vars.size + 1) (later.vars.size - between.vars.size) := by
    rw [show later.vars.size - earlier.vars.size =
      (between.vars.size - earlier.vars.size) + (later.vars.size - between.vars.size) by omega,
      ← List.range'_append_1]
    congr 2
    omega
  rw [localsSince, numbers, List.filter_append]
  refine congrArg (· ++ _) (List.filter_congr fun id member => ?_)
  have upper := (List.mem_range'_1.mp member).2
  rw [hasSlot, hasSlot, second.stable id (by omega)]

/-- Where no local is added, there are none since then. -/
theorem localsSince_of_fresh
    (fresh : ∀ id v, earlier.vars.size < id → later.fixed? id = some v → v.hasSlot = false) :
    later.localsSince earlier = [] := by
  refine List.filter_eq_nil_iff.mpr fun id member isLocal => ?_
  have isNew : earlier.vars.size < id := (List.mem_range'_1.mp member).1
  rw [hasSlot] at isLocal
  cases found : later.fixed? id with
  | none => simp [found] at isLocal
  | some v => simp [found, fresh id v isNew found] at isLocal

theorem localsSince_of_size
    (size : later.vars.size = earlier.vars.size) :
    later.localsSince earlier = [] :=
  localsSince_of_fresh (fresh_none size)

end Listing

namespace LoweringState

/-- What lowering a statement does, and how many locals it adds. -/
structure Counts (count : Nat) (before after : LoweringState) : Prop
    extends before.Settles after where
  locals : before.Placed → after.EndFree →
    (after.listing.localsSince before.listing).length = count

namespace Counts

variable
    {count more : Nat}
    {before between after : LoweringState}

theorem of_size
    (settles : before.Settles after)
    (size : after.listing.vars.size = before.listing.vars.size) :
    Counts 0 before after where
  toSettles := settles
  locals _ _ := by rw [Listing.localsSince_of_size size, List.length_nil]

theorem refl
    (state : LoweringState) :
    Counts 0 state state :=
  .of_size (.refl state) rfl

theorem trans
    (earlier : Counts count before between)
    (later : Counts more between after) :
    Counts (count + more) before after where
  toSettles := earlier.toSettles.trans later.toSettles
  locals placed free := by
    have isFree := free.of_proceeds later.toProceeds
    have placedLater := (earlier.moves placed isFree).placed
    rw [Listing.localsSince_trans earlier.extends_ later.extends_, List.length_append,
      earlier.locals placed isFree, later.locals placedLater free]

/-- A statement that binds nothing adds no local. -/
theorem of_works
    (proceeds : before.Proceeds after)
    (works : before.Placed → before.Works after) :
    Counts 0 before after where
  toSettles := settles_of_works proceeds works
  locals placed _ := by
    rw [Listing.localsSince_of_fresh (works placed).unbound, List.length_nil]

theorem labelled
    (state : LoweringState)
    (name : String) :
    Counts 0 state (state.labelled name) :=
  .of_size (settles_labelled state name) (size_labelled state name)

theorem numbered
    (state : LoweringState) :
    Counts 0 state state.numbered :=
  .of_size (settles_numbered state) rfl

theorem jump
    (state : LoweringState)
    (label : String) :
    Counts 0 state (state.appended (.jump label none)) :=
  of_works (proceeds_appended _ rfl) fun _ => Lower.works_jump _ _ _

theorem withLocal
    {state : LoweringState}
    (name : String)
    {type : Ty}
    (scalar : type.isArray = false)
    {value : Value}
    (line : Nat)
    (lent : ∀ next, value.reference? = some next → state.Lends next) :
    Counts 1 state (state.withLocal name type value line) where
  toSettles := settles_withLocal name scalar line lent
  locals _ _ := by
    obtain ⟨v, found, storage, _⟩ := fixed?_withLocal state name type value line
    have size : (state.withLocal name type value line).listing.vars.size =
        state.listing.vars.size + 1 := by
      simp [LoweringState.withLocal, Listing.addNamed, Listing.addVariable]
    have isLocal : (state.withLocal name type value line).listing.hasSlot
        (state.listing.vars.size + 1) = true := by
      simp [Listing.hasSlot, found, Variable.hasSlot, Variable.needsDestroy, Storage.isNamed,
        storage]
    simp [Listing.localsSince, size, isLocal]

end Counts

/-- The variables are the same when a scope has been left. -/
theorem size_left
    (state : LoweringState) :
    (state.emptied.labelled state.innermost.endLabel).popped.listing.vars.size =
      state.listing.vars.size := by
  rw [← (frames_emptied state).2.2]
  exact size_labelled _ _

end LoweringState

namespace Lower

open LoweringState Stateful

variable
    {before after : LoweringState}
    {line : Nat}
    {done : Unit}

theorem declare_counts
    {name : String}
    {type : Ty}
    {initial : Option Expr}
    (lowered : declare line name type initial before = .ok (done, after)) :
    Counts 1 before after where
  toSettles := declare_settles lowered
  locals placed free := by
    obtain ⟨scalar, stored, between, initialized, _, rfl⟩ :=
      declare_local_ok placed.inside.isModule lowered
    obtain ⟨works, lent⟩ := initializer_works placed.toSettled scalar initialized
    have computed : Counts 0 before between := .of_works works.toProceeds fun _ => works
    exact (computed.trans (.withLocal name scalar line lent)).locals placed free

/-- A scope adds the locals of its body. -/
theorem inScope_counts
    {count : Nat}
    {kind : Scope.Kind}
    {exitLabel : String}
    {body : Lower Unit}
    (each : ∀ {before after : LoweringState},
      body before = .ok ((), after) → Counts count before after)
    (lowered : inScope kind exitLabel body before = .ok (done, after)) :
    Counts count before after where
  toSettles := inScope_settles (fun bodyLowered => (each bodyLowered).toSettles) lowered
  locals placed free := by
    obtain ⟨between, _, bodyLowered, endFresh, rfl⟩ := inScope_ok lowered
    have isFree : between.EndFree := by
      intro taken
      exact endFresh (by rwa [(computes_emptied between).labels])
    have counts := each bodyLowered
    have enters := (grows_entered before kind exitLabel).extends_
    have size : (before.entered kind exitLabel).listing.vars.size = before.listing.vars.size := by
      simp [entered, LoweringState.labelled, LoweringState.opened]
    rw [Listing.localsSince_trans (enters.trans counts.extends_) (extends_left between),
      Listing.localsSince_trans enters counts.extends_, Listing.localsSince_of_size size,
      Listing.localsSince_of_size (size_left between), List.nil_append, List.append_nil]
    exact counts.locals (placed_entered placed kind exitLabel) isFree

/-- Every statement adds as many locals as there are declarations in it. -/
theorem composed_counts :
    Composed (fun _ => True) (fun _ => True) Counts where
  refl := .refl
  trans := .trans
  numbered := .numbered
  labelled := .labelled
  jumped := .jump
  condition _ lowered := .of_works (condition_proceeds lowered) fun placed =>
    condition_works placed.toSettled lowered
  declare _ := declare_counts
  assign _ lowered := .of_works (assign_proceeds lowered) fun placed =>
    assign_works placed.toSettled lowered
  call _ lowered := .of_works (callStatement_computes lowered).toProceeds fun placed =>
    callStatement_works placed.toSettled lowered
  leave _ lowered := .of_works (leave_proceeds lowered) fun placed =>
    leave_works placed.toSettled lowered
  inScope := inScope_counts

theorem bindParameters_size
    {scope : Nat}
    {ids : List VarId}
    (inside : Inside before.listing.scopes scope)
    (known : ∀ id ∈ ids, before.listing.IsParameter id)
    (lowered : bindParameters scope line ids before = .ok (done, after)) :
    after.listing.vars.size = before.listing.vars.size := by
  induction ids generalizing before with
  | nil =>
      rw [bindParameters] at lowered
      obtain ⟨-, rfl⟩ := pure_ok_iff.mp lowered
      rfl
  | cons id rest inductionHypothesis =>
      obtain ⟨v, name, position, found, storage, _⟩ := known id (by simp)
      obtain ⟨_, restLowered⟩ := bindParameters_cons_ok inside.isModule found storage lowered
      have first := proceeds_bound scope found storage
      rw [inductionHypothesis (inside.grown first.extends_.scopes)
        (fun other member => first.extends_.isParameter (known other (by simp [member])))
        restLowered]
      show (before.listing.modifyVariable id _).vars.size = _
      simp

/-- A function adds as many locals as its prologue is told to make room for. -/
theorem functionBody_locals
    {function : Signature}
    {body : List Stmt}
    (grounded : before.Grounded)
    (known : before.listing.Parameters function)
    (lowered : functionBody function body before = .ok (done, after)) :
    (after.listing.localsSince before.listing).length = declarationsIn body := by
  obtain ⟨bound, between, parametersBound, bodyLowered, endFresh, rfl⟩ := functionBody_ok lowered
  have placed := begun_placed function (declarationsIn body) grounded
  have parameters := (extends_begun function (declarationsIn body) before).parameters known
  have inside := inside_begun before function (declarationsIn body)
  obtain ⟨bindsProceed, _⟩ := bindParameters_proceeds inside parameters parametersBound
  rw [← scope_begun before function (declarationsIn body)] at parametersBound
  have binds := bindParameters_moves placed rfl (List.Subset.refl _) parameters parametersBound
  have isFree : between.EndFree := by
    intro taken
    exact endFresh (by rwa [(computes_emptied between).labels])
  have counts := composed_counts.statements bodyLowered
  have begins := extends_begun function (declarationsIn body) before
  have beginSize : (before.begun function (declarationsIn body)).listing.vars.size =
      before.listing.vars.size := by
    simp [begun, prepared, enteredBy, LoweringState.opened, LoweringState.labelled,
      Listing.modifyFunction]
  have bindSize : bound.listing.vars.size =
      (before.begun function (declarationsIn body)).listing.vars.size :=
    bindParameters_size placed.inside parameters parametersBound
  have endSize : (between.finished function before.listing.scopes.size).outside.listing.vars.size =
      between.listing.vars.size := by
    rw [← size_left between]
    simp [outside, popped, finished, closed]
  have ends := (extends_left between).trans
    (extends_outside between function before.listing.scopes.size)
  have first := begins.trans bindsProceed.extends_
  rw [Listing.localsSince_trans (first.trans counts.extends_) ends,
    Listing.localsSince_trans first counts.extends_,
    Listing.localsSince_of_size (bindSize.trans beginSize), Listing.localsSince_of_size endSize,
    List.nil_append, List.append_nil]
  exact counts.locals binds.placed isFree

end Lower

end IlsCompiler
