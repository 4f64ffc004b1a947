import IlsCompiler.Proofs.Lowering.StatementCounts

namespace IlsCompiler

/-!
# What a part of a listing refers to

What lowering adds to a listing behind some point refers to other things added there and to named
variables, and the calls in it are numbered from that point on. So the code of a function never
asks for the result of a call that belongs to another function.
-/

/--
The variables that the code for a variable asks for. The value of a named variable is asked for
where it is declared.
-/
def Variable.sources (v : Variable) : List VarId :=
  match v.storage with
  | .element _ index => [index]
  | .result _ call => call.arguments
  | .literal => []
  | .array _ _ _ => []
  | _ => v.value.reference?.toList

namespace Listing

/-- A variable was added behind an earlier listing, or it has a name. -/
def Owns (listing origin : Listing) (id : VarId) : Prop :=
  origin.vars.size < id ∨ ∃ v, listing.fixed? id = some v ∧ v.storage.isNamed

/-- A variable asks only for what was added behind an earlier listing or has a name. -/
structure OwnsVariable (listing origin : Listing) (v : Variable) : Prop where
  sources : ∀ next ∈ v.sources, listing.Owns origin next
  call : ∀ function call, v.storage = .result function call → origin.callCount ≤ call.id

/-- A node is about what was added behind an earlier listing or has a name. -/
structure OwnsNode (listing origin : Listing) (node : Node) : Prop where
  uses : ∀ id ∈ node.uses, listing.Owns origin id
  declared : ∀ id line, node = .declare id line → origin.vars.size < id
  call : ∀ call, node = .call call → origin.callCount ≤ call.id

/-- What a listing has beyond an earlier one refers to nothing that the earlier one leaves open. -/
structure SelfContained (listing origin : Listing) : Prop where
  extends_ : origin.Extends listing
  numbered : listing.Numbered
  vars : ∀ id v, origin.vars.size < id → listing.fixed? id = some v →
    listing.OwnsVariable origin v
  nodes : ∀ node ∈ listing.since origin, listing.OwnsNode origin node

variable
    {origin earlier later : Listing}

theorem Owns.grown
    {id : VarId}
    (owns : earlier.Owns origin id)
    (grown : earlier.Extends later) :
    later.Owns origin id :=
  owns.imp_right fun ⟨v, found, isNamed⟩ => ⟨v, grown.fixed?_of found, isNamed⟩

theorem OwnsVariable.grown
    {v : Variable}
    (owns : earlier.OwnsVariable origin v)
    (grown : earlier.Extends later) :
    later.OwnsVariable origin v :=
  ⟨fun next member => (owns.sources next member).grown grown, owns.call⟩

theorem OwnsNode.grown
    {node : Node}
    (owns : earlier.OwnsNode origin node)
    (grown : earlier.Extends later) :
    later.OwnsNode origin node :=
  ⟨fun id member => (owns.uses id member).grown grown, owns.declared, owns.call⟩

/-- A node that is about no variable and is no call. -/
theorem ownsNode_of_unused
    {listing : Listing}
    {node : Node}
    (unused : node.uses = [])
    (noDeclaration : ∀ id line, node ≠ .declare id line)
    (noCall : ∀ call, node ≠ .call call) :
    listing.OwnsNode origin node where
  uses id member := by
    rw [unused] at member
    cases member
  declared id line same := absurd same (noDeclaration id line)
  call invoked same := absurd same (noCall invoked)

namespace SelfContained

theorem refl
    {listing : Listing}
    (numbered : listing.Numbered) :
    listing.SelfContained listing where
  extends_ := .refl _
  numbered := numbered
  vars := fresh_none rfl
  nodes node member := by
    rw [since, ← Array.length_toList, List.drop_length] at member
    cases member

/-- A listing stays self-contained while what is added to it is about what it owns. -/
theorem grown
    (contained : earlier.SelfContained origin)
    (grown : earlier.Extends later)
    (fresh : ∀ id v, earlier.vars.size < id → later.fixed? id = some v →
      later.OwnsVariable origin v)
    (added : List Node)
    (nodes : later.nodes.toList = earlier.nodes.toList ++ added)
    (owned : ∀ node ∈ added, later.OwnsNode origin node) :
    later.SelfContained origin where
  extends_ := contained.extends_.trans grown
  numbered := grown.numbered contained.numbered
  vars id v isAdded found := by
    rcases Nat.lt_or_ge earlier.vars.size id with isNew | isOld
    · exact fresh id v isNew found
    · rw [grown.stable id isOld] at found
      exact (contained.vars id v isAdded found).grown grown
  nodes node member := by
    have isAdded : later.since earlier = added := by
      rw [since, nodes, ← Array.length_toList, List.drop_left]
    rw [contained.extends_.since_trans grown, isAdded] at member
    rcases List.mem_append.mp member with isOld | isNew
    · exact (contained.nodes node isOld).grown grown
    · exact owned node isNew

/-- A listing that gets no nodes and only variables about what it owns. -/
theorem quiet
    (contained : earlier.SelfContained origin)
    (grown : earlier.Extends later)
    (nodes : later.nodes = earlier.nodes)
    (fresh : ∀ id v, earlier.vars.size < id → later.fixed? id = some v →
      later.OwnsVariable origin v) :
    later.SelfContained origin :=
  contained.grown grown fresh [] (by rw [nodes, List.append_nil]) fun _ member => nomatch member

end SelfContained

end Listing

namespace LoweringState

variable
    {origin : Listing}
    {state after : LoweringState}

theorem contained_appended
    {node : Node}
    (contained : state.listing.SelfContained origin)
    (owns : state.listing.OwnsNode origin node) :
    (state.appended node).listing.SelfContained origin := by
  have grown := extends_appended state node
  refine contained.grown grown (Listing.fresh_none (size_appended state node)) [node]
    (by rw [nodes_appended, Array.toList_push]) fun other member => ?_
  cases List.mem_singleton.mp member
  exact owns.grown grown

theorem contained_destroyed
    {id : VarId}
    (contained : state.listing.SelfContained origin) :
    (state.destroyed id).listing.SelfContained origin := by
  unfold destroyed
  split
  · let fewer : LoweringState := { state with
      frames := state.frames.map fun (open_ : Frame) =>
        { open_ with temporaries := open_.temporaries.erase id } }
    have same : fewer.listing.SelfContained origin := contained
    exact contained_appended same (Listing.ownsNode_of_unused rfl (fun _ _ => nofun) fun _ => nofun)
  · exact contained

/-- A variable that is declared asks for what its value refers to. -/
theorem contained_declared
    {v : Variable}
    {line : Nat}
    (contained : state.listing.SelfContained origin)
    (grown : state.listing.Extends after.listing)
    (size : after.listing.vars.size = state.listing.vars.size + 1)
    (found : after.listing.fixed? (state.listing.vars.size + 1) = some v)
    (nodes : after.listing.nodes =
      state.listing.nodes.push (.declare (state.listing.vars.size + 1) line))
    (asks : v.sources = v.value.reference?.toList)
    (isPlace : ∀ function call, v.storage ≠ .result function call)
    (owned : ∀ next, v.value.reference? = some next → state.listing.Owns origin next) :
    after.listing.SelfContained origin := by
  have isNew : origin.vars.size < state.listing.vars.size + 1 :=
    Nat.lt_succ_of_le contained.extends_.size
  refine contained.grown grown (Listing.fresh_last size found ⟨fun next member => ?_, ?_⟩) _
    (by rw [nodes, Array.toList_push]) fun node member => ?_
  · rw [asks] at member
    exact (owned next (Option.mem_toList.mp member)).grown grown
  · exact fun function call storage => absurd storage (isPlace function call)
  · cases List.mem_singleton.mp member
    refine ⟨fun id isUsed => ?_, fun id other same => ?_, fun _ => nofun⟩
    · have same : id = state.listing.vars.size + 1 := by
        simpa [Node.uses, Node.operands] using isUsed
      exact .inl (same ▸ isNew)
    · cases same
      exact isNew

theorem contained_withTemporary
    {type : Ty}
    {value : Value}
    {isResult : Bool}
    {line : Nat}
    (contained : state.listing.SelfContained origin)
    (owned : ∀ next, value.reference? = some next → state.listing.Owns origin next) :
    (state.withTemporary type value isResult line).listing.SelfContained origin :=
  contained_declared contained (computes_withTemporary _ _ _ _ _).extends_
    (size_withTemporary _ _ _ _ _) (fixed?_withTemporary _ _ _ _ _) (nodes_withTemporary _ _ _ _ _)
    rfl (fun _ _ => nofun) owned

/-- A variable that is added and not declared. -/
theorem contained_added
    {v : Variable}
    (contained : state.listing.SelfContained origin)
    (grown : state.listing.Extends after.listing)
    (size : after.listing.vars.size = state.listing.vars.size + 1)
    (found : after.listing.fixed? (state.listing.vars.size + 1) = some v)
    (nodes : after.listing.nodes = state.listing.nodes)
    (owns : after.listing.OwnsVariable origin v) :
    after.listing.SelfContained origin ∧ after.listing.Owns origin (state.listing.vars.size + 1) :=
  ⟨contained.quiet grown nodes (Listing.fresh_last size found owns),
    .inl (Nat.lt_succ_of_le contained.extends_.size)⟩

theorem contained_withLiteral
    (value : Literal)
    (contained : state.listing.SelfContained origin) :
    (state.withLiteral value).listing.SelfContained origin ∧
      (state.withLiteral value).listing.Owns origin (state.listing.vars.size + 1) := by
  obtain ⟨v, found, storage⟩ := fixed?_withLiteral state value
  refine contained_added contained (computes_withLiteral state value).extends_
    (size_withLiteral _ _) found (nodes_withLiteral _ _) ⟨?_, ?_⟩
  · simp [Variable.sources, storage]
  · simp [storage]

theorem contained_withElement
    {array index : VarId}
    (contained : state.listing.SelfContained origin)
    (owned : state.listing.Owns origin index) :
    (state.withElement array index).listing.SelfContained origin ∧
      (state.withElement array index).listing.Owns origin (state.listing.vars.size + 1) := by
  obtain ⟨v, found, storage, _⟩ := fixed?_withElement state array index
  have grown := (computes_withElement state array index).extends_
  refine contained_added contained grown (by simp [withElement, Listing.addElement]) found rfl
    ⟨fun next member => ?_, by simp [storage]⟩
  have same : next = index := by simpa [Variable.sources, storage] using member
  exact same ▸ owned.grown grown

end LoweringState

namespace Lower

open LoweringState Listing

variable
    {origin : Listing}
    {before after : LoweringState}
    {line : Nat}

/-- A variable that is copied is owned, and so is its copy. -/
theorem materialize_contained
    {id copied : VarId}
    (materialized : materialize id line before = .ok (copied, after))
    (contained : before.listing.SelfContained origin)
    (owned : before.listing.Owns origin id) :
    after.listing.SelfContained origin ∧ after.listing.Owns origin copied := by
  rcases materialize_ok materialized with ⟨v, _, _, _, _, rfl, rfl⟩ | ⟨rfl, rfl, _⟩
  · refine ⟨contained_withTemporary contained fun next refers => ?_,
      .inl (Nat.lt_succ_of_le contained.extends_.size)⟩
    cases refers
    exact owned
  · exact ⟨contained, owned⟩

theorem argument_contained
    {function : String}
    {id copied : VarId}
    (passed : argument function id line before = .ok (copied, after))
    (contained : before.listing.SelfContained origin)
    (owned : before.listing.Owns origin id) :
    after.listing.SelfContained origin ∧ after.listing.Owns origin copied := by
  rcases argument_ok passed with ⟨v, _, _, _, rfl, rfl⟩ | ⟨rfl, rfl, _⟩
  · refine ⟨contained_withTemporary contained fun next refers => ?_,
      .inl (Nat.lt_succ_of_le contained.extends_.size)⟩
    cases refers
    exact owned
  · exact ⟨contained, owned⟩

theorem element_contained
    {array : Variable}
    {index id : VarId}
    (accessed : element array index line before = .ok (id, after))
    (contained : before.listing.SelfContained origin)
    (owned : before.listing.Owns origin index) :
    after.listing.SelfContained origin ∧ after.listing.Owns origin id := by
  obtain ⟨_, _, position, between, copied, rfl, rfl⟩ := element_ok accessed
  obtain ⟨copies, isOwned⟩ := materialize_contained copied contained owned
  exact contained_withElement copies isOwned

/-- Two operands are copied one after the other. -/
theorem operands_contained
    {left right leftOperand rightOperand : VarId}
    {middle : LoweringState}
    (leftCopied : materialize left line before = .ok (leftOperand, middle))
    (rightCopied : materialize right line middle = .ok (rightOperand, after))
    (contained : before.listing.SelfContained origin)
    (leftOwned : before.listing.Owns origin left)
    (rightOwned : before.listing.Owns origin right) :
    after.listing.SelfContained origin ∧ after.listing.Owns origin leftOperand ∧
      after.listing.Owns origin rightOperand := by
  obtain ⟨leftContained, isLeft⟩ := materialize_contained leftCopied contained leftOwned
  obtain ⟨rightContained, isRight⟩ := materialize_contained rightCopied leftContained
    (rightOwned.grown (materialize_computes leftCopied).extends_)
  exact ⟨rightContained, isLeft.grown (materialize_computes rightCopied).extends_, isRight⟩

theorem operation_contained
    {op : ArithOp}
    {left right id : VarId}
    (operated : operation op left right line before = .ok (id, after))
    (contained : before.listing.SelfContained origin)
    (leftOwned : before.listing.Owns origin left)
    (rightOwned : before.listing.Owns origin right) :
    after.listing.SelfContained origin ∧ after.listing.Owns origin id := by
  have isNew := (operation_computes operated).extends_.size
  obtain ⟨_, _, leftOperand, rightOperand, middle, between, leftCopied, rightCopied, rfl, rfl⟩ :=
    operation_ok operated
  obtain ⟨copied, isLeft, isRight⟩ :=
    operands_contained leftCopied rightCopied contained leftOwned rightOwned
  have declared : (between.withTemporary .int (.literal "0") true line).listing.SelfContained
      origin := contained_withTemporary copied fun _ => nofun
  have grown := (computes_withTemporary between .int (.literal "0") true line).extends_
  have isResult : ∀ listing : Listing, listing.Owns origin (between.listing.vars.size + 1) :=
    fun _ => .inl (Nat.lt_succ_of_le copied.extends_.size)
  refine ⟨contained_destroyed (contained_destroyed (contained_appended declared
    ⟨fun id member => ?_, fun _ _ => nofun, fun _ => nofun⟩)), isResult _⟩
  rcases List.mem_cons.mp member with rfl | isOperand
  · exact isResult _
  · rcases List.mem_cons.mp isOperand with rfl | isRightOperand
    · exact isLeft.grown grown
    · cases List.mem_singleton.mp isRightOperand
      exact isRight.grown grown

/-- A call is about its arguments, and its number is the next one. -/
theorem nextCall_owned
    {listing : Listing}
    {function : Signature}
    {given : List VarId}
    (contained : before.listing.SelfContained origin)
    (owned : ∀ id ∈ given, listing.Owns origin id) :
    listing.OwnsNode origin (.call (before.nextCall function given line)) where
  uses id member := owned id member
  declared _ _ := nofun
  call _ same := by
    cases same
    exact contained.extends_.calls

theorem invoke_contained
    {function : Signature}
    {given : List VarId}
    {isStatement : Bool}
    {result : Option VarId}
    (invoked : invoke function given line isStatement before = .ok (result, after))
    (contained : before.listing.SelfContained origin)
    (owned : ∀ id ∈ given, before.listing.Owns origin id) :
    after.listing.SelfContained origin ∧
      ∀ id, result = some id → after.listing.Owns origin id := by
  have counts := (computes_counted before function).extends_
  have counted : (before.counted function).listing.SelfContained origin :=
    contained.quiet counts rfl (Listing.fresh_none rfl)
  have isOwned : ∀ id ∈ given, (before.counted function).listing.Owns origin id :=
    fun id member => (owned id member).grown counts
  rcases invoke_ok invoked with ⟨_, rfl, rfl⟩ | ⟨_, rfl, rfl⟩
  · obtain ⟨grown, frozen, _⟩ := extends_marks (before.counted function).listing given
    have marked : ((before.counted function).marked given).listing.SelfContained origin :=
      counted.quiet grown (congrArg Listing.Frozen.nodes frozen)
        (Listing.fresh_none (size_marked given))
    exact ⟨contained_appended marked (nextCall_owned contained fun id member =>
      (isOwned id member).grown grown), fun _ => nofun⟩
  · have adds := (computes_withResult (before.counted function) function
      (before.nextCall function given line)).extends_
    obtain ⟨v, found, storage⟩ := fixed?_withResult (before.counted function) function
      (before.nextCall function given line)
    have owns : OwnsVariable ((before.counted function).withResult function
        (before.nextCall function given line)).listing origin v := by
      refine ⟨fun next member => ?_, fun _ _ same => ?_⟩
      · rw [Variable.sources, storage] at member
        exact (isOwned next member).grown adds
      · cases storage.symm.trans same
        exact contained.extends_.calls
    obtain ⟨resulted, isResult⟩ := contained_added counted adds
      (by simp [withResult, Listing.addResult]) found rfl owns
    have calls : ((before.counted function).withResult function
        (before.nextCall function given line)).listing.OwnsNode origin
          (.call (before.nextCall function given line)) :=
      nextCall_owned contained fun id member => (isOwned id member).grown adds
    cases isStatement with
    | true =>
        refine ⟨contained_appended resulted calls, fun id same => ?_⟩
        cases same
        exact isResult.grown (extends_appended _ _)
    | false =>
        refine ⟨resulted, fun id same => ?_⟩
        cases same
        exact isResult

theorem invokeBuiltin_contained
    {builtin : Builtin}
    {given : List VarId}
    {done : Unit}
    (invoked : invokeBuiltin builtin given line before = .ok (done, after))
    (contained : before.listing.SelfContained origin)
    (owned : ∀ id ∈ given, before.listing.Owns origin id) :
    after.listing.SelfContained origin := by
  obtain ⟨_, rfl⟩ := invokeBuiltin_ok invoked
  have grown : before.listing.Extends { before.listing with
      callCount := before.listing.callCount + 1 } :=
    { Listing.Extends.refl before.listing with calls := Nat.le_succ _ }
  refine contained_appended (contained.quiet grown rfl (Listing.fresh_none rfl))
    ⟨fun id member => (owned id member).grown grown, fun _ _ => nofun, fun _ same => ?_⟩
  cases same
  exact contained.extends_.calls

/-- The nodes of an expression are about what is owned, and so is its value. -/
theorem evaluated_contained
    (origin : Listing) :
    Evaluated
      (fun _ before after result => before.listing.SelfContained origin →
        after.listing.SelfContained origin ∧ ∀ id, result = some id → after.listing.Owns origin id)
      fun _ _ _ before after ids => before.listing.SelfContained origin →
        after.listing.SelfContained origin ∧ ∀ id ∈ ids, after.listing.Owns origin id where
  name {_ _ v state} _ resolved contained := by
    obtain ⟨-, id, _, known, isNamed⟩ := resolve_ok resolved
    have found : state.listing.fixed? id = some v.fixed := by simp [Listing.fixed?, known]
    have number : v.id = id := contained.numbered id v.fixed found
    refine ⟨contained, fun _ same => ?_⟩
    cases same
    exact number ▸ .inr ⟨v.fixed, found, by simpa using isNamed⟩
  literal _ value _ contained :=
    (contained_withLiteral value contained).imp_right fun isAdded _ same =>
      Option.some.inj same ▸ isAdded
  folded _ _ _ contained :=
    (contained_withLiteral _ contained).imp_right fun isAdded _ same =>
      Option.some.inj same ▸ isAdded
  binary _ _ rightLowered operated left right contained := by
    obtain ⟨leftContained, isLeft⟩ := left contained
    obtain ⟨rightContained, isRight⟩ := right leftContained
    have grown := (expression_computes rightLowered).extends_
    exact (operation_contained operated rightContained ((isLeft _ rfl).grown grown)
      (isRight _ rfl)).imp_right fun isResult _ same => Option.some.inj same ▸ isResult
  element _ _ _ _ accessed index contained := by
    obtain ⟨indexed, isIndex⟩ := index contained
    exact (element_contained accessed indexed (isIndex _ rfl)).imp_right fun isElement _ same =>
      Option.some.inj same ▸ isElement
  builtin _ _ _ invoked passed contained := by
    obtain ⟨ready, isPassed⟩ := passed contained
    exact ⟨invokeBuiltin_contained invoked ready isPassed, by simp⟩
  invoke _ _ _ invoked passed contained := by
    obtain ⟨ready, isPassed⟩ := passed contained
    refine (invoke_contained invoked ready isPassed).imp_right fun isResult id same => ?_
    split at same
    · cases same
    · exact isResult id same
  nil _ contained := ⟨contained, by simp⟩
  cons _ passed restLowered first rest contained := by
    obtain ⟨firstContained, isFirst⟩ := first contained
    obtain ⟨copied, isCopied⟩ := argument_contained passed firstContained (isFirst _ rfl)
    exact (rest copied).imp_right fun isOther => List.forall_mem_cons.mpr
      ⟨isCopied.grown (arguments_computes restLowered).extends_, isOther⟩

theorem expression_contained
    {expr : Expr}
    {result : Option VarId}
    (lowered : expression expr before = .ok (result, after))
    (contained : before.listing.SelfContained origin) :
    after.listing.SelfContained origin ∧
      ∀ id, result = some id → after.listing.Owns origin id :=
  (evaluated_contained origin).expression lowered contained

end Lower

/-!
## What the body of a function refers to

Every statement adds nodes about what its function owns: variables that were added since the
function was begun, and named ones. So does the body of a function as a whole.
-/

namespace LoweringState

/-- A step of lowering adds only nodes about what its function owns. -/
def Contains (before after : LoweringState) : Prop :=
  ∀ origin, before.listing.SelfContained origin → after.listing.SelfContained origin

namespace Contains

variable
    {before between after : LoweringState}

theorem refl
    (state : LoweringState) :
    state.Contains state :=
  fun _ contained => contained

theorem trans
    (earlier : before.Contains between)
    (later : between.Contains after) :
    before.Contains after :=
  fun origin contained => later origin (earlier origin contained)

/-- A node that is about no variable. -/
theorem appended
    (state : LoweringState)
    {node : Node}
    (unused : node.uses = [])
    (noDeclaration : ∀ id line, node ≠ .declare id line)
    (noCall : ∀ call, node ≠ .call call) :
    state.Contains (state.appended node) :=
  fun _ contained =>
    contained_appended contained (Listing.ownsNode_of_unused unused noDeclaration noCall)

end Contains

theorem plainly_contains :
    Plainly Contains where
  refl := .refl
  trans := .trans
  same grown _ _ size nodes := fun _ contained => contained.quiet grown nodes (Listing.fresh_none size)
  plain state node plain := by
    cases node with
    | label | prologue | epilogue | openScope | closeScope | jump | destroy =>
        exact .appended state rfl (fun _ _ => nofun) fun _ => nofun
    | _ => cases plain

end LoweringState

namespace Lower

open LoweringState Stateful Listing

variable
    {before after : LoweringState}
    {line : Nat}
    {done : Unit}

theorem comparison_contains
    {term : Comparison}
    {left right : VarId}
    {test : CmpOp}
    (lowered : comparison term before = .ok ((left, right, test), after)) :
    before.Contains (after.appended (.compare left right line)) := by
  intro origin contained
  obtain ⟨_, middle, _, between, _, _, _, _, leftLowered, rightLowered, _, _, _, leftCopied,
    rightCopied, same⟩ := comparison_ok lowered
  cases same
  obtain ⟨leftContained, isLeft⟩ := expression_contained leftLowered contained
  obtain ⟨rightContained, isRight⟩ := expression_contained rightLowered leftContained
  obtain ⟨copied, leftOwned, rightOwned⟩ := operands_contained leftCopied rightCopied rightContained
    ((isLeft _ rfl).grown (expression_computes rightLowered).extends_) (isRight _ rfl)
  refine contained_appended copied ⟨fun id member => ?_, fun _ _ => nofun, fun _ => nofun⟩
  rcases List.mem_cons.mp member with rfl | isSecond
  · exact leftOwned
  · exact List.mem_singleton.mp isSecond ▸ rightOwned

/-- What a value is stored as leads to the value. -/
theorem owns_of_bound
    {listing origin : Listing}
    {id next : VarId}
    {v : Variable}
    (numbered : listing.Numbered)
    (found : listing.fixed? id = some v)
    (owned : listing.Owns origin id)
    (refers : (bound v).reference? = some next) :
    listing.Owns origin next := by
  have number := numbered id v found
  unfold bound at refers
  split at refers
  · cases refers
  · cases refers
  · cases refers
    exact number ▸ owned

theorem declare_local_contains
    {name : String}
    {type : Ty}
    {initial : Option Expr}
    (isLocal : before.listing.scopes.isModule before.scope = false)
    (lowered : declare line name type initial before = .ok (done, after)) :
    before.Contains after := by
  intro origin contained
  obtain ⟨_, stored, between, initialized, _, rfl⟩ := declare_local_ok isLocal lowered
  obtain ⟨v, found, storage, value, _⟩ := fixed?_withLocal between name type stored line
  have declares : between.listing.SelfContained origin →
      (∀ next, stored.reference? = some next → between.listing.Owns origin next) →
      (between.withLocal name type stored line).listing.SelfContained origin := by
    intro ready owned
    refine contained_declared ready (proceeds_withLocal _ _ _ _ _).extends_ ?_ found
      (nodes_withLocal _ _ _ _ _) (by simp [Variable.sources, storage]) (by simp [storage])
      (value ▸ owned)
    simp [LoweringState.withLocal, Listing.addNamed, Listing.addVariable]
  rcases initializer_ok initialized with ⟨_, rfl, rfl⟩ | ⟨expr, id, _, exprLowered, _, rfl⟩
  · exact declares (plainly_contains.defaulted before type origin contained) (by rintro _ ⟨⟩)
  · obtain ⟨ready, isValue⟩ := expression_contained exprLowered contained
    refine declares ready fun next refers => ?_
    unfold boundIn at refers
    split at refers
    next w isFound => exact owns_of_bound ready.numbered isFound (isValue _ rfl) refers
    next => cases refers; exact isValue _ rfl

theorem constant_contains
    {name : String}
    {type : Ty}
    {initial : Option Expr}
    {stored : Value}
    (lowered : constant line name type initial before = .ok (stored, after)) :
    before.Contains after ∧ stored.reference? = none := by
  rcases constant_ok lowered with ⟨_, rfl, rfl⟩ | ⟨_, _, texts, _, _, _, _, rfl, rfl⟩ |
    ⟨_, contents, _, _, rfl, rfl⟩ | ⟨_, _, _, _, _, _, _, rfl, rfl⟩
  · exact ⟨plainly_contains.defaulted _ _, rfl⟩
  · refine ⟨fun origin contained => ?_, rfl⟩
    have found := Listing.fixed?_addVariable before.listing (.array type.element type.length)
      (.literal (", ".intercalate texts)) (fun _ =>
        .array type.element type.length (", ".intercalate texts)) (before.listing.vars.size + 1)
    exact (contained_added contained (constant_proceeds lowered).extends_ (Array.size_push _)
      (found.trans (if_pos rfl)) rfl ⟨fun _ => nofun, fun _ _ => nofun⟩).1
  · exact ⟨plainly_contains.withString _ _, rfl⟩
  · exact ⟨.refl _, rfl⟩

theorem declare_contains
    {name : String}
    {type : Ty}
    {initial : Option Expr}
    (lowered : declare line name type initial before = .ok (done, after)) :
    before.Contains after := by
  cases isModule : before.listing.scopes.isModule before.scope with
  | false => exact declare_local_contains isModule lowered
  | true =>
      rcases declare_module_ok isModule lowered with ⟨_, rfl⟩ | ⟨_, stored, between, found, rfl⟩
      · exact .refl _
      · obtain ⟨constants, isConstant⟩ := constant_contains found
        obtain ⟨v, isFixed, storage, value, _⟩ := fixed?_withGlobal between name type stored line
        refine constants.trans fun origin contained => ?_
        refine contained_declared contained (proceeds_withGlobal _ _ _ _ _).extends_ ?_ isFixed
          (nodes_withGlobal _ _ _ _ _) (by simp [Variable.sources, storage]) (by simp [storage]) ?_
        · simp [LoweringState.withGlobal, Listing.addNamed, Listing.addVariable]
        · rw [value, isConstant]
          rintro _ ⟨⟩

theorem assign_contains
    {name : String}
    {index : Option Expr}
    {expr : Expr}
    (lowered : assign line name index expr before = .ok (done, after)) :
    before.Contains after := by
  intro origin contained
  obtain ⟨target, wanted, selected, middle, id, between, resolved, indexed, exprLowered, _,
    stored⟩ := assign_ok lowered
  obtain ⟨-, number, _, known, isNamed⟩ := resolve_ok resolved
  have found : before.listing.fixed? number = some target.fixed := by
    simp [Listing.fixed?, known]
  have isTarget : before.listing.Owns origin target.id := by
    have same : target.id = number := contained.numbered number target.fixed found
    exact same ▸ .inr ⟨target.fixed, found, by simpa using isNamed⟩
  have chosen : before.listing.Extends middle.listing ∧ middle.listing.SelfContained origin ∧
      (selected = 0 ∨ middle.listing.Owns origin selected) := by
    rcases indexed with ⟨_, _, _, rfl, rfl⟩ | ⟨position, _, accessed, _⟩
    · exact ⟨.refl _, contained, .inl rfl⟩
    · obtain ⟨_, reached, _, positionLowered, elementAccessed⟩ := elementOf_ok accessed
      obtain ⟨ready, isPosition⟩ := expression_contained positionLowered contained
      obtain ⟨accesses, isSelected⟩ := element_contained elementAccessed ready (isPosition _ rfl)
      exact ⟨(elementOf_computes accessed).extends_, accesses, .inr isSelected⟩
  obtain ⟨grown, ready, isSelected⟩ := chosen
  obtain ⟨valued, isValue⟩ := expression_contained exprLowered ready
  have more := (expression_computes exprLowered).extends_
  rcases stored with ⟨v, isFound, rfl⟩ | ⟨_, rfl⟩
  · refine contained_appended valued ⟨fun used member => ?_, fun _ _ => by rintro ⟨⟩, fun _ => by rintro ⟨⟩⟩
    rcases List.mem_append.mp member with isOperand | refers
    · have whole := (isTarget.grown grown).grown more
      simp only [Node.operands] at isOperand
      split at isOperand
      next => exact List.mem_singleton.mp isOperand ▸ whole
      next noElement =>
        rcases List.mem_cons.mp isOperand with rfl | isElement
        · exact whole
        · exact List.mem_singleton.mp isElement ▸ (isSelected.resolve_left noElement).grown more
    · exact owns_of_bound valued.numbered isFound (isValue _ rfl) (Option.mem_toList.mp refers)
  · exact valued

theorem leave_contains
    {result : Option Expr}
    (lowered : leave line result before = .ok (done, after)) :
    before.Contains after := by
  intro origin contained
  obtain ⟨_, body, id, between, _, _, given, rfl⟩ := leave_ok lowered
  refine plainly_contains.plain _ rfl _ ?_
  rcases given with ⟨_, rfl, rfl⟩ | ⟨expr, _, exprLowered, _⟩
  · exact contained_appended contained
      (Listing.ownsNode_of_unused rfl (fun _ _ => nofun) fun _ => nofun)
  · obtain ⟨ready, isValue⟩ := expression_contained exprLowered contained
    refine contained_appended ready ⟨fun used member => ?_, fun _ _ => nofun, fun _ => nofun⟩
    simp only [Node.uses, Node.operands] at member
    split at member
    · cases member
    · exact List.mem_singleton.mp member ▸ isValue _ rfl

theorem callStatement_contains
    {name : String}
    {builtin : Bool}
    {given : List Expr}
    (lowered : callStatement line name builtin given before = .ok (done, after)) :
    before.Contains after :=
  fun origin contained => ((evaluated_contained origin).callStatement lowered contained).1

/-- Every statement is about what its function owns. -/
theorem composed_contains :
    Composed (fun _ => True) (fun _ => True) fun _ => Contains where
  refl := .refl
  trans := .trans
  numbered := plainly_contains.numbered
  labelled := plainly_contains.labelled
  jumped _ _ := plainly_contains.plain _ rfl
  condition _ lowered := plainly_contains.condition (fun _ => comparison_contains)
    (fun _ _ _ _ _ => trivial) lowered
  declare _ := declare_contains
  assign _ := assign_contains
  call _ := callStatement_contains
  leave _ := leave_contains
  inScope := plainly_contains.inScope

theorem functionBody_contains
    {function : Signature}
    {body : List Stmt}
    (known : before.listing.Parameters function)
    (lowered : functionBody function body before = .ok ((), after)) :
    before.Contains after := by
  obtain ⟨finished, inside, rfl⟩ := plainly_contains.functionBody known
    (.appended _ rfl (fun _ _ => nofun) fun _ => nofun) composed_contains.statements lowered
  exact inside

theorem Laid.contains
    {parts : List FunctionSection}
    (laid : Laid parts before after) :
    before.Contains after := by
  induction laid with
  | nil state => exact .refl state
  | cons known parameters bodyLowered _ inductionHypothesis =>
      exact (functionBody_contains parameters bodyLowered).trans inductionHypothesis

/-- The functions of a program from some function on are about what was added from there on. -/
theorem Laid.selfContained
    {parts : List FunctionSection}
    (laid : Laid parts before after)
    (numbered : before.listing.Numbered) :
    after.listing.SelfContained before.listing :=
  laid.contains _ (.refl numbered)

end Lower

end IlsCompiler
