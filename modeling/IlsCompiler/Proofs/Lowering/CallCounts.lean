import IlsCompiler.IR.Prune
import IlsCompiler.Proofs.Lowering.References

namespace IlsCompiler

/-!
# Calls that are counted are made

Every call of a function is counted where it is lowered, but the node that makes it may come
later: the result of a call stays pending until something asks for it. In between the function
is counted and waits for a node that calls it. A listing is balanced when every counted function
has such a node or waits for one, and every call that is made or pending is counted.
-/

namespace Listing

/-- How often the function with a name is called. -/
def calls (listing : Listing) (name : String) : Nat :=
  ((listing.function? name).map fun function => function.calls).getD 0

theorem calls_modifyFunction
    (listing : Listing)
    (changed name : String)
    (change : Function → Function)
    (keeps : ∀ function, (change function).signature = function.signature) :
    (listing.modifyFunction changed change).calls name =
      ((listing.function? name).map fun function =>
        if name = changed then (change function).calls else function.calls).getD 0 := by
  rw [calls, function?_modifyFunction listing changed keeps, Option.map_map]
  congr 2
  funext function
  simp only [Function.comp_apply]
  split <;> rfl

/-- A change of a function that is not about calls leaves the counts alone. -/
theorem calls_modifyFunction_of_same
    (listing : Listing)
    (changed name : String)
    {change : Function → Function}
    (keeps : ∀ function, (change function).signature = function.signature)
    (same : ∀ function, (change function).calls = function.calls) :
    (listing.modifyFunction changed change).calls name = listing.calls name := by
  rw [calls_modifyFunction listing changed name change keeps]
  simp only [same, ite_self]
  rfl

theorem calls_congr
    {first second : Listing}
    (same : first.functions = second.functions)
    (name : String) :
    first.calls name = second.calls name := by
  rw [calls, function?, same]
  rfl

@[simp] theorem calls_appendNode
    (owner : Option Signature)
    (listing : Listing)
    (node : Node)
    (name : String) :
    (Lower.appendNode owner listing node).calls name = listing.calls name := by
  refine (calls_congr (Lower.functions_recordUses _ _ _) name).trans ?_
  cases owner with
  | none => rfl
  | some signature =>
      exact calls_modifyFunction_of_same { listing with nodes := listing.nodes.push node }
        signature.name name (fun _ => rfl) fun _ => rfl

theorem resultOf?_eq
    (listing : Listing)
    (id : VarId) :
    listing.resultOf? id =
      (listing.fixed? id).bind fun v =>
        match v.storage with
        | .result function _ => some function.name
        | _ => none := by
  unfold resultOf? fixed?
  cases listing.lookup? id with
  | none => rfl
  | some v =>
      obtain ⟨number, type, value, preserved, lastUse, storage⟩ := v
      cases storage with
      | named name isGlobal isParam position scope => cases isParam <;> rfl
      | _ => rfl

theorem exists_of_resultOf?
    {listing : Listing}
    {id : VarId}
    {name : String}
    (known : listing.resultOf? id = some name) :
    ∃ v function call,
      listing.fixed? id = some v ∧ v.storage = .result function call ∧
        function.name = name := by
  rw [resultOf?_eq] at known
  obtain ⟨v, found, isResult⟩ := Option.bind_eq_some_iff.mp known
  split at isResult
  next function call storage => exact ⟨v, function, call, found, storage, by simpa using isResult⟩
  next => cases isResult

theorem resultOf?_of_fixed
    {listing : Listing}
    {id : VarId}
    {v : Variable}
    {function : Signature}
    {call : Call}
    (found : listing.fixed? id = some v)
    (storage : v.storage = .result function call) :
    listing.resultOf? id = some function.name := by
  rw [resultOf?_eq, found, Option.bind_some, storage]

/-- A variable with a function's result keeps it while the listing grows. -/
theorem Extends.resultOf?
    {earlier later : Listing}
    {id : VarId}
    {name : String}
    (grown : earlier.Extends later)
    (known : earlier.resultOf? id = some name) :
    later.resultOf? id = some name := by
  rw [resultOf?_eq] at known ⊢
  obtain ⟨v, found, isResult⟩ := Option.bind_eq_some_iff.mp known
  rw [grown.fixed?_of found]
  exact isResult

/-- A value leads to the function whose pending result it refers to. -/
theorem mem_valueTargets_iff
    {listing : Listing}
    {value : Value}
    {name : String} :
    name ∈ listing.valueTargets value ↔
      ∃ id, value.reference? = some id ∧ listing.resultOf? id = some name := by
  unfold valueTargets
  cases value.reference? with
  | none => simp
  | some id => simp

/-- The value that a variable is declared with. -/
def valueOf? (listing : Listing) (id : VarId) : Option Value :=
  (listing.fixed? id).map fun v => v.value

theorem valueOf?_eq
    (listing : Listing)
    (id : VarId) :
    listing.valueOf? id = (listing.lookup? id).map fun v => v.value := by
  rw [valueOf?, fixed?, Option.map_map]
  rfl

/-- The calls that a node makes: its own, those it stores the result of, and its operands'. -/
theorem mem_nodeTargets_iff
    {listing : Listing}
    {node : Node}
    {name : String} :
    name ∈ listing.nodeTargets node ↔
      (∃ call, node = .call call ∧ call.builtin = false ∧ call.name = name) ∨
        (∃ id line value, node = .declare id line ∧ listing.valueOf? id = some value ∧
          name ∈ listing.valueTargets value) ∨
        (∃ target value type element line, node = .assign target value type element line ∧
          name ∈ listing.valueTargets value) ∨
        ∃ id ∈ node.operands, listing.resultOf? id = some name := by
  unfold nodeTargets
  rw [List.mem_append, List.mem_filterMap]
  cases node with
  | declare id line => cases found : listing.lookup? id <;> simp [valueOf?_eq, found]
  | call invoked => cases builtin : invoked.builtin <;> simp [builtin, @eq_comm _ name]
  | _ => simp [and_assoc]

/-- The calls that a node makes are still made when the listing has grown. -/
theorem Extends.nodeTargets
    {earlier later : Listing}
    {node : Node}
    {name : String}
    (grown : earlier.Extends later)
    (member : name ∈ earlier.nodeTargets node) :
    name ∈ later.nodeTargets node := by
  have values : ∀ value, name ∈ earlier.valueTargets value →
      name ∈ later.valueTargets value := by
    intro value inside
    obtain ⟨id, refers, isResult⟩ := mem_valueTargets_iff.mp inside
    exact mem_valueTargets_iff.mpr ⟨id, refers, grown.resultOf? isResult⟩
  rw [mem_nodeTargets_iff] at member ⊢
  rcases member with direct | ⟨id, line, value, isNode, isValue, inside⟩ |
    ⟨target, value, type, element, line, isNode, inside⟩ | ⟨id, isOperand, isResult⟩
  · exact .inl direct
  · refine .inr (.inl ⟨id, line, value, isNode, ?_, values value inside⟩)
    obtain ⟨v, found, same⟩ := Option.map_eq_some_iff.mp isValue
    rw [valueOf?, grown.fixed?_of found, Option.map_some, same]
  · exact .inr (.inr (.inl ⟨target, value, type, element, line, isNode, values value inside⟩))
  · exact .inr (.inr (.inr ⟨id, isOperand, grown.resultOf? isResult⟩))


/--
Every call that is made or pending is counted, and every counted function is called by a node or
is among those whose calls still wait for one. A pending call bears the name of its function.
-/
structure Balanced (listing : Listing) (waiting : List String) : Prop where
  results : ∀ id v function call, listing.fixed? id = some v →
    v.storage = .result function call → 0 < listing.calls function.name
  names : ∀ id v function call, listing.fixed? id = some v →
    v.storage = .result function call → call.name = function.name
  nodes : ∀ node ∈ listing.nodes.toList, ∀ call,
    node = .call call → call.builtin = false → 0 < listing.calls call.name
  targets : ∀ name, 0 < listing.calls name →
    (∃ node ∈ listing.nodes.toList, name ∈ listing.nodeTargets node) ∨ name ∈ waiting

namespace Balanced

variable
    {listing earlier later : Listing}
    {waiting more : List String}

theorem mono
    (balanced : listing.Balanced waiting)
    (covers : waiting ⊆ more) :
    listing.Balanced more where
  results := balanced.results
  names := balanced.names
  nodes := balanced.nodes
  targets name counted := (balanced.targets name counted).imp_right fun member => covers member

/-- A call that some node makes does not wait any longer. -/
theorem settle
    (balanced : listing.Balanced (waiting ++ more))
    (made : ∀ name ∈ more, ∃ node ∈ listing.nodes.toList, name ∈ listing.nodeTargets node) :
    listing.Balanced waiting where
  results := balanced.results
  names := balanced.names
  nodes := balanced.nodes
  targets name counted := by
    rcases balanced.targets name counted with isMade | waits
    · exact .inl isMade
    · rcases List.mem_append.mp waits with stays | asked
      · exact .inr stays
      · exact .inl (made name asked)

/-- A listing stays balanced while it grows, as long as every call that it gets is counted. -/
theorem grown
    (balanced : earlier.Balanced waiting)
    (grown : earlier.Extends later)
    (calls : ∀ name, later.calls name = earlier.calls name)
    (fresh : ∀ id v, earlier.vars.size < id → later.fixed? id = some v →
      ∀ function call, v.storage = .result function call →
        0 < later.calls function.name ∧ call.name = function.name)
    (added : List Node)
    (nodes : later.nodes.toList = earlier.nodes.toList ++ added)
    (counts : ∀ call, .call call ∈ added → call.builtin = false → 0 < later.calls call.name) :
    later.Balanced waiting where
  results id v function call found storage := by
    rcases Nat.lt_or_ge earlier.vars.size id with isNew | isOld
    · exact (fresh id v isNew found function call storage).1
    · rw [grown.stable id isOld] at found
      rw [calls]
      exact balanced.results id v function call found storage
  names id v function call found storage := by
    rcases Nat.lt_or_ge earlier.vars.size id with isNew | isOld
    · exact (fresh id v isNew found function call storage).2
    · rw [grown.stable id isOld] at found
      exact balanced.names id v function call found storage
  nodes node member call isCall direct := by
    rw [nodes, List.mem_append] at member
    rcases member with isOld | isNew
    · rw [calls]
      exact balanced.nodes node isOld call isCall direct
    · subst isCall
      exact counts call isNew direct
  targets name counted := by
    rw [calls] at counted
    rcases balanced.targets name counted with ⟨node, member, isTarget⟩ | waits
    · refine .inl ⟨node, ?_, grown.nodeTargets isTarget⟩
      rw [nodes]
      exact List.mem_append_left _ member
    · exact .inr waits

/-- A listing that gets neither calls nor results stays balanced. -/
theorem quiet
    (balanced : earlier.Balanced waiting)
    (grown : earlier.Extends later)
    (functions : later.functions = earlier.functions)
    (nodes : later.nodes = earlier.nodes)
    (fresh : ∀ id v, earlier.vars.size < id → later.fixed? id = some v →
      ∀ function call, v.storage ≠ .result function call) :
    later.Balanced waiting :=
  balanced.grown grown (calls_congr functions)
    (fun id v isNew found function call storage =>
      absurd storage (fresh id v isNew found function call))
    [] (by rw [nodes, List.append_nil]) fun call member => nomatch member

end Balanced

end Listing

namespace LoweringState

variable
    {state : LoweringState}
    {waiting : List String}

/-- The function whose pending result an expression gives, if it gives one. -/
def awaited (state : LoweringState) (result : Option VarId) : List String :=
  (result.bind state.listing.resultOf?).toList

theorem mem_awaited_iff
    {result : Option VarId}
    {name : String} :
    name ∈ state.awaited result ↔
      ∃ id, result = some id ∧ state.listing.resultOf? id = some name := by
  rw [awaited, Option.mem_toList, Option.bind_eq_some_iff]

theorem awaited_grown
    {before after : LoweringState}
    (grown : before.listing.Extends after.listing)
    (result : Option VarId) :
    before.awaited result ⊆ after.awaited result := by
  intro name member
  obtain ⟨id, isResult, known⟩ := mem_awaited_iff.mp member
  exact mem_awaited_iff.mpr ⟨id, isResult, grown.resultOf? known⟩

/-- What waits for a variable that is no result is nothing. -/
theorem awaited_nil
    {id : VarId}
    (other : ∀ v function call, state.listing.fixed? id = some v →
      v.storage ≠ .result function call) :
    state.awaited (some id) = [] := by
  rw [List.eq_nil_iff_forall_not_mem]
  intro name member
  obtain ⟨asked, isAsked, known⟩ := mem_awaited_iff.mp member
  cases isAsked
  obtain ⟨v, function, call, found, storage, -⟩ := Listing.exists_of_resultOf? known
  exact other v function call found storage

theorem balanced_appended
    {node : Node}
    (balanced : state.listing.Balanced waiting)
    (counts : ∀ call, node = .call call → call.builtin = false →
      0 < state.listing.calls call.name) :
    (state.appended node).listing.Balanced waiting := by
  have calls : ∀ name, (state.appended node).listing.calls name = state.listing.calls name :=
    Listing.calls_appendNode _ _ _
  refine balanced.grown (extends_appended state node) calls
    (Listing.fresh_none (size_appended state node)) [node]
    (by rw [nodes_appended, Array.toList_push]) fun call member direct => ?_
  rw [calls]
  exact counts call (List.mem_singleton.mp member).symm direct

/-- A call that a node makes itself does not wait. -/
theorem balanced_called
    (call : Call)
    (balanced : state.listing.Balanced (waiting ++ [call.name]))
    (direct : call.builtin = false)
    (counted : 0 < state.listing.calls call.name) :
    (state.appended (.call call)).listing.Balanced waiting := by
  have called : (state.appended (.call call)).listing.Balanced (waiting ++ [call.name]) :=
    balanced_appended balanced fun other same _ => by cases same; exact counted
  refine called.settle fun name member => ?_
  cases List.mem_singleton.mp member
  refine ⟨.call call, by simp, Listing.mem_nodeTargets_iff.mpr (.inl ⟨call, rfl, direct, rfl⟩)⟩

theorem balanced_destroyed
    {id : VarId}
    (balanced : state.listing.Balanced waiting) :
    (state.destroyed id).listing.Balanced waiting := by
  unfold destroyed
  split
  · let fewer : LoweringState := { state with
      frames := state.frames.map fun (open_ : Frame) =>
        { open_ with temporaries := open_.temporaries.erase id } }
    have same : fewer.listing.Balanced waiting := balanced
    exact balanced_appended same fun call isCall => nomatch isCall
  · exact balanced

/-- A variable that is declared with a value that refers to a result asks for it. -/
theorem balanced_declared
    {after : LoweringState}
    {v : Variable}
    {result : Option VarId}
    {line : Nat}
    (balanced : state.listing.Balanced (waiting ++ state.awaited result))
    (grown : state.listing.Extends after.listing)
    (calls : ∀ name, after.listing.calls name = state.listing.calls name)
    (size : after.listing.vars.size = state.listing.vars.size + 1)
    (found : after.listing.fixed? (state.listing.vars.size + 1) = some v)
    (isPlace : ∀ function call, v.storage ≠ .result function call)
    (refers : ∀ id name, result = some id → state.listing.resultOf? id = some name →
      v.value = .reference id)
    (nodes : after.listing.nodes =
      state.listing.nodes.push (.declare (state.listing.vars.size + 1) line)) :
    after.listing.Balanced waiting := by
  have kept : after.listing.Balanced (waiting ++ state.awaited result) :=
    balanced.grown grown calls
      (Listing.fresh_last size found fun function call same => absurd same (isPlace function call)) _
      (by rw [nodes, Array.toList_push]) (fun call member => by simp at member)
  refine kept.settle fun name member => ?_
  obtain ⟨id, isResult, known⟩ := mem_awaited_iff.mp member
  refine ⟨.declare (state.listing.vars.size + 1) line, by simp [nodes], ?_⟩
  refine Listing.mem_nodeTargets_iff.mpr (.inr (.inl ⟨_, line, .reference id, rfl, ?_,
    Listing.mem_valueTargets_iff.mpr ⟨id, rfl, grown.resultOf? known⟩⟩))
  rw [Listing.valueOf?, found, Option.map_some, refers id name isResult known]

theorem balanced_withTemporary
    {type : Ty}
    {value : Value}
    (result : Option VarId)
    {isResult : Bool}
    {line : Nat}
    (balanced : state.listing.Balanced (waiting ++ state.awaited result))
    (refers : ∀ id, result = some id → value = .reference id) :
    (state.withTemporary type value isResult line).listing.Balanced waiting := by
  refine balanced_declared balanced (computes_withTemporary _ _ _ _ _).extends_ ?_
    (size_withTemporary _ _ _ _ _) (fixed?_withTemporary _ _ _ _ _)
    (fun function call same => nomatch same) (fun id name isId _ => refers id isId)
    (nodes_withTemporary _ _ _ _ _)
  intro name
  exact Listing.calls_appendNode _ _ _ _

theorem size_marked
    (ids : List VarId) :
    (state.marked ids).listing.vars.size = state.listing.vars.size := by
  have sizes : ∀ listing : Listing,
      (ids.foldl (fun current id =>
        current.modifyVariable id fun v => { v with preserved := true }) listing).vars.size =
          listing.vars.size := by
    induction ids with
    | nil => intro listing; rfl
    | cons first rest inductionHypothesis =>
        intro listing
        rw [List.foldl_cons, inductionHypothesis, Listing.size_modifyVariable]
  exact sizes state.listing

/-- A call is counted and waits for the node that makes it. -/
theorem balanced_counted
    {function : Signature}
    (known : state.listing.signature? function.name = some function)
    (balanced : state.listing.Balanced waiting) :
    (state.counted function).listing.Balanced (waiting ++ [function.name]) ∧
      0 < (state.counted function).listing.calls function.name := by
  have calls : ∀ name, (state.counted function).listing.calls name =
      if name = function.name then state.listing.calls name + 1
      else state.listing.calls name := by
    intro name
    have changed := Listing.calls_modifyFunction state.listing function.name name
      (fun called => { called with calls := called.calls + 1 }) fun _ => rfl
    refine Eq.trans changed ?_
    split
    next same =>
      obtain ⟨found, isFound, -⟩ := Option.map_eq_some_iff.mp known
      rw [same, Listing.calls, isFound]
      rfl
    next => rfl
  have grown := (computes_counted state function).extends_
  have more : ∀ name, 0 < state.listing.calls name →
      0 < (state.counted function).listing.calls name := by
    intro name counted
    rw [calls]
    split <;> omega
  refine ⟨⟨?_, balanced.names, ?_, ?_⟩, by rw [calls, if_pos rfl]; omega⟩
  · intro id v other call found storage
    exact more _ (balanced.results id v other call found storage)
  · intro node member call isCall direct
    exact more _ (balanced.nodes node member call isCall direct)
  · intro name counted
    by_cases same : name = function.name
    · exact .inr (List.mem_append_right _ (by simp [same]))
    · rw [calls, if_neg same] at counted
      rcases balanced.targets name counted with ⟨node, member, isTarget⟩ | waits
      · exact .inl ⟨node, member, grown.nodeTargets isTarget⟩
      · exact .inr (List.mem_append_left _ waits)

theorem balanced_withResult
    {function : Signature}
    {call : Call}
    (named : call.name = function.name)
    (counted : 0 < state.listing.calls function.name)
    (balanced : state.listing.Balanced waiting) :
    (state.withResult function call).listing.Balanced waiting := by
  obtain ⟨v, found, storage⟩ := fixed?_withResult state function call
  refine balanced.grown (computes_withResult state function call).extends_ (fun _ => rfl)
    (Listing.fresh_last (by simp [withResult, Listing.addResult]) found ?_)
    [] (by simp [withResult, Listing.addResult, Listing.addVariable])
    fun call member => nomatch member
  intro other otherCall same
  rw [storage] at same
  cases same
  exact ⟨counted, named⟩

theorem awaited_withResult
    (function : Signature)
    (call : Call) :
    (state.withResult function call).awaited (some (state.listing.vars.size + 1)) =
      [function.name] := by
  obtain ⟨v, found, storage⟩ := fixed?_withResult state function call
  rw [awaited, Option.bind_some, Listing.resultOf?_of_fixed found storage]
  rfl

end LoweringState

namespace Lower

open LoweringState Stateful

variable
    {before after : LoweringState}
    {line : Nat}
    {waiting : List String}

/-- The result of a call is asked for by copying it. -/
theorem materialize_balanced
    {id copied : VarId}
    (materialized : materialize id line before = .ok (copied, after))
    (balanced : before.listing.Balanced (waiting ++ before.awaited (some id))) :
    after.listing.Balanced waiting := by
  rcases materialize_ok materialized with ⟨v, function, call, _, _, rfl, rfl⟩ | ⟨rfl, rfl, other⟩
  · exact balanced_withTemporary _ balanced fun asked isAsked => by cases isAsked; rfl
  · rw [awaited_nil other, List.append_nil] at balanced
    exact balanced

theorem element_balanced
    {array : Variable}
    {index id : VarId}
    (accessed : element array index line before = .ok (id, after))
    (balanced : before.listing.Balanced (waiting ++ before.awaited (some index))) :
    after.listing.Balanced waiting := by
  obtain ⟨_, _, position, between, materialized, rfl, rfl⟩ := element_ok accessed
  obtain ⟨v, found, storage, -⟩ := fixed?_withElement between array.id position
  refine (materialize_balanced materialized balanced).quiet
    (computes_withElement between array.id position).extends_ rfl rfl
    (Listing.fresh_last (by simp [withElement, Listing.addElement]) found ?_)
  intro function call same
  rw [storage] at same
  cases same

/-- What waits for both operands is asked for when they are copied. -/
theorem materialize_both_balanced
    {left right leftOperand rightOperand : VarId}
    {middle : LoweringState}
    (leftCopied : materialize left line before = .ok (leftOperand, middle))
    (rightCopied : materialize right line middle = .ok (rightOperand, after))
    (balanced : before.listing.Balanced
      (waiting ++ before.awaited (some left) ++ before.awaited (some right))) :
    after.listing.Balanced waiting := by
  have leftAsked : middle.listing.Balanced (waiting ++ before.awaited (some right)) := by
    refine materialize_balanced leftCopied (balanced.mono fun name member => ?_)
    simp only [List.mem_append] at member ⊢
    exact or_right_comm.mp member
  have grown := (materialize_computes leftCopied).extends_
  refine materialize_balanced rightCopied (leftAsked.mono fun name member => ?_)
  simp only [List.mem_append] at member ⊢
  exact member.imp_right fun asked => awaited_grown grown _ asked

theorem operation_balanced
    {op : ArithOp}
    {left right id : VarId}
    (operated : operation op left right line before = .ok (id, after))
    (balanced : before.listing.Balanced
      (waiting ++ before.awaited (some left) ++ before.awaited (some right))) :
    after.listing.Balanced waiting := by
  obtain ⟨_, _, leftOperand, rightOperand, middle, between, leftCopied, rightCopied, -, rfl⟩ :=
    operation_ok operated
  have copied := materialize_both_balanced leftCopied rightCopied balanced
  have result : (between.withTemporary .int (.literal "0") true line).listing.Balanced waiting :=
    balanced_withTemporary none (copied.mono (List.subset_append_left _ _))
      fun id isId => nomatch isId
  exact balanced_destroyed (balanced_destroyed (balanced_appended result
    fun call same => nomatch same))

theorem argument_balanced
    {function : String}
    {id copied : VarId}
    (passed : argument function id line before = .ok (copied, after))
    (balanced : before.listing.Balanced (waiting ++ before.awaited (some id))) :
    after.listing.Balanced waiting := by
  rcases argument_ok passed with ⟨v, _, _, _, rfl, rfl⟩ | ⟨rfl, rfl, other⟩
  · exact balanced_withTemporary _ balanced fun asked isAsked => by cases isAsked; rfl
  · rw [awaited_nil, List.append_nil] at balanced
    · exact balanced
    · intro v function call found storage
      have isCopied := other v found
      rw [storage] at isCopied
      cases isCopied

/-- A call that is lowered is made at once or waits for its result to be asked for. -/
theorem invoke_balanced
    {function : Signature}
    {given : List VarId}
    {isStatement : Bool}
    {result : Option VarId}
    (known : before.listing.signature? function.name = some function)
    (invoked : invoke function given line isStatement before = .ok (result, after))
    (balanced : before.listing.Balanced waiting) :
    after.listing.Balanced
      (waiting ++ after.awaited (if isStatement then none else result)) := by
  obtain ⟨counted, positive⟩ := balanced_counted known balanced
  rcases invoke_ok invoked with ⟨_, rfl, rfl⟩ | ⟨_, rfl, rfl⟩
  · obtain ⟨grown, frozen, functions⟩ := extends_marks (before.counted function).listing given
    have marked : ((before.counted function).marked given).listing.Balanced
        (waiting ++ [function.name]) :=
      counted.quiet grown functions (congrArg Listing.Frozen.nodes frozen)
        (Listing.fresh_none (size_marked given))
    have stays : ((before.counted function).marked given).listing.calls function.name =
        (before.counted function).listing.calls function.name :=
      Listing.calls_congr functions function.name
    exact (balanced_called (before.nextCall function given line) marked rfl
      (stays ▸ positive)).mono (List.subset_append_left _ _)
  · have named : (before.nextCall function given line).name = function.name := rfl
    have resulted := balanced_withResult named positive counted
    cases isStatement with
    | true =>
        refine (balanced_called (before.nextCall function given line) resulted rfl
          positive).mono (List.subset_append_left _ _)
    | false =>
        rw [if_neg (by decide), if_neg (by decide)]
        have isAwaited : ((before.counted function).withResult function
            (before.nextCall function given line)).awaited (some (before.listing.vars.size + 1)) =
              [function.name] :=
          awaited_withResult function _
        rw [isAwaited]
        exact resulted

theorem invokeBuiltin_balanced
    {builtin : Builtin}
    {given : List VarId}
    {done : Unit}
    (invoked : invokeBuiltin builtin given line before = .ok (done, after))
    (balanced : before.listing.Balanced waiting) :
    after.listing.Balanced waiting := by
  obtain ⟨_, rfl⟩ := invokeBuiltin_ok invoked
  refine balanced_appended ?_ fun call same direct => by cases same; cases direct
  refine balanced.quiet { Listing.Extends.refl before.listing with calls := Nat.le_succ _ } rfl rfl
    (Listing.fresh_none rfl)

theorem balanced_withLiteral
    {state : LoweringState}
    (value : Literal)
    (balanced : state.listing.Balanced waiting) :
    (state.withLiteral value).listing.Balanced waiting := by
  obtain ⟨v, found, storage⟩ := fixed?_withLiteral state value
  refine balanced.quiet (computes_withLiteral state value).extends_ ?_ (nodes_withLiteral _ _)
    (Listing.fresh_last (size_withLiteral _ _) found ?_)
  · cases value with
    | scalar type text =>
        show (state.listing.addLiteral type (Bytes.ofString text)).1.functions = _
        unfold Listing.addLiteral
        split <;> rfl
    | string contents => rfl
  · intro function call same
    rw [storage] at same
    cases same

/--
The calls of an expression are made, all but the one whose result it gives, and the results of
arguments do not wait any longer.
-/
theorem evaluated_balanced :
    Evaluated
      (fun _ before after result => ∀ {waiting}, before.listing.Balanced waiting →
        after.listing.Balanced (waiting ++ after.awaited result))
      fun _ _ _ before after _ => ∀ {waiting}, before.listing.Balanced waiting →
        after.listing.Balanced waiting where
  name _ _ _ balanced := balanced.mono (List.subset_append_left _ _)
  literal _ value _ _ balanced :=
    (balanced_withLiteral value balanced).mono (List.subset_append_left _ _)
  folded _ _ _ _ balanced := (balanced_withLiteral _ balanced).mono (List.subset_append_left _ _)
  binary _ _ rightLowered operated left right _ balanced := by
    refine (operation_balanced operated ((right (left balanced)).mono fun name member => ?_)).mono
      (List.subset_append_left _ _)
    have grown := (expression_computes rightLowered).extends_
    simp only [List.mem_append] at member ⊢
    exact member.imp_left (Or.imp_right fun asked => awaited_grown grown _ asked)
  element _ _ _ _ accessed index _ balanced :=
    (element_balanced accessed (index balanced)).mono (List.subset_append_left _ _)
  builtin _ _ _ invoked passed _ balanced :=
    (invokeBuiltin_balanced invoked (passed balanced)).mono (List.subset_append_left _ _)
  invoke known _ givenLowered invoked passed _ balanced := by
    have isKnown := (arguments_computes givenLowered).extends_.signatures _ _ known
    rw [← Listing.name_of_signature? known] at isKnown
    exact invoke_balanced isKnown invoked (passed balanced)
  nil _ _ balanced := balanced
  cons _ passed _ first rest _ balanced := rest (argument_balanced passed (first balanced))

theorem expression_balanced
    {expr : Expr}
    {result : Option VarId}
    (lowered : expression expr before = .ok (result, after))
    (balanced : before.listing.Balanced waiting) :
    after.listing.Balanced (waiting ++ after.awaited result) :=
  evaluated_balanced.expression lowered balanced

end Lower

end IlsCompiler
