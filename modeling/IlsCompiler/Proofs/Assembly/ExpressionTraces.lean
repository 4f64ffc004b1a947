import IlsCompiler.Proofs.Assembly.NodeTraces
import IlsCompiler.Proofs.Assembly.Files

namespace IlsCompiler

/-!
# The calls that an expression makes

Lowering an expression and making code for its nodes makes the calls of the expression
in the order that the tree gives, and leaves at most one call pending.
-/

/--
Code that has been made for the nodes of a state: it has made only calls that were
numbered before, and only variables that were there before hold registers, each its own.
-/
structure LoweringState.Agrees (state : LoweringState) (code : FunctionCode) : Prop where
  calls : ∀ number ∈ code.calls, number < state.listing.callCount
  held : code.HeldUpTo state.listing.vars.size
  pool : code.pool.Sound

namespace Listing.Asked

variable
    {listing : Listing}
    {made numbers : List Nat}
    {routines : List String}
    {id : Nat}

/-- Once the calls have been made, the variable can be asked for in silence. -/
theorem quiet_after
    (asked : listing.Asked made id numbers routines) :
    listing.Quiet (made ++ numbers) id := by
  cases asked with
  | quiet quiet => simpa using quiet
  | pending found storage _ _ => exact .made found storage (by simp)

/-- Other calls do not change what asking for a variable leads to. -/
theorem mono
    (asked : listing.Asked made id numbers routines)
    {more : List Nat}
    (apart : ∀ number ∈ numbers, number ∉ more) :
    listing.Asked (made ++ more) id numbers routines := by
  have kept : ∀ number ∈ made, number ∈ made ++ more :=
    fun number member => List.mem_append_left _ member
  cases asked with
  | quiet quiet => exact .quiet (quiet.mono kept)
  | pending found storage fresh ready =>
      refine .pending found storage ?_ fun argument member =>
        ⟨(ready argument member).1, (ready argument member).2.mono kept⟩
      intro member
      rcases List.mem_append.mp member with old | new
      · exact fresh old
      · exact apart _ (by simp) new

/-- A variable that is no result of a call can be asked for in silence. -/
theorem quiet_of_no_result
    (asked : listing.Asked made id numbers routines)
    (noResult : ∀ v function call,
      listing.fixed? id = some v → v.storage ≠ .result function call) :
    numbers = [] ∧ routines = [] ∧ listing.Quiet made id := by
  cases asked with
  | quiet quiet => exact ⟨rfl, rfl, quiet⟩
  | pending found storage _ _ => exact (noResult _ _ _ found storage).elim

end Listing.Asked

namespace LoweringState

open FunctionCode

/-- Code still agrees with a later state when the calls made in between are numbered. -/
theorem Agrees.after
    {before after : LoweringState}
    {code final : FunctionCode}
    {numbers : List Nat}
    {routines : List String}
    (agrees : before.Agrees code)
    (grown : before.listing.Extends after.listing)
    (becomes : Becomes after.listing.vars.size numbers routines code final)
    (counted : ∀ number ∈ numbers, number < after.listing.callCount) :
    after.Agrees final := by
  refine ⟨?_, becomes.heldUpTo agrees.held grown.size, becomes.pool agrees.pool⟩
  intro number member
  rw [becomes.calls] at member
  rcases List.mem_append.mp member with old | new
  · exact Nat.lt_of_lt_of_le (agrees.calls number old) grown.calls
  · exact counted number new

end LoweringState

/-- A new declaration makes its own code. -/
theorem Listing.Emits.declare_of_push
    {listing earlier later : Listing}
    {before after : FunctionCode}
    {id line : Nat}
    (emits : listing.Emits earlier later before after)
    (pushed : later.nodes = earlier.nodes.push (.declare id line)) :
    Emit.declare listing id before = .ok ((), after) :=
  Emit.atLine_ok_iff.mp (emits.node_of_push pushed)

namespace Lower

open LoweringState FunctionCode

variable
    {listing : Listing}
    {before after : LoweringState}
    {code final : FunctionCode}
    {numbers : List Nat}
    {routines : List String}
    {line : Nat}
    {id : Nat}

/-- A copy of a variable asks for it once; from then on the copy is silent. -/
theorem withTemporary_traced
    (numbered : listing.Numbered)
    {type : Ty}
    (grown : (before.withTemporary type (.reference id) false line).listing.Extends listing)
    (emits : listing.Emits before.listing
      (before.withTemporary type (.reference id) false line).listing code final)
    (agrees : before.Agrees code)
    (below : id ≤ before.listing.vars.size)
    (asked : listing.Asked code.calls id numbers routines) :
    Becomes (before.listing.vars.size + 1) numbers routines code final ∧
      listing.Quiet final.calls (before.listing.vars.size + 1) := by
  have found := grown.fixed?_of (fixed?_withTemporary before type (.reference id) false line)
  have declared := emits.declare_of_push (nodes_withTemporary before type _ false line)
  have free := agrees.held.held?_eq_none (Nat.lt_succ_self _)
  have becomes := Emit.declare_temporary numbered found rfl
    (.reference (Nat.le_succ_of_le below) asked) (Nat.le_refl _) free rfl declared
  refine ⟨becomes, .copy found rfl rfl (Nat.lt_succ_of_le below) ?_⟩
  rw [becomes.calls]
  exact asked.quiet_after

/-- Copying the result of a pending call makes the call. -/
theorem materialize_traced
    (numbered : listing.Numbered)
    {id copied : Nat}
    (materialized : materialize id line before = .ok (copied, after))
    (grown : after.listing.Extends listing)
    (emits : listing.Emits before.listing after.listing code final)
    (agrees : before.Agrees code)
    (below : id ≤ before.listing.vars.size)
    (asked : listing.Asked code.calls id numbers routines) :
    Becomes after.listing.vars.size numbers routines code final ∧
      listing.Quiet final.calls copied ∧ copied ≤ after.listing.vars.size ∧
      after.listing.callCount = before.listing.callCount := by
  rcases materialize_ok materialized with
    ⟨v, function, call, found, storage, rfl, rfl⟩ | ⟨rfl, rfl, noResult⟩
  · obtain ⟨becomes, quiet⟩ := withTemporary_traced numbered grown emits agrees below asked
    rw [size_withTemporary]
    exact ⟨becomes, quiet, Nat.le_refl _, callCount_withTemporary _ _ _ _ _⟩
  · obtain ⟨rfl, rfl, quiet⟩ := asked.quiet_of_no_result fun v function call found =>
      noResult v function call (by rw [← grown.stable _ below]; exact found)
    cases emits.eq_of_same_nodes rfl
    exact ⟨.refl _ _, quiet, below, rfl⟩

/-- An argument is copied, or it can be asked for in silence as it is. -/
theorem argument_traced
    (numbered : listing.Numbered)
    {function : String}
    {id copied : Nat}
    (passed : argument function id line before = .ok (copied, after))
    (grown : after.listing.Extends listing)
    (emits : listing.Emits before.listing after.listing code final)
    (agrees : before.Agrees code)
    (below : id ≤ before.listing.vars.size)
    (asked : listing.Asked code.calls id numbers routines) :
    Becomes after.listing.vars.size numbers routines code final ∧
      listing.Quiet final.calls copied ∧ copied ≤ after.listing.vars.size ∧
      after.listing.callCount = before.listing.callCount := by
  rcases argument_ok passed with ⟨v, found, isCopied, _, rfl, rfl⟩ | ⟨rfl, rfl, notCopied⟩
  · obtain ⟨becomes, quiet⟩ := withTemporary_traced numbered grown emits agrees below asked
    rw [size_withTemporary]
    exact ⟨becomes, quiet, Nat.le_refl _, callCount_withTemporary _ _ _ _ _⟩
  · obtain ⟨rfl, rfl, quiet⟩ := asked.quiet_of_no_result fun v function call found isResult => by
      have same := notCopied v (by rw [← grown.stable _ below]; exact found)
      rw [isResult] at same
      cases same
    cases emits.eq_of_same_nodes rfl
    exact ⟨.refl _ _, quiet, below, rfl⟩

/-- An access to an element makes the call that its index waits for. -/
theorem element_traced
    (numbered : listing.Numbered)
    {array : Variable}
    {index id : Nat}
    (accessed : element array index line before = .ok (id, after))
    (grown : after.listing.Extends listing)
    (emits : listing.Emits before.listing after.listing code final)
    (agrees : before.Agrees code)
    (below : index ≤ before.listing.vars.size)
    (asked : listing.Asked code.calls index numbers routines) :
    Becomes after.listing.vars.size numbers routines code final ∧
      listing.Quiet final.calls id ∧ id ≤ after.listing.vars.size ∧
      after.listing.callCount = before.listing.callCount := by
  obtain ⟨_, _, position, between, copied, rfl, rfl⟩ := element_ok accessed
  have added := (computes_withElement between array.id position).extends_
  obtain ⟨middle, copies, adds⟩ := emits.split (materialize_computes copied).extends_ added
  cases adds.eq_of_same_nodes rfl
  obtain ⟨becomes, quiet, positionBelow, count⟩ := materialize_traced numbered copied
    (added.trans grown) copies agrees below asked
  obtain ⟨v, found, storage, _⟩ := fixed?_withElement between array.id position
  refine ⟨becomes.mono added.size, ?_, ?_, count⟩
  · exact .element (grown.fixed?_of found) storage (Nat.lt_succ_of_le positionBelow) quiet
  · simp [withElement, Listing.addElement]

theorem destroyed_traced
    {id bound : Nat}
    (emits : listing.Emits before.listing (before.destroyed id).listing code final) :
    Becomes bound [] [] code final := by
  unfold destroyed at emits
  split at emits
  · have run := emits.node_of_push (nodes_appended _ _)
    cases Stateful.modify_ok_iff.mp run
    exact Emit.destroy_becomes code id
  · cases emits.eq_of_same_nodes rfl
    exact .refl _ _

variable
    {rightRoutines : List String}
    {rightNumbers : List Nat}
    {middle : LoweringState}

/-- Copying two operands makes the calls they wait for, that of the left one first. -/
theorem copies_traced
    (numbered : listing.Numbered)
    {left right leftOperand rightOperand : Nat}
    (leftCopied : materialize left line before = .ok (leftOperand, middle))
    (rightCopied : materialize right line middle = .ok (rightOperand, after))
    (grown : after.listing.Extends listing)
    (emits : listing.Emits before.listing after.listing code final)
    (agrees : before.Agrees code)
    (leftBelow : left ≤ before.listing.vars.size)
    (rightBelow : right ≤ before.listing.vars.size)
    (leftAsked : listing.Asked code.calls left numbers routines)
    (rightAsked : listing.Asked code.calls right rightNumbers rightRoutines)
    (counted : ∀ number ∈ numbers ++ rightNumbers, number < before.listing.callCount)
    (apart : ∀ number ∈ rightNumbers, number ∉ numbers) :
    Becomes after.listing.vars.size (numbers ++ rightNumbers) (routines ++ rightRoutines)
        code final ∧
      (listing.Quiet final.calls leftOperand ∧ leftOperand ≤ after.listing.vars.size) ∧
      (listing.Quiet final.calls rightOperand ∧ rightOperand ≤ after.listing.vars.size) ∧
      after.Agrees final ∧ after.listing.callCount = before.listing.callCount := by
  have leftGrows := (materialize_computes leftCopied).extends_
  have rightGrows := (materialize_computes rightCopied).extends_
  obtain ⟨between, leftEmits, rightEmits⟩ := emits.split leftGrows rightGrows
  obtain ⟨leftBecomes, leftQuiet, leftOperandBelow, leftCount⟩ :=
    materialize_traced numbered leftCopied (rightGrows.trans grown) leftEmits agrees leftBelow
      leftAsked
  have leftAgrees : middle.Agrees between :=
    agrees.after leftGrows leftBecomes fun number member =>
      leftCount ▸ counted number (List.mem_append_left _ member)
  have rightAskedLater : listing.Asked between.calls right rightNumbers rightRoutines := by
    rw [leftBecomes.calls]
    exact rightAsked.mono apart
  obtain ⟨rightBecomes, rightQuiet, rightOperandBelow, rightCount⟩ :=
    materialize_traced numbered rightCopied grown rightEmits leftAgrees
      (Nat.le_trans rightBelow leftGrows.size) rightAskedLater
  refine ⟨(leftBecomes.mono rightGrows.size).trans rightBecomes, ⟨leftQuiet.mono ?_, ?_⟩,
    ⟨rightQuiet, rightOperandBelow⟩, ?_, rightCount.trans leftCount⟩
  · rw [rightBecomes.calls]
    exact fun number member => List.mem_append_left _ member
  · exact Nat.le_trans leftOperandBelow rightGrows.size
  · refine leftAgrees.after rightGrows rightBecomes fun number member => ?_
    rw [rightCount, leftCount]
    exact counted number (List.mem_append_right _ member)

/-- An operation makes the calls its operands wait for, the left one first. -/
theorem operation_traced
    (numbered : listing.Numbered)
    {op : ArithOp}
    {left right id : Nat}
    (operated : operation op left right line before = .ok (id, after))
    (grown : after.listing.Extends listing)
    (emits : listing.Emits before.listing after.listing code final)
    (agrees : before.Agrees code)
    (leftBelow : left ≤ before.listing.vars.size)
    (rightBelow : right ≤ before.listing.vars.size)
    (leftAsked : listing.Asked code.calls left numbers routines)
    (rightAsked : listing.Asked code.calls right rightNumbers rightRoutines)
    (counted : ∀ number ∈ numbers ++ rightNumbers, number < before.listing.callCount)
    (apart : ∀ number ∈ rightNumbers, number ∉ numbers) :
    Becomes after.listing.vars.size (numbers ++ rightNumbers) (routines ++ rightRoutines)
        code final ∧
      listing.Quiet final.calls id ∧ id ≤ after.listing.vars.size ∧
      after.listing.callCount = before.listing.callCount := by
  obtain ⟨_, _, leftOperand, rightOperand, middle, between, leftCopied, rightCopied, rfl, rfl⟩ :=
    operation_ok operated
  -- The listings that lowering goes through behind the copies.
  let added := between.withTemporary .int (.literal "0") true line
  let computed := added.appended
    (.arith (between.listing.vars.size + 1) leftOperand rightOperand op line)
  have copyGrows := ((materialize_computes leftCopied).trans
    (materialize_computes rightCopied)).extends_
  have tempGrows : between.listing.Extends added.listing :=
    (computes_withTemporary between .int (.literal "0") true line).extends_
  have arithGrows : added.listing.Extends computed.listing := extends_appended added _
  have firstGrows := (computes_destroyed computed leftOperand).extends_
  have secondGrows := (computes_destroyed (computed.destroyed leftOperand) rightOperand).extends_
  have tailGrows := arithGrows.trans (firstGrows.trans secondGrows)
  obtain ⟨first, copyEmits, emits⟩ := emits.split copyGrows (tempGrows.trans tailGrows)
  obtain ⟨second, tempEmits, emits⟩ := emits.split tempGrows tailGrows
  obtain ⟨third, arithEmits, emits⟩ := emits.split arithGrows (firstGrows.trans secondGrows)
  obtain ⟨fourth, firstDestroys, secondDestroys⟩ := emits.split firstGrows secondGrows
  have tempWhole := tailGrows.trans grown
  -- Both copies are made before the result gets its register.
  obtain ⟨copies, leftReady, rightReady, copyAgrees, copyCount⟩ :=
    copies_traced numbered leftCopied rightCopied (tempGrows.trans tempWhole) copyEmits agrees
      leftBelow rightBelow leftAsked rightAsked counted apart
  have resultFound := tempWhole.fixed?_of
    (fixed?_withTemporary between .int (.literal "0") true line)
  have resultQuiet : ∀ made, listing.Quiet made (between.listing.vars.size + 1) :=
    fun made => .constant resultFound rfl rfl
  have tempBecomes : Becomes (between.listing.vars.size + 1) [] [] first second :=
    Emit.declare_temporary numbered resultFound rfl (.literal "0") (Nat.le_refl _)
      (copyAgrees.held.held?_eq_none (Nat.lt_succ_self _)) rfl
      (tempEmits.declare_of_push (nodes_withTemporary between .int _ true line))
  have arithBecomes : Becomes (between.listing.vars.size + 1) [] [] second third :=
    ((Emit.asking_lawful numbered).arith _ ⟨Nat.le_refl _, resultQuiet first.calls⟩
      ⟨Nat.le_succ_of_le leftReady.2, leftReady.1⟩
      ⟨Nat.le_succ_of_le rightReady.2, rightReady.1⟩).1 (by simp [tempBecomes.calls])
      (Emit.atLine_ok_iff.mp (arithEmits.node_of_push (nodes_appended _ _)))
  have cleans : Becomes (between.listing.vars.size + 1) [] [] third final :=
    (destroyed_traced firstDestroys).after_silent (destroyed_traced secondDestroys)
  have computes := (copies.mono (Nat.le_succ _)).before_silent
    (tempBecomes.after_silent (arithBecomes.after_silent cleans))
  have size : ((computed.destroyed leftOperand).destroyed rightOperand).listing.vars.size =
      between.listing.vars.size + 1 := by
    simp [computed, added]
  rw [size]
  refine ⟨computes, resultQuiet _, Nat.le_refl _, ?_⟩
  simpa [computed, added] using copyCount

/--
What code for an expression does: it makes the calls that are forced, and asking for the
value makes the pending one.
-/
structure Traced (listing : Listing) (expr : Expr) (before after : LoweringState)
    (code final : FunctionCode) (id : Nat) : Prop where
  becomes : Becomes after.listing.vars.size
    ((expr.forced before.listing.callCount).map Prod.snd)
    ((expr.forced before.listing.callCount).map Prod.fst) code final
  asked : listing.Asked final.calls id
    ((expr.pending before.listing.callCount).map Prod.snd)
    ((expr.pending before.listing.callCount).map Prod.fst)
  below : id ≤ after.listing.vars.size
  count : after.listing.callCount = before.listing.callCount + expr.calls.length

variable
    {expr : Expr}

/-- The numbers of calls are their places in source order. -/
theorem Traced.agrees
    (traced : Traced listing expr before after code final id)
    (agrees : before.Agrees code)
    (grown : before.listing.Extends after.listing) :
    after.Agrees final := by
  refine agrees.after grown traced.becomes ?_
  intro number member
  obtain ⟨call, isForced, rfl⟩ := List.mem_map.mp member
  rw [traced.count]
  exact (Expr.place_of_mem_made (List.mem_append_left _ isForced)).2

/-- Behind two operands the calls that both wait for are still pending. -/
theorem Traced.beside
    {left right : Expr}
    {between : FunctionCode}
    {leftValue rightValue : Nat}
    (leftTraced : Traced listing left before middle code between leftValue)
    (rightTraced : Traced listing right middle after between final rightValue)
    (grown : middle.listing.Extends after.listing) :
    let start := before.listing.callCount
    let next := start + left.calls.length
    Becomes after.listing.vars.size
        ((left.forced start ++ right.forced next).map Prod.snd)
        ((left.forced start ++ right.forced next).map Prod.fst) code final ∧
      listing.Asked final.calls leftValue
        ((left.pending start).map Prod.snd) ((left.pending start).map Prod.fst) ∧
      listing.Asked final.calls rightValue
        ((right.pending next).map Prod.snd) ((right.pending next).map Prod.fst) ∧
      (∀ number ∈ (left.pending start).map Prod.snd ++ (right.pending next).map Prod.snd,
        number < after.listing.callCount) ∧
      (∀ number ∈ (right.pending next).map Prod.snd,
        number ∉ (left.pending start).map Prod.snd) ∧
      after.listing.callCount = next + right.calls.length := by
  intro start next
  have rightBecomes := rightTraced.becomes
  have rightAsked := rightTraced.asked
  have rightCount := rightTraced.count
  rw [leftTraced.count] at rightBecomes rightAsked rightCount
  -- Every call of the left operand has a lower number than every call of the right one.
  have early : ∀ number ∈ (left.pending start).map Prod.snd, number < next := by
    intro number member
    obtain ⟨call, isPending, rfl⟩ := List.mem_map.mp member
    exact (Expr.place_of_mem_made (List.mem_append_right _ isPending)).2
  have lateForced : ∀ number ∈ (right.forced next).map Prod.snd, next ≤ number := by
    intro number member
    obtain ⟨call, isForced, rfl⟩ := List.mem_map.mp member
    exact (Expr.place_of_mem_made (List.mem_append_left _ isForced)).1
  have latePending : ∀ number ∈ (right.pending next).map Prod.snd,
      next ≤ number ∧ number < next + right.calls.length := by
    intro number member
    obtain ⟨call, isPending, rfl⟩ := List.mem_map.mp member
    exact Expr.place_of_mem_made (List.mem_append_right _ isPending)
  refine ⟨?_, ?_, rightAsked, ?_, ?_, rightCount⟩
  · simpa using (leftTraced.becomes.mono grown.size).trans rightBecomes
  · rw [rightBecomes.calls]
    refine leftTraced.asked.mono fun number isLeft isRight => ?_
    exact Nat.lt_irrefl _ (Nat.lt_of_lt_of_le (early number isLeft) (lateForced number isRight))
  · intro number member
    rw [rightCount]
    rcases List.mem_append.mp member with isLeft | isRight
    · exact Nat.lt_of_lt_of_le (early number isLeft) (Nat.le_add_right _ _)
    · exact (latePending number isRight).2
  · intro number isRight isLeft
    exact Nat.lt_irrefl _
      (Nat.lt_of_lt_of_le (early number isLeft) (latePending number isRight).1)

/-- Arguments make their calls one behind the other, and then all of them are ready. -/
theorem arguments_traced
    (numbered : listing.Numbered)
    {name : String}
    {given : List Expr}
    {ids : List VarId}
    (each : ∀ part ∈ given, ∀ {before after : LoweringState} {code final : FunctionCode}
      {id : Nat},
      expression part before = .ok (some id, after) → after.listing.Extends listing →
        listing.Emits before.listing after.listing code final → before.Agrees code →
        Traced listing part before after code final id)
    (lowered : arguments name line given before = .ok (ids, after))
    (grown : after.listing.Extends listing)
    (emits : listing.Emits before.listing after.listing code final)
    (agrees : before.Agrees code) :
    Becomes after.listing.vars.size
        ((forcedIn before.listing.callCount given).map Prod.snd)
        ((forcedIn before.listing.callCount given).map Prod.fst) code final ∧
      (∀ id ∈ ids, id ≤ after.listing.vars.size ∧ listing.Quiet final.calls id) ∧
      after.listing.callCount = before.listing.callCount + (callsIn given).length ∧
      after.Agrees final := by
  induction given generalizing before code ids with
  | nil =>
      obtain ⟨rfl, rfl⟩ := arguments_nil_ok lowered
      cases emits.eq_of_same_nodes rfl
      exact ⟨.refl _ _, by simp, by simp [callsIn], agrees⟩
  | cons first rest inductionHypothesis =>
      obtain ⟨value, middle, copied, between, others, firstLowered, passed, restLowered, rfl⟩ :=
        arguments_cons_ok lowered
      have firstGrows := (expression_computes firstLowered).extends_
      have copyGrows := (argument_computes passed).extends_
      have restGrows := (arguments_computes restLowered).extends_
      obtain ⟨one, firstEmits, emits⟩ := emits.split firstGrows (copyGrows.trans restGrows)
      obtain ⟨two, copyEmits, restEmits⟩ := emits.split copyGrows restGrows
      have firstTraced := each first (by simp) firstLowered
        (copyGrows.trans (restGrows.trans grown)) firstEmits agrees
      have firstAgrees := firstTraced.agrees agrees firstGrows
      obtain ⟨copyBecomes, copyQuiet, copyBelow, copyCount⟩ := argument_traced numbered passed
        (restGrows.trans grown) copyEmits firstAgrees firstTraced.below firstTraced.asked
      have copyAgrees : between.Agrees two := by
        refine firstAgrees.after copyGrows copyBecomes fun number member => ?_
        obtain ⟨call, isPending, rfl⟩ := List.mem_map.mp member
        rw [copyCount, firstTraced.count]
        exact (Expr.place_of_mem_made (List.mem_append_right _ isPending)).2
      obtain ⟨restBecomes, restReady, restCount, restAgrees⟩ := inductionHypothesis
        (fun part member => each part (by simp [member])) restLowered restEmits copyAgrees
      rw [copyCount, firstTraced.count] at restBecomes restCount
      refine ⟨?_, ?_, ?_, restAgrees⟩
      · have copies := (firstTraced.becomes.mono copyGrows.size).trans copyBecomes
        have whole := (copies.mono restGrows.size).trans restBecomes
        simpa [forcedIn] using whole
      · intro id member
        rcases List.mem_cons.mp member with rfl | inRest
        · refine ⟨Nat.le_trans copyBelow restGrows.size, copyQuiet.mono ?_⟩
          rw [restBecomes.calls]
          exact fun number known => List.mem_append_left _ known
        · exact restReady id inRest
      · simp [restCount, callsIn, Nat.add_assoc]

/-- A constant makes no call. -/
theorem withLiteral_traced
    {value : Literal}
    (nothing : expr.calls = [])
    (grown : (before.withLiteral value).listing.Extends listing)
    (emits : listing.Emits before.listing (before.withLiteral value).listing code final) :
    Traced listing expr before (before.withLiteral value) code final
      (before.listing.vars.size + 1) := by
  obtain ⟨v, found, storage⟩ := fixed?_withLiteral before value
  cases emits.eq_of_same_nodes (nodes_withLiteral before value)
  obtain ⟨noForced, noPending⟩ := Expr.made_of_no_calls nothing before.listing.callCount
  have quiet : listing.Quiet code.calls (before.listing.vars.size + 1) :=
    .plain (grown.fixed?_of found) (by rw [storage]; rfl)
  exact
    { becomes := by rw [noForced]; exact .refl _ _
      asked := by rw [noPending]; exact .quiet quiet
      below := by simp
      count := by simp [nothing] }

/-- The result of a call is there when it is asked for, and not before. -/
theorem invoke_traced
    {function : Signature}
    {given : List VarId}
    (invoked : invoke function given line false before = .ok (some id, after))
    (grown : after.listing.Extends listing)
    (emits : listing.Emits before.listing after.listing code final)
    (agrees : before.Agrees code)
    (ready : ∀ argument ∈ given,
      argument ≤ before.listing.vars.size ∧ listing.Quiet code.calls argument) :
    final = code ∧ listing.Asked code.calls id [before.listing.callCount] [function.name] ∧
      id = after.listing.vars.size ∧ before.listing.vars.size ≤ after.listing.vars.size ∧
      after.listing.callCount = before.listing.callCount + 1 := by
  rcases invoke_ok invoked with ⟨_, absent, _⟩ | ⟨_, same, rfl⟩
  · cases absent
  · cases same
    simp only [Bool.false_eq_true, ↓reduceIte] at grown emits ⊢
    cases emits.eq_of_same_nodes rfl
    obtain ⟨v, found, storage⟩ := fixed?_withResult (before.counted function) function
      (before.nextCall function given line)
    refine ⟨rfl, ?_, ?_, ?_, rfl⟩
    · refine .pending (grown.fixed?_of found) storage ?_ ?_
      · exact fun known => Nat.lt_irrefl _ (agrees.calls _ known)
      · intro argument member
        exact ⟨Nat.lt_succ_of_le (ready argument member).1, (ready argument member).2⟩
    · simp [withResult, Listing.addResult, LoweringState.counted, Listing.modifyFunction]
    · simp [withResult, Listing.addResult, LoweringState.counted, Listing.modifyFunction]

/-- An expression makes its calls in the order that the tree gives. -/
theorem expression_traced
    (numbered : listing.Numbered)
    (lowered : expression expr before = .ok (some id, after))
    (grown : after.listing.Extends listing)
    (emits : listing.Emits before.listing after.listing code final)
    (agrees : before.Agrees code) :
    Traced listing expr before after code final id := by
  induction expr using Expr.inductionOn generalizing before after code final id with
  | missing => exact (expression_missing_ok.mp lowered).elim
  | array => exact (expression_array_ok.mp lowered).elim
  | name line name =>
      obtain ⟨v, resolved, same⟩ := expression_name_ok lowered
      obtain ⟨rfl, number, _, known, isNamed⟩ := resolve_ok resolved
      cases same
      cases emits.eq_of_same_nodes rfl
      have found : after.listing.fixed? number = some v.fixed := by simp [Listing.fixed?, known]
      have same : v.id = number := numbered number v.fixed (grown.fixed?_of found)
      have isPlain : v.fixed.storage.isPlain := by
        rw [← Variable.isNamed_fixed] at isNamed
        cases storage : v.fixed.storage with
        | named => rfl
        | _ => simp [storage, Storage.isNamed] at isNamed
      rw [same]
      exact
        { becomes := by simpa [Expr.forced] using Becomes.refl _ code
          asked := by
            simpa [Expr.pending] using .quiet (.plain (grown.fixed?_of found) isPlain)
          below := (Listing.le_size_of_fixed? found).2
          count := by simp [Expr.calls] }
  | literal line value =>
      obtain ⟨same, rfl⟩ := expression_literal_ok lowered
      cases same
      exact withLiteral_traced (by simp [Expr.calls]) grown emits
  | binary line op left right leftHypothesis rightHypothesis =>
      rcases expression_binary_ok lowered with
        ⟨constant, value, _, same, rfl⟩ |
          ⟨_, leftValue, middle, rightValue, between, result, leftLowered, rightLowered,
            operated, same⟩
      · cases same
        exact withLiteral_traced (Expr.calls_of_isConstant constant) grown emits
      · cases same
        have leftGrows := (expression_computes leftLowered).extends_
        have rightGrows := (expression_computes rightLowered).extends_
        have resultGrows := (operation_computes operated).extends_
        obtain ⟨one, leftEmits, emits⟩ := emits.split leftGrows (rightGrows.trans resultGrows)
        obtain ⟨two, rightEmits, resultEmits⟩ := emits.split rightGrows resultGrows
        have rightWhole := resultGrows.trans grown
        have leftTraced := leftHypothesis leftLowered (rightGrows.trans rightWhole) leftEmits
          agrees
        have leftAgrees := leftTraced.agrees agrees leftGrows
        have rightTraced := rightHypothesis rightLowered rightWhole rightEmits leftAgrees
        have rightAgrees := rightTraced.agrees leftAgrees rightGrows
        obtain ⟨forced, leftAsked, rightAsked, counted, apart, operandCount⟩ :=
          leftTraced.beside rightTraced rightGrows
        obtain ⟨becomes, quiet, below, count⟩ := operation_traced numbered operated grown
          resultEmits rightAgrees (Nat.le_trans leftTraced.below rightGrows.size)
          rightTraced.below leftAsked rightAsked counted apart
        have whole := (forced.mono resultGrows.size).trans becomes
        exact
          { becomes := by simpa [Expr.forced, List.append_assoc] using whole
            asked := by simpa [Expr.pending] using .quiet quiet
            below := below
            count := by simp [count, operandCount, Expr.calls, Nat.add_assoc] }
  | element line array index inductionHypothesis =>
      obtain ⟨variable_, position, between, result, _, _, indexLowered, accessed, same⟩ :=
        expression_element_ok lowered
      cases same
      have indexGrows := (expression_computes indexLowered).extends_
      have accessGrows := (element_computes accessed).extends_
      obtain ⟨one, indexEmits, accessEmits⟩ := emits.split indexGrows accessGrows
      have traced := inductionHypothesis indexLowered (accessGrows.trans grown) indexEmits agrees
      obtain ⟨becomes, quiet, below, count⟩ := element_traced numbered accessed grown accessEmits
        (traced.agrees agrees indexGrows) traced.below traced.asked
      exact
        { becomes := by
            simpa [Expr.forced] using (traced.becomes.mono accessGrows.size).trans becomes
          asked := by simpa [Expr.pending] using .quiet quiet
          below := below
          count := by simp [count, traced.count, Expr.calls] }
  | call line name builtin given inductionHypothesis =>
      cases builtin with
      | true => cases (expression_builtin_ok lowered).1
      | false =>
          obtain ⟨function, ids, between, known, _, passed, invoked⟩ :=
            expression_call_ok lowered
          have named := Listing.name_of_signature? known
          have givenGrows := (arguments_computes passed).extends_
          have resultGrows := (invoke_computes invoked).extends_
          obtain ⟨one, givenEmits, resultEmits⟩ := emits.split givenGrows resultGrows
          obtain ⟨becomes, ready, count, givenAgrees⟩ := arguments_traced numbered
            inductionHypothesis passed (resultGrows.trans grown) givenEmits agrees
          obtain ⟨rfl, asked, below, less, resultCount⟩ := invoke_traced invoked grown resultEmits
            givenAgrees ready
          rw [count, named] at asked
          exact
            { becomes := by simpa [Expr.forced] using becomes.mono less
              asked := by simpa [Expr.pending] using asked
              below := Nat.le_of_eq below
              count := by simp [resultCount, count, Expr.calls, Nat.add_assoc] }

end Lower

end IlsCompiler
