import IlsCompiler.Proofs.Scope.Laws
import IlsCompiler.Proofs.Lowering.Visits

namespace IlsCompiler

/-!
# How names are looked up

Lowering looks names up in the scopes that are open, and the scopes change on the way. A trace of a
statement has the states in which names are looked up and declared. It is what the tree says: the
names are looked up in order, each where it stands for one declaration at most, and the variable
that is found is that of the declaration.
-/

namespace Lower

open Stateful LoweringState

/-- How a name is used: a variable is read, or an element of one, or it is assigned to. -/
inductive Use where
  | read (line : Nat) (name : String)
  | element (line : Nat) (name : String) (index : Expr)
  | target (line : Nat) (name : String) (index : Option Expr) (value : Expr)

namespace Use

/-- The name that is used. -/
def name : Use → String
  | .read _ name => name
  | .element _ name _ => name
  | .target _ name _ _ => name

/-- The line on which a name is used. -/
def line : Use → Nat
  | .read line _ => line
  | .element line _ _ => line
  | .target line _ _ _ => line

/-- A variable is an element of another one. -/
def IsElement (listing : Listing) (id array : VarId) : Prop :=
  ∃ v position, listing.fixed? id = some v ∧ v.storage = .element array position

/--
A use that is lowered from a state comes to a variable: the value is the variable or an element of
it, or the variable is assigned to.
-/
def LoweredTo (id : VarId) (state : LoweringState) : Use → Prop
  | .read line name => expression (.name line name) state = .ok (some id, state)
  | .element line name index => ∃ element after,
      expression (.element line name index) state = .ok (some element, after) ∧
        IsElement after.listing element id
  | .target line name index value => ∃ (between : LoweringState) (stored : Value) (type : Ty)
      (element : VarId),
      assign line name index value state =
          .ok ((), between.appended (.assign id stored type element line)) ∧
        (index.isSome → IsElement between.listing element id)

end Use

/--
What happens on the way, with the state in which it does: a statement begins or a body ends, a name
is looked up, or a variable is declared, which leads to another state.
-/
inductive Event where
  | reached (state : LoweringState)
  | looked (use : Use) (state : LoweringState)
  | declared (name : String) (state behind : LoweringState)

/-- The state in which something happens. -/
def Event.state : Event → LoweringState
  | .reached state => state
  | .looked _ state => state
  | .declared _ state _ => state

/-- The variable that is declared. -/
def Event.variable? : Event → Option VarId
  | .declared name _ behind => behind.listing.scopes.lookup? behind.scope name
  | _ => none

/-- The variables that are declared on the way. -/
def variablesOf (events : List Event) : List VarId :=
  events.filterMap Event.variable?

/-- The state behind a step. -/
def behind (step : Lower α) (state : LoweringState) : LoweringState :=
  match step state with
  | .ok (_, after) => after
  | .error _ => state

theorem behind_of_ok
    {step : Lower α}
    {result : α}
    {before after : LoweringState}
    (run : step before = .ok (result, after)) :
    behind step before = after := by
  rw [behind, run]

section Traces

mutual

/-- The names that are looked up in an expression that is lowered from a state. -/
def exprTrace : Expr → LoweringState → List Event
  | .name line name, state => [.looked (.read line name) state]
  | .binary line op left right, state =>
      if (Expr.binary line op left right).isConstant then
        []
      else
        exprTrace left state ++ exprTrace right (behind (expression left) state)
  | .element line name index, state =>
      .looked (.element line name index) state :: exprTrace index state
  | .call line name _ given, state => argumentsTrace name line given state
  | _, _ => []

/-- The names that are looked up in arguments of a call. -/
def argumentsTrace (function : String) (line : Nat) : List Expr → LoweringState → List Event
  | [], _ => []
  | first :: rest, state =>
      exprTrace first state ++
        argumentsTrace function line rest
          (behind (do argument function (← value first) line) state)

end

/-- The names that are looked up in an expression that may be left out. -/
def valueTrace : Option Expr → LoweringState → List Event
  | none, _ => []
  | some expr, state => exprTrace expr state

/-- The names that are looked up in the terms of a condition. -/
def termsTrace (whenTrue whenFalse : String) :
    List Comparison → List Logic → LoweringState → List Event
  | [], _, _ => []
  | term :: rest, joins, state =>
      exprTrace term.left state ++ valueTrace term.right (behind (expression term.left) state) ++
        match comparison term state with
        | .error _ => []
        | .ok ((left, right, test), between) =>
            termsTrace whenTrue whenFalse rest joins.tail
              (compared between left right term.line (termJump whenTrue whenFalse test rest joins))

/-- The names that are looked up in a condition. -/
def testTrace (test : Option Condition) (whenTrue whenFalse : String) (state : LoweringState) :
    List Event :=
  match test with
  | none => []
  | some chain => termsTrace whenTrue whenFalse chain.terms chain.joins state

/-- The state in which the value of an assignment is lowered. -/
def assignedFrom (line : Nat) (name : String) (index : Option Expr) (state : LoweringState) :
    LoweringState :=
  match index with
  | none => state
  | some position => behind (do elementOf (← resolve name line) name position line) state

mutual

/-- The events of a statement that is lowered from a state. -/
def stmtTrace : Stmt → LoweringState → List Event
  | .block _ body, state => bodyTrace body (state.entered .plain "")
  | .declare line name type initial, state =>
      valueTrace initial state ++
        [.declared name (behind (initializer line type initial) state)
          (behind (declare line name type initial) state)]
  | .function _ _ _ _ _ _, _ => []
  | .assign line name index expr, state =>
      .looked (.target line name index expr) state ::
        (valueTrace index state ++ exprTrace expr (assignedFrom line name index state))
  | .call _ line name _ given, state => argumentsTrace name line given state
  | .leave _ result, state => valueTrace result state
  | .choose _ test _ body next, state =>
      let number := state.listing.labelCount
      let otherwise := otherwiseLabel number 0 (chooseEnd state) next
      let tested := behind (condition test (chooseBody state) otherwise false) (chooseBegun state)
      let chosen := behind (inScope .ifArm "" (statements body)) (tested.labelled (chooseBody state))
      testTrace test (chooseBody state) otherwise (chooseBegun state) ++
        bodyTrace body ((tested.labelled (chooseBody state)).entered .ifArm "") ++
          branchTrace number 0 (chooseEnd state) next (skipped chosen (chooseEnd state) next)
  | .loop _ test _ body, state =>
      let stem := loopStem state.listing.labelCount
      let looped := behind (inScope .loop (loopEnd state) (statements body)) (loopBegun state)
      bodyTrace body ((loopBegun state).entered .loop (loopEnd state)) ++
        testTrace test (stem ++ "_START") (loopEnd state) (looped.labelled (stem ++ "_COND"))
  | .exit _, _ => []

/-- The events of the arms behind the first. -/
def branchTrace (number arm : Nat) (endLabel : String) : Branch → LoweringState → List Event
  | .none, _ => []
  | .otherwise _ _ body, state =>
      bodyTrace body ((state.labelled (armLabel number arm)).entered .elseArm "")
  | .elif _ test _ body next, state =>
      let here := armLabel number arm
      let otherwise := otherwiseLabel number (arm + 1) endLabel next
      let tested := behind (condition test (here ++ "_BODY") otherwise false) (state.labelled here)
      let chosen := behind (inScope .elifArm "" (statements body)) (tested.labelled (here ++ "_BODY"))
      testTrace test (here ++ "_BODY") otherwise (state.labelled here) ++
        bodyTrace body ((tested.labelled (here ++ "_BODY")).entered .elifArm "") ++
          branchTrace number (arm + 1) endLabel next (skipped chosen endLabel next)

/-- The events of a body. -/
def bodyTrace : List Stmt → LoweringState → List Event
  | [], state => [.reached state]
  | first :: rest, state =>
      .reached state :: (stmtTrace first state ++ bodyTrace rest (behind (statement first) state))

end

end Traces

/--
Lowering leaves the scopes as they are and looks names up in order, each with the outcome that
there is a variable of the name, which the use comes to.
-/
structure Looks (names : List String) (events : List Event) (before after : LoweringState) : Prop
    extends before.Stays after where
  each : List.Forall₂
    (fun name event => ∃ use state v,
      event = .looked use state ∧ use.name = name ∧ before.Stays state ∧
        resolve name use.line state = .ok (v, state) ∧
        (state.listing.Numbered → use.LoweredTo v.id state)) names events

namespace Looks

variable
    {names more : List String}
    {events others : List Event}
    {before between after : LoweringState}

/-- Steps that look nothing up. -/
theorem nothing
    (stays : before.Stays after) :
    Looks [] [] before after :=
  ⟨stays, .nil⟩

theorem trans
    (earlier : Looks names events before between)
    (later : Looks more others between after) :
    Looks (names ++ more) (events ++ others) before after where
  toStays := earlier.toStays.trans later.toStays
  each := by
    refine List.rel_append earlier.each (later.each.imp ?_)
    rintro name event ⟨use, state, v, isLooked, isName, stays, found⟩
    exact ⟨use, state, v, isLooked, isName, earlier.toStays.trans stays, found⟩

/-- Steps that look nothing up may follow. -/
theorem behind
    (looks : Looks names events before between)
    (stays : between.Stays after) :
    Looks names events before after := by
  simpa using looks.trans (.nothing stays)

theorem single
    (use : Use)
    {v : Variable}
    (resolved : resolve use.name use.line before = .ok (v, after))
    (lowered : before.listing.Numbered → use.LoweredTo v.id before) :
    Looks [use.name] [.looked use before] before after := by
  obtain ⟨rfl, _⟩ := resolve_ok resolved
  exact ⟨.refl _, .cons ⟨use, _, v, rfl, rfl, .refl _, resolved, lowered⟩ .nil⟩

end Looks

section Expressions

variable
    {before after : LoweringState}
    {line : Nat}
    {done : Unit}

/-- What an access to an array comes to is an element of the array. -/
theorem isElement_of_element
    {array : Variable}
    {index id : VarId}
    (accessed : element array index line before = .ok (id, after)) :
    Use.IsElement after.listing id array.id := by
  obtain ⟨_, _, position, between, _, rfl, rfl⟩ := element_ok accessed
  obtain ⟨v, found, storage, _⟩ := fixed?_withElement between array.id position
  exact ⟨v, position, found, storage⟩

variable
    {given : List Expr}

/-- Lowering an expression looks up the names that are written in it. -/
theorem evaluated_looks :
    Evaluated
      (fun expr before after _ => Looks expr.names (exprTrace expr before) before after)
      fun function line given before after _ =>
        Looks (namesOfParts given) (argumentsTrace function line given before) before after where
  name lowered resolved := .single (.read _ _) resolved fun _ => lowered
  literal _ _ _ := .nothing (.of_computes (computes_withLiteral _ _))
  folded _ isConstant _ := by
    rw [Expr.names_of_isConstant isConstant, exprTrace, if_pos isConstant]
    exact .nothing (.of_computes (computes_withLiteral _ _))
  binary varies leftLowered _ operated left right := by
    rw [Expr.names, exprTrace, if_neg (by simp [varies]), behind_of_ok leftLowered]
    exact (left.trans right).behind (.of_computes (operation_computes operated))
  element lowered resolved _ _ accessed index := by
    have single := Looks.single (.element _ _ _) resolved fun _ =>
      ⟨_, _, lowered, isElement_of_element accessed⟩
    exact (single.trans index).behind (.of_computes (element_computes accessed))
  builtin _ _ _ invoked passed := passed.behind (.of_computes (invokeBuiltin_computes invoked))
  invoke _ _ _ invoked passed := passed.behind (.of_computes (invoke_computes invoked))
  nil _ := .nothing (.refl _)
  cons {function line first _ _ _ _ before _ between _} firstLowered passed _ looks others := by
    have isBetween :
        Lower.behind (do argument function (← value first) line) before = between :=
      behind_of_ok (bind_ok_iff.mpr ⟨_, _, value_ok_iff.mpr firstLowered, passed⟩)
    rw [namesOfParts, argumentsTrace, isBetween]
    exact (looks.behind (.of_computes (argument_computes passed))).trans others

theorem expression_looks
    {expr : Expr}
    {result : Option VarId}
    (lowered : expression expr before = .ok (result, after)) :
    Looks expr.names (exprTrace expr before) before after :=
  evaluated_looks.expression lowered

theorem comparison_looks
    {term : Comparison}
    {result : VarId × VarId × CmpOp}
    (lowered : comparison term before = .ok (result, after)) :
    Looks (term.left.names ++ namesOfValue term.right)
      (exprTrace term.left before ++
        valueTrace term.right (Lower.behind (expression term.left) before)) before after := by
  obtain ⟨_, middle, _, between, _, _, _, _, leftLowered, rightLowered, _, _, _, leftCopied,
    rightCopied, _⟩ := comparison_ok lowered
  have copies := (materialize_computes leftCopied).trans (materialize_computes rightCopied)
  have second : Looks (namesOfValue term.right) (valueTrace term.right middle) middle between := by
    have looks := expression_looks rightLowered
    unfold Comparison.second at looks
    cases given : term.right <;> rw [given] at looks <;> exact looks
  rw [behind_of_ok leftLowered]
  exact ((expression_looks leftLowered).trans second).behind (.of_computes copies)

variable
    {whenTrue whenFalse : String}

theorem conditionTerms_looks
    {terms : List Comparison}
    {joins : List Logic}
    (lowered : conditionTerms whenTrue whenFalse terms joins before = .ok (done, after)) :
    Looks (namesOfTerms terms) (termsTrace whenTrue whenFalse terms joins before) before after := by
  induction terms generalizing before joins with
  | nil =>
      cases conditionTerms_nil_ok lowered
      exact .nothing (.refl _)
  | cons term rest inductionHypothesis =>
      obtain ⟨left, right, test, between, sidesLowered, restLowered⟩ :=
        conditionTerms_cons_ok lowered
      have isJump : (termJump whenTrue whenFalse test rest joins).isInner := by
        unfold termJump
        split <;> rfl
      have compares : between.Stays
          (compared between left right term.line (termJump whenTrue whenFalse test rest joins)) := by
        refine .trans ?_ (.appended _ isJump)
        refine .trans ?_ (.of_computes (computes_destroyed _ right))
        refine .trans ?_ (.of_computes (computes_destroyed _ left))
        exact .appended between rfl
      rw [namesOfTerms, termsTrace, sidesLowered]
      exact ((comparison_looks sidesLowered).behind compares).trans
        (inductionHypothesis restLowered)

theorem condition_looks
    {test : Option Condition}
    {falseFollows : Bool}
    (lowered : condition test whenTrue whenFalse falseFollows before = .ok (done, after)) :
    Looks (namesOfTest test) (testTrace test whenTrue whenFalse before) before after := by
  obtain ⟨_, between, rfl, _, termsLowered, rfl⟩ := condition_ok lowered
  refine (conditionTerms_looks termsLowered).behind ?_
  split
  · exact .refl _
  · exact .appended between rfl

theorem initializer_looks
    {type : Ty}
    {initial : Option Expr}
    {stored : Value}
    (lowered : initializer line type initial before = .ok (stored, after)) :
    Looks (namesOfValue initial) (valueTrace initial before) before after := by
  rcases initializer_ok lowered with ⟨rfl, _, rfl⟩ | ⟨_, _, rfl, exprLowered, _, _⟩
  · exact .nothing ⟨proceeds_defaulted before type, defaulted_scopes before type⟩
  · exact expression_looks exprLowered

theorem assign_looks
    {name : String}
    {index : Option Expr}
    {expr : Expr}
    (lowered : assign line name index expr before = .ok (done, after)) :
    Looks (name :: (namesOfValue index ++ expr.names))
      (.looked (.target line name index expr) before ::
        (valueTrace index before ++ exprTrace expr (assignedFrom line name index before)))
      before after := by
  obtain ⟨target, _, selected, middle, _, between, resolved, selects, exprLowered, _, stores⟩ :=
    assign_ok lowered
  have selection : Looks (namesOfValue index) (valueTrace index before) before middle ∧
      assignedFrom line name index before = middle ∧
      (index.isSome → Use.IsElement middle.listing selected target.id) := by
    rcases selects with ⟨rfl, _, _, _, rfl⟩ | ⟨position, rfl, accessed, _⟩
    · exact ⟨.nothing (.refl _), rfl, nofun⟩
    · obtain ⟨_, _, _, indexLowered, reached⟩ := elementOf_ok accessed
      refine ⟨(expression_looks indexLowered).behind (.of_computes (element_computes reached)),
        ?_, fun _ => isElement_of_element reached⟩
      exact behind_of_ok (bind_ok_iff.mpr ⟨target, before, resolved, accessed⟩)
  obtain ⟨indexLooks, isMiddle, isElement⟩ := selection
  have values := expression_looks exprLowered
  have emits : between.Stays after := by
    rcases stores with ⟨_, _, rfl⟩ | ⟨_, rfl⟩
    · exact .appended between rfl
    · exact .refl _
  have single : Looks [name] [.looked (.target line name index expr) before] before before := by
    refine .single (.target line name index expr) resolved fun numbered => ?_
    have grown := indexLooks.toStays.trans values.toStays
    rcases stores with ⟨v, _, rfl⟩ | ⟨missing, _⟩
    · refine ⟨between, _, _, selected, lowered, fun hasIndex => ?_⟩
      obtain ⟨w, position, found, storage⟩ := isElement hasIndex
      exact ⟨w, position, values.extends_.fixed?_of found, storage⟩
    · obtain ⟨v, found⟩ := expression_found (grown.extends_.numbered numbered) exprLowered
      cases missing.symm.trans found
  rw [isMiddle]
  exact single.trans (indexLooks.trans (values.behind emits))

theorem leave_looks
    {result : Option Expr}
    (lowered : leave line result before = .ok (done, after)) :
    Looks (namesOfValue result) (valueTrace result before) before after := by
  obtain ⟨_, _, _, between, _, _, values, rfl⟩ := leave_ok lowered
  have valued : Looks (namesOfValue result) (valueTrace result before) before between := by
    rcases values with ⟨rfl, _, rfl⟩ | ⟨_, rfl, exprLowered, _⟩
    · exact .nothing (.refl _)
    · exact expression_looks exprLowered
  exact valued.behind ((Stays.appended between rfl).trans (.appended _ rfl))

theorem callStatement_looks
    {name : String}
    {builtin : Bool}
    (lowered : callStatement line name builtin given before = .ok (done, after)) :
    Looks (namesOfParts given) (argumentsTrace name line given before) before after :=
  evaluated_looks.callStatement lowered

end Expressions

end Lower

end IlsCompiler
