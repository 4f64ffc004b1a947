import IlsCompiler.Proofs.Lowering.ControlFlow

namespace IlsCompiler.Lower

/-!
# Statements on the way through a body

Lowering a body comes to every statement in it, however deep it is nested. This module
says from which state to which a statement is lowered when a body is.
-/

open LoweringState

/-- What lowering is at: a body, a statement, or what follows an arm of a choice. -/
inductive Site where
  | body (stmts : List Stmt)
  | statement (stmt : Stmt)
  | branch (number arm : Nat) (endLabel : String) (next : Branch)

/-- Lower what lowering is at. -/
def Site.lower : Site → Lower Unit
  | .body stmts => statements stmts
  | .statement stmt => Lower.statement stmt
  | .branch number arm endLabel next => Lower.branch number arm endLabel next

/-- The label behind a choice that is lowered from a state. -/
def chooseEnd (state : LoweringState) : String :=
  chooseStem state.listing.labelCount ++ "_END"

/-- The label of the first arm of a choice. -/
def chooseBody (state : LoweringState) : String :=
  chooseStem state.listing.labelCount ++ "_BODY"

/-- A state in which a choice is begun. -/
def chooseBegun (state : LoweringState) : LoweringState :=
  state.numbered.labelled (chooseStem state.listing.labelCount ++ "_START")

/-- The label behind a loop that is lowered from a state. -/
def loopEnd (state : LoweringState) : String :=
  loopStem state.listing.labelCount ++ "_END"

/-- A state in which a loop is begun: a jump to its test and the label of its body. -/
def loopBegun (state : LoweringState) : LoweringState :=
  (state.numbered.appended (.jump (loopStem state.listing.labelCount ++ "_COND") none)).labelled
    (loopStem state.listing.labelCount ++ "_START")

/-- Lowering a site from a state lowers a statement in it from one state to another. -/
inductive Visits (target : Stmt) (start finish : LoweringState) : Site → LoweringState → Prop
  | here :
      statement target start = .ok ((), finish) →
        Visits target start finish (.statement target) start
  | first {stmt : Stmt} {rest : List Stmt} {state : LoweringState} :
      Visits target start finish (.statement stmt) state →
        Visits target start finish (.body (stmt :: rest)) state
  | rest {stmt : Stmt} {rest : List Stmt} {state between : LoweringState} :
      statement stmt state = .ok ((), between) →
        Visits target start finish (.body rest) between →
        Visits target start finish (.body (stmt :: rest)) state
  | block {line : Nat} {body : List Stmt} {state : LoweringState} :
      Visits target start finish (.body body) (state.entered .plain "") →
        Visits target start finish (.statement (.block line body)) state
  | loop {line : Nat} {test : Option Condition} {bodyLine : Nat} {body : List Stmt}
      {state : LoweringState} :
      Visits target start finish (.body body)
          ((loopBegun state).entered .loop (loopEnd state)) →
        Visits target start finish (.statement (.loop line test bodyLine body)) state
  | chosen {line : Nat} {test : Option Condition} {bodyLine : Nat} {body : List Stmt}
      {next : Branch} {state tested : LoweringState} :
      condition test (chooseBody state)
          (otherwiseLabel state.listing.labelCount 0 (chooseEnd state) next) false
          (chooseBegun state) = .ok ((), tested) →
        Visits target start finish (.body body)
          ((tested.labelled (chooseBody state)).entered .ifArm "") →
        Visits target start finish (.statement (.choose line test bodyLine body next)) state
  | next {line : Nat} {test : Option Condition} {bodyLine : Nat} {body : List Stmt}
      {next : Branch} {state tested chosen : LoweringState} :
      condition test (chooseBody state)
          (otherwiseLabel state.listing.labelCount 0 (chooseEnd state) next) false
          (chooseBegun state) = .ok ((), tested) →
        inScope .ifArm "" (statements body) (tested.labelled (chooseBody state)) =
          .ok ((), chosen) →
        Visits target start finish
          (.branch state.listing.labelCount 0 (chooseEnd state) next)
          (skipped chosen (chooseEnd state) next) →
        Visits target start finish (.statement (.choose line test bodyLine body next)) state
  | otherwise {number arm : Nat} {endLabel : String} {line bodyLine : Nat} {body : List Stmt}
      {state : LoweringState} :
      Visits target start finish (.body body)
          ((state.labelled (armLabel number arm)).entered .elseArm "") →
        Visits target start finish
          (.branch number arm endLabel (.otherwise line bodyLine body)) state
  | elif {number arm : Nat} {endLabel : String} {line : Nat} {test : Option Condition}
      {bodyLine : Nat} {body : List Stmt} {next : Branch} {state tested : LoweringState} :
      condition test (armLabel number arm ++ "_BODY")
          (otherwiseLabel number (arm + 1) endLabel next) false
          (state.labelled (armLabel number arm)) = .ok ((), tested) →
        Visits target start finish (.body body)
          ((tested.labelled (armLabel number arm ++ "_BODY")).entered .elifArm "") →
        Visits target start finish
          (.branch number arm endLabel (.elif line test bodyLine body next)) state
  | elifNext {number arm : Nat} {endLabel : String} {line : Nat} {test : Option Condition}
      {bodyLine : Nat} {body : List Stmt} {next : Branch} {state tested chosen : LoweringState} :
      condition test (armLabel number arm ++ "_BODY")
          (otherwiseLabel number (arm + 1) endLabel next) false
          (state.labelled (armLabel number arm)) = .ok ((), tested) →
        inScope .elifArm "" (statements body)
          (tested.labelled (armLabel number arm ++ "_BODY")) = .ok ((), chosen) →
        Visits target start finish (.branch number (arm + 1) endLabel next)
          (skipped chosen endLabel next) →
        Visits target start finish
          (.branch number arm endLabel (.elif line test bodyLine body next)) state

/-- A part of a program tree: a body, a statement, or what follows an arm of a choice. -/
inductive Fragment where
  | body (stmts : List Stmt)
  | statement (stmt : Stmt)
  | branch (next : Branch)

/-- The part of the tree that lowering is at. -/
def Site.fragment : Site → Fragment
  | .body stmts => .body stmts
  | .statement stmt => .statement stmt
  | .branch _ _ _ next => .branch next

/-- A statement stands in a part of a program tree, at any depth. -/
inductive Occurs (target : Stmt) : Fragment → Prop
  | here : Occurs target (.statement target)
  | first {stmt : Stmt} {rest : List Stmt} :
      Occurs target (.statement stmt) → Occurs target (.body (stmt :: rest))
  | rest {stmt : Stmt} {rest : List Stmt} :
      Occurs target (.body rest) → Occurs target (.body (stmt :: rest))
  | block {line : Nat} {body : List Stmt} :
      Occurs target (.body body) → Occurs target (.statement (.block line body))
  | loop {line : Nat} {test : Option Condition} {bodyLine : Nat} {body : List Stmt} :
      Occurs target (.body body) → Occurs target (.statement (.loop line test bodyLine body))
  | chosen {line : Nat} {test : Option Condition} {bodyLine : Nat} {body : List Stmt}
      {next : Branch} :
      Occurs target (.body body) →
        Occurs target (.statement (.choose line test bodyLine body next))
  | next {line : Nat} {test : Option Condition} {bodyLine : Nat} {body : List Stmt}
      {next : Branch} :
      Occurs target (.branch next) →
        Occurs target (.statement (.choose line test bodyLine body next))
  | otherwise {line bodyLine : Nat} {body : List Stmt} :
      Occurs target (.body body) → Occurs target (.branch (.otherwise line bodyLine body))
  | elif {line : Nat} {test : Option Condition} {bodyLine : Nat} {body : List Stmt}
      {next : Branch} :
      Occurs target (.body body) →
        Occurs target (.branch (.elif line test bodyLine body next))
  | elifNext {line : Nat} {test : Option Condition} {bodyLine : Nat} {body : List Stmt}
      {next : Branch} :
      Occurs target (.branch next) →
        Occurs target (.branch (.elif line test bodyLine body next))

/-- Lowering comes to every statement of what it lowers. -/
theorem Occurs.visited
    {target : Stmt}
    {fragment : Fragment}
    (occurs : Occurs target fragment) :
    ∀ {site : Site} {state after : LoweringState},
      site.fragment = fragment → site.lower state = .ok ((), after) →
        ∃ start finish, Visits target start finish site state := by
  -- The cases of the occurrence name those of the site, and the inversion of the lowering
  -- gives the state in which the nested part is lowered.
  induction occurs with
  | here =>
      rintro (_ | _ | _) state after ⟨⟩ lowered
      rw [Site.lower] at lowered
      exact ⟨state, after, .here lowered⟩
  | first _ inductionHypothesis =>
      rintro (_ | _ | _) state after ⟨⟩ lowered
      rw [Site.lower] at lowered
      obtain ⟨between, lowered, _⟩ := statements_cons_ok lowered
      obtain ⟨start, finish, visits⟩ :=
        @inductionHypothesis (.statement _) state between rfl lowered
      exact ⟨start, finish, .first visits⟩
  | rest _ inductionHypothesis =>
      rintro (_ | _ | _) state after ⟨⟩ lowered
      rw [Site.lower] at lowered
      obtain ⟨between, passed, lowered⟩ := statements_cons_ok lowered
      obtain ⟨start, finish, visits⟩ := @inductionHypothesis (.body _) between after rfl lowered
      exact ⟨start, finish, .rest passed visits⟩
  | block _ inductionHypothesis =>
      rintro (_ | _ | _) state after ⟨⟩ lowered
      rw [Site.lower] at lowered
      obtain ⟨between, _, lowered, _⟩ := inScope_ok (statement_block_ok lowered)
      obtain ⟨start, finish, visits⟩ := @inductionHypothesis (.body _) _ between rfl lowered
      exact ⟨start, finish, .block visits⟩
  | loop _ inductionHypothesis =>
      rintro (_ | _ | _) state after ⟨⟩ lowered
      rw [Site.lower] at lowered
      obtain ⟨_, _, _, bodyLowered, _⟩ := statement_loop_ok lowered
      obtain ⟨between, _, lowered, _⟩ := inScope_ok bodyLowered
      obtain ⟨start, finish, visits⟩ := @inductionHypothesis (.body _) _ between rfl lowered
      exact ⟨start, finish, .loop visits⟩
  | chosen _ inductionHypothesis =>
      rintro (_ | _ | _) state after ⟨⟩ lowered
      rw [Site.lower] at lowered
      obtain ⟨_, _, _, _, conditioned, _, bodyLowered, _⟩ := statement_choose_ok lowered
      obtain ⟨between, _, lowered, _⟩ := inScope_ok bodyLowered
      obtain ⟨start, finish, visits⟩ := @inductionHypothesis (.body _) _ between rfl lowered
      exact ⟨start, finish, .chosen conditioned visits⟩
  | next _ inductionHypothesis =>
      rintro (_ | _ | _) state after ⟨⟩ lowered
      rw [Site.lower] at lowered
      obtain ⟨_, _, branched, _, conditioned, _, bodyLowered, lowered, _⟩ :=
        statement_choose_ok lowered
      obtain ⟨start, finish, visits⟩ :=
        @inductionHypothesis (.branch _ _ _ _) _ branched rfl lowered
      exact ⟨start, finish, .next conditioned bodyLowered visits⟩
  | otherwise _ inductionHypothesis =>
      rintro (_ | _ | _) state after ⟨⟩ lowered
      rw [Site.lower] at lowered
      obtain ⟨between, _, lowered, _⟩ := inScope_ok (branch_otherwise_ok lowered).2
      obtain ⟨start, finish, visits⟩ := @inductionHypothesis (.body _) _ between rfl lowered
      exact ⟨start, finish, .otherwise visits⟩
  | elif _ inductionHypothesis =>
      rintro (_ | _ | _) state after ⟨⟩ lowered
      rw [Site.lower] at lowered
      obtain ⟨_, _, _, conditioned, _, bodyLowered, _⟩ := branch_elif_ok lowered
      obtain ⟨between, _, lowered, _⟩ := inScope_ok bodyLowered
      obtain ⟨start, finish, visits⟩ := @inductionHypothesis (.body _) _ between rfl lowered
      exact ⟨start, finish, .elif conditioned visits⟩
  | elifNext _ inductionHypothesis =>
      rintro (_ | _ | _) state after ⟨⟩ lowered
      rw [Site.lower] at lowered
      obtain ⟨_, _, _, conditioned, _, bodyLowered, lowered⟩ := branch_elif_ok lowered
      obtain ⟨start, finish, visits⟩ :=
        @inductionHypothesis (.branch _ _ _ _) _ after rfl lowered
      exact ⟨start, finish, .elifNext conditioned bodyLowered visits⟩

/-- The state behind the parameters of a function, in which its body is lowered. -/
def BodyStart (part : FunctionSection) (bound : LoweringState) : Prop :=
  bindParameters part.start.listing.scopes.size part.function.line part.function.params
    (part.start.begun part.function (declarationsIn part.body)) = .ok ((), bound)

/--
Lowering a program comes to a statement in the body of a function: the statement is lowered
from one state to another on the way through the body.
-/
def VisitedIn (program : Program) (listing : Listing) (name : String) (target : Stmt)
    (start finish : LoweringState) : Prop :=
  program.lower = .ok listing ∧ ∃ declared final parts, Row program listing declared final parts ∧
    ∃ part ∈ parts, part.name = name ∧
      ∃ bound, BodyStart part bound ∧ Visits target start finish (.body part.body) bound

/-- Lowering a program comes to every statement of every function. -/
theorem visitedIn_of_occurs
    {program : Program}
    {listing : Listing}
    (isLowered : program.lower = .ok listing)
    {line : Nat}
    {name : String}
    {params : List Param}
    {result : Ty}
    {bodyLine : Nat}
    {body : List Stmt}
    (member : .function line name params result bodyLine body ∈ program.statements)
    {target : Stmt}
    (occurs : Occurs target (.body body)) :
    ∃ start finish, VisitedIn program listing name target start finish := by
  obtain ⟨declared, final, parts, row⟩ := lower_row isLowered
  obtain ⟨part, isPart, rfl, rfl⟩ := row.section_of_function member
  obtain ⟨_, _, _, _, _, _, bodyLowered, _⟩ := row.laid.split isPart
  obtain ⟨bound, between, begins, lowered, _⟩ := functionBody_ok bodyLowered
  obtain ⟨start, finish, visits⟩ := @Occurs.visited _ _ occurs (.body _) bound between rfl lowered
  exact ⟨start, finish, isLowered, declared, final, parts, row, part, isPart, rfl, bound, begins, visits⟩

theorem proceeds_chooseBegun
    (state : LoweringState) :
    state.Proceeds (chooseBegun state) :=
  (proceeds_numbered state).trans (proceeds_labelled _ _)

theorem proceeds_loopBegun
    (state : LoweringState) :
    state.Proceeds (loopBegun state) :=
  ((proceeds_numbered state).trans (proceeds_appended _ rfl)).trans (proceeds_labelled _ _)

end IlsCompiler.Lower

namespace IlsCompiler

/-!
## Where returns lead

A return jumps to the end of the scope of its function, however many scopes lie in between. The
function is the one whose body is lowered, and if the return has a value this function gives one
back.
-/

namespace LoweringState

/-- The label at the end of the function that a state is in. -/
def functionEnd? (state : LoweringState) : Option String :=
  (Lower.enclosingFrame? .function state.frames).map Frame.endLabel

/-- One state is in the function that another one is in. -/
structure SameFunction (before after : LoweringState) : Prop where
  function : after.function = before.function
  functionEnd : after.functionEnd? = before.functionEnd?

namespace SameFunction

variable
    {before between after : LoweringState}

theorem refl
    (state : LoweringState) :
    state.SameFunction state :=
  ⟨rfl, rfl⟩

theorem trans
    (earlier : before.SameFunction between)
    (later : between.SameFunction after) :
    before.SameFunction after :=
  ⟨later.function.trans earlier.function, later.functionEnd.trans earlier.functionEnd⟩

theorem of_proceeds
    (proceeds : before.Proceeds after) :
    before.SameFunction after := by
  have bare : ∀ frames : List Frame,
      (Lower.enclosingFrame? .function (frames.map Frame.bare)).map Frame.endLabel =
        (Lower.enclosingFrame? .function frames).map Frame.endLabel := by
    intro frames
    induction frames with
    | nil => rfl
    | cons first rest inductionHypothesis =>
        simp only [List.map_cons, Lower.enclosingFrame?]
        split
        next isFunction =>
          have same : first.kind = .function := isFunction
          simp [same, Frame.bare]
        next notFunction =>
          have other : first.kind ≠ .function := notFunction
          simp [other, inductionHypothesis]
  refine ⟨proceeds.function, ?_⟩
  rw [functionEnd?, ← bare, proceeds.frames, bare]
  rfl

/-- A scope inside a function does not end it. -/
theorem entered
    (state : LoweringState)
    {kind : Scope.Kind}
    (inner : kind ≠ .function)
    (exitLabel : String) :
    state.SameFunction (state.entered kind exitLabel) := by
  refine ⟨rfl, ?_⟩
  show (Lower.enclosingFrame? .function (state.newFrame kind exitLabel :: state.frames)).map _ = _
  have other : (state.newFrame kind exitLabel).kind ≠ .function := inner
  rw [Lower.enclosingFrame?, if_neg other, if_neg other]
  rfl

end SameFunction

end LoweringState

namespace Lower

open LoweringState

variable
    {function : Signature}

/-- The body of a function is lowered in the function, whose end is that of the open scope. -/
theorem inFunction_of_begun
    {before bound : LoweringState}
    {locals : Nat}
    (binds : (before.begun function locals).Proceeds bound) :
    bound.function = some function ∧ bound.functionEnd? = some bound.innermost.endLabel := by
  have same := SameFunction.of_proceeds binds
  refine ⟨same.function, ?_⟩
  rw [same.functionEnd, binds.endLabel]
  rfl

variable
    {body : List Stmt}

section Arms

variable
    {before tested : LoweringState}

/-- A condition and the label behind it stay in the function. -/
theorem condition_sameFunction
    {test : Option Condition}
    {whenTrue whenFalse : String}
    (conditioned : condition test whenTrue whenFalse false before = .ok ((), tested)) :
    before.SameFunction (tested.labelled whenTrue) :=
  .of_proceeds ((condition_proceeds conditioned).trans (proceeds_labelled _ _))

/-- An arm of a choice and the jump behind it stay in the function. -/
theorem arm_sameFunction
    {kind : Scope.Kind}
    {chosen : LoweringState}
    (lowered : inScope kind "" (statements body) before = .ok ((), chosen))
    (endLabel : String)
    (next : Branch) :
    before.SameFunction (skipped chosen endLabel next) :=
  .of_proceeds ((inScope_proceeds statements_proceeds lowered).trans (composed_proceeds.skipped _ _ _))

end Arms

/-- Lowering a site does not leave the function before it comes to a statement in it. -/
theorem Visits.sameFunction
    {target : Stmt}
    {start finish state : LoweringState}
    {site : Site}
    (visits : Visits target start finish site state) :
    state.SameFunction start := by
  induction visits with
  | here => exact .refl _
  | first _ inductionHypothesis => exact inductionHypothesis
  | rest passed _ inductionHypothesis =>
      exact (SameFunction.of_proceeds (statement_proceeds passed)).trans inductionHypothesis
  | block _ inductionHypothesis =>
      exact (@SameFunction.entered _ .plain (by decide) _).trans inductionHypothesis
  | loop _ inductionHypothesis =>
      exact (SameFunction.of_proceeds (proceeds_loopBegun _)).trans
        ((@SameFunction.entered _ .loop (by decide) _).trans inductionHypothesis)
  | chosen conditioned _ inductionHypothesis =>
      exact (SameFunction.of_proceeds (proceeds_chooseBegun _)).trans
        ((condition_sameFunction conditioned).trans
          ((@SameFunction.entered _ .ifArm (by decide) _).trans inductionHypothesis))
  | next conditioned armLowered _ inductionHypothesis =>
      exact (SameFunction.of_proceeds (proceeds_chooseBegun _)).trans
        ((condition_sameFunction conditioned).trans
          ((arm_sameFunction armLowered _ _).trans inductionHypothesis))
  | otherwise _ inductionHypothesis =>
      exact (SameFunction.of_proceeds (proceeds_labelled _ _)).trans
        ((@SameFunction.entered _ .elseArm (by decide) _).trans inductionHypothesis)
  | elif conditioned _ inductionHypothesis =>
      exact (SameFunction.of_proceeds (proceeds_labelled _ _)).trans
        ((condition_sameFunction conditioned).trans
          ((@SameFunction.entered _ .elifArm (by decide) _).trans inductionHypothesis))
  | elifNext conditioned armLowered _ inductionHypothesis =>
      exact (SameFunction.of_proceeds (proceeds_labelled _ _)).trans
        ((condition_sameFunction conditioned).trans
          ((arm_sameFunction armLowered _ _).trans inductionHypothesis))

/-- A value that a function can give back is one that the function gives back. -/
theorem notVoid_of_assignable
    {given : Ty}
    {line : Nat}
    (isAssignable : assignable function.result given line = .ok ()) :
    function.isVoid = false := by
  unfold assignable at isAssignable
  split at isAssignable
  · cases isAssignable
  next valued =>
    rw [not_or] at valued
    split at isAssignable
    next suits =>
      unfold Signature.isVoid
      rcases suits with same | ⟨isNumber, _⟩
      · simp [same, valued]
      · cases result : function.result <;> simp_all [Ty.isArithmetic]
    next => cases isAssignable

/-- A return of a value loads it and jumps to the end of the function that it stands in. -/
theorem leave_value_ok
    {line : Nat}
    {expr : Expr}
    {start finish bound : LoweringState}
    {label : String}
    (visits : Visits (.leave line (some expr)) start finish (.body body) bound)
    (inFunction : bound.function = some function)
    (ends : bound.functionEnd? = some label)
    (lowered : statement (.leave line (some expr)) start = .ok ((), finish)) :
    ∃ id valued,
      expression expr start = .ok (some id, valued) ∧ function.isVoid = false ∧
        (∃ v, valued.listing.fixed? id = some v) ∧
        finish = (valued.appended (.leave id line)).appended (.jump label none) := by
  rw [statement] at lowered
  obtain ⟨other, around, id, valued, isOther, isAround, values, rfl⟩ := leave_ok lowered
  rcases values with ⟨none_, _⟩ | ⟨same, isSame, exprLowered, suits⟩
  · cases none_
  cases isSame
  have sameFunction := visits.sameFunction
  have isFunction := sameFunction.function
  rw [isOther, inFunction, Option.some.injEq] at isFunction
  subst isFunction
  have isLabel := sameFunction.functionEnd
  rw [functionEnd?, isAround, ends, Option.map_some, Option.some.injEq] at isLabel
  refine ⟨id, valued, exprLowered, notVoid_of_assignable suits, ?_, by rw [isLabel]⟩
  cases found : valued.listing.fixed? id with
  | some v => exact ⟨v, rfl⟩
  | none => simp [typeIn, found, assignable] at suits

end Lower

end IlsCompiler
