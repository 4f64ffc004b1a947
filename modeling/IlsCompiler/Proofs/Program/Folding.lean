import Mathlib.Algebra.Group.Int.Defs
import Mathlib.Algebra.Group.Nat.Defs
import IlsCompiler.Proofs.Program.Words

namespace IlsCompiler

/-!
# Constant arithmetic is exact

Whole numbers and operators have an exact value, unless a divisor among them is zero. Constant
arithmetic finds that value when the value of every operation fits in 32 bits, and otherwise
tells what is wrong with the first operation at which this fails. Both sides of an operation
that is carried out fit in 32 bits, so its result is never too wide for a word of 64 bits.
-/

/-- The exact result of an operator; division truncates toward zero. -/
def ArithOp.exact? : ArithOp → Int → Int → Option Int
  | .add, left, right => some (left + right)
  | .sub, left, right => some (left - right)
  | .mul, left, right => some (left * right)
  | .div, left, right => if right = 0 then none else some (left.tdiv right)
  | .mod, left, right => if right = 0 then none else some (left.tmod right)
  | .unknown, _, _ => none

/-- The numbers of 32 bits. -/
theorem Text.fits_word_iff
    {value : Int} :
    Text.fits 32 value ↔ -2 ^ 31 ≤ value ∧ value ≤ 2 ^ 31 - 1 := by
  simp only [Text.fits, Bool.and_eq_true, decide_eq_true_eq, Nat.pow_eq]
  omega

variable
    {op : ArithOp}

namespace ArithOp

/-- Every operator but the missing one has a result when it does not divide by zero. -/
theorem hasNoResult_iff
    (known : op ≠ .unknown)
    {left right : Int} :
    op.exact? left right = none ↔ (op = .div ∨ op = .mod) ∧ right = 0 := by
  cases op with
  | unknown => exact absurd rfl known
  | add => simp [ ArithOp.exact?]
  | sub => simp [ ArithOp.exact?]
  | mul => simp [ ArithOp.exact?]
  | div => simp [ ArithOp.exact?]
  | mod => simp [ ArithOp.exact?]

/-- What an operator gives for numbers of 32 bits has a magnitude of at most 2^62. -/
theorem result_bounded
    {left right value : Int}
    (leftFits : Text.fits 32 left)
    (rightFits : Text.fits 32 right)
    (exact : op.exact? left right = some value) :
    -2 ^ 62 ≤ value ∧ value ≤ 2 ^ 62 := by
  rw [Text.fits_word_iff] at leftFits rightFits
  have leftBound : left.natAbs ≤ 2 ^ 31 := by omega
  have rightBound : right.natAbs ≤ 2 ^ 31 := by omega
  cases op with
  | unknown => cases exact
  | add =>
      cases exact
      omega
  | sub =>
      cases exact
      omega
  | mul =>
      cases exact
      have product : (left * right).natAbs ≤ 2 ^ 31 * 2 ^ 31 := by
        rw [Int.natAbs_mul]
        exact Nat.mul_le_mul leftBound rightBound
      omega
  | div =>
      obtain ⟨-, rfl⟩ : right ≠ 0 ∧ left.tdiv right = value := by
        simpa [ ArithOp.exact?] using exact
      have quotient : (left.tdiv right).natAbs ≤ left.natAbs := by
        rw [Int.natAbs_tdiv]
        exact Nat.div_le_self _ _
      omega
  | mod =>
      obtain ⟨-, rfl⟩ : right ≠ 0 ∧ left.tmod right = value := by
        simpa [ ArithOp.exact?] using exact
      have remainder : (left.tmod right).natAbs ≤ left.natAbs := by
        rw [Int.natAbs_tmod]
        exact Nat.mod_le _ _
      omega

end ArithOp

namespace Expr

/-- A number whose magnitude is at most 2^62 is not changed by wrapping around. -/
theorem wrap64_of_bounded
    {value : Int}
    (bounded : -2 ^ 62 ≤ value ∧ value ≤ 2 ^ 62) :
    Text.wrap64 value = value := by
  rw [Text.wrap64, Nat.pow_eq]
  exact Int.bmod_eq_of_le (by omega) (by omega)

/-- On numbers of 32 bits an operator is carried out exactly, or its divisor is zero. -/
theorem applyOp_exact
    (known : op ≠ .unknown)
    {left right : Int}
    (leftFits : Text.fits 32 left)
    (rightFits : Text.fits 32 right) :
    applyOp op left right =
      match op.exact? left right with
      | some value => .ok value
      | none => .error .divisionByZero := by
  have exact : ∀ {value : Int}, op.exact? left right = some value → Text.wrap64 value = value :=
    fun isValue => wrap64_of_bounded (ArithOp.result_bounded leftFits rightFits isValue)
  cases op with
  | unknown => exact absurd rfl known
  | add => exact congrArg Except.ok (exact rfl)
  | sub => exact congrArg Except.ok (exact rfl)
  | mul => exact congrArg Except.ok (exact rfl)
  | div =>
      by_cases zero : right = 0
      · simp [applyOp, ArithOp.exact?, zero]
      · have result : ArithOp.div.exact? left right = some (left.tdiv right) := by
          simp [ ArithOp.exact?, zero]
        simp [applyOp, zero, result, exact result]
  | mod =>
      by_cases zero : right = 0
      · simp [applyOp, ArithOp.exact?, zero]
      · have result : ArithOp.mod.exact? left right = some (left.tmod right) := by
          simp [ ArithOp.exact?, zero]
        simp [applyOp, zero, result, exact result]

/-- An expression of whole numbers of 32 bits and the five operators, however deep. -/
inductive IsFoldable : Expr → Prop
  | literal {line : Nat} {text : String} {value : Int} :
      Text.integer? 32 text = some value → IsFoldable (.literal line (.scalar .int text))
  | binary {line : Nat} {op : ArithOp} {left right : Expr} :
      op ≠ .unknown → IsFoldable left → IsFoldable right →
        IsFoldable (.binary line op left right)

/-- The exact value of whole numbers and operators; there is none behind a zero divisor. -/
def exactValue? : Expr → Option Int
  | .literal _ (.scalar .int text) => Text.readSigned? text.toList
  | .binary _ op left right => do
      let leftValue ← left.exactValue?
      let rightValue ← right.exactValue?
      op.exact? leftValue rightValue
  | _ => none

end Expr

/-- An operator of an expression with its operands. -/
structure Operation where
  line : Nat
  op : ArithOp
  left : Expr
  right : Expr

namespace Operation

/-- The exact value of an operation. -/
def value? (operation : Operation) : Option Int := do
  let left ← operation.left.exactValue?
  let right ← operation.right.exactValue?
  operation.op.exact? left right

/-- Whether an operation has an exact value that fits in 32 bits. -/
def isSmall (operation : Operation) : Bool :=
  operation.value?.any (Text.fits 32)

/-- What is wrong with an operation in itself: its divisor is zero, or its value is too wide. -/
inductive Offends (operation : Operation) : ConstantFault → Prop
  | zero {dividend : Int} :
      operation.op = .div ∨ operation.op = .mod →
        operation.left.exactValue? = some dividend → operation.right.exactValue? = some 0 →
        Offends operation .divisionByZero
  | wide {value : Int} :
      operation.value? = some value → value < -2 ^ 31 ∨ 2 ^ 31 - 1 < value →
        Offends operation (.overflow value)

theorem isSmall_iff
    {operation : Operation} :
    operation.isSmall ↔
      ∃ value, operation.value? = some value ∧ -2 ^ 31 ≤ value ∧ value ≤ 2 ^ 31 - 1 := by
  unfold isSmall
  cases operation.value? with
  | none => simp
  | some value => simp [Text.fits_word_iff]

end Operation

namespace Expr

/-- The operations of an expression from left to right, operands in front of operators. -/
def operations : Expr → List Operation
  | .binary line op left right =>
      left.operations ++ right.operations ++ [⟨line, op, left, right⟩]
  | _ => []

/-- The first operation of an expression without an exact value of 32 bits. -/
def offending? (expr : Expr) : Option Operation :=
  expr.operations.find? fun operation => !operation.isSmall

namespace IsFoldable

variable
    {expr : Expr}

theorem isConstant
    (foldable : expr.IsFoldable) :
    expr.isConstant := by
  induction foldable with
  | literal read => rfl
  | binary known _ _ leftConstant rightConstant => simp [Expr.isConstant, *]

/-- The operands of an operation in a foldable expression are foldable. -/
theorem operands
    (foldable : expr.IsFoldable)
    {operation : Operation}
    (member : operation ∈ expr.operations) :
    operation.op ≠ .unknown ∧ operation.left.IsFoldable ∧ operation.right.IsFoldable := by
  induction foldable with
  | literal => cases member
  | binary known leftFoldable rightFoldable leftHypothesis rightHypothesis =>
      rw [operations, List.mem_append, List.mem_append, List.mem_singleton] at member
      rcases member with (inLeft | inRight) | rfl
      · exact leftHypothesis inLeft
      · exact rightHypothesis inRight
      · exact ⟨known, leftFoldable, rightFoldable⟩

end IsFoldable

/-- What constant arithmetic makes of an expression, by its operations. -/
inductive Folds (expr : Expr) : Prop
  | found {value : Int} :
      expr.constantValue = .ok value → expr.exactValue? = some value → Text.fits 32 value →
        expr.offending? = none → Folds expr
  | stopped {operation : Operation} {fault : ConstantFault} :
      expr.constantValue = .error (fault, operation.line) →
        expr.offending? = some operation → operation.Offends fault → Folds expr

/-- An operation on numbers of 32 bits has a value of 32 bits or offends with what it tells. -/
theorem checkedOp_settles
    {operation : Operation}
    (known : operation.op ≠ .unknown)
    {left right : Int}
    (isLeft : operation.left.exactValue? = some left)
    (isRight : operation.right.exactValue? = some right)
    (leftFits : Text.fits 32 left)
    (rightFits : Text.fits 32 right) :
    (∃ value, checkedOp operation.op left right = .ok value ∧
        operation.value? = some value ∧ Text.fits 32 value) ∨
      ∃ fault, checkedOp operation.op left right = .error fault ∧ operation.Offends fault ∧
        operation.isSmall = false := by
  have value : operation.value? = operation.op.exact? left right := by
    simp [Operation.value?, isLeft, isRight]
  unfold checkedOp Operation.isSmall
  rw [applyOp_exact known leftFits rightFits, value]
  cases exact : operation.op.exact? left right with
  | none =>
      obtain ⟨divides, rfl⟩ := (ArithOp.hasNoResult_iff known).mp exact
      exact .inr ⟨_, rfl, .zero divides isLeft isRight, rfl⟩
  | some number =>
      by_cases small : Text.fits 32 number
      · exact .inl ⟨number, by simp [small], rfl, small⟩
      · refine .inr ⟨.overflow number, by simp [small], .wide (value.trans exact) ?_, ?_⟩
        · rw [Text.fits_word_iff] at small
          omega
        · simpa using small

/-- Constant arithmetic stops at the first operation that offends, or finds the exact value. -/
theorem IsFoldable.folds
    {expr : Expr}
    (foldable : expr.IsFoldable) :
    expr.Folds := by
  induction foldable with
  | @literal line text value read =>
      have fits := fits_of_integer? read
      have signed : Text.readSigned? text.toList = some value := by
        unfold Text.integer? at read
        split at read
        · split at read <;> simp_all
        · cases read
      have wide : Text.integer? 64 text = some value := by
        simp [Text.integer?, signed, fits_of_small fits]
      exact .found (by simp [constantValue, literalValue, wide]) signed fits rfl
  | @binary line op left right known _ _ leftFolds rightFolds =>
      -- The operations of the left side come first, then those of the right side, then the last.
      have order : (Expr.binary line op left right).offending? =
          left.offending?.or (right.offending?.or
            (if (⟨line, op, left, right⟩ : Operation).isSmall then none
              else some ⟨line, op, left, right⟩)) := by
        simp only [offending?, operations, List.find?_append, List.find?_singleton,
          Option.or_assoc]
        cases (⟨line, op, left, right⟩ : Operation).isSmall <;> rfl
      cases leftFolds with
      | stopped failed first offends =>
          exact .stopped (by simp [constantValue, failed]) (by simp [order, first]) offends
      | @found leftValue leftFound leftExact leftFits leftSmall =>
          cases rightFolds with
          | stopped failed first offends =>
              exact .stopped (by simp [constantValue, leftFound, failed])
                (by simp [order, leftSmall, first]) offends
          | @found rightValue rightFound rightExact rightFits rightSmall =>
              have settled := @checkedOp_settles ⟨line, op, left, right⟩ known _ _
                leftExact rightExact leftFits rightFits
              rcases settled with ⟨value, applied, exact, fits⟩ | ⟨fault, failed, offends, wide⟩
              · have small : (⟨line, op, left, right⟩ : Operation).isSmall := by
                  simp [Operation.isSmall, exact, fits]
                exact .found (by simp [constantValue, leftFound, rightFound, applied]) exact fits
                  (by simp [order, leftSmall, rightSmall, small])
              · exact .stopped (by simp [constantValue, leftFound, rightFound, failed])
                  (by simp [order, leftSmall, rightSmall, wide]) offends

/-- What constant arithmetic finds fits in 32 bits. -/
theorem IsFoldable.fits
    {expr : Expr}
    (foldable : expr.IsFoldable)
    {value : Int}
    (evaluated : expr.evaluate = .ok value) :
    Text.fits 32 value := by
  cases foldable.folds with
  | stopped failed => simp [evaluate, failed] at evaluated
  | found found _ fits =>
      simp only [evaluate, found, Except.ok.injEq] at evaluated
      exact evaluated ▸ fits

/--
Constant arithmetic is exact. An expression of whole numbers of 32 bits and the five operators is
constant. It is given a value exactly if each of its operations has an exact value that fits in 32
bits, and that is its exact value. Otherwise it is refused with what is wrong with the first
operation at which this fails, for the line of that operation. Wherever both sides of an operation
have a value, the result of its operator fits in 64 bits and is what is found for them.
-/
theorem constant_arithmetic_exact
    {expr : Expr}
    (foldable : expr.IsFoldable) :
    expr.isConstant ∧
      (∀ value, expr.evaluate = .ok value ↔
        (∀ operation ∈ expr.operations, ∃ exact, operation.value? = some exact ∧
          -2 ^ 31 ≤ exact ∧ exact ≤ 2 ^ 31 - 1) ∧ expr.exactValue? = some value) ∧
      (∀ front operation back,
        expr.operations = front ++ operation :: back →
          (∀ earlier ∈ front, earlier.isSmall) → operation.isSmall = false →
          ∃ fault, operation.Offends fault ∧
            expr.evaluate = .error (fault.failure operation.line)) ∧
      ∀ operation ∈ expr.operations, ∀ left right,
        operation.left.evaluate = .ok left → operation.right.evaluate = .ok right →
          ∀ exact, operation.op.exact? left right = some exact →
            Text.fits 64 exact ∧ applyOp operation.op left right = .ok exact := by
  refine ⟨foldable.isConstant, ?_, ?_, ?_⟩
  · intro value
    simp only [← Operation.isSmall_iff]
    cases foldable.folds with
    | found found exact fits small =>
        have all : ∀ operation ∈ expr.operations, operation.isSmall := by
          simpa [offending?] using small
        simpa [evaluate, found, exact] using fun _ => all
    | @stopped operation fault failed first offends =>
        have member := List.mem_of_find?_eq_some first
        have wide := List.find?_some first
        have notAll : ¬∀ operation ∈ expr.operations, operation.isSmall := by
          intro all
          simp [all operation member] at wide
        simp [evaluate, failed, notAll]
  · intro front operation back split earlierSmall wide
    have isFirst : expr.offending? = some operation := by
      rw [offending?, split, List.find?_append, List.find?_eq_none.mpr (by simpa using earlierSmall)]
      simp [wide]
    cases foldable.folds with
    | found _ _ _ small => simp [isFirst] at small
    | stopped failed first offends =>
        rw [isFirst, Option.some.injEq] at first
        subst first
        exact ⟨_, offends, by simp [evaluate, failed]⟩
  · intro operation member left right isLeft isRight exact isExact
    obtain ⟨known, leftFoldable, rightFoldable⟩ := foldable.operands member
    have leftFits := leftFoldable.fits isLeft
    have rightFits := rightFoldable.fits isRight
    have bounded := ArithOp.result_bounded leftFits rightFits isExact
    refine ⟨?_, by rw [applyOp_exact known leftFits rightFits, isExact]⟩
    simp only [Text.fits, Bool.and_eq_true, decide_eq_true_eq, Nat.pow_eq]
    omega

/-- The least number of 32 bits, written as a difference, divided by minus one. -/
def widestQuotient : Expr :=
  .binary 1 .div
    (.binary 1 .sub (.literal 1 (.scalar .int "-2147483647")) (.literal 1 (.scalar .int "1")))
    (.literal 2 (.scalar .int "-1"))

theorem widestQuotient_refused :
    widestQuotient.IsFoldable ∧ widestQuotient.isConstant ∧
      widestQuotient.evaluate = .error ((ConstantFault.overflow 2147483648).failure 1) ∧
      applyOp .div (-2147483648) (-1) = .ok 2147483648 := by
  have foldable : widestQuotient.IsFoldable :=
    .binary nofun (.binary nofun (@IsFoldable.literal _ _ (-2147483647) (by decide))
      (@IsFoldable.literal _ _ 1 (by decide))) (@IsFoldable.literal _ _ (-1) (by decide))
  obtain ⟨constant, _, refused, exact⟩ := constant_arithmetic_exact foldable
  obtain ⟨difference, quotient, same⟩ :
      ∃ difference quotient, widestQuotient.operations = [difference, quotient] :=
    ⟨_, _, rfl⟩
  cases same
  refine ⟨foldable, constant, ?_, ?_⟩
  · obtain ⟨fault, offends, failed⟩ := refused [_] _ [] rfl (by decide) (by decide)
    cases offends with
    | zero _ _ isZero => exact absurd isZero (by decide)
    | wide isValue _ =>
        cases isValue
        exact failed
  · exact (exact _ (List.mem_cons_of_mem _ (List.mem_singleton_self _)) _ _ rfl rfl _ rfl).2

end Expr

end IlsCompiler
