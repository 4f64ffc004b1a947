import IlsCompiler.Program.Constant

namespace IlsCompiler

/-!
# Expressions as words

The value of an arithmetic expression in words of 64 bits: sums, differences and products
wrap around, division truncates toward zero. Constant arithmetic, which is done before the
program runs, gives the same words.
-/

/-- The result of an operator on words. -/
def ArithOp.word (op : ArithOp) (left right : BitVec 64) : BitVec 64 :=
  match op with
  | .add => left + right
  | .sub => left - right
  | .mul => left * right
  | .div => left.sdiv right
  | .mod => left.srem right
  | .unknown => .ofNat 64 0

namespace Expr

/-- Whether an expression is built with operators from names and whole numbers. -/
def isArithmetic : Expr → Bool
  | .name _ _ => true
  | .literal _ (.scalar .int text) => (Text.integer? 64 text).isSome
  | .binary _ _ left right => left.isArithmetic && right.isArithmetic
  | _ => false

/-- The word that an arithmetic expression stands for where its names stand for words. -/
def word (read : String → BitVec 64) : Expr → BitVec 64
  | .name _ known => read known
  | .literal _ value => .ofInt 64 ((literalValue value).toOption.getD 0)
  | .binary _ op left right => op.word (left.word read) (right.word read)
  | _ => .ofNat 64 0

/-- Wrapping a number around does not change its word. -/
theorem ofInt_wrap64
    (value : Int) :
    BitVec.ofInt 64 (Text.wrap64 value) = BitVec.ofInt 64 value := by
  apply BitVec.eq_of_toInt_eq
  rw [BitVec.toInt_ofInt, BitVec.toInt_ofInt]
  exact Int.bmod_bmod

/-- A number that fits in a word is the value of its word. -/
theorem toInt_ofInt_of_fits
    {value : Int}
    (inRange : Text.fits 64 value) :
    (BitVec.ofInt 64 value).toInt = value := by
  simp only [Text.fits, Bool.and_eq_true, decide_eq_true_eq] at inRange
  exact BitVec.toInt_ofInt_eq_self (by decide) inRange.1 inRange.2

theorem fits_of_integer?
    {bits : Nat}
    {text : String}
    {value : Int}
    (read : Text.integer? bits text = some value) :
    Text.fits bits value := by
  unfold Text.integer? at read
  split at read
  · split at read
    next inRange =>
      cases read
      exact inRange
    · cases read
  · cases read

/-- A number that fits in 32 bits fits in 64. -/
theorem fits_of_small
    {value : Int}
    (inRange : Text.fits 32 value) :
    Text.fits 64 value := by
  simp only [Text.fits, Bool.and_eq_true, decide_eq_true_eq, Nat.pow_eq] at inRange ⊢
  omega

/-- Constant operators do on numbers what they do on words. -/
theorem word_of_applyOp
    {op : ArithOp}
    {left right value : Int}
    (leftFits : Text.fits 64 left)
    (rightFits : Text.fits 64 right)
    (applied : applyOp op left right = .ok value) :
    BitVec.ofInt 64 value = op.word (.ofInt 64 left) (.ofInt 64 right) := by
  cases op with
  | add =>
      cases applied
      rw [ofInt_wrap64, ArithOp.word, BitVec.ofInt_add]
  | sub =>
      cases applied
      rw [ofInt_wrap64, ArithOp.word]
      apply BitVec.eq_of_toInt_eq
      rw [BitVec.toInt_sub, BitVec.toInt_ofInt, toInt_ofInt_of_fits leftFits,
        toInt_ofInt_of_fits rightFits]
  | mul =>
      cases applied
      rw [ofInt_wrap64, ArithOp.word, BitVec.ofInt_mul]
  | div =>
      simp only [applyOp] at applied
      split at applied
      · cases applied
      · cases applied
        rw [ofInt_wrap64, ArithOp.word]
        apply BitVec.eq_of_toInt_eq
        rw [BitVec.toInt_sdiv, BitVec.toInt_ofInt, toInt_ofInt_of_fits leftFits,
          toInt_ofInt_of_fits rightFits]
  | mod =>
      simp only [applyOp] at applied
      split at applied
      · cases applied
      · cases applied
        rw [ofInt_wrap64, ArithOp.word]
        have remainder := BitVec.toInt_srem (BitVec.ofInt 64 left) (BitVec.ofInt 64 right)
        rw [toInt_ofInt_of_fits leftFits, toInt_ofInt_of_fits rightFits] at remainder
        rw [← remainder, BitVec.ofInt_toInt]
  | unknown => cases applied

/-- The value of a constant expression is its word, whatever names stand for. -/
theorem word_of_constantValue
    (read : String → BitVec 64)
    {expr : Expr}
    {value : Int}
    (evaluated : expr.constantValue = .ok value) :
    Text.fits 64 value ∧ expr.word read = .ofInt 64 value := by
  induction expr using Expr.inductionOn generalizing value with
  | literal line literal =>
      rw [constantValue] at evaluated
      cases known : literalValue literal with
      | error fault => simp [known] at evaluated
      | ok number =>
          simp only [known, Except.ok.injEq] at evaluated
          subst evaluated
          refine ⟨?_, by simp [word, known, Except.toOption]⟩
          unfold literalValue at known
          split at known
          · split at known
            next readNumber =>
              cases known
              exact fits_of_integer? readNumber
            · cases known
          · cases known
  | binary line op left right leftHypothesis rightHypothesis =>
      rw [constantValue] at evaluated
      cases leftKnown : left.constantValue with
      | error fault => simp [leftKnown] at evaluated
      | ok leftValue =>
          cases rightKnown : right.constantValue with
          | error fault => simp [leftKnown, rightKnown] at evaluated
          | ok rightValue =>
              obtain ⟨leftFits, leftWord⟩ := leftHypothesis leftKnown
              obtain ⟨rightFits, rightWord⟩ := rightHypothesis rightKnown
              simp only [leftKnown, rightKnown, checkedOp] at evaluated
              cases applied : applyOp op leftValue rightValue with
              | error fault => simp [applied] at evaluated
              | ok result =>
                  simp only [applied] at evaluated
                  by_cases small : Text.fits 32 result
                  · simp only [small, ↓reduceIte, Except.ok.injEq] at evaluated
                    subst evaluated
                    refine ⟨fits_of_small small, ?_⟩
                    rw [word, leftWord, rightWord, word_of_applyOp leftFits rightFits applied]
                  · simp [small] at evaluated
  | missing => cases evaluated
  | name => cases evaluated
  | element => cases evaluated
  | array => cases evaluated
  | call => cases evaluated

theorem word_of_evaluate
    (read : String → BitVec 64)
    {expr : Expr}
    {value : Int}
    (evaluated : expr.evaluate = .ok value) :
    Text.fits 64 value ∧ expr.word read = .ofInt 64 value := by
  unfold evaluate at evaluated
  split at evaluated
  next known =>
    cases evaluated
    exact word_of_constantValue read known
  · cases evaluated

end Expr

end IlsCompiler
