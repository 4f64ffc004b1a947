import IlsCompiler.Proofs.Lowering.StatementSteps

namespace IlsCompiler

/-!
# What a chain of terms decides

A condition becomes comparisons and jumps, and every term leaves the chain on its
own: it looks only at the join right behind it. This module follows the nodes of a
condition for arbitrary outcomes of its comparisons. The chain is decided as if its
joins were grouped from the right; the grouping from the left gives the same answer
for all outcomes exactly when the chain does not mix its joins.
-/

namespace CmpOp

/-- Whether a pair of compared values is as an operator asks. -/
def holds : CmpOp → Int × Int → Bool
  | .equal, pair => decide (pair.1 = pair.2)
  | .notEqual, pair => decide (pair.1 ≠ pair.2)
  | .less, pair => decide (pair.1 < pair.2)
  | .lessEqual, pair => decide (pair.1 ≤ pair.2)
  | .greater, pair => decide (pair.2 < pair.1)
  | .greaterEqual, pair => decide (pair.2 ≤ pair.1)

/-- The negation of an operator holds exactly when the operator fails. -/
@[simp] theorem holds_negate
    (op : CmpOp)
    (pair : Int × Int) :
    op.negate.holds pair = !op.holds pair := by
  rw [Bool.eq_iff_iff]
  cases op <;> simp [negate, holds]

/-- Every operator holds of some pair and fails of some other. -/
theorem exists_holds
    (op : CmpOp)
    (truth : Bool) :
    ∃ pair, op.holds pair = truth := by
  cases op <;> cases truth
  case equal.false => exact ⟨(0, 1), rfl⟩
  case equal.true => exact ⟨(0, 0), rfl⟩
  case notEqual.false => exact ⟨(0, 0), rfl⟩
  case notEqual.true => exact ⟨(0, 1), rfl⟩
  case less.false => exact ⟨(0, 0), rfl⟩
  case less.true => exact ⟨(0, 1), rfl⟩
  case lessEqual.false => exact ⟨(1, 0), rfl⟩
  case lessEqual.true => exact ⟨(0, 0), rfl⟩
  case greater.false => exact ⟨(0, 0), rfl⟩
  case greater.true => exact ⟨(1, 0), rfl⟩
  case greaterEqual.false => exact ⟨(0, 1), rfl⟩
  case greaterEqual.true => exact ⟨(0, 0), rfl⟩

end CmpOp

variable
    {joins : List Logic}

namespace Logic

/-- The meaning of a join. -/
def apply : Logic → Bool → Bool → Bool
  | .both, left, right => left && right
  | .either, left, right => left || right

/-- Terms grouped from the left: each join takes everything in front of it as one side. -/
def groupLeft (first : Bool) : List Logic → List Bool → Bool
  | join :: joins, next :: rest => groupLeft (join.apply first next) joins rest
  | _, _ => first

/-- Terms grouped from the right: each join takes everything behind it as one side. -/
def groupRight (first : Bool) : List Logic → List Bool → Bool
  | join :: joins, next :: rest => join.apply first (groupRight next joins rest)
  | _, _ => first

/-- Whether the joins of a chain are all the same. -/
def Uniform (joins : List Logic) : Prop :=
  ∀ first ∈ joins, ∀ second ∈ joins, first = second

/-- A chain of one kind of join means the same grouped from either side. -/
theorem groupLeft_replicate
    (join : Logic)
    (first : Bool)
    (count : Nat)
    (rest : List Bool) :
    groupLeft first (.replicate count join) rest =
      groupRight first (.replicate count join) rest := by
  induction count generalizing first rest with
  | zero => rfl
  | succ count inductionHypothesis =>
      cases rest with
      | nil => rfl
      | cons next rest =>
          simp only [List.replicate_succ, groupLeft, groupRight]
          rw [inductionHypothesis]
          cases count with
          | zero => rfl
          | succ count =>
              cases rest with
              | nil => rfl
              | cons after rest =>
                  simp only [List.replicate_succ, groupRight]
                  cases join <;> cases first <;> rfl

/-- Grouped from the left, a chain whose later terms agree never leaves their value. -/
theorem groupLeft_settled
    (truth : Bool)
    (joins : List Logic) :
    groupLeft truth joins (.replicate joins.length truth) = truth := by
  induction joins with
  | nil => rfl
  | cons join joins inductionHypothesis =>
      simp only [List.length_cons, List.replicate_succ, groupLeft]
      have same : join.apply truth truth = truth := by
        cases join <;> cases truth <;> rfl
      rw [same, inductionHypothesis]

/-- The value of a first term that a join behind it cannot change. -/
def absorbing : Logic → Bool
  | .both => false
  | .either => true

/--
Grouped from the left, a first term that a join cannot change is still changed by any
later join of the other kind.
-/
theorem groupLeft_changed
    {join : Logic}
    (mixed : ∃ other ∈ joins, other ≠ join) :
    groupLeft join.absorbing joins (.replicate joins.length (!join.absorbing)) =
      !join.absorbing := by
  induction joins with
  | nil => simp at mixed
  | cons first rest inductionHypothesis =>
      simp only [List.length_cons, List.replicate_succ, groupLeft]
      by_cases same : first = join
      · subst same
        have kept : first.apply first.absorbing (!first.absorbing) = first.absorbing := by
          cases first <;> rfl
        rw [kept]
        apply inductionHypothesis
        obtain ⟨other, member, differs⟩ := mixed
        rcases List.mem_cons.mp member with isFirst | inRest
        · exact (differs isFirst).elim
        · exact ⟨other, inRest, differs⟩
      · have changed : first.apply join.absorbing (!join.absorbing) = !join.absorbing := by
          cases first <;> cases join <;> simp_all [apply, absorbing]
        rw [changed, groupLeft_settled]

/-- The two groupings agree on all terms exactly when the joins are all the same. -/
theorem groupings_agree_iff
    (joins : List Logic) :
    (∀ first rest, rest.length = joins.length →
      groupLeft first joins rest = groupRight first joins rest) ↔ Uniform joins := by
  constructor
  · intro agree
    cases joins with
    | nil => simp [Uniform]
    | cons join joins =>
        have onlyOne : ∀ other ∈ join :: joins, other = join := by
          intro other member
          apply Classical.byContradiction
          intro differs
          have left := groupLeft_changed ⟨other, member, differs⟩
          have right : groupRight join.absorbing (join :: joins)
              (.replicate (join :: joins).length (!join.absorbing)) = join.absorbing := by
            cases join <;> simp [List.replicate_succ, groupRight, apply, absorbing]
          rw [agree _ _ (by simp), right] at left
          cases join <;> cases left
        intro one oneMember two twoMember
        rw [onlyOne one oneMember, onlyOne two twoMember]
  · intro uniform first rest _
    cases joins with
    | nil => rfl
    | cons join joins =>
        have repeated : join :: joins = .replicate (joins.length + 1) join := by
          refine List.eq_replicate_iff.mpr ⟨rfl, ?_⟩
          intro other member
          exact uniform other member join (by simp)
        rw [repeated, groupLeft_replicate]

end Logic

namespace Node

/--
Where a sequence of nodes leads: to the label of the first jump that is taken, or past
the last node. The comparisons find the given pairs in turn, and a jump tests the last
pair that was found.
-/
def follow : List Node → List (Int × Int) → Int × Int → Option String
  | [], _, _ => none
  | .compare _ _ _ :: rest, [], last => follow rest [] last
  | .compare _ _ _ :: rest, found :: pairs, _ => follow rest pairs found
  | .jump target none :: _, _, _ => some target
  | .jump target (some test) :: rest, pairs, last =>
      if test.holds last then some target else follow rest pairs last
  | _ :: rest, pairs, last => follow rest pairs last

/-- Nodes that only compute are passed. -/
theorem follow_straight
    {front : List Node}
    (straight : ∀ node ∈ front, node.isStraight)
    (rest : List Node)
    (pairs : List (Int × Int))
    (last : Int × Int) :
    follow (front ++ rest) pairs last = follow rest pairs last := by
  induction front with
  | nil => rfl
  | cons node front inductionHypothesis =>
      have passed := inductionHypothesis fun other member => straight other (by simp [member])
      have computes := straight node (by simp)
      cases node with
      | declare | arith | call | destroy => exact passed
      | _ => cases computes

end Node

namespace Comparison

/-- Whether a term holds of the pair that its sides are found to be. -/
def truth (term : Comparison) (found : Int × Int) : Bool :=
  (term.test?.map fun test => test.holds found).getD false

end Comparison

namespace Condition

/-- The truth of each term, from the pairs that the sides are found to be. -/
def truths (terms : List Comparison) (pairs : List (Int × Int)) : List Bool :=
  List.zipWith Comparison.truth terms pairs

/-- The chain grouped from the left, as `((t₁ j₁ t₂) j₂ t₃) …`. -/
def leftToRight (chain : Condition) (pairs : List (Int × Int)) : Bool :=
  match truths chain.terms pairs with
  | [] => true
  | first :: rest => Logic.groupLeft first chain.joins rest

/-- The chain grouped from the right, as `t₁ j₁ (t₂ j₂ (t₃ …))`. -/
def rightToLeft (chain : Condition) (pairs : List (Int × Int)) : Bool :=
  match truths chain.terms pairs with
  | [] => true
  | first :: rest => Logic.groupRight first chain.joins rest

end Condition

/--
A sequence of nodes acts on a verdict: it leads to the first label when the verdict is
true, and otherwise to the second one or, where that follows, past the sequence.
-/
def Node.Decides (nodes : List Node) (whenTrue whenFalse : String) (falseFollows : Bool)
    (pairs : List (Int × Int)) (last : Int × Int) (verdict : Bool) : Prop :=
  if verdict then
    follow nodes pairs last = some whenTrue
  else
    follow nodes pairs last = some whenFalse ∨
      (falseFollows ∧ follow nodes pairs last = none)

/-- A sequence acts on one verdict only, when its labels differ. -/
theorem Node.Decides.unique
    {nodes : List Node}
    {whenTrue whenFalse : String}
    {falseFollows : Bool}
    {pairs : List (Int × Int)}
    {last : Int × Int}
    {first second : Bool}
    (distinct : whenTrue ≠ whenFalse)
    (actsOnFirst : Decides nodes whenTrue whenFalse falseFollows pairs last first)
    (actsOnSecond : Decides nodes whenTrue whenFalse falseFollows pairs last second) :
    first = second := by
  unfold Decides at actsOnFirst actsOnSecond
  cases first <;> cases second
  case false.false => rfl
  case true.true => rfl
  case false.true =>
    simp only [↓reduceIte] at actsOnSecond
    simp [actsOnSecond, distinct] at actsOnFirst
  case true.false =>
    simp only [↓reduceIte] at actsOnFirst
    simp [actsOnFirst, distinct] at actsOnSecond

variable
    {terms : List Comparison}

/-- Terms that have operators can be found true and false in every combination. -/
theorem Condition.exists_truths
    (tested : ∀ term ∈ terms, term.test?.isSome)
    (wanted : List Bool)
    (given : wanted.length = terms.length) :
    ∃ pairs, pairs.length = terms.length ∧ truths terms pairs = wanted := by
  induction terms generalizing wanted with
  | nil =>
      cases List.eq_nil_of_length_eq_zero given
      exact ⟨[], rfl, rfl⟩
  | cons term rest inductionHypothesis =>
      cases wanted with
      | nil => simp at given
      | cons truth wanted =>
          obtain ⟨pairs, sameLength, sameTruths⟩ :=
            inductionHypothesis (fun other member => tested other (by simp [member])) wanted
              (by simpa using given)
          obtain ⟨test, known⟩ := Option.isSome_iff_exists.mp (tested term (by simp))
          obtain ⟨found, holds⟩ := test.exists_holds truth
          refine ⟨found :: pairs, by simp [sameLength], ?_⟩
          unfold truths at sameTruths ⊢
          simp [Comparison.truth, known, holds, sameTruths]

namespace Lower

variable
    {before after : LoweringState}
    {whenTrue whenFalse : String}

/-- A term adds nodes that compute its sides, a comparison and a jump. -/
theorem nodes_compared
    {left right : VarId}
    {line : Nat}
    {jump : Node}
    {between : LoweringState}
    (computed : before.Computes between) :
    ∃ sides destroyed,
      (compared between left right line jump).listing.nodes.toList =
          before.listing.nodes.toList ++
            (sides ++ .compare left right line :: (destroyed ++ [jump])) ∧
        (∀ node ∈ sides, node.isStraight) ∧ ∀ node ∈ destroyed, node.isStraight := by
  obtain ⟨sides, sameSides, sidesStraight⟩ := computed.straight
  have cleared := (LoweringState.computes_destroyed
    (between.appended (.compare left right line)) left).trans
      (LoweringState.computes_destroyed _ right)
  obtain ⟨destroyed, sameDestroyed, destroyedStraight⟩ := cleared.straight
  refine ⟨sides, destroyed, ?_, sidesStraight, destroyedStraight⟩
  unfold compared
  simp only [LoweringState.nodes_appended, Array.toList_push, List.append_assoc] at sameDestroyed ⊢
  rw [sameDestroyed, sameSides]
  simp

/--
The nodes of a chain lead to the first label when the grouping from the right holds;
otherwise they lead to the second one or to whatever stands behind them.
-/
theorem follow_conditionTerms
    {term : Comparison}
    {rest : List Comparison}
    (joined : joins.length = rest.length)
    (lowered : conditionTerms whenTrue whenFalse (term :: rest) joins before = .ok ((), after)) :
    ∃ added,
      after.listing.nodes.toList = before.listing.nodes.toList ++ added ∧
        ∀ found pairs last behind,
          pairs.length = rest.length →
            if Logic.groupRight (term.truth found) joins (Condition.truths rest pairs) then
              Node.follow (added ++ behind) (found :: pairs) last = some whenTrue
            else
              Node.follow (added ++ behind) (found :: pairs) last = some whenFalse ∨
                ∃ tested,
                  Node.follow (added ++ behind) (found :: pairs) last =
                    Node.follow behind [] tested := by
  induction rest generalizing before term joins with
  | nil =>
      obtain ⟨left, right, test, between, sidesLowered, restLowered⟩ :=
        conditionTerms_cons_ok lowered
      cases conditionTerms_nil_ok restLowered
      obtain ⟨_, _, _, _, _, _, _, _, _, _, known, _, _, _, _, same⟩ := comparison_ok sidesLowered
      cases same
      obtain ⟨sides, destroyed, sameNodes, sidesStraight, destroyedStraight⟩ :=
        nodes_compared (comparison_computes sidesLowered)
      refine ⟨_, sameNodes, ?_⟩
      intro found pairs last behind given
      have noPairs : pairs = [] := List.eq_nil_of_length_eq_zero given
      have noJoins : joins = [] := List.eq_nil_of_length_eq_zero joined
      subst noPairs noJoins
      rw [List.append_assoc, Node.follow_straight sidesStraight]
      simp only [List.cons_append, List.append_assoc, Node.follow,
        Node.follow_straight destroyedStraight, List.nil_append]
      have jumps : termJump whenTrue whenFalse test [] [] = .jump whenTrue (some test) := rfl
      have truth : term.truth found = test.holds found := by simp [Comparison.truth, known]
      rw [jumps, truth]
      simp only [Logic.groupRight, Node.follow]
      cases test.holds found with
      | true => simp
      | false => exact .inr ⟨found, by simp⟩
  | cons next rest inductionHypothesis =>
      cases joins with
      | nil => simp at joined
      | cons join joins =>
          obtain ⟨left, right, test, between, sidesLowered, restLowered⟩ :=
            conditionTerms_cons_ok lowered
          obtain ⟨_, _, _, _, _, _, _, _, _, _, known, _, _, _, _, same⟩ :=
            comparison_ok sidesLowered
          cases same
          obtain ⟨sides, destroyed, sameNodes, sidesStraight, destroyedStraight⟩ :=
            nodes_compared (comparison_computes sidesLowered)
          obtain ⟨later, sameLater, laterFollows⟩ :=
            inductionHypothesis (by simpa using joined) restLowered
          refine ⟨_, by rw [sameLater, sameNodes, List.append_assoc], ?_⟩
          intro found pairs last behind given
          cases pairs with
          | nil => simp at given
          | cons nextFound pairs =>
              have follows := laterFollows nextFound pairs found behind (by simpa using given)
              rw [List.append_assoc, List.append_assoc, Node.follow_straight sidesStraight]
              simp only [List.cons_append, List.append_assoc, Node.follow,
                Node.follow_straight destroyedStraight, List.nil_append]
              have truth : term.truth found = test.holds found := by
                simp [Comparison.truth, known]
              have truths : Condition.truths (next :: rest) (nextFound :: pairs) =
                  next.truth nextFound :: Condition.truths rest pairs := rfl
              rw [truth, truths]
              -- The join behind the term says on which side the term leaves the chain.
              cases join with
              | either =>
                  have jumps : termJump whenTrue whenFalse test (next :: rest)
                      (.either :: joins) = .jump whenTrue (some test) := rfl
                  rw [jumps]
                  simp only [Logic.groupRight, Logic.apply, Node.follow]
                  cases test.holds found with
                  | true => simp
                  | false => simpa using follows
              | both =>
                  have jumps : termJump whenTrue whenFalse test (next :: rest)
                      (.both :: joins) = .jump whenFalse (some test.negate) := rfl
                  rw [jumps]
                  simp only [Logic.groupRight, Logic.apply, Node.follow, CmpOp.holds_negate]
                  cases test.holds found with
                  | true => simpa using follows
                  | false => simp

/-- Every term of a chain that is lowered has an operator. -/
theorem tests_of_conditionTerms
    (lowered : conditionTerms whenTrue whenFalse terms joins before = .ok ((), after)) :
    ∀ term ∈ terms, term.test?.isSome := by
  induction terms generalizing before joins with
  | nil => simp
  | cons term rest inductionHypothesis =>
      obtain ⟨_, _, _, _, sidesLowered, restLowered⟩ := conditionTerms_cons_ok lowered
      obtain ⟨_, _, _, _, _, _, _, _, _, _, known, _⟩ := comparison_ok sidesLowered
      intro other member
      rcases List.mem_cons.mp member with isTerm | inRest
      · rw [isTerm, known]
        rfl
      · exact inductionHypothesis restLowered other inRest

/--
The nodes of a condition act on the chain grouped from the right, whatever its terms are
found to be. They act on the chain grouped from the left exactly when all joins of the
chain are the same.
-/
theorem condition_groups_from_right
    {chain : Condition}
    {falseFollows : Bool}
    (joined : chain.joins.length + 1 = chain.terms.length)
    (distinct : whenTrue ≠ whenFalse)
    (lowered : condition (some chain) whenTrue whenFalse falseFollows before = .ok ((), after)) :
    ∃ added,
      after.listing.nodes.toList = before.listing.nodes.toList ++ added ∧
        (∀ wanted : List Bool, wanted.length = chain.terms.length →
          ∃ pairs, pairs.length = chain.terms.length ∧
            Condition.truths chain.terms pairs = wanted) ∧
        (∀ pairs last, pairs.length = chain.terms.length →
          Node.Decides added whenTrue whenFalse falseFollows pairs last
            (chain.rightToLeft pairs)) ∧
        ((∀ pairs last, pairs.length = chain.terms.length →
          Node.Decides added whenTrue whenFalse falseFollows pairs last
            (chain.leftToRight pairs)) ↔ Logic.Uniform chain.joins) := by
  obtain ⟨_, between, same, _, termsLowered, closed⟩ := condition_ok lowered
  cases same
  have realized := Condition.exists_truths (tests_of_conditionTerms termsLowered)
  rcases chain with ⟨line, terms, joins⟩
  cases terms with
  | nil => simp at joined
  | cons term rest =>
      have joinsLength : joins.length = rest.length := by simpa using joined
      obtain ⟨added, sameNodes, follows⟩ := follow_conditionTerms joinsLength termsLowered
      obtain ⟨closing, sameClosing, closes⟩ : ∃ closing,
          after.listing.nodes.toList = before.listing.nodes.toList ++ (added ++ closing) ∧
            ∀ tested, Node.follow closing [] tested = some whenFalse ∨
              (falseFollows ∧ Node.follow closing [] tested = none) := by
        cases falseFollows with
        | true =>
            refine ⟨[], by simpa [closed] using sameNodes, ?_⟩
            intro tested
            exact .inr ⟨rfl, rfl⟩
        | false =>
            refine ⟨[.jump whenFalse none], by simp [closed, sameNodes], ?_⟩
            intro tested
            exact .inl rfl
      have fromRight : ∀ pairs last, pairs.length = (term :: rest).length →
          Node.Decides (added ++ closing) whenTrue whenFalse falseFollows pairs last
            (Condition.rightToLeft ⟨line, term :: rest, joins⟩ pairs) := by
        intro pairs last given
        cases pairs with
        | nil => simp at given
        | cons found pairs =>
            have leads := follows found pairs last closing (by simpa using given)
            unfold Node.Decides
            show if Logic.groupRight (term.truth found) joins (Condition.truths rest pairs) then
              _ else _
            split
            next verdict => simpa [verdict] using leads
            next verdict =>
              simp only [verdict, Bool.false_eq_true, ↓reduceIte] at leads
              rcases leads with jumped | ⟨tested, passed⟩
              · exact .inl jumped
              · rw [passed]
                exact closes tested
      refine ⟨added ++ closing, sameClosing, realized, fromRight, ?_⟩
      constructor
      · intro fromLeft
        apply (Logic.groupings_agree_iff joins).mp
        intro first others given
        obtain ⟨pairs, sameLength, sameTruths⟩ :=
          realized (first :: others) (by simp [given, joinsLength])
        have agrees := Node.Decides.unique distinct (fromLeft pairs (0, 0) sameLength)
          (fromRight pairs (0, 0) sameLength)
        simpa [Condition.leftToRight, Condition.rightToLeft, sameTruths] using agrees
      · intro uniform pairs last given
        have agrees := (Logic.groupings_agree_iff joins).mpr uniform
        have right := fromRight pairs last given
        cases pairs with
        | nil => simp at given
        | cons found pairs =>
            have sameLength : (Condition.truths rest pairs).length = joins.length := by
              have pairsLength : pairs.length = rest.length := by simpa using given
              simp [Condition.truths, pairsLength, joinsLength]
            have groups : Condition.leftToRight ⟨line, term :: rest, joins⟩ (found :: pairs) =
                Condition.rightToLeft ⟨line, term :: rest, joins⟩ (found :: pairs) :=
              agrees (term.truth found) (Condition.truths rest pairs) sameLength
            rw [groups]
            exact right

/-- A step that is accepted leads to some state. -/
theorem exists_of_accepted
    {step : Lower Unit}
    (accepted : (step before).toBool = true) :
    ∃ after, step before = .ok ((), after) := by
  cases run : step before with
  | error => simp [run, Except.toBool] at accepted
  | ok pair => exact ⟨pair.2, rfl⟩

/-- The chain `1 == 1 || 2 == 3 && 4 == 5`, which means one thing from each side. -/
def mixedChain : Condition :=
  let term (left right : String) : Comparison :=
    { line := 1, left := .literal 1 (.scalar .int left), op := some .equal,
      right := some (.literal 1 (.scalar .int right)) }
  { line := 1, terms := [term "1" "1", term "2" "3", term "4" "5"], joins := [.either, .both] }

/-- The first term of the mixed chain leads to the first label, though the last one fails. -/
theorem mixedChain_groups_from_right :
    mixedChain.rightToLeft [(1, 1), (2, 3), (4, 5)] = true ∧
      mixedChain.leftToRight [(1, 1), (2, 3), (4, 5)] = false ∧
      ∃ after added,
        condition (some mixedChain) "IF0_BODY" "IF0_END" false (start "t.ils") = .ok ((), after) ∧
          after.listing.nodes.toList = (start "t.ils").listing.nodes.toList ++ added ∧
          Node.Decides added "IF0_BODY" "IF0_END" false [(1, 1), (2, 3), (4, 5)] (0, 0) true ∧
          ¬ ∀ pairs last, pairs.length = mixedChain.terms.length →
            Node.Decides added "IF0_BODY" "IF0_END" false pairs last
              (mixedChain.leftToRight pairs) := by
  have accepted : (condition (some mixedChain) "IF0_BODY" "IF0_END" false
      (start "t.ils")).toBool = true := by decide +kernel
  obtain ⟨after, lowered⟩ := exists_of_accepted accepted
  obtain ⟨added, sameNodes, _, fromRight, fromLeft⟩ :=
    condition_groups_from_right (by decide) (by decide) lowered
  refine ⟨by decide, by decide, after, added, lowered, sameNodes,
    fromRight [(1, 1), (2, 3), (4, 5)] (0, 0) rfl, ?_⟩
  rw [fromLeft]
  intro uniform
  exact absurd (uniform .either (by decide) .both (by decide)) (by decide)

end Lower

end IlsCompiler
