import IlsCompiler.Assembly.Data
import IlsCompiler.Proofs.Lowering.StatementSteps

namespace IlsCompiler

/-!
# The order of the calls in a tree

Reading a tree from left to right, with arguments in front of their call, gives its
calls in source order. The order in which they are made is another one: the result of
a call stays pending until it is needed, and both operands of an operator are worked
on before the result of either is needed. A call is listed with its place in source
order, and calls are made in source order when the places increase.
-/

/-- Whether an expression is a call to a function of the program. -/
def Expr.isCall : Expr → Bool
  | .call _ _ builtin _ => !builtin
  | _ => false

mutual

/-- The functions that an expression calls, in source order. -/
def Expr.calls : Expr → List String
  | .binary _ _ left right => left.calls ++ right.calls
  | .element _ _ index => index.calls
  | .array _ elements => callsIn elements
  | .call _ function builtin arguments =>
      callsIn arguments ++ if builtin then [] else [function]
  | _ => []

/-- The functions that expressions call, in source order. -/
def callsIn : List Expr → List String
  | [] => []
  | first :: rest => first.calls ++ callsIn rest

end

/--
The call that is still pending when an expression has been worked on. The first call of
the expression has the place `start`.
-/
def Expr.pending (start : Nat) : Expr → List (String × Nat)
  | .call _ function builtin arguments =>
      if builtin then [] else [(function, start + (callsIn arguments).length)]
  | _ => []

mutual

/-- The calls that are made while an expression is worked on. -/
def Expr.forced (start : Nat) : Expr → List (String × Nat)
  | .binary _ _ left right =>
      left.forced start ++ right.forced (start + left.calls.length) ++
        left.pending start ++ right.pending (start + left.calls.length)
  | .element _ _ index => index.forced start ++ index.pending start
  | .array _ elements => forcedIn start elements
  | .call _ _ _ arguments => forcedIn start arguments
  | _ => []

/-- The calls that are made while arguments are worked on, one argument behind the other. -/
def forcedIn (start : Nat) : List Expr → List (String × Nat)
  | [] => []
  | first :: rest =>
      first.forced start ++ first.pending start ++ forcedIn (start + first.calls.length) rest

end

namespace Expr

/-- All calls of an expression in the order in which they are made. -/
def made (start : Nat) (expr : Expr) : List (String × Nat) :=
  expr.forced start ++ expr.pending start

/-- The calls of two operands in the order in which they are made. -/
def madeBeside (start : Nat) (left right : Expr) : List (String × Nat) :=
  left.forced start ++ right.forced (start + left.calls.length) ++
    left.pending start ++ right.pending (start + left.calls.length)

/-- Whether the left operand is a call that waits while the right one makes calls. -/
def waitsFor (left right : Expr) : Bool :=
  left.isCall && right.isCall.toNat < right.calls.length

end Expr

mutual

/-- Whether somewhere in an expression a call waits while a later one is made. -/
def Expr.overtakes : Expr → Bool
  | .binary _ _ left right => left.overtakes || right.overtakes || left.waitsFor right
  | .element _ _ index => index.overtakes
  | .array _ elements => overtakesIn elements
  | .call _ _ _ arguments => overtakesIn arguments
  | _ => false

/-- Whether somewhere in expressions a call waits while a later one is made. -/
def overtakesIn : List Expr → Bool
  | [] => false
  | first :: rest => first.overtakes || overtakesIn rest

end

namespace Expr

theorem length_pending
    (start : Nat)
    (expr : Expr) :
    (expr.pending start).length = expr.isCall.toNat := by
  cases expr with
  | call line name builtin arguments => cases builtin <;> rfl
  | _ => rfl

/-- Swapping the pending call of the left operand with the calls of the right one. -/
theorem madeBeside_perm
    (start : Nat)
    (left right : Expr) :
    (madeBeside start left right).Perm
      (left.made start ++ right.made (start + left.calls.length)) := by
  unfold madeBeside made
  have swapped :
      (right.forced (start + left.calls.length) ++ left.pending start).Perm
        (left.pending start ++ right.forced (start + left.calls.length)) :=
    List.perm_append_comm
  have framed := (swapped.append_left (left.forced start)).append_right
    (right.pending (start + left.calls.length))
  simpa [List.append_assoc] using framed

theorem zipIdx_calls_append
    (start : Nat)
    (first second : List String) :
    (first ++ second).zipIdx start =
      first.zipIdx start ++ second.zipIdx (start + first.length) :=
  List.zipIdx_append

/-- What holds of the calls of each argument holds of those of all. -/
theorem forcedIn_perm_of
    {parts : List Expr}
    (each : ∀ part ∈ parts, ∀ start, (made start part).Perm (part.calls.zipIdx start))
    (start : Nat) :
    (forcedIn start parts).Perm ((callsIn parts).zipIdx start) := by
  induction parts generalizing start with
  | nil => exact .refl _
  | cons first rest inductionHypothesis =>
      rw [forcedIn, callsIn, zipIdx_calls_append]
      refine List.Perm.append (each first (by simp) start) ?_
      exact inductionHypothesis (fun part member => each part (by simp [member])) _

/-- The calls that are made are those of the expression, each once. -/
theorem made_perm
    (start : Nat)
    (expr : Expr) :
    (expr.made start).Perm (expr.calls.zipIdx start) := by
  induction expr using Expr.inductionOn generalizing start with
  | missing => simp [made, forced, pending, calls]
  | name => simp [made, forced, pending, calls]
  | literal => simp [made, forced, pending, calls]
  | binary line op left right leftHypothesis rightHypothesis =>
      have both := List.Perm.append (leftHypothesis start)
        (rightHypothesis (start + left.calls.length))
      rw [← zipIdx_calls_append] at both
      simpa [made, madeBeside, forced, pending, calls] using
        (madeBeside_perm start left right).trans both
  | element line array index inductionHypothesis =>
      simpa [made, forced, pending, calls] using inductionHypothesis start
  | array line elements inductionHypothesis =>
      simpa [made, forced, pending, calls] using forcedIn_perm_of inductionHypothesis start
  | call line name builtin arguments inductionHypothesis =>
      have given := forcedIn_perm_of inductionHypothesis start
      cases builtin with
      | true => simpa [made, forced, pending, calls] using given
      | false =>
          simpa [made, forced, pending, calls, zipIdx_calls_append] using
            List.Perm.append_right [(name, start + (callsIn arguments).length)] given

theorem length_made
    (start : Nat)
    (expr : Expr) :
    (expr.made start).length = expr.calls.length := by
  simpa using (made_perm start expr).length_eq

variable
    {expr : Expr}

theorem calls_of_isConstant
    (constant : expr.isConstant) :
    expr.calls = [] := by
  induction expr using Expr.inductionOn with
  | binary line op left right leftHypothesis rightHypothesis =>
      simp only [isConstant, Bool.and_eq_true] at constant
      simp [calls, leftHypothesis constant.1, rightHypothesis constant.2]
  | literal => simp [calls]
  | _ => simp [isConstant] at constant

/-- An expression without calls makes none. -/
theorem made_of_no_calls
    (nothing : expr.calls = [])
    (start : Nat) :
    expr.forced start = [] ∧ expr.pending start = [] := by
  have total := length_made start expr
  rw [nothing, List.length_nil] at total
  exact List.append_eq_nil_iff.mp (List.eq_nil_of_length_eq_zero total)

/-- The places of the calls of an expression follow each other. -/
theorem place_of_mem_made
    {start : Nat}
    {call : String × Nat}
    (member : call ∈ expr.made start) :
    start ≤ call.2 ∧ call.2 < start + expr.calls.length := by
  have listed := (made_perm start expr).mem_iff.mp member
  rcases call with ⟨name, place⟩
  obtain ⟨lower, upper, -⟩ := List.mem_zipIdx listed
  exact ⟨lower, upper⟩

variable
    {left right : Expr}

/-- Without waiting, the calls of the left operand come in front of those of the right one. -/
theorem madeBeside_of_not_waitsFor
    (start : Nat)
    (free : left.waitsFor right = false) :
    madeBeside start left right =
      left.made start ++ right.made (start + left.calls.length) := by
  have quiet : left.pending start = [] ∨ right.forced (start + left.calls.length) = [] := by
    simp only [waitsFor, Bool.and_eq_false_iff, decide_eq_false_iff_not, Nat.not_lt] at free
    rcases free with noCall | alone
    · left
      apply List.eq_nil_of_length_eq_zero
      rw [length_pending, noCall]
      rfl
    · right
      apply List.eq_nil_of_length_eq_zero
      have total := length_made (start + left.calls.length) right
      simp only [made, List.length_append, length_pending] at total
      omega
  rcases quiet with nothing | nothing <;> simp [madeBeside, made, nothing, List.append_assoc]

/-- A call that waits comes behind a call that stands further to the right. -/
theorem madeBeside_ne_of_waitsFor
    (start : Nat)
    (waits : left.waitsFor right) :
    madeBeside start left right ≠ (left.calls ++ right.calls).zipIdx start := by
  intro same
  simp only [waitsFor, Bool.and_eq_true, decide_eq_true_eq] at waits
  have leftTotal := length_made start left
  have rightTotal := length_made (start + left.calls.length) right
  simp only [made, List.length_append, length_pending, waits.1, Bool.toNat_true] at leftTotal
  simp only [made, List.length_append, length_pending] at rightTotal
  cases forcedRight : right.forced (start + left.calls.length) with
  | nil =>
      rw [forcedRight, List.length_nil] at rightTotal
      omega
  | cons first rest =>
      -- The first call of the right operand stands where a call of the left one belongs.
      have here : (madeBeside start left right)[(left.forced start).length]? = some first := by
        simp [madeBeside, forcedRight, List.append_assoc]
      rw [same] at here
      have place : first.2 = start + (left.forced start).length := by
        obtain ⟨inside, listed⟩ := List.getElem?_eq_some_iff.mp here
        rw [← listed, List.getElem_zipIdx]
      have member : first ∈ right.made (start + left.calls.length) := by
        simp [made, forcedRight]
      have later := (place_of_mem_made member).1
      omega

/-- Operands make their calls in source order when each does and the left one does not wait. -/
theorem madeBeside_eq_iff
    (start : Nat)
    (left right : Expr) :
    madeBeside start left right = (left.calls ++ right.calls).zipIdx start ↔
      left.made start = left.calls.zipIdx start ∧
        right.made (start + left.calls.length) =
          right.calls.zipIdx (start + left.calls.length) ∧
        left.waitsFor right = false := by
  cases waits : left.waitsFor right with
  | true => simp [madeBeside_ne_of_waitsFor start waits]
  | false =>
      rw [madeBeside_of_not_waitsFor start waits, zipIdx_calls_append]
      constructor
      · intro same
        obtain ⟨leftSame, rightSame⟩ := List.append_inj same (by simp [length_made])
        exact ⟨leftSame, rightSame, rfl⟩
      · rintro ⟨leftSame, rightSame, -⟩
        rw [leftSame, rightSame]

/-- An expression makes its calls in source order when no call of it waits for a later one. -/
theorem made_eq_iff
    (start : Nat)
    (expr : Expr) :
    expr.made start = expr.calls.zipIdx start ↔ expr.overtakes = false := by
  have inLists : ∀ (parts : List Expr) (start : Nat),
      (∀ part ∈ parts, ∀ start, made start part = part.calls.zipIdx start ↔
        part.overtakes = false) →
      (forcedIn start parts = (callsIn parts).zipIdx start ↔ overtakesIn parts = false) := by
    intro parts
    induction parts with
    | nil =>
        intro start _
        simp [forcedIn, callsIn, overtakesIn]
    | cons first rest inductionHypothesis =>
        intro start each
        have firstHypothesis := each first (by simp) start
        have restHypothesis := inductionHypothesis (start + first.calls.length)
          fun part member => each part (by simp [member])
        rw [forcedIn, callsIn, zipIdx_calls_append, overtakesIn, Bool.or_eq_false_iff,
          ← firstHypothesis, ← restHypothesis]
        constructor
        · intro same
          exact List.append_inj same (by simpa using length_made start first)
        · rintro ⟨firstSame, restSame⟩
          rw [← firstSame, ← restSame]
          rfl
  induction expr using Expr.inductionOn generalizing start with
  | missing => simp [made, forced, pending, calls, overtakes]
  | name => simp [made, forced, pending, calls, overtakes]
  | literal => simp [made, forced, pending, calls, overtakes]
  | binary line op left right leftHypothesis rightHypothesis =>
      have whole := (madeBeside_eq_iff start left right).trans
        (and_congr (leftHypothesis start)
          (and_congr (rightHypothesis (start + left.calls.length)) Iff.rfl))
      simpa [made, madeBeside, forced, pending, calls, overtakes, and_assoc] using whole
  | element line array index inductionHypothesis =>
      simpa [made, forced, pending, calls, overtakes] using inductionHypothesis start
  | array line elements inductionHypothesis =>
      simpa [made, forced, pending, calls, overtakes] using
        inLists elements start inductionHypothesis
  | call line name builtin arguments inductionHypothesis =>
      have given := inLists arguments start inductionHypothesis
      cases builtin with
      | true => simpa [made, forced, pending, calls, overtakes] using given
      | false => simpa [made, forced, pending, calls, overtakes, zipIdx_calls_append] using given

end Expr

/-- The routines that the code of a builtin calls. -/
def Builtin.routines (builtin : Builtin) : List String :=
  if builtin.name = "exit" then [] else [PrintFormat.routine]

namespace Expr

theorem names_pending
    (start other : Nat)
    (expr : Expr) :
    (expr.pending start).map Prod.fst = (expr.pending other).map Prod.fst := by
  cases expr with
  | call line name builtin arguments => cases builtin <;> rfl
  | _ => rfl

/-- Which functions are called does not depend on how the calls are numbered. -/
theorem names_forced
    (start other : Nat)
    (expr : Expr) :
    (expr.forced start).map Prod.fst = (expr.forced other).map Prod.fst := by
  have inLists : ∀ (parts : List Expr) (start other : Nat),
      (∀ part ∈ parts, ∀ start other,
        (forced start part).map Prod.fst = (forced other part).map Prod.fst) →
      (forcedIn start parts).map Prod.fst = (forcedIn other parts).map Prod.fst := by
    intro parts
    induction parts with
    | nil => intros; simp [forcedIn]
    | cons first rest inductionHypothesis =>
        intro start other each
        have restSame := inductionHypothesis (start + first.calls.length)
          (other + first.calls.length) fun part member => each part (by simp [member])
        simp only [forcedIn, List.map_append, each first (by simp) start other,
          names_pending start other first, restSame]
  induction expr using Expr.inductionOn generalizing start other with
  | missing => simp [forced]
  | name => simp [forced]
  | literal => simp [forced]
  | binary line op left right leftHypothesis rightHypothesis =>
      simp only [forced, List.map_append, leftHypothesis start other,
        rightHypothesis (start + left.calls.length) (other + left.calls.length),
        names_pending start other left,
        names_pending (start + left.calls.length) (other + left.calls.length) right]
  | element line array index inductionHypothesis =>
      simp only [forced, List.map_append, inductionHypothesis start other,
        names_pending start other index]
  | array line elements inductionHypothesis =>
      simpa [forced] using inLists elements start other inductionHypothesis
  | call line name builtin arguments inductionHypothesis =>
      simpa [forced] using inLists arguments start other inductionHypothesis

end Expr

/-- What is worked on at once: a single expression, an index with a value, or a comparison. -/
inductive Part where
  | expression (expr : Expr)
  | store (index value : Expr)
  | comparison (left right : Expr)

namespace Part

/-- The functions that a part calls, in source order. -/
def calls : Part → List String
  | .expression expr => expr.calls
  | .store index value => index.calls ++ value.calls
  | .comparison left right => left.calls ++ right.calls

/-- The calls of a part in the order in which they are made. -/
def made (start : Nat) : Part → List (String × Nat)
  | .expression expr => expr.made start
  | .store index value => index.made start ++ value.made (start + index.calls.length)
  | .comparison left right => Expr.madeBeside start left right

/-- Whether somewhere in a part a call waits while a later one is made. -/
def overtakes : Part → Bool
  | .expression expr => expr.overtakes
  | .store index value => index.overtakes || value.overtakes
  | .comparison left right => left.overtakes || right.overtakes || left.waitsFor right

/-- The calls that are made are those of the part, each once. -/
theorem made_perm
    (start : Nat)
    (part : Part) :
    (part.made start).Perm (part.calls.zipIdx start) := by
  have both : ∀ first second : Expr,
      (first.made start ++ second.made (start + first.calls.length)).Perm
        ((first.calls ++ second.calls).zipIdx start) := by
    intro first second
    rw [Expr.zipIdx_calls_append]
    exact (Expr.made_perm start first).append (Expr.made_perm _ second)
  cases part with
  | expression expr => exact expr.made_perm start
  | store index value => exact both index value
  | comparison left right => exact (Expr.madeBeside_perm start left right).trans (both left right)

/-- A part makes its calls in source order when no call of it waits for a later one. -/
theorem made_eq_iff
    (start : Nat)
    (part : Part) :
    part.made start = part.calls.zipIdx start ↔ part.overtakes = false := by
  cases part with
  | expression expr => exact expr.made_eq_iff start
  | store index value =>
      simp only [made, calls, overtakes, Expr.zipIdx_calls_append, Bool.or_eq_false_iff,
        ← Expr.made_eq_iff start index,
        ← Expr.made_eq_iff (start + index.calls.length) value]
      constructor
      · intro same
        exact List.append_inj same (by simp [Expr.length_made])
      · rintro ⟨indexSame, valueSame⟩
        rw [indexSame, valueSame]
  | comparison left right =>
      have whole := Expr.madeBeside_eq_iff start left right
      rw [Expr.made_eq_iff start left, Expr.made_eq_iff _ right] at whole
      simpa [made, calls, overtakes, and_assoc] using whole

/-- Which functions a part calls does not depend on how the calls are numbered. -/
theorem names_made
    (start other : Nat)
    (part : Part) :
    (part.made start).map Prod.fst = (part.made other).map Prod.fst := by
  have same : ∀ (expr : Expr) (start other : Nat),
      (expr.made start).map Prod.fst = (expr.made other).map Prod.fst := by
    intro expr start other
    simp only [Expr.made, List.map_append, Expr.names_forced start other expr,
      Expr.names_pending start other expr]
  cases part with
  | expression expr => exact same expr start other
  | store index value =>
      simp only [made, List.map_append, same index start other,
        same value (start + index.calls.length) (other + index.calls.length)]
  | comparison left right =>
      simp only [made, Expr.madeBeside, List.map_append, Expr.names_forced start other left,
        Expr.names_pending start other left,
        Expr.names_forced (start + left.calls.length) (other + left.calls.length) right,
        Expr.names_pending (start + left.calls.length) (other + left.calls.length) right]

/-- The routine that printing calls beside the calls of the arguments. -/
def printed : Part → List String
  | .expression (.call _ name true _) => ((Builtin.ofName? name).map Builtin.routines).getD []
  | _ => []

/-- Everything that a part calls, in the order in which it is called. -/
def called (part : Part) : List String :=
  (part.made 0).map Prod.fst ++ part.printed

theorem called_eq
    (start : Nat)
    {part : Part}
    (nothing : part.printed = []) :
    part.called = (part.made start).map Prod.fst := by
  rw [called, nothing, List.append_nil, names_made 0 start]

end Part

/-- The parts of a condition. -/
def Condition.parts (test : Option Condition) : List Part :=
  match test with
  | some chain => chain.terms.map fun term => .comparison term.left term.second
  | none => []

mutual

/-- The parts of a statement in the order in which their code stands. -/
def Stmt.parts : Stmt → List Part
  | .block _ body => partsIn body
  | .declare _ _ _ value => value.toList.map .expression
  | .function _ _ _ _ _ _ => []
  | .assign _ _ none value => [.expression value]
  | .assign _ _ (some index) value => [.store index value]
  | .call _ line name builtin arguments => [.expression (.call line name builtin arguments)]
  | .leave _ value => value.toList.map .expression
  | .choose _ test _ body next => Condition.parts test ++ partsIn body ++ next.parts
  | .loop _ test _ body => partsIn body ++ Condition.parts test
  | .exit _ => []

/-- The parts of the arms behind the first. -/
def Branch.parts : Branch → List Part
  | .none => []
  | .elif _ test _ body next => Condition.parts test ++ partsIn body ++ next.parts
  | .otherwise _ _ body => partsIn body

/-- The parts of statements. -/
def partsIn : List Stmt → List Part
  | [] => []
  | first :: rest => first.parts ++ partsIn rest

end

/-!
## The calls in the statements of a function

The calls of a body are those of its expressions, wherever they stand. The parts of the body make
the same calls, each as often as the body has it, and beside them only what printing calls.
-/

/-- The functions that a comparison calls. -/
def Comparison.calls (term : Comparison) : List String :=
  term.left.calls ++ (term.right.map Expr.calls).getD []

/-- The functions that a condition calls. -/
def Condition.calls (test : Option Condition) : List String :=
  (test.map fun chain => chain.terms.flatMap Comparison.calls).getD []

mutual

/-- The functions that a statement calls, each as often as it has a call to it. -/
def Stmt.calls : Stmt → List String
  | .block _ body => bodyCalls body
  | .declare _ _ _ value => (value.map Expr.calls).getD []
  | .function _ _ _ _ _ _ => []
  | .assign _ _ index value => (index.map Expr.calls).getD [] ++ value.calls
  | .call _ line name builtin arguments => (Expr.call line name builtin arguments).calls
  | .leave _ value => (value.map Expr.calls).getD []
  | .choose _ test _ body next => Condition.calls test ++ bodyCalls body ++ next.calls
  | .loop _ test _ body => Condition.calls test ++ bodyCalls body
  | .exit _ => []

/-- The functions that the arms behind the first call. -/
def Branch.calls : Branch → List String
  | .none => []
  | .elif _ test _ body next => Condition.calls test ++ bodyCalls body ++ next.calls
  | .otherwise _ _ body => bodyCalls body

/-- The functions that statements call. -/
def bodyCalls : List Stmt → List String
  | [] => []
  | first :: rest => first.calls ++ bodyCalls rest

end

variable
    {callee : String}

namespace Part

end Part

end IlsCompiler
