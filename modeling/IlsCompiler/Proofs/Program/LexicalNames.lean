import IlsCompiler.Lowering.Program

namespace IlsCompiler

/-!
# Names in function bodies

What a name in a function can stand for is seen from the tree alone: a parameter, a variable that
has been declared further up in the same block or in a block around it, or a global variable. Going
through a body in order gives the points at which names are used and declared, each with the names
that are in force there.
-/

/--
What a name can stand for: the parameter at a position, the variable that is declared in the body
behind so many others, or the global variable of a name.
-/
inductive Declaration where
  | parameter (position : Nat)
  | inner (number : Nat)
  | global (name : String)
deriving DecidableEq, Repr

/--
A point in a function: the names that are in force there, and how many variables the body has
declared in front of it.
-/
structure InForce where
  names : List (String × Declaration)
  count : Nat
deriving DecidableEq, Repr

namespace InForce

/-- Everything that a name can stand for at a point. -/
def candidates (globals : List String) (point : InForce) (name : String) : List Declaration :=
  (point.names.filter fun entry => entry.1 == name).map (fun entry => entry.2) ++
    if name ∈ globals then [.global name] else []

/-- The point in front of the parameters of a function. -/
def start : InForce :=
  { names := [], count := 0 }

/-- The point behind a parameter. -/
def withParameter (point : InForce) (name : String) : InForce :=
  { point with names := point.names ++ [(name, .parameter point.names.length)] }

/-- The point behind parameters. -/
def withParameters (point : InForce) : List Param → InForce
  | [] => point
  | param :: rest => (point.withParameter param.name).withParameters rest

/-- The point behind a declaration in a body. -/
def withInner (point : InForce) (name : String) : InForce :=
  { names := point.names ++ [(name, .inner point.count)], count := point.count + 1 }

/-- The point behind declarations that are no longer in force. -/
def past (point : InForce) (count : Nat) : InForce :=
  { point with count := point.count + count }

/-- The point behind a statement; what a block declares ends with the block. -/
def behind (point : InForce) : Stmt → InForce
  | .declare _ name _ _ => point.withInner name
  | other => point.past other.declarations

/-- The point at the end of a body. -/
def through (point : InForce) : List Stmt → InForce
  | [] => point
  | first :: rest => (point.behind first).through rest

end InForce

/-- What happens at a point: a statement begins or a body ends, a name is used or declared. -/
inductive Moment where
  | reached (point : InForce)
  | use (point : InForce) (name : String)
  | declaration (point : InForce) (name : String)
deriving DecidableEq, Repr

/-- The point at which something happens. -/
def Moment.point : Moment → InForce
  | .reached point => point
  | .use point _ => point
  | .declaration point _ => point

mutual

/-- The names of variables in an expression, in the order in which they are written. -/
def Expr.names : Expr → List String
  | .missing => []
  | .name _ name => [name]
  | .literal _ _ => []
  | .binary _ _ left right => left.names ++ right.names
  | .element _ name index => name :: index.names
  | .array _ elements => namesOfParts elements
  | .call _ _ _ arguments => namesOfParts arguments

/-- The names of variables in expressions. -/
def namesOfParts : List Expr → List String
  | [] => []
  | first :: rest => first.names ++ namesOfParts rest

end

variable
    {name : String}

theorem names_of_part
    {parts : List Expr}
    {part : Expr}
    (member : part ∈ parts)
    (inside : name ∈ part.names) :
    name ∈ namesOfParts parts := by
  induction parts with
  | nil => cases member
  | cons first rest inductionHypothesis =>
      rw [namesOfParts, List.mem_append]
      rcases List.mem_cons.mp member with rfl | later
      · exact .inl inside
      · exact .inr (inductionHypothesis later)

/-- The names of variables in an expression that may be left out. -/
def namesOfValue : Option Expr → List String
  | none => []
  | some expr => expr.names

/-- The names of variables in the terms of a condition. -/
def namesOfTerms : List Comparison → List String
  | [] => []
  | first :: rest => first.left.names ++ namesOfValue first.right ++ namesOfTerms rest

/-- The names of variables in a condition. -/
def namesOfTest : Option Condition → List String
  | none => []
  | some chain => namesOfTerms chain.terms

namespace InForce

/-- Names are used at a point. -/
def uses (point : InForce) (names : List String) : List Moment :=
  names.map (.use point)

/-- The declarations of parameters, each with the ones in front of it in force. -/
def parameterMoments (point : InForce) : List Param → List Moment
  | [] => []
  | param :: rest =>
      .declaration point param.name :: (point.withParameter param.name).parameterMoments rest

end InForce

mutual

/-- What happens in a statement that begins at a point. -/
def Stmt.moments (point : InForce) : Stmt → List Moment
  | .block _ body => momentsIn point body
  | .declare _ name _ value => point.uses (namesOfValue value) ++ [.declaration point name]
  | .function _ _ _ _ _ _ => []
  | .assign _ name index value => point.uses (name :: (namesOfValue index ++ value.names))
  | .call _ _ _ _ arguments => point.uses (namesOfParts arguments)
  | .leave _ value => point.uses (namesOfValue value)
  | .choose _ test _ body next =>
      point.uses (namesOfTest test) ++ momentsIn point body ++
        next.moments (point.past (declarationsIn body))
  | .loop _ test _ body =>
      momentsIn point body ++ (point.past (declarationsIn body)).uses (namesOfTest test)
  | .exit _ => []

/-- What happens in the arms behind the first. -/
def Branch.moments (point : InForce) : Branch → List Moment
  | .none => []
  | .elif _ test _ body next =>
      point.uses (namesOfTest test) ++ momentsIn point body ++
        next.moments (point.past (declarationsIn body))
  | .otherwise _ _ body => momentsIn point body

/-- What happens in a body that begins at a point. -/
def momentsIn (point : InForce) : List Stmt → List Moment
  | [] => [.reached point]
  | first :: rest => .reached point :: (first.moments point ++ momentsIn (point.behind first) rest)

end

/-- What happens in a function, its parameters included. -/
def functionMoments (params : List Param) (body : List Stmt) : List Moment :=
  InForce.start.parameterMoments params ++ momentsIn (InForce.start.withParameters params) body

/-- What happens in the functions among module statements. -/
def momentsOf : List Stmt → List Moment
  | [] => []
  | .function _ _ params _ _ body :: rest => functionMoments params body ++ momentsOf rest
  | _ :: rest => momentsOf rest

namespace Expr

/-- No constant has the name of a variable in it. -/
theorem names_of_isConstant
    {expr : Expr}
    (isConstant : expr.isConstant) :
    expr.names = [] := by
  induction expr using Expr.inductionOn with
  | binary line op left right leftHypothesis rightHypothesis =>
      have sides : left.isConstant = true ∧ right.isConstant = true := by
        simpa [Expr.isConstant] using isConstant
      rw [names, leftHypothesis sides.1, rightHypothesis sides.2, List.append_nil]
  | literal => rfl
  | missing => rfl
  | _ => simp [Expr.isConstant] at isConstant

end Expr

namespace InForce

variable
    {globals : List String}
    {point : InForce}

theorem count_behind
    (point : InForce)
    (stmt : Stmt) :
    (point.behind stmt).count = point.count + stmt.declarations := by
  cases stmt <;> simp [behind, withInner, past, Stmt.declarations]

/-- At the end of a body as many variables have been declared as there are declarations in it. -/
theorem count_through
    (point : InForce)
    (body : List Stmt) :
    (point.through body).count = point.count + declarationsIn body := by
  induction body generalizing point with
  | nil => rfl
  | cons first rest inductionHypothesis =>
      rw [through, inductionHypothesis, count_behind, declarationsIn, Nat.add_assoc]

theorem past_past
    (point : InForce)
    (count more : Nat) :
    (point.past count).past more = point.past (count + more) := by
  simp [past, Nat.add_assoc]

variable
    {declaration : Declaration}
    {later : InForce}

/-- A name that stood for nothing stands for the declaration in front of a point. -/
theorem candidates_declared
    (names : later.names = point.names ++ [(name, declaration)])
    (unknown : point.candidates globals name = []) :
    later.candidates globals name = [declaration] := by
  obtain ⟨noName, noGlobal⟩ := List.append_eq_nil_iff.mp unknown
  simp only [candidates, names, List.filter_append, List.map_append, noName, noGlobal]
  simp

/-- A declaration does not change what other names stand for. -/
theorem candidates_other
    {name other : String}
    (names : later.names = point.names ++ [(name, declaration)])
    (differs : other ≠ name) :
    later.candidates globals other = point.candidates globals other := by
  have apart : (name == other) = false := by simpa using differs.symm
  simp [candidates, names, List.filter_append, apart]

end InForce

end IlsCompiler
