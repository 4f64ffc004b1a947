import IlsCompiler.Lowering.Expression

namespace IlsCompiler.Lower

/-!
# Lowering of statements

Choices and loops become labels and jumps. A condition tests its terms from left
to right: a term in front of `||` jumps ahead when it holds, a term in front of
`&&` jumps away when it fails, and the last term decides.
-/

/-- The sides of one term and the operator that compares them. -/
def comparison (term : Comparison) : Lower (VarId × VarId × CmpOp) := do
  let left ← value term.left
  let (right, op) ←
    match term.right with
    | none => do
        let one ← newInteger 1
        pure (one, some CmpOp.equal)
    | some expr => do
        let right ← value expr
        pure (right, term.op)
  match op with
  | none => fail .missingComparison term.line
  | some test =>
      [left, right].forM fun id => do
        let type ← typeOf id
        if type = .str ∨ type.isArray then
          fail (.incomparable type) term.line
      let leftOperand ← materialize left term.line
      let rightOperand ← materialize right term.line
      return (leftOperand, rightOperand, test)

/-- Lower the terms of a condition, each with the join behind it. -/
def conditionTerms (whenTrue whenFalse : String) :
    List Comparison → List Logic → Lower Unit
  | [], _ => pure ()
  | term :: rest, joins => do
      let (left, right, test) ← comparison term
      emit (.compare left right term.line)
      destroy left
      destroy right
      if rest.isEmpty ∨ joins.head? = some .either then
        emit (.jump whenTrue (some test))
      else
        emit (.jump whenFalse (some test.negate))
      conditionTerms whenTrue whenFalse rest joins.tail

/-- Lower a condition into jumps to one of two labels; the second may follow right behind. -/
def condition (test : Option Condition) (whenTrue whenFalse : String) (falseFollows : Bool) :
    Lower Unit := do
  match test with
  | none => fail .emptyCondition 0
  | some chain =>
      if chain.terms.isEmpty then
        fail .emptyCondition 0
      conditionTerms whenTrue whenFalse chain.terms chain.joins
      if !falseFollows then
        emit (.jump whenFalse none)

/-- The constant of a declaration without an initializer. -/
def defaultValue (type : Ty) : Lower Value := do
  if type = .str then
    return .literal (← intern [])
  else
    return .literal type.defaultText

/-- The text and type of a constant initializer. -/
def scalarConstant (expr : Expr) : Except Failure (String × Ty) :=
  match expr with
  | .literal line (.string _) => .error (LoweringFault.initializer.failure line)
  | .literal _ (.scalar type text) => .ok (text, type)
  | other =>
      if other.isConstant then
        match other.evaluate with
        | .error failure => .error failure
        | .ok number => .ok (toString number, .int)
      else
        .error (LoweringFault.initializer.failure other.line)

/-- The texts of constant elements, each of the element type. -/
def arrayConstants (wanted : Ty) : List Expr → Except Failure (List String)
  | [] => .ok []
  | first :: rest => do
      let (text, type) ← scalarConstant first
      assignable wanted type first.line
      let others ← arrayConstants wanted rest
      return text :: others

/-- The constant that initializes a global variable. -/
def constant (line : Nat) (name : String) (type : Ty) (initial : Option Expr) :
    Lower Value := do
  match initial with
  | none => defaultValue type
  | some expr =>
      if type.isArray then
        match expr with
        | .array _ elements =>
            if (elements.length : Int) ≠ type.length then
              fail (.arrayCount name type.length elements.length) line
            match arrayConstants type.element elements with
            | .error failure => throw failure
            | .ok texts =>
                let init := ", ".intercalate texts
                let _ ← onListing fun listing => listing.addArray type.element type.length init
                return .literal init
        | _ => fail (.arrayInitializer name) line
      else
        match expr with
        | .literal _ (.string contents) => return .literal (← intern contents)
        | other =>
            match scalarConstant other with
            | .error failure => throw failure
            | .ok (text, given) =>
                match assignable type given line with
                | .error failure => throw failure
                | .ok () => return .literal text

/-- The value that initializes a local variable. -/
def initializer (line : Nat) (type : Ty) (initial : Option Expr) : Lower Value := do
  match initial with
  | none => defaultValue type
  | some expr =>
      let id ← value expr
      requireAssignable type id line
      match ← find? id with
      | some v => return bound v
      | none => return .reference id

/-- Declare a variable in the current scope; a global name that exists is kept as it is. -/
def declare (line : Nat) (name : String) (type : Ty) (initial : Option Expr) :
    Lower Unit := do
  let scope := (← frame).scope
  let scopes := (← get).listing.scopes
  let isGlobal := scopes.isModule scope
  if isGlobal && scopes.isModuleName name then
    return ()
  if type = .absent ∨ type = .void then
    fail (.unusableType name) line
  if !isGlobal && type.isArray then
    fail (.localArray name) line
  let stored ←
    if isGlobal then
      constant line name type initial
    else
      initializer line type initial
  let id ← onListing fun listing =>
    listing.addNamed name type stored isGlobal false 0 scope
  match (← get).listing.scopes.declare scope name id with
  | .error fault => throw (fault.failure line)
  | .ok (bound, _, _) =>
      modify fun state => { state with listing := { state.listing with scopes := bound } }
      if !isGlobal then
        modifyFrame fun current => { current with locals := current.locals ++ [id] }
      emit (.declare id line)

/-- Assign to a variable or to an element of it. -/
def assign (line : Nat) (name : String) (index : Option Expr) (expr : Expr) : Lower Unit := do
  let target ← resolve name line
  let (wanted, selected) ←
    match index with
    | some position => do
        let selected ← elementOf target name position line
        pure (← typeOf selected, selected)
    | none => do
        if target.type.isArray then
          fail (.wholeArray name) line
        pure (target.type, 0)
  let id ← value expr
  requireAssignable wanted id line
  match ← find? id with
  | some v => emit (.assign target.id (bound v) (boundType v) selected line)
  | none => pure ()

/-- The innermost open scope of a kind, without leaving the function. -/
def enclosingFrame? (kind : Scope.Kind) : List Frame → Option Frame
  | [] => none
  | current :: rest =>
      if current.kind = kind then
        some current
      else if current.kind = .function then
        none
      else
        enclosingFrame? kind rest

/-- Return from the current function. -/
def leave (line : Nat) (result : Option Expr) : Lower Unit := do
  let state ← get
  match state.function, enclosingFrame? .function state.frames with
  | some function, some body => do
      let id ←
        match result with
        | none =>
            if !function.isVoid then
              fail (.missingReturnValue function.name function.result) line
            else
              pure 0
        | some expr => do
            if function.isVoid then
              fail (.extraReturnValue function.name) line
            let id ← value expr
            requireAssignable function.result id line
            pure id
      emit (.leave id line)
      emit (.jump body.endLabel none)
  | _, _ => fail .strayReturn line

/-- Leave the innermost loop of the function, or the innermost scope if there is none. -/
def exit : Lower Unit := do
  let state ← get
  match enclosingFrame? .loop state.frames with
  | some around => emit (.jump around.exitLabel none)
  | none => emit (.jump (← frame).endLabel none)

/-- The label of an arm behind the first. -/
def armLabel (number arm : Nat) : String :=
  "IF" ++ toString number ++ "_ALT" ++ toString arm

mutual

/-- Lower a statement. -/
def statement : Stmt → Lower Unit
  | .block _ body => inScope .plain "" (statements body)
  | .declare line name type initial => declare line name type initial
  | .function line name _ _ _ _ => fail (.nestedFunction name) line
  | .assign line name index expr => assign line name index expr
  | .call _ callLine name builtin given => callStatement callLine name builtin given
  | .leave line result => leave line result
  | .choose _ test _ body next => do
      let number ← nextLabelNumber
      let stem := "IF" ++ toString number
      let endLabel := stem ++ "_END"
      label (stem ++ "_START")
      condition test (stem ++ "_BODY") (if next.exists then armLabel number 0 else endLabel) false
      label (stem ++ "_BODY")
      inScope .ifArm "" (statements body)
      if next.exists then
        emit (.jump endLabel none)
      branch number 0 endLabel next
      label endLabel
  | .loop _ test _ body => do
      let number ← nextLabelNumber
      let stem := "WHILE" ++ toString number
      let endLabel := stem ++ "_END"
      emit (.jump (stem ++ "_COND") none)
      label (stem ++ "_START")
      inScope .loop endLabel (statements body)
      label (stem ++ "_COND")
      condition test (stem ++ "_START") endLabel true
      label endLabel
  | .exit _ => exit

/-- Lower what follows an arm of a choice. -/
def branch (number arm : Nat) (endLabel : String) : Branch → Lower Unit
  | .none => pure ()
  | .otherwise _ _ body => do
      label (armLabel number arm)
      inScope .elseArm "" (statements body)
  | .elif _ test _ body next => do
      label (armLabel number arm)
      let bodyLabel := armLabel number arm ++ "_BODY"
      condition test bodyLabel
        (if next.exists then armLabel number (arm + 1) else endLabel) false
      label bodyLabel
      inScope .elifArm "" (statements body)
      if next.exists then
        emit (.jump endLabel none)
      branch number (arm + 1) endLabel next

/-- Lower statements in order; a failure without a line gets that of its statement. -/
def statements : List Stmt → Lower Unit
  | [] => pure ()
  | first :: rest => do
      atLine first.line (statement first)
      statements rest

end

end IlsCompiler.Lower
