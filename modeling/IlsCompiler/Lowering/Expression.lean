import IlsCompiler.Lowering.State

namespace IlsCompiler.Lower

/-!
# Lowering of expressions

An expression becomes nodes that compute it and the variable that holds its value.
Constant arithmetic is folded; every other operation gets a temporary, and
temporaries used up as operands are destroyed right behind it.
-/

/-- The named variable a name refers to. -/
def resolve (name : String) (line : Nat) : Lower Variable := do
  let state ← get
  let scope := (← frame).scope
  match state.listing.scopes.resolve scope name with
  | .error fault => throw (fault.failure line)
  | .ok id =>
      match state.listing.lookup? id with
      | some v =>
          match v.storage with
          | .named _ _ _ _ _ => return v
          | _ => fail (.notVariable name) line
      | none => fail (.notVariable name) line

/-- Create a constant variable. -/
def newLiteral (value : Literal) : Lower VarId :=
  match value with
  | .scalar type text => onListing fun listing => listing.addLiteral type (Bytes.ofString text)
  | .string contents => onListing fun listing => listing.addLiteral .str contents

/-- Create an integer constant. -/
def newInteger (value : Int) : Lower VarId :=
  newLiteral (.scalar .int (toString value))

/-- Whether a constant index lies outside an array. -/
def indexOutside (text : String) (length : Int) : Bool :=
  match Text.integer? 64 text with
  | none => true
  | some position => position < 0 || length ≤ position

/-- The access to an element whose index has been lowered. -/
def element (array : Variable) (index : VarId) (line : Nat) : Lower VarId := do
  let indexType ← typeOf index
  if !indexType.isArithmetic then
    fail (.indexType indexType) line
  match ← find? index with
  | some { storage := .literal, value := value, .. } =>
      if indexOutside value.text array.type.length then
        fail (.indexRange value.text array.type) line
  | _ => pure ()
  let position ← materialize index line
  onListing fun listing => listing.addElement array.id position

/-- Fail unless a variable is an array. -/
def requireArray (array : Variable) (name : String) (line : Nat) : Lower Unit :=
  if array.type.isArray then
    pure ()
  else
    fail (.notArray name) line

/-- Fail unless a variable can be an operand of an arithmetic operator. -/
def requireArithmetic (op : ArithOp) (id : VarId) (line : Nat) : Lower Unit := do
  let type ← typeOf id
  if !type.isArithmetic then
    fail (.operandType op type) line

/-- The operation on two operands that have been lowered. -/
def operation (op : ArithOp) (left right : VarId) (line : Nat) : Lower VarId := do
  requireArithmetic op left line
  requireArithmetic op right line
  let leftOperand ← materialize left line
  let rightOperand ← materialize right line
  let result ← newTemporary .int (.literal "0") true line
  emit (.arith result leftOperand rightOperand op line)
  destroy leftOperand
  destroy rightOperand
  return result

/-- An argument of a call: variables and elements are copied, so that a call has its own. -/
def argument (function : String) (id : VarId) (line : Nat) : Lower VarId := do
  match ← find? id with
  | some v =>
      match v.storage with
      | .named _ _ _ _ _ | .element _ _ =>
          if v.type.isArray then
            fail (.arrayArgument function) line
          newTemporary v.type (.reference id) false line
      | .result _ _ => materialize id line
      | _ => return id
  | none => return id

/-- Fail unless an argument can be stored in its parameter. -/
def requireAssignable (wanted : Ty) (id : VarId) (line : Nat) : Lower Unit := do
  let given ← typeOf id
  match assignable wanted given line with
  | .ok () => pure ()
  | .error failure => throw failure

/-- Fail unless every argument can be stored in its parameter. -/
def requireParameters : List VarId → List VarId → Nat → Lower Unit
  | param :: params, given :: rest, line => do
      requireAssignable (← typeOf param) given line
      requireParameters params rest line
  | _, _, _ => pure ()

/-- A call to a declared function with its arguments lowered; a void call has no value. -/
def invoke (function : Signature) (arguments : List VarId) (line : Nat) (isStatement : Bool) :
    Lower (Option VarId) := do
  requireParameters function.params arguments line
  let call ← onListing fun listing =>
    let counted := listing.modifyFunction function.name fun called =>
      { called with calls := called.calls + 1 }
    ({ counted with callCount := listing.callCount + 1 },
      ({ id := listing.callCount, name := function.name, builtin := false,
         function := some function, arguments := arguments, line := line } : Call))
  if function.isVoid then
    modify fun state =>
      { state with
        listing := arguments.foldl (fun listing id =>
          listing.modifyVariable id fun v => { v with preserved := true }) state.listing }
    emit (.call call)
    return none
  else
    let result ← onListing fun listing => listing.addResult function call
    if isStatement then
      emit (.call call)
    return some result

/-- A call to a builtin with its arguments lowered. -/
def invokeBuiltin (builtin : Builtin) (arguments : List VarId) (line : Nat) : Lower Unit := do
  arguments.forM fun id => do
    let type ← typeOf id
    if !builtin.accepts type then
      fail (.builtinArgument builtin.name type) line
  let call ← onListing fun listing =>
    ({ listing with callCount := listing.callCount + 1 },
      ({ id := listing.callCount, name := builtin.name, builtin := true, function := none,
         arguments := arguments, line := line } : Call))
  emit (.call call)

/-- The builtin a call names, if it is given as many arguments as it takes. -/
def findBuiltin (name : String) (given line : Nat) : Lower Builtin := do
  match Builtin.ofName? name with
  | none => fail (.unknownBuiltin name) line
  | some builtin =>
      if given ≠ builtin.arity then
        fail (.arity (Builtin.sigil ++ builtin.name) builtin.arity given) line
      return builtin

/-- The function a call names, if it is given as many arguments as it takes. -/
def findFunction (name : String) (given line : Nat) : Lower Signature := do
  match (← get).listing.function? name with
  | none => fail (.undeclaredFunction name) line
  | some function =>
      let signature := function.signature
      if given ≠ signature.params.length then
        fail (.arity signature.name signature.params.length given) line
      return signature

/-- Insist that an expression gave a value. -/
def require (result : Option VarId) (line : Nat) : Lower VarId :=
  match result with
  | some id => pure id
  | none => fail .noValue line

mutual

/-- Lower an expression; a call without a result gives no variable. -/
def expression : Expr → Lower (Option VarId)
  | .missing => fail .missingExpression 0
  | .name line name => do
      return some (← resolve name line).id
  | .literal _ value => do
      return some (← newLiteral value)
  | .binary line op left right => do
      if (Expr.binary line op left right).isConstant then
        match (Expr.binary line op left right).evaluate with
        | .error failure => throw failure
        | .ok value => return some (← newInteger value)
      else
        let leftValue ← require (← expression left) left.line
        let rightValue ← require (← expression right) right.line
        return some (← operation op leftValue rightValue line)
  | .element line name index => do
      let array ← resolve name line
      requireArray array name line
      let position ← require (← expression index) index.line
      return some (← element array position line)
  | .array line _ => fail .arrayLiteral line
  | .call line name builtin given => do
      if builtin then
        let known ← findBuiltin name given.length line
        let lowered ← arguments name line given
        invokeBuiltin known lowered line
        return none
      else
        let function ← findFunction name given.length line
        let lowered ← arguments name line given
        invoke function lowered line false

/-- Lower the arguments of a call from left to right. -/
def arguments (function : String) (line : Nat) : List Expr → Lower (List VarId)
  | [] => return []
  | first :: rest => do
      let value ← require (← expression first) first.line
      let copied ← argument function value line
      let others ← arguments function line rest
      return copied :: others

end

/-- Lower an expression that must have a value. -/
def value (expr : Expr) : Lower VarId := do
  require (← expression expr) expr.line

/-- Lower an access to an element of a variable. -/
def elementOf (array : Variable) (name : String) (index : Expr) (line : Nat) : Lower VarId := do
  requireArray array name line
  let position ← value index
  element array position line

/-- Lower a call that stands as a statement. -/
def callStatement (line : Nat) (name : String) (builtin : Bool) (given : List Expr) :
    Lower Unit := do
  if builtin then
    let known ← findBuiltin name given.length line
    let lowered ← arguments name line given
    invokeBuiltin known lowered line
  else
    let function ← findFunction name given.length line
    let lowered ← arguments name line given
    let _ ← invoke function lowered line true

end IlsCompiler.Lower
