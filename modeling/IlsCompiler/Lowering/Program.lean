import IlsCompiler.Lowering.Statement

namespace IlsCompiler

/-!
# Lowering of programs

Global variables are lowered first, then every function is declared, and then the
bodies follow in source order. Before each body lowering can be interrupted.
-/

mutual

/-- How many variables a statement declares, inner statements included. -/
def Stmt.declarations : Stmt → Nat
  | .block _ body => declarationsIn body
  | .declare _ _ _ _ => 1
  | .function _ _ _ _ _ _ => 0
  | .assign _ _ _ _ => 0
  | .call _ _ _ _ _ => 0
  | .leave _ _ => 0
  | .choose _ _ _ body next => declarationsIn body + next.declarations
  | .loop _ _ _ body => declarationsIn body
  | .exit _ => 0

/-- How many variables the arms behind the first declare. -/
def Branch.declarations : Branch → Nat
  | .none => 0
  | .elif _ _ _ body next => declarationsIn body + next.declarations
  | .otherwise _ _ body => declarationsIn body

/-- How many variables a list of statements declares. -/
def declarationsIn : List Stmt → Nat
  | [] => 0
  | first :: rest => first.declarations + declarationsIn rest

end

namespace Lower

/-- Lower the global variables among module statements. -/
def moduleVariables : List Stmt → Lower Unit
  | [] => pure ()
  | .declare line name type initial :: rest => do
      declare line name type initial
      moduleVariables rest
  | _ :: rest => moduleVariables rest

/-- Create the variables of parameters, numbered by position. -/
def parameters : Nat → List Param → Lower (List VarId)
  | _, [] => return []
  | position, param :: rest => do
      if param.type.isArray ∨ param.type = .void then
        fail (.parameterType param.name param.type) param.line
      let id ← onListing fun listing =>
        listing.addNamed param.name param.type (.literal "") false true position 0
      let others ← parameters (position + 1) rest
      return id :: others

/-- Declare a function. -/
def declareFunction (line : Nat) (name : String) (params : List Param) (result : Ty) :
    Lower Unit := do
  let ids ← parameters 0 params
  let signature : Signature :=
    { name := name, result := if result = .absent then .void else result, params := ids,
      line := line }
  if signature.isEntry && !ids.isEmpty then
    fail .entryParameters line
  if ((← get).listing.function? name).isSome then
    fail (.duplicateFunction name) line
  modify fun state =>
    { state with
      listing := { state.listing with
        functions := state.listing.functions ++
          [{ signature := signature, calls := 0, scope := none, firstNode := 0,
             nodeCount := 0 }] } }

/-- Declare the functions among module statements. -/
def moduleFunctions : List Stmt → Lower Unit
  | [] => pure ()
  | .function line name params result _ _ :: rest => do
      declareFunction line name params result
      moduleFunctions rest
  | _ :: rest => moduleFunctions rest

/-- Bind the parameters of a function in its scope. -/
def bindParameters (scope line : Nat) : List VarId → Lower Unit
  | [] => pure ()
  | id :: rest => do
      let listing := (← get).listing
      match listing.lookup? id with
      | some { storage := .named name isGlobal isParam position _, .. } =>
          let placed := listing.modifyVariable id fun v =>
            { v with storage := .named name isGlobal isParam position scope }
          match placed.scopes.declare scope name id with
          | .error fault => throw (fault.failure line)
          | .ok (scopes, _, _) =>
              modify fun state => { state with listing := { placed with scopes := scopes } }
      | _ => pure ()
      bindParameters scope line rest

/-- Lower the body of a function. -/
def functionBody (function : Signature) (body : List Stmt) : Lower Unit := do
  modify fun state => { state with function := some function }
  emit (.entry function)
  let opened ← openScope .function ""
  modify fun state =>
    { state with
      listing := state.listing.modifyFunction function.name fun lowered =>
        { lowered with scope := some opened.scope } }
  emit (.prologue function (declarationsIn body))
  label opened.startLabel
  emit (.openScope opened.scope .function)
  bindParameters opened.scope function.line function.params
  statements body
  closeScope
  emit (.epilogue function)
  emit (.closeScope opened.scope .function true)
  popFrame
  modify fun state => { state with function := none }

/-- Lower everything in front of the bodies. -/
def declarations (program : Program) : Lower Unit := do
  moduleVariables program.statements
  moduleFunctions program.statements
  if ((← get).listing.function? entryName).isNone then
    fail .missingEntry 0

end Lower

/-- The outcome of lowering: the functions it got to, and the listing or why there is none. -/
structure Lowering where
  started : List String
  result : Except Failure Listing

namespace Lowering

/--
Lower the bodies among module statements. The bodies that come first have the given
numbers, and each is begun only if lowering is not interrupted there.
-/
def bodies (interrupted : Nat → Bool) :
    Nat → List Stmt → LoweringState → List String × Except Failure LoweringState
  | _, [], state => ([], .ok state)
  | number, .declare _ _ _ _ :: rest, state => bodies interrupted number rest state
  | number, .function _ name _ _ _ body :: rest, state =>
      if interrupted number then
        ([], .error .cancelled)
      else
        match state.listing.function? name with
        | none => ([], .error ((LoweringFault.undeclaredFunction name).failure 0))
        | some function =>
            match Lower.functionBody function.signature body state with
            | .error failure =>
                ([name], .error (failure.wrap (Bytes.ofString ("function " ++ name ++ ": "))))
            | .ok (_, after) =>
                let (started, result) := bodies interrupted (number + 1) rest after
                (name :: started, result)
  | _, other :: _, _ => ([], .error (LoweringFault.moduleStatement.failure other.line))

/-- Lower a program; the predicate says before which bodies lowering is interrupted. -/
def ofProgram (program : Program) (interrupted : Nat → Bool) : Lowering :=
  match Lower.declarations program (Lower.start program.file) with
  | .error failure => { started := [], result := .error (failure.inFile program.file) }
  | .ok (_, state) =>
      let (started, result) := bodies interrupted 0 program.statements state
      match result with
      | .error failure => { started := started, result := .error (failure.inFile program.file) }
      | .ok final => { started := started, result := .ok final.listing }

end Lowering

/-- The listing of a program, or the first fault. -/
def Program.lower (program : Program) : Except Failure Listing :=
  (Lowering.ofProgram program fun _ => false).result

end IlsCompiler
