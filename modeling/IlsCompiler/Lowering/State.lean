import IlsCompiler.Lowering.Fault
import IlsCompiler.Program.Constant

namespace IlsCompiler

/-!
# The state of lowering

Lowering walks a program tree and appends nodes to a listing. Beside the listing
it keeps the function it is in and, for each open scope, the labels of the scope
and the variables that are to be destroyed when it is left.
-/

/-- What lowering keeps for an open scope. -/
structure Frame where
  scope : Nat
  kind : Scope.Kind
  startLabel : String
  endLabel : String
  exitLabel : String
  temporaries : List VarId
  locals : List VarId
deriving DecidableEq, Repr, Inhabited

/-- The frame of the module scope. -/
def Frame.outermost : Frame :=
  { scope := 0, kind := .plain, startLabel := "", endLabel := "", exitLabel := "",
    temporaries := [], locals := [] }

/-- The listing so far, the current function, and the open scopes from the inside out. -/
structure LoweringState where
  listing : Listing
  function : Option Signature
  frames : List Frame
deriving Inhabited

/-- A step of lowering: it changes the state or fails. -/
abbrev Lower := StateT LoweringState (Except Failure)

namespace Lower

/-- The state before a file is lowered. -/
def start (file : String) : LoweringState :=
  { listing := .empty file, function := none, frames := [.outermost] }

/-- Fail with a fault on a line. -/
def fail (fault : LoweringFault) (line : Nat) : Lower α :=
  throw (fault.failure line)

/-- Run a step; a failure in it that has no line gets the given one. -/
def atLine (line : Nat) (step : Lower α) : Lower α :=
  fun state =>
    match step state with
    | .ok result => .ok result
    | .error failure => .error (failure.atLine line)

/-- Apply a change of the listing that gives a result. -/
def onListing (change : Listing → Listing × α) : Lower α :=
  fun state =>
    let (listing, result) := change state.listing
    .ok (result, { state with listing := listing })

/-- The innermost open scope. -/
def frame : Lower Frame := do
  return (← get).frames.headD .outermost

/-- Change the innermost open scope. -/
def modifyFrame (change : Frame → Frame) : Lower Unit :=
  modify fun state => { state with frames := state.frames.modifyHead change }

/-- The variable with a number. -/
def find? (id : VarId) : Lower (Option Variable) := do
  return (← get).listing.lookup? id

/-- The type of a variable. -/
def typeOf (id : VarId) : Lower Ty := do
  return ((← find? id).map fun v => v.type).getD .absent

/-- Record that the node at a position is the last use so far of its operands. -/
def recordUses (listing : Listing) (position : Nat) (operands : List VarId) : Listing :=
  operands.foldl (fun current id =>
    current.modifyVariable id fun v => { v with lastUse := some position }) listing

/-- Append a node to a listing, counting it to the function it belongs to. -/
def appendNode (function : Option Signature) (listing : Listing) (node : Node) : Listing :=
  let position := listing.nodes.size
  let appended := { listing with nodes := listing.nodes.push node }
  let counted :=
    match function with
    | none => appended
    | some signature =>
        appended.modifyFunction signature.name fun owner =>
          { owner with
            firstNode := if owner.nodeCount = 0 then position else owner.firstNode
            nodeCount := owner.nodeCount + 1 }
  recordUses counted position node.operands

/-- Append a node. -/
def emit (node : Node) : Lower Unit :=
  modify fun state =>
    { state with listing := appendNode state.function state.listing node }

/-- Declare a label and append it. -/
def label (name : String) : Lower Unit := do
  let listing := (← get).listing
  if name ∈ listing.labels then
    fail (.duplicateLabel name) 0
  modify fun state =>
    { state with listing := { state.listing with labels := state.listing.labels ++ [name] } }
  emit (.label name)

/-- The next number for the labels of a choice or loop. -/
def nextLabelNumber : Lower Nat :=
  onListing fun listing =>
    ({ listing with labelCount := listing.labelCount + 1 }, listing.labelCount)

/-- Enter a text in the string table. -/
def intern (text : Bytes) : Lower String :=
  onListing fun listing =>
    let (strings, symbol) := listing.strings.intern text
    ({ listing with strings := strings }, symbol)

/-- Create a temporary in the current scope and declare it. -/
def newTemporary (type : Ty) (value : Value) (isResult : Bool) (line : Nat) : Lower VarId := do
  let scope := (← frame).scope
  let id ← onListing fun listing => listing.addTemporary type value isResult scope
  modifyFrame fun current => { current with temporaries := current.temporaries ++ [id] }
  emit (.declare id line)
  return id

/-- Destroy an operand at once if it is a temporary that is still pending. -/
def destroy (id : VarId) : Lower Unit := do
  let pending := (← get).frames.any fun open_ => id ∈ open_.temporaries
  if pending then
    modify fun state =>
      { state with
        frames := state.frames.map fun open_ =>
          { open_ with temporaries := open_.temporaries.erase id } }
    emit (.destroy id)

/-- Destroy variables in order. -/
def destroyAll (ids : List VarId) : Lower Unit :=
  ids.forM fun id => emit (.destroy id)

/-- Copy a pending call result into a temporary, so that a later call cannot overwrite it. -/
def materialize (id : VarId) (line : Nat) : Lower VarId := do
  match ← find? id with
  | some { storage := .result _ _, type := type, .. } =>
      newTemporary type (.reference id) false line
  | _ => return id

/-- Whether a value can be stored where a type is wanted; integers and characters mix freely. -/
def assignable (wanted given : Ty) (line : Nat) : Except Failure Unit :=
  if given = .absent ∨ given = .void then
    .error ((LoweringFault.voidValue wanted).failure line)
  else if wanted = given ∨ (wanted.isArithmetic ∧ given.isArithmetic) then
    .ok ()
  else
    .error ((LoweringFault.wrongType given wanted).failure line)

/-- The value a declaration or assignment stores: a constant is copied, all else referred to. -/
def bound (v : Variable) : Value :=
  match v.storage with
  | .literal => .literal v.value.text
  | .array _ _ init => .literal init
  | _ => .reference v.id

/-- The type of a stored value; a reference is marked as such. -/
def boundType (v : Variable) : Ty :=
  match v.storage with
  | .literal => v.type
  | .array _ _ _ => v.type
  | _ => .ident

/-- The labels at the start and end of a scope; those of the entry function are fixed. -/
def scopeLabels (kind : Scope.Kind) (scope : Nat) (function : Option Signature) :
    String × String :=
  if kind = .function ∧ (function.map Signature.isEntry).getD false then
    ("FUNC_MAIN_START", "FUNC_MAIN_END")
  else
    (kind.label ++ "_" ++ toString scope ++ "_START",
      kind.label ++ "_" ++ toString scope ++ "_END")

/-- Open a scope under the current one. -/
def openScope (kind : Scope.Kind) (exitLabel : String) : Lower Frame := do
  let parent := (← frame).scope
  let scope ← onListing fun listing =>
    let (scopes, id) := listing.scopes.addChild parent kind
    ({ listing with scopes := scopes }, id)
  let (startLabel, endLabel) := scopeLabels kind scope (← get).function
  let opened : Frame :=
    { scope := scope, kind := kind, startLabel := startLabel, endLabel := endLabel,
      exitLabel := exitLabel, temporaries := [], locals := [] }
  modify fun state => { state with frames := opened :: state.frames }
  return opened

/-- Close the current scope: destroy what it still holds, temporaries first, and label its end. -/
def closeScope : Lower Unit := do
  let current ← frame
  destroyAll current.temporaries
  destroyAll current.locals
  label current.endLabel

/-- Forget the innermost open scope. -/
def popFrame : Lower Unit :=
  modify fun state => { state with frames := state.frames.tail }

/-- Lower a body inside a new scope of the current one. -/
def inScope (kind : Scope.Kind) (exitLabel : String) (body : Lower Unit) : Lower Unit := do
  let opened ← openScope kind exitLabel
  label opened.startLabel
  emit (.openScope opened.scope kind)
  body
  closeScope
  popFrame

end Lower

end IlsCompiler
