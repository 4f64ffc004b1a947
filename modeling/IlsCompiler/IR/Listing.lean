import IlsCompiler.IR.Variable
import IlsCompiler.Program.Operator
import IlsCompiler.StringTable

namespace IlsCompiler

/-!
# Listings

A listing is the intermediate code of one file: its nodes in order together with
the variables, functions, scopes, labels and strings they mention.
-/

/-- One step of the intermediate code. -/
inductive Node where
  | label (name : String)
  | entry (function : Signature)
  | prologue (function : Signature) (locals : Nat)
  | epilogue (function : Signature)
  | openScope (scope : Nat) (kind : Scope.Kind)
  | closeScope (scope : Nat) (kind : Scope.Kind) (endsFunction : Bool)
  | declare (id : VarId) (line : Nat)
  | assign (target : VarId) (value : Value) (type : Ty) (element : VarId) (line : Nat)
  | arith (result left right : VarId) (op : ArithOp) (line : Nat)
  | compare (left right : VarId) (line : Nat)
  | jump (label : String) (condition : Option CmpOp)
  | call (call : Call)
  | leave (value : VarId) (line : Nat)
  | destroy (id : VarId)
deriving DecidableEq, Repr, Inhabited

namespace Node

/-- The variables a node reads or writes itself; references in values are not followed. -/
def operands : Node → List VarId
  | .declare id _ => [id]
  | .assign target _ _ element _ => if element = 0 then [target] else [target, element]
  | .arith result left right _ _ => [result, left, right]
  | .compare left right _ => [left, right]
  | .call invoked => invoked.arguments
  | .leave value _ => if value = 0 then [] else [value]
  | _ => []

end Node

/-- A declared function: its signature, how often it is called, and where its nodes are. -/
structure Function where
  signature : Signature
  calls : Nat
  scope : Option Nat
  firstNode : Nat
  nodeCount : Nat
deriving DecidableEq, Repr, Inhabited

/-- Whether the node at a position belongs to a function. -/
def Function.owns (function : Function) (position : Nat) : Bool :=
  function.firstNode ≤ position && position < function.firstNode + function.nodeCount

/-- The intermediate code of one file. -/
structure Listing where
  file : String
  scopes : ScopeTree
  strings : StringTable
  nodes : Array Node
  vars : Array Variable
  functions : List Function
  globals : List VarId
  labels : List String
  labelCount : Nat
  callCount : Nat
deriving Inhabited

namespace Listing

/-- The listing of a file in which nothing has been lowered. -/
def empty (file : String) : Listing :=
  { file := file, scopes := .empty, strings := .empty, nodes := #[], vars := #[],
    functions := [], globals := [], labels := [], labelCount := 0, callCount := 0 }

/-- The variable with a number. -/
def lookup? (listing : Listing) (id : VarId) : Option Variable :=
  if id = 0 then
    none
  else
    listing.vars[id - 1]?

/-- The declared function with a name. -/
def function? (listing : Listing) (name : String) : Option Function :=
  listing.functions.find? fun function => function.signature.name == name

/-- Add a variable; its number is the next free one. -/
def addVariable (listing : Listing) (type : Ty) (value : Value) (storage : VarId → Storage) :
    Listing × VarId :=
  let id := listing.vars.size + 1
  let added : Variable :=
    { id := id, type := type, value := value, preserved := false, lastUse := none,
      storage := storage id }
  ({ listing with vars := listing.vars.push added }, id)

/-- Change the variable with a number. -/
def modifyVariable (listing : Listing) (id : VarId) (change : Variable → Variable) : Listing :=
  if id = 0 then
    listing
  else
    { listing with vars := listing.vars.modify (id - 1) change }

/-- Change the function with a name. -/
def modifyFunction (listing : Listing) (name : String) (change : Function → Function) : Listing :=
  { listing with
    functions := listing.functions.map fun function =>
      if function.signature.name = name then change function else function }

/-- The name of a new temporary. -/
def temporaryName (isResult : Bool) (id : VarId) : String :=
  (if isResult then "TEMP_OP_RES_" else "TEMP_") ++ toString id

/-- Add a temporary of a scope; results of arithmetic are named apart from copies. -/
def addTemporary (listing : Listing) (type : Ty) (value : Value) (isResult : Bool)
    (scope : Nat) : Listing × VarId :=
  listing.addVariable type value fun id => .temporary (temporaryName isResult id) scope

/-- Add a named variable. -/
def addNamed (listing : Listing) (name : String) (type : Ty) (value : Value)
    (isGlobal isParam : Bool) (position scope : Nat) : Listing × VarId :=
  let (added, id) :=
    listing.addVariable type value fun _ => .named name isGlobal isParam position scope
  (if isGlobal then { added with globals := added.globals ++ [id] } else added, id)

/-- Add a constant; a string is entered in the string table and stands for its symbol. -/
def addLiteral (listing : Listing) (type : Ty) (text : Bytes) : Listing × VarId :=
  if type = .str then
    let (strings, symbol) := listing.strings.intern text
    { listing with strings := strings }.addVariable type (.literal symbol) fun _ => .literal
  else
    listing.addVariable type (.literal text.display) fun _ => .literal

/-- Add an access to an element of an array. -/
def addElement (listing : Listing) (array index : VarId) : Listing × VarId :=
  let type := ((listing.lookup? array).map fun v => v.type.element).getD .absent
  listing.addVariable type (.literal "") fun _ => .element array index

/-- Add a constant array. -/
def addArray (listing : Listing) (element : Ty) (length : Int) (init : String) :
    Listing × VarId :=
  listing.addVariable (.array element length) (.literal init) fun _ =>
    .array element length init

/-- Add the result of a call. -/
def addResult (listing : Listing) (function : Signature) (call : Call) : Listing × VarId :=
  listing.addVariable function.result (.literal "rax") fun _ => .result function call

end Listing

/-- A function the compiler knows by itself, without a body. -/
structure Builtin where
  name : String
  arity : Nat
  newline : Bool
  accepts : Ty → Bool

namespace Builtin

/-- The mark in front of a builtin's name in source text. -/
def sigil : String := "@"

/-- Whether values of a type can be printed. -/
def isPrintable (type : Ty) : Bool :=
  type = .int || type = .str || type = .char || type = .bool

/-- Whether values of a type can be an exit code. -/
def isExitCode (type : Ty) : Bool :=
  type = .int || type = .char || type = .bool

/-- The builtins. -/
def all : List Builtin := [
  { name := "print", arity := 1, newline := false, accepts := isPrintable },
  { name := "println", arity := 1, newline := true, accepts := isPrintable },
  { name := "exit", arity := 1, newline := false, accepts := isExitCode }]

/-- The builtin with a name. -/
def ofName? (name : String) : Option Builtin :=
  all.find? fun builtin => builtin.name == name

end Builtin

end IlsCompiler
