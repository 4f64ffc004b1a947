import IlsCompiler.Ty
import IlsCompiler.Scope.Tree

namespace IlsCompiler

/-!
# Variables of the intermediate code

Every value the intermediate code mentions is a variable with a number. Numbers
start at one and are never used twice; zero stands for no variable. Where a
variable lives is its storage.
-/

/-- The number of a variable; zero is none. -/
abbrev VarId := Nat

/-- What a variable holds: a constant in text form or the value of another variable. -/
inductive Value where
  | literal (text : String)
  | reference (id : VarId)
deriving DecidableEq, Repr, Inhabited

/-- The variable a value refers to. -/
def Value.reference? : Value → Option VarId
  | .literal _ => none
  | .reference id => some id

/-- The constant text of a value; a reference has none. -/
def Value.text : Value → String
  | .literal text => text
  | .reference _ => ""

/-- The name of the function a program starts in. -/
def entryName : String := "main"

/-- What callers of a function know about it. -/
structure Signature where
  name : String
  result : Ty
  params : List VarId
  line : Nat
deriving DecidableEq, Repr, Inhabited

namespace Signature

/-- Whether a function gives no value back. -/
def isVoid (signature : Signature) : Bool :=
  signature.result = .absent || signature.result = .void

/-- Whether a function is where the program starts. -/
def isEntry (signature : Signature) : Bool :=
  signature.name = entryName

end Signature

/-- A call of a builtin or of a function. Calls are told apart by their number. -/
structure Call where
  id : Nat
  name : String
  builtin : Bool
  function : Option Signature
  arguments : List VarId
  line : Nat
deriving DecidableEq, Repr, Inhabited

/--
Where a variable lives. A named variable is global, a parameter or a local; a
temporary lives in a register until it is destroyed; an element is addressed when
it is used; a result is in the return register once its call has happened.
-/
inductive Storage where
  | named (name : String) (isGlobal isParam : Bool) (position scope : Nat)
  | temporary (name : String) (scope : Nat)
  | literal
  | element (array index : VarId)
  | array (element : Ty) (length : Int) (init : String)
  | result (function : Signature) (call : Call)
deriving DecidableEq, Repr, Inhabited

/-- A variable of the intermediate code. -/
structure Variable where
  id : VarId
  type : Ty
  value : Value
  preserved : Bool
  lastUse : Option Nat
  storage : Storage
deriving DecidableEq, Repr, Inhabited

namespace Variable

/-- Whether a variable is destroyed before its scope is left: temporaries and locals are. -/
def needsDestroy (v : Variable) : Bool :=
  match v.storage with
  | .temporary _ _ => true
  | .named _ isGlobal isParam _ _ => !isGlobal && !isParam
  | _ => false

end Variable

end IlsCompiler
