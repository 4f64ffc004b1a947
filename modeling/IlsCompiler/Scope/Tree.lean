import IlsCompiler.Diagnostic.Failure
import IlsCompiler.Text.Quoted

namespace IlsCompiler

/-!
# Scopes

The scopes of a file form a tree. Scope zero is the module scope, every other
scope has a parent with a lower number. A scope binds names to references; a name
is looked up along the chain of parents and then in the table of module names.
-/

namespace Scope

/-- What opened a scope. -/
inductive Kind where
  | plain
  | ifArm
  | elifArm
  | elseArm
  | loop
  | function
deriving DecidableEq, Repr, Inhabited

namespace Kind

/-- All kinds. -/
def all : List Kind := [.plain, .ifArm, .elifArm, .elseArm, .loop, .function]

/-- The word that starts the labels of a scope. -/
def label : Kind → String
  | .plain => "SCOPE"
  | .ifArm => "IF"
  | .elifArm => "ELIF"
  | .elseArm => "ELSE"
  | .loop => "LOOP"
  | .function => "FUNC"

/-- The name of a kind. -/
def name : Kind → String
  | .plain => "default"
  | .ifArm => "if"
  | .elifArm => "elif"
  | .elseArm => "else"
  | .loop => "loop"
  | .function => "function"

/-- The kind with a name; other names stand for the plain kind. -/
def ofName (name : String) : Kind :=
  (all.find? fun kind => kind.name == name).getD .plain

/-- Whether a scope is one arm of a choice. -/
def isArm : Kind → Bool
  | .ifArm | .elifArm | .elseArm => true
  | _ => false

end Kind

end Scope

/-- One scope: what opened it, where it hangs, and its bindings in the order of declaration. -/
structure Scope where
  kind : Scope.Kind
  parent : Option Nat
  children : List Nat
  bindings : List (String × Nat)
deriving DecidableEq, Repr, Inhabited

namespace Scope

/-- A scope without children or bindings. -/
def fresh (kind : Kind) (parent : Option Nat) : Scope :=
  { kind := kind, parent := parent, children := [], bindings := [] }

/-- The names a scope itself binds. -/
def names (scope : Scope) : List String :=
  scope.bindings.map fun binding => binding.1

end Scope

/-- What can be wrong with a name. -/
inductive ScopeFault where
  | duplicate (name : String)
  | undeclared (name : String)
deriving DecidableEq, Repr

namespace ScopeFault

/-- The code of a scope fault. -/
def code : ScopeFault → Code
  | .duplicate _ => .duplicateVariable
  | .undeclared _ => .undeclaredVariable

/-- The message of a scope fault. -/
def message : ScopeFault → String
  | .duplicate name => "variable " ++ Text.quote name ++ " is already declared"
  | .undeclared name => "variable " ++ Text.quote name ++ " is not declared"

/-- A scope fault on a line. -/
def failure (fault : ScopeFault) (line : Nat) : Failure :=
  .report fault.code line fault.message

end ScopeFault

/-- The scopes of a file by number, and the table of module names. -/
structure ScopeTree where
  scopes : List Scope
  moduleNames : List (String × Nat)
deriving DecidableEq, Repr, Inhabited

namespace ScopeTree

/-- A tree that holds only the module scope. -/
def empty : ScopeTree :=
  { scopes := [.fresh .plain none], moduleNames := [] }

/-- The scope with a number. -/
def get? (tree : ScopeTree) (id : Nat) : Option Scope :=
  tree.scopes[id]?

/-- How many scopes there are. -/
def size (tree : ScopeTree) : Nat :=
  tree.scopes.length

/-- Open a scope under a parent; its number is the next free one. -/
def addChild (tree : ScopeTree) (parent : Nat) (kind : Scope.Kind) : ScopeTree × Nat :=
  let id := tree.size
  let linked := tree.scopes.modify parent fun scope =>
    { scope with children := scope.children ++ [id] }
  ({ tree with scopes := linked ++ [.fresh kind (some parent)] }, id)

/-- A scope and its ancestors from the inside out, at most the given number of them. -/
def chainWithin (tree : ScopeTree) : Nat → Nat → List (Nat × Scope)
  | 0, _ => []
  | count + 1, id =>
      match tree.get? id with
      | none => []
      | some scope =>
          match scope.parent with
          | none => [(id, scope)]
          | some parent => (id, scope) :: chainWithin tree count parent

/-- A scope and its ancestors from the inside out. -/
def chain (tree : ScopeTree) (id : Nat) : List (Nat × Scope) :=
  tree.chainWithin tree.size id

/-- The binding of a name that a scope sees. -/
def lookup? (tree : ScopeTree) (id : Nat) (name : String) : Option Nat :=
  match (tree.chain id).findSome? fun entry => entry.2.bindings.lookup name with
  | some reference => some reference
  | none => tree.moduleNames.lookup name

/-- The binding of a name in a scope itself. -/
def local? (tree : ScopeTree) (id : Nat) (name : String) : Option Nat :=
  (tree.get? id).bind fun scope => scope.bindings.lookup name

/-- Whether a scope is the module scope. -/
def isModule (tree : ScopeTree) (id : Nat) : Bool :=
  match tree.get? id with
  | some scope => scope.parent.isNone
  | none => false

/-- Add a binding to a scope. -/
def bind (tree : ScopeTree) (id : Nat) (name : String) (reference : Nat) : ScopeTree :=
  { tree with
    scopes := tree.scopes.modify id fun scope =>
      { scope with bindings := scope.bindings ++ [(name, reference)] } }

/--
Declare a name. In the module scope the first declaration wins and later ones say
so; in any other scope a name that is already visible cannot be declared again.
-/
def declare (tree : ScopeTree) (id : Nat) (name : String) (reference : Nat) :
    Except ScopeFault (ScopeTree × Nat × Bool) :=
  if tree.isModule id then
    match tree.moduleNames.lookup name with
    | some first => .ok (tree, first, false)
    | none =>
        let bound := tree.bind id name reference
        .ok ({ bound with moduleNames := tree.moduleNames ++ [(name, reference)] },
          reference, true)
  else
    match tree.lookup? id name with
    | some _ => .error (.duplicate name)
    | none => .ok (tree.bind id name reference, reference, true)

/-- The binding of a name that a scope sees, or that there is none. -/
def resolve (tree : ScopeTree) (id : Nat) (name : String) : Except ScopeFault Nat :=
  match tree.lookup? id name with
  | some reference => .ok reference
  | none => .error (.undeclared name)

/-- Whether a name is in the table of module names. -/
def isModuleName (tree : ScopeTree) (name : String) : Bool :=
  (tree.moduleNames.lookup name).isSome

/-- Every name a scope sees, its own first and each once. -/
def visible (tree : ScopeTree) (id : Nat) : List String :=
  ((tree.chain id).flatMap fun entry => entry.2.names).eraseDups

/-- The first scope of a kind from the inside out; the search does not leave a function. -/
def enclosingIn? (kind : Scope.Kind) : List (Nat × Scope) → Option Nat
  | [] => none
  | (id, scope) :: rest =>
      if scope.kind = kind then
        some id
      else if scope.kind = .function then
        none
      else
        enclosingIn? kind rest

/-- The innermost scope of a kind around a scope, itself included, within its function. -/
def enclosing? (tree : ScopeTree) (id : Nat) (kind : Scope.Kind) : Option Nat :=
  enclosingIn? kind (tree.chain id)

end ScopeTree

end IlsCompiler
