import IlsCompiler.IR.Validate

namespace IlsCompiler

/-!
# Pruning

Functions that nothing calls are left out, the entry function apart. A call counts
wherever it stands in the listing, also in the body of a function that is itself
left out.
-/

namespace Listing

/-- The function whose pending result a variable is. -/
def resultOf? (listing : Listing) (id : VarId) : Option String :=
  match listing.lookup? id with
  | some { storage := .result function _, .. } => some function.name
  | _ => none

/-- The functions that a value refers to the result of. -/
def valueTargets (listing : Listing) (value : Value) : List String :=
  match value.reference? with
  | some id => (listing.resultOf? id).toList
  | none => []

/-- The functions that a node calls. -/
def nodeTargets (listing : Listing) (node : Node) : List String :=
  let direct :=
    match node with
    | .call invoked => if invoked.builtin then [] else [invoked.name]
    | .declare id _ =>
        ((listing.lookup? id).map fun v => listing.valueTargets v.value).getD []
    | .assign _ value _ _ _ => listing.valueTargets value
    | _ => []
  direct ++ node.operands.filterMap listing.resultOf?

/-- The functions that nodes call, each once. -/
def callTargets (listing : Listing) (nodes : List Node) : List String :=
  (nodes.flatMap listing.nodeTargets).eraseDups

/-- The functions that are left out, in the order of declaration. -/
def unusedFunctions (listing : Listing) : List Function :=
  let called := listing.callTargets listing.nodes.toList
  listing.functions.filter fun function =>
    !function.signature.isEntry && !called.contains function.signature.name

end Listing

/-- The nodes that remain, where they stood in the listing, and the functions left out. -/
structure Pruned where
  nodes : List Node
  positions : List Nat
  removed : List String
deriving Repr

namespace Pruned

/-- All nodes of a listing. -/
def whole (listing : Listing) : Pruned :=
  { nodes := listing.nodes.toList, positions := List.range listing.nodes.size, removed := [] }

/-- The nodes of a listing outside unused functions. -/
def ofListing (listing : Listing) : Pruned :=
  let unused := listing.unusedFunctions
  let kept := listing.nodes.toList.zipIdx.filter fun entry =>
    !unused.any fun function => function.owns entry.2
  { nodes := kept.map fun entry => entry.1
    positions := kept.map fun entry => entry.2
    removed := unused.map fun function => function.signature.name }

/-- Where the last use of a variable is among the nodes that remain. -/
def lastUse (pruned : Pruned) (listing : Listing) (id : VarId) : Option Nat :=
  (listing.lastUse id).bind fun position => pruned.positions.idxOf? position

/-- What is out of order in the nodes that remain. -/
def validate? (pruned : Pruned) (listing : Listing) : Option Failure :=
  Listing.failureOf? (listing.findings pruned.nodes (pruned.lastUse listing))

end Pruned

end IlsCompiler
