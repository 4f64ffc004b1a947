import IlsCompiler.IR.Dump

namespace IlsCompiler

/-!
# Checks on node sequences

A sequence is in order if every jump has its label, functions are opened and
closed in turn, and every temporary and local is destroyed once, behind its
declaration and its last use.
-/

/-- Something that is out of order in a sequence, with the position of the node. -/
inductive Finding where
  | undefinedLabel (position : Nat) (label : String)
  | nestedPrologue (position : Nat) (function : String)
  | strayEpilogue (position : Nat) (function : String)
  | undeclaredDestroy (position : Nat) (name : String)
  | unterminated
  | neverDestroyed (position : Nat) (name : String)
  | destroyedAgain (position : Nat) (name : String) (count : Nat)
  | usedAfterDestroy (position : Nat) (name : String) (destroyed : Nat)
deriving DecidableEq, Repr

namespace Finding

/-- The words for a finding at a position. -/
def atNode (position : Nat) (text : String) : String :=
  "node " ++ toString position ++ ": " ++ text

/-- The line of a finding. -/
def message : Finding → String
  | .undefinedLabel position label =>
      atNode position ("jump to undefined label " ++ Text.quote label)
  | .nestedPrologue position function =>
      atNode position ("nested prologue in " ++ function)
  | .strayEpilogue position function =>
      atNode position ("epilogue without prologue in " ++ function)
  | .undeclaredDestroy position name =>
      atNode position ("destroy of undeclared " ++ name)
  | .unterminated => "unterminated function at end of sequence"
  | .neverDestroyed position name => atNode position (name ++ " is never destroyed")
  | .destroyedAgain position name count =>
      atNode position (name ++ " destroyed " ++ toString count ++ " times")
  | .usedAfterDestroy position name destroyed =>
      atNode position (name ++ " used after its destroy at node " ++ toString destroyed)

end Finding

/--
What a walk over a sequence has seen: how many functions are open, where variables
were declared and where they were destroyed, the latest first.
-/
structure Walk where
  depth : Nat
  declared : List (VarId × Nat)
  destroyed : List (VarId × Nat)
  findings : List Finding
deriving Repr

namespace Listing

/-- The names of the labels in a sequence. -/
def labelsOf (nodes : List Node) : List String :=
  nodes.filterMap fun node =>
    match node with
    | .label name => some name
    | _ => none

/-- Take one node into account. -/
def visit (listing : Listing) (labels : List String) (walk : Walk) (position : Nat)
    (node : Node) : Walk :=
  match node with
  | .jump label _ =>
      if label ∈ labels then
        walk
      else
        { walk with findings := walk.findings ++ [.undefinedLabel position label] }
  | .prologue function _ =>
      if walk.depth = 0 then
        { walk with depth := 1 }
      else
        { walk with
          depth := walk.depth + 1
          findings := walk.findings ++ [.nestedPrologue position function.name] }
  | .epilogue function =>
      if walk.depth = 0 then
        { walk with findings := walk.findings ++ [.strayEpilogue position function.name] }
      else
        { walk with depth := walk.depth - 1 }
  | .declare id _ =>
      if ((listing.lookup? id).map Variable.needsDestroy).getD false then
        { walk with declared := (id, position) :: walk.declared }
      else
        walk
  | .destroy id =>
      let findings :=
        if (walk.declared.lookup id).isSome then
          walk.findings
        else
          walk.findings ++ [.undeclaredDestroy position (listing.describe id)]
      { walk with destroyed := (id, position) :: walk.destroyed, findings := findings }
  | _ => walk

/-- Walk over a sequence from a position on. -/
def walkFrom (listing : Listing) (labels : List String) : Nat → List Node → Walk → Walk
  | _, [], walk => walk
  | position, node :: rest, walk =>
      walkFrom listing labels (position + 1) rest (listing.visit labels walk position node)

/-- The distinct first components of a table in ascending order. -/
def sortedKeys (table : List (VarId × Nat)) : List VarId :=
  ((table.map fun entry => entry.1).eraseDups).mergeSort

/-- The finding about how often a declared variable is destroyed. -/
def destroyFinding? (listing : Listing) (walk : Walk) (id : VarId) : Option Finding :=
  let position := (walk.declared.lookup id).getD 0
  match walk.destroyed.countP (fun entry => entry.1 == id) with
  | 0 => some (.neverDestroyed position (listing.describe id))
  | 1 => none
  | count => some (.destroyedAgain position (listing.describe id) count)

/-- The finding about a variable that is used behind the place where it is destroyed. -/
def useFinding? (listing : Listing) (lastUse : VarId → Option Nat) (walk : Walk) (id : VarId) :
    Option Finding := do
  let destroyed ← walk.destroyed.lookup id
  let used ← lastUse id
  if destroyed < used then
    some (.usedAfterDestroy used (listing.describe id) destroyed)
  else
    none

/--
Everything that is out of order in a sequence. The function gives the position in
the sequence of a variable's last use, if it is in there.
-/
def findings (listing : Listing) (nodes : List Node) (lastUse : VarId → Option Nat) :
    List Finding :=
  let walk := listing.walkFrom (labelsOf nodes) 0 nodes ⟨0, [], [], []⟩
  walk.findings ++
    (if walk.depth = 0 then [] else [.unterminated]) ++
    (sortedKeys walk.declared).filterMap (listing.destroyFinding? walk) ++
    (sortedKeys walk.destroyed).filterMap (listing.useFinding? lastUse walk)

/-- Where the last use of a variable is in the listing. -/
def lastUse (listing : Listing) (id : VarId) : Option Nat :=
  (listing.lookup? id).bind fun v => v.lastUse

/-- Findings as a failure, one a line. -/
def failureOf? (found : List Finding) : Option Failure :=
  if found.isEmpty then
    none
  else
    some (.plain (Bytes.ofString ("\n".intercalate (found.map Finding.message))))

/-- What is out of order in the nodes of a listing. -/
def validate? (listing : Listing) : Option Failure :=
  failureOf? (listing.findings listing.nodes.toList listing.lastUse)

end Listing

end IlsCompiler
