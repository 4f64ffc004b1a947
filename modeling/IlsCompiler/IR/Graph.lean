import IlsCompiler.IR.Dump

namespace IlsCompiler

/-!
# Control flow

The blocks of a node sequence start at its labels. A block ends at the next label,
at a jump that is always taken, or at the end of a function. Edges lead to the
blocks that can run next and carry the condition under which they are taken.
-/

/-- A way from a block to the block of a label. -/
structure Edge where
  target : String
  condition : Option CmpOp
deriving DecidableEq, Repr, Inhabited

/-- The nodes behind a label up to where the block ends. -/
structure Block where
  label : String
  start : Nat
  stop : Nat
  nodes : List Node
  successors : List Edge
  isEntry : Bool
deriving DecidableEq, Repr, Inhabited

/-- Why a sequence has no graph. -/
inductive GraphFault where
  | duplicateLabel (label : String) (position : Nat)
  | undefinedLabel (block label : String)
deriving DecidableEq, Repr

namespace GraphFault

/-- The code of a graph fault. -/
def code : GraphFault → Code
  | .duplicateLabel _ _ => .duplicateLabel
  | .undefinedLabel _ _ => .undefinedLabel

/-- The message of a graph fault. -/
def message : GraphFault → String
  | .duplicateLabel label position =>
      "label " ++ Text.quote label ++ " defined twice (node " ++ toString position ++ ")"
  | .undefinedLabel block label =>
      "block " ++ block ++ ": jump to undefined label " ++ Text.quote label

/-- A graph fault as a failure. -/
def failure (fault : GraphFault) : Failure :=
  .report fault.code 0 fault.message

end GraphFault

/-- The blocks of a sequence in order. -/
structure Graph where
  blocks : List Block
deriving DecidableEq, Repr, Inhabited

namespace Graph

/-- A label that starts a block: its name, its position, and whether it opens a function body. -/
structure Heading where
  label : String
  position : Nat
  isEntry : Bool
  rest : List Node
deriving Repr

/-- The headings of a sequence from a position on. The flag says that a prologue came before. -/
def headings : Nat → Bool → List String → List Node → Except GraphFault (List Heading)
  | _, _, _, [] => .ok []
  | position, afterPrologue, seen, .label name :: rest =>
      if name ∈ seen then
        .error (.duplicateLabel name position)
      else
        match headings (position + 1) false (name :: seen) rest with
        | .error fault => .error fault
        | .ok others =>
            .ok ({ label := name, position := position, isEntry := afterPrologue,
                   rest := rest } :: others)
  | position, _, seen, .prologue _ _ :: rest => headings (position + 1) true seen rest
  | position, _, seen, _ :: rest => headings (position + 1) false seen rest

/-- What a block holds: its nodes, its edges and the position behind it. -/
structure Extent where
  nodes : List Node
  successors : List Edge
  stop : Nat
deriving Repr

/-- Put a node and its edges in front of an extent. -/
def Extent.add (node : Node) (edges : List Edge) (extent : Extent) : Extent :=
  { extent with nodes := node :: extent.nodes, successors := edges ++ extent.successors }

/-- The extent of a block from a position behind its label on. -/
def extent (labels : List String) (block : String) :
    Nat → List Node → Except GraphFault Extent
  | position, [] => .ok ⟨[], [], position⟩
  | position, .label name :: _ => .ok ⟨[], [⟨name, none⟩], position⟩
  | position, .jump label condition :: rest =>
      if label ∈ labels then
        match condition with
        | none => .ok ⟨[.jump label none], [⟨label, none⟩], position + 1⟩
        | some test =>
            match extent labels block (position + 1) rest with
            | .error fault => .error fault
            | .ok others => .ok (others.add (.jump label (some test)) [⟨label, some test⟩])
      else
        .error (.undefinedLabel block label)
  | position, .epilogue function :: .closeScope scope kind endsFunction :: _ =>
      .ok ⟨[.epilogue function, .closeScope scope kind endsFunction], [], position + 2⟩
  | position, .epilogue function :: _ => .ok ⟨[.epilogue function], [], position + 1⟩
  | position, node :: rest =>
      match extent labels block (position + 1) rest with
      | .error fault => .error fault
      | .ok others => .ok (others.add node [])

/-- The blocks of headings in order. -/
def blocksOf (labels : List String) : List Heading → Except GraphFault (List Block)
  | [] => .ok []
  | heading :: rest =>
      match extent labels heading.label (heading.position + 1) heading.rest with
      | .error fault => .error fault
      | .ok found =>
          match blocksOf labels rest with
          | .error fault => .error fault
          | .ok others =>
              .ok ({ label := heading.label, start := heading.position, stop := found.stop,
                     nodes := found.nodes, successors := found.successors,
                     isEntry := heading.isEntry } :: others)

/-- The graph of a node sequence. -/
def ofNodes (nodes : List Node) : Except GraphFault Graph :=
  match headings 0 false [] nodes with
  | .error fault => .error fault
  | .ok found =>
      match blocksOf (found.map fun heading => heading.label) found with
      | .error fault => .error fault
      | .ok blocks => .ok ⟨blocks⟩

/-- The block of a label. -/
def block? (graph : Graph) (label : String) : Option Block :=
  graph.blocks.find? fun block => block.label == label

/-- The blocks with an edge to a label, once for each edge. -/
def predecessors (graph : Graph) (label : String) : List String :=
  graph.blocks.flatMap fun block =>
    (block.successors.filter fun edge => edge.target == label).map fun _ => block.label

/-- The blocks that no edge leads to. Function bodies are entered by calls and do not count. -/
def parentless (graph : Graph) : List Block :=
  graph.blocks.filter fun block =>
    (graph.predecessors block.label).isEmpty && !block.isEntry

/-- The targets of the admitted edges out of a block. -/
def targets (graph : Graph) (admits : Edge → Bool) (label : String) : List String :=
  match graph.block? label with
  | none => []
  | some block => (block.successors.filter admits).map fun edge => edge.target

/--
Look for a label along admitted edges. The labels in the second list have been
found, those in the first are still to be followed.
-/
def search (graph : Graph) (admits : Edge → Bool) (goal : String) :
    Nat → List String → List String → Bool
  | 0, _, _ => false
  | _, [], _ => false
  | steps + 1, label :: pending, found =>
      if label = goal then
        true
      else
        let fresh := ((graph.targets admits label).filter fun target =>
          !found.contains target).eraseDups
        search graph admits goal steps (fresh ++ pending) (fresh ++ found)

/-- Whether a path of admitted edges leads from one block to another. -/
def reachable (graph : Graph) (admits : Edge → Bool) (source goal : String) : Bool :=
  graph.search admits goal (graph.blocks.length + 1) [source] [source]

/-- Put a backslash in front of double quotes. -/
def escapeQuotes (text : String) : String :=
  String.ofList (text.toList.flatMap fun value =>
    if value == '"' then ['\\', '"'] else [value])

/-- The text of a block in a drawing. -/
def blockText (listing : Listing) (block : Block) : String :=
  String.join ((block.label ++ ":\\l") ::
    block.nodes.map fun node => listing.nodeText node ++ "\\l")

/-- The line of a block in a drawing. -/
def blockLine (listing : Listing) (block : Block) : String :=
  "\t" ++ Text.quote block.label ++ " [label=\"" ++
    escapeQuotes (blockText listing block) ++ "\"];\n"

/-- The line of an edge in a drawing. -/
def edgeLine (source : String) (edge : Edge) : String :=
  let ends := "\t" ++ Text.quote source ++ " -> " ++ Text.quote edge.target
  match edge.condition with
  | none => ends ++ ";\n"
  | some test => ends ++ " [label=" ++ Text.quote test.mnemonic ++ "];\n"

/-- The graph in the language of drawings: blocks with their nodes, then edges. -/
def drawing (graph : Graph) (listing : Listing) : String :=
  "digraph " ++ Text.quote listing.file ++ " \x7b\n" ++
    "\tnode [shape=box, fontname=monospace];\n" ++
    String.join (graph.blocks.map (blockLine listing)) ++
    String.join (graph.blocks.flatMap fun block =>
      block.successors.map (edgeLine block.label)) ++
    "\x7d\n"

end Graph

end IlsCompiler
