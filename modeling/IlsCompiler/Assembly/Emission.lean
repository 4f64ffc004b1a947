import IlsCompiler.Assembly.Emit

namespace IlsCompiler

/-!
# Assembly files

The nodes of a listing become one assembly file: the code of each function in
order, then the data section and the routine that comes from outside. Before each
node emission can be interrupted.
-/

/-- The code and data made so far, and the function that is open. -/
structure AssemblyFile where
  code : List String
  data : List DataEntry
  symbols : List String
  calls : List Nat
  current : Option FunctionCode
deriving Inhabited

namespace AssemblyFile

/-- A file with nothing but the symbols that are always there. -/
def start (listing : Listing) : AssemblyFile :=
  { code := []
    data := []
    symbols := PrintFormat.all.map (fun format => format.name) ++
      listing.strings.entries.map fun entry => entry.1
    calls := []
    current := none }

/-- Introduce a symbol; register names and names already in use cannot be one. -/
def declareSymbol (file : AssemblyFile) (name : String) (line : Nat) :
    Except Failure AssemblyFile :=
  if Reg.isName name then
    .error ((EmissionFault.registerName name).failure line)
  else if name ∈ file.symbols then
    .error ((EmissionFault.duplicateSymbol name).failure line)
  else
    .ok { file with symbols := file.symbols ++ [name] }

/-- Open a function. -/
def openFunction (file : AssemblyFile) (function : Signature) : Except Failure AssemblyFile := do
  let declared ← file.declareSymbol function.name function.line
  return { declared with
    current := some
      { signature := function, frame := .ofFunction function.name,
        body := Body.empty.raw (function.name ++ ":"), pool := .full,
        calls := file.calls } }

/-- Close the open function: its code is complete. -/
def closeFunction (file : AssemblyFile) (code : FunctionCode) : AssemblyFile :=
  { file with
    code := file.code ++ (code.body.add .ret).texts ++ [""]
    calls := code.calls
    current := none }

/-- Whether values of a type are strings or arrays of strings. -/
def holdsStrings (type : Ty) : Bool :=
  type = .str || (type.isArray && type.element = .str)

/-- Add a global variable to the data section. -/
def addGlobal (file : AssemblyFile) (listing : Listing) (id : VarId) (line : Nat) :
    Except Failure AssemblyFile :=
  match listing.lookup? id with
  | some { storage := .named name true _ _ _, type := type, value := value, .. } =>
      if file.data.any fun entry => entry.name == name then
        .error ((EmissionFault.duplicateGlobal name).failure line)
      else if holdsStrings type then
        .error ((EmissionFault.globalString name).failure line)
      else
        match value with
        | .reference _ => .error ((EmissionFault.globalReference name).failure line)
        | .literal text => do
            let declared ← file.declareSymbol name line
            return { declared with data := file.data ++ [DataEntry.ofGlobal name type text] }
  | _ =>
      .error ((EmissionFault.outsideFunction (listing.nodeText (.declare id line))).failure line)

/-- Take one node into the file. -/
def step (listing : Listing) (file : AssemblyFile) (node : Node) : Except Failure AssemblyFile :=
  match file.current with
  | none =>
      match node with
      | .entry function => file.openFunction function
      | .declare id line => file.addGlobal listing id line
      | other => .error ((EmissionFault.outsideFunction (listing.nodeText other)).failure 0)
  | some code =>
      match node with
      | .closeScope _ _ true => .ok (file.closeFunction code)
      | other =>
          match Emit.node listing other code with
          | .error failure => .error failure
          | .ok (_, after) => .ok { file with current := some after }

/-- The lines of the data section. -/
def dataLines (file : AssemblyFile) (listing : Listing) : List String :=
  "section .data" ::
    (PrintFormat.all.map fun format => "\t" ++ format.name ++ " db " ++ format.bytes) ++
    (listing.strings.entries.map fun entry =>
      "\t" ++ entry.1 ++ " db " ++ Backquoted.text entry.2 ++ ", 0") ++
    (file.data.map fun entry => "\t" ++ entry.text) ++ [""]

/-- The lines of the whole file. -/
def lines (file : AssemblyFile) (listing : Listing) : List String :=
  ["global " ++ entryName, "", "section .text"] ++ file.code ++ file.dataLines listing ++
    ["extern " ++ PrintFormat.routine]

/-- The text of the whole file. -/
def text (file : AssemblyFile) (listing : Listing) : String :=
  String.join ((file.lines listing).map fun line => line ++ "\n")

end AssemblyFile

/-- What emission got to: a node, or the code of a function. -/
inductive Milestone where
  | node (node : Node)
  | function (name : String)
deriving DecidableEq, Repr

/-- The outcome of emission: what it got to, and the assembly text or why there is none. -/
structure Emission where
  milestones : List Milestone
  result : Except Failure String

namespace Emission

/-- The function that a node opens. -/
def opened (node : Node) : List Milestone :=
  match node with
  | .entry function => [.function function.name]
  | _ => []

/-- Take nodes into a file; the first has the given number. -/
def steps (listing : Listing) (interrupted : Nat → Bool) :
    Nat → List Node → AssemblyFile → List Milestone × Except Failure AssemblyFile
  | _, [], file => ([], .ok file)
  | number, node :: rest, file =>
      if interrupted number then
        ([], .error .cancelled)
      else
        match file.step listing node with
        | .error failure => ([.node node], .error failure)
        | .ok after =>
            let (milestones, result) := steps listing interrupted (number + 1) rest after
            (.node node :: opened node ++ milestones, result)

/-- The text of a file in which every function is closed. -/
def finish (listing : Listing) (file : AssemblyFile) : Except Failure String :=
  match file.current with
  | some code => .error ((EmissionFault.noEpilogue code.signature.name).failure 0)
  | none => .ok (file.text listing)

/-- Make an assembly file of nodes; the predicate says before which nodes it is interrupted. -/
def ofNodes (listing : Listing) (nodes : List Node) (interrupted : Nat → Bool) : Emission :=
  let (milestones, result) := steps listing interrupted 0 nodes (.start listing)
  let text : Except Failure String :=
    match result with
    | .error failure => .error failure
    | .ok file => finish listing file
  match text with
  | .error failure =>
      { milestones := milestones, result := .error (failure.inFile listing.file) }
  | .ok written => { milestones := milestones, result := .ok written }

end Emission

/-- The assembly text of nodes, or the first fault. -/
def Listing.emit (listing : Listing) (nodes : List Node) : Except Failure String :=
  (Emission.ofNodes listing nodes fun _ => false).result

end IlsCompiler
