import IlsCompiler.Proofs.Assembly.Steps
import IlsCompiler.Proofs.Lowering.Programs

namespace IlsCompiler

/-!
# Code for the nodes that lowering adds

Lowering adds nodes to a listing one after the other, and emission later makes code for
them one after the other. The two are read side by side: a step of lowering leads from
one listing to a later one, and the nodes in between lead from code to more code.
-/

/-- Make code for nodes one after the other. -/
def Emit.nodes (listing : Listing) (steps : List Node) : Emit Unit :=
  steps.forM fun step => Emit.node listing step

namespace Emit

open Stateful

variable
    {listing : Listing}
    {before after : FunctionCode}

theorem nodes_nil_ok_iff :
    nodes listing [] before = .ok ((), after) ↔ after = before := by
  show (pure () : Emit Unit) before = _ ↔ _
  rw [pure_ok_iff]
  simp [eq_comm]

theorem nodes_cons_ok_iff
    {first : Node}
    {rest : List Node} :
    nodes listing (first :: rest) before = .ok ((), after) ↔
      ∃ between,
        node listing first before = .ok ((), between) ∧
          nodes listing rest between = .ok ((), after) := by
  show (node listing first >>= fun _ => nodes listing rest) before = _ ↔ _
  rw [bind_ok_iff]
  constructor
  · rintro ⟨_, between, one, others⟩
    exact ⟨between, one, others⟩
  · rintro ⟨between, one, others⟩
    exact ⟨(), between, one, others⟩

theorem nodes_append_ok_iff
    {first second : List Node} :
    nodes listing (first ++ second) before = .ok ((), after) ↔
      ∃ between,
        nodes listing first before = .ok ((), between) ∧
          nodes listing second between = .ok ((), after) := by
  induction first generalizing before with
  | nil =>
      simp only [List.nil_append, nodes_nil_ok_iff]
      constructor
      · exact fun run => ⟨before, rfl, run⟩
      · rintro ⟨_, rfl, run⟩
        exact run
  | cons step rest inductionHypothesis =>
      simp only [List.cons_append, nodes_cons_ok_iff, inductionHypothesis]
      constructor
      · rintro ⟨middle, one, between, others, last⟩
        exact ⟨between, ⟨middle, one, others⟩, last⟩
      · rintro ⟨between, ⟨middle, one, others⟩, last⟩
        exact ⟨middle, one, between, others, last⟩

end Emit

/--
The nodes that a later listing has beyond an earlier one turn code into other code. What
they mention is looked up in the whole listing.
-/
def Listing.Emits (listing earlier later : Listing) (before after : FunctionCode) : Prop :=
  ∃ added : List Node,
    later.nodes.toList = earlier.nodes.toList ++ added ∧
      Emit.nodes listing added before = .ok ((), after)

namespace Listing.Emits

open LoweringState

variable
    {listing earlier later : Listing}
    {before after : FunctionCode}

/-- Code for nodes can be cut wherever lowering went through. -/
theorem split
    {middle : Listing}
    (emits : listing.Emits earlier later before after)
    (first : earlier.Extends middle)
    (second : middle.Extends later) :
    ∃ between,
      listing.Emits earlier middle before between ∧ listing.Emits middle later between after := by
  obtain ⟨added, nodes, run⟩ := emits
  obtain ⟨early, earlyNodes⟩ := first.nodes
  obtain ⟨late, lateNodes⟩ := second.nodes
  have shape : added = early ++ late := by
    rw [← lateNodes, ← earlyNodes, List.append_assoc] at nodes
    exact (List.append_cancel_left nodes).symm
  rw [shape] at run
  obtain ⟨between, earlyRun, lateRun⟩ := Emit.nodes_append_ok_iff.mp run
  exact ⟨between, ⟨early, earlyNodes.symm, earlyRun⟩, ⟨late, lateNodes.symm, lateRun⟩⟩

theorem nodes_of
    {added : List Node}
    (emits : listing.Emits earlier later before after)
    (nodes : later.nodes.toList = earlier.nodes.toList ++ added) :
    Emit.nodes listing added before = .ok ((), after) := by
  obtain ⟨same, sameNodes, run⟩ := emits
  rw [sameNodes] at nodes
  rw [← List.append_cancel_left nodes]
  exact run

/-- Without new nodes the code stays as it is. -/
theorem eq_of_same_nodes
    (emits : listing.Emits earlier later before after)
    (same : later.nodes = earlier.nodes) :
    after = before := by
  obtain ⟨added, nodes, run⟩ := emits
  have nothing : added = [] := by
    rw [same] at nodes
    simpa using nodes
  rw [nothing] at run
  exact Emit.nodes_nil_ok_iff.mp run

/-- One new node makes its own code. -/
theorem node_of_push
    {node : Node}
    (emits : listing.Emits earlier later before after)
    (pushed : later.nodes = earlier.nodes.push node) :
    Emit.node listing node before = .ok ((), after) := by
  obtain ⟨added, nodes, run⟩ := emits
  have one : added = [node] := by
    rw [pushed, Array.toList_push] at nodes
    exact (List.append_cancel_left nodes).symm
  rw [one] at run
  obtain ⟨between, nodeRun, rest⟩ := Emit.nodes_cons_ok_iff.mp run
  rw [Emit.nodes_nil_ok_iff.mp rest]
  exact nodeRun

/-- The node that is appended makes its own code behind the code in front of it. -/
theorem split_appended
    {state : LoweringState}
    {node : Node}
    (emits : listing.Emits earlier (state.appended node).listing before after)
    (grown : earlier.Extends state.listing) :
    ∃ between,
      listing.Emits earlier state.listing before between ∧
        Emit.node listing node between = .ok ((), after) := by
  obtain ⟨between, early, late⟩ := emits.split grown (extends_appended state node)
  exact ⟨between, early, late.node_of_push (nodes_appended state node)⟩

end Listing.Emits

/-!
## Files made of functions

The nodes of a listing are the declarations of the global variables and then the nodes of
one function behind the other. A file takes them in this order: inside a function nodes
become code, and the end of the function appends that code to the file.
-/

/-- Whether a node ends a function. -/
def Node.endsFunction : Node → Bool
  | .closeScope _ _ true => true
  | _ => false

/-- The code of a function that has just been opened. -/
def FunctionCode.opened (function : Signature) (calls : List Nat) : FunctionCode :=
  { signature := function, frame := .ofFunction function.name,
    body := Body.empty.raw (function.name ++ ":"), pool := .full, calls := calls }

namespace AssemblyFile

/-- Nodes are taken into a file one after the other. -/
def Takes (listing : Listing) : List Node → AssemblyFile → AssemblyFile → Prop
  | [], file, final => final = file
  | node :: rest, file, final =>
      ∃ between, file.step listing node = .ok between ∧ Takes listing rest between final

variable
    {listing : Listing}
    {file final : AssemblyFile}

theorem takes_append_iff
    {first second : List Node} :
    Takes listing (first ++ second) file final ↔
      ∃ between, Takes listing first file between ∧ Takes listing second between final := by
  induction first generalizing file with
  | nil => simp [Takes]
  | cons node rest inductionHypothesis =>
      simp only [List.cons_append, Takes, inductionHypothesis]
      constructor
      · rintro ⟨middle, one, between, others, last⟩
        exact ⟨between, ⟨middle, one, others⟩, last⟩
      · rintro ⟨between, ⟨middle, one, others⟩, last⟩
        exact ⟨middle, one, between, others, last⟩

/-- Inside a function every node but its end becomes code of the function. -/
theorem takes_inside
    {nodes : List Node}
    {code : FunctionCode}
    (inner : ∀ node ∈ nodes, node.endsFunction = false)
    (isOpen : file.current = some code)
    (taken : Takes listing nodes file final) :
    ∃ after,
      Emit.nodes listing nodes code = .ok ((), after) ∧
        final = { file with current := some after } := by
  induction nodes generalizing file code with
  | nil =>
      cases taken
      refine ⟨code, Emit.nodes_nil_ok_iff.mpr rfl, ?_⟩
      rw [← isOpen]
  | cons node rest inductionHypothesis =>
      obtain ⟨between, one, others⟩ := taken
      have inside := inner node (by simp)
      have stepped : ∃ after, Emit.node listing node code = .ok ((), after) ∧
          between = { file with current := some after } := by
        unfold step at one
        simp only [isOpen] at one
        split at one
        · simp [Node.endsFunction] at inside
        · split at one
          · cases one
          next after run =>
            cases one
            exact ⟨after, run, rfl⟩
      obtain ⟨after, run, rfl⟩ := stepped
      obtain ⟨last, restRun, rfl⟩ := inductionHypothesis
        (fun other member => inner other (by simp [member])) rfl others
      exact ⟨last, Emit.nodes_cons_ok_iff.mpr ⟨after, run, restRun⟩, rfl⟩

theorem declareSymbol_ok
    {name : String}
    {line : Nat}
    (declared : file.declareSymbol name line = .ok final) :
    final = { file with symbols := file.symbols ++ [name] } := by
  unfold declareSymbol at declared
  split at declared
  · cases declared
  · split at declared
    · cases declared
    · cases declared
      rfl

theorem addGlobal_ok
    {id : VarId}
    {line : Nat}
    (added : file.addGlobal listing id line = .ok final) :
    final.code = file.code ∧ final.calls = file.calls ∧ final.current = file.current := by
  unfold addGlobal at added
  split at added
  · split at added
    · cases added
    · split at added
      · cases added
      · split at added
        · cases added
        · simp only [bind, Except.bind, pure, Except.pure] at added
          split at added
          · cases added
          next named declared =>
            cases declareSymbol_ok declared
            cases added
            exact ⟨rfl, rfl, rfl⟩
  · cases added

variable
    {function : Signature}

/-- Behind the entry of a function, its nodes make the code of the function that is open. -/
theorem takes_entry
    {nodes : List Node}
    (inner : ∀ node ∈ nodes, node.endsFunction = false)
    (outside : file.current = none)
    (taken : Takes listing (.entry function :: nodes) file final) :
    ∃ code,
      Emit.nodes listing nodes (.opened function file.calls) = .ok ((), code) ∧
        final.code = file.code ∧ final.calls = file.calls ∧ final.current = some code := by
  obtain ⟨opened, opens, inside⟩ := taken
  unfold step at opens
  simp only [outside, openFunction] at opens
  cases declared : file.declareSymbol function.name function.line with
  | error failure => simp [declared, bind, Except.bind] at opens
  | ok named =>
      cases declareSymbol_ok declared
      simp only [declared, bind, Except.bind, pure, Except.pure, Except.ok.injEq] at opens
      subst opens
      obtain ⟨code, run, rfl⟩ := takes_inside inner rfl inside
      exact ⟨code, run, rfl, rfl, rfl⟩

/-- A function that is taken appends its code and its calls to the file. -/
theorem takes_function
    {nodes : List Node}
    {scope : Nat}
    {kind : Scope.Kind}
    (inner : ∀ node ∈ nodes, node.endsFunction = false)
    (outside : file.current = none)
    (taken : Takes listing (.entry function :: nodes ++ [.closeScope scope kind true])
      file final) :
    ∃ code,
      Emit.nodes listing nodes (.opened function file.calls) = .ok ((), code) ∧
        final.code = file.code ++ (code.body.add .ret).texts ++ [""] ∧
        final.calls = code.calls ∧ final.current = none := by
  obtain ⟨between, front, last⟩ := takes_append_iff.mp taken
  obtain ⟨code, run, sameCode, _, isOpen⟩ := takes_entry inner outside front
  obtain ⟨closed, closes, rfl⟩ := last
  unfold step at closes
  simp only [isOpen, Except.ok.injEq] at closes
  subst closes
  exact ⟨code, run, by rw [closeFunction, sameCode], rfl, rfl⟩

/-- Declarations outside functions make no code. -/
theorem takes_declarations
    {nodes : List Node}
    (declares : ∀ node ∈ nodes, ∃ id line, node = .declare id line)
    (outside : file.current = none)
    (taken : Takes listing nodes file final) :
    final.code = file.code ∧ final.calls = file.calls ∧ final.current = none := by
  induction nodes generalizing file with
  | nil =>
      cases taken
      exact ⟨rfl, rfl, outside⟩
  | cons node rest inductionHypothesis =>
      obtain ⟨between, one, others⟩ := taken
      obtain ⟨id, line, rfl⟩ := declares node (by simp)
      have same : between.code = file.code ∧ between.calls = file.calls ∧
          between.current = none := by
        unfold step at one
        simp only [outside] at one
        rw [← outside]
        exact addGlobal_ok one
      obtain ⟨code, calls, isNone⟩ := inductionHypothesis
        (fun other member => declares other (by simp [member])) same.2.2 others
      exact ⟨code.trans same.1, calls.trans same.2.1, isNone⟩

/-- Emission without interruption takes nodes one after the other. -/
theorem steps_ok_iff
    {nodes : List Node}
    (number : Nat) :
    (Emission.steps listing (fun _ => false) number nodes file).2 = .ok final ↔
      Takes listing nodes file final := by
  induction nodes generalizing file number with
  | nil => simp [Emission.steps, Takes, eq_comm]
  | cons node rest inductionHypothesis =>
      simp only [Emission.steps, Bool.false_eq_true, ↓reduceIte, Takes]
      cases one : file.step listing node with
      | error failure => simp
      | ok between => simp [inductionHypothesis]

/-- Nodes are emitted exactly when they make a file in which every function is closed. -/
theorem emit_ok_iff
    {nodes : List Node}
    {text : String} :
    listing.emit nodes = .ok text ↔
      ∃ file, Takes listing nodes (.start listing) file ∧ file.current = none ∧
        text = file.text listing := by
  simp only [← steps_ok_iff 0]
  unfold Listing.emit Emission.ofNodes Emission.finish
  cases run : Emission.steps listing (fun _ => false) 0 nodes (.start listing) with
  | mk milestones result =>
      cases result with
      | error failure => simp
      | ok file => cases current : file.current <;> simp [current, eq_comm]

theorem takes_of_emit
    {nodes : List Node}
    {text : String}
    (emitted : listing.emit nodes = .ok text) :
    ∃ file, Takes listing nodes (.start listing) file ∧ text = file.text listing := by
  obtain ⟨file, taken, _, isText⟩ := emit_ok_iff.mp emitted
  exact ⟨file, taken, isText⟩

end AssemblyFile

end IlsCompiler
