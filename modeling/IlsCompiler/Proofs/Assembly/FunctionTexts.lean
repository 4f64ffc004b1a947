import IlsCompiler.Proofs.Assembly.Files
import IlsCompiler.Proofs.Assembly.LinkedCode
import IlsCompiler.Proofs.Assembly.Provisions
import IlsCompiler.Proofs.Assembly.Rules
import IlsCompiler.Proofs.Lowering.SelfContained

namespace IlsCompiler

/-!
# The text of each function

A file takes the section of a function exactly when its name can be introduced and its nodes make
code on their own. What is added to the file then is the same whichever other functions it has.
So leaving functions out deletes their texts from that of the file and changes nothing else.

## Code does not depend on the functions in front of it

A file hands from one function to the next which calls have been made. The code of a function
asks only for calls of its own, so it comes out the same whatever calls were made in front of it.
-/

/-- The same code in a file that has made more calls in front of it. -/
def FunctionCode.behind (made : List Nat) (code : FunctionCode) : FunctionCode :=
  { code with calls := made ++ code.calls }

namespace Emit

open Stateful

/-- A step of making code does the same whether or not calls have been made in front of it. -/
abbrev Ignores (made : List Nat) (step : Emit α) : Prop :=
  Commutes (FunctionCode.behind made) step

section Steps

variable
    {made : List Nat}

/-- No calls in front make no difference. -/
theorem ignores_nil
    (step : Emit α) :
    Ignores [] step := by
  intro code
  show step code = _
  cases step code <;> rfl

theorem ignores_fail
    (fault : EmissionFault)
    (line : Nat) :
    Ignores made (fail fault line : Emit α) :=
  commutes_throw _

theorem ignores_atLine
    {step : Emit α}
    {line : Nat}
    (ignores : Ignores made step) :
    Ignores made (atLine line step) := by
  intro code
  unfold atLine
  rw [ignores code]
  cases step code <;> rfl

theorem ignores_slotOperand
    (id : VarId)
    (name : String)
    (isParam : Bool)
    (position : Nat) :
    Ignores made (slotOperand id name isParam position) := by
  unfold slotOperand
  split
  · exact commutes_pure _
  · intro code
    have same : (code.behind made).frame = code.frame := rfl
    simp only [bind, StateT.bind, get, getThe, MonadStateOf.get, StateT.get, pure, Except.pure,
      Except.bind, same]
    cases code.frame.slot id name <;> rfl

theorem ignores_namedOperand
    (v : Variable)
    (name : String)
    (isGlobal isParam : Bool)
    (position : Nat) :
    Ignores made (namedOperand v name isGlobal isParam position) := by
  unfold namedOperand
  split
  · exact ignores_fail _ _
  · split
    · exact ignores_fail _ _
    · split
      · exact commutes_pure _
      · exact ignores_slotOperand _ _ _ _

theorem ignores_takeRegister
    (name : String)
    (v : Variable) :
    Ignores made (takeRegister name v) := by
  intro code
  have same : (code.behind made).pool = code.pool := rfl
  simp only [takeRegister, bind, StateT.bind, get, getThe, MonadStateOf.get, StateT.get, pure,
    Except.pure, Except.bind, same]
  cases code.pool.assign v.id v.preserved <;> rfl

theorem ignores_closed :
    Closed fun _ step => Ignores made step where
  pure := commutes_pure
  bind := commutes_bind
  read blind each := commutes_get (fun code => blind code _) each
  ins _ := commutes_modify fun _ => rfl
  countPushed _ := commutes_modify fun _ => rfl

end Steps

/--
What is made of the given variables is made whatever calls were made in front of it, if they lead
to no such call.
-/
def ignoring (made : List Nat) (owned : VarId → Prop) : Rule :=
  .closed owned (fun call => call.id ∉ made ∧ ∀ id ∈ call.arguments, owned id) (fun _ => True)
    fun _ step => Ignores made step

section Nodes

variable
    {listing : Listing}
    {made : List Nat}
    {owned : VarId → Prop}
    {steps : List Node}

theorem ignoring_lawful
    (leads : (ignoring made owned).Leads listing) :
    (ignoring made owned).Lawful listing := by
  refine Rule.closed_lawful ignores_closed leads trivial (fun _ => trivial)
    (fun _ _ => ignores_fail _ _) (fun {depth call} isCalled resolves => ?_)
    (fun _ _ _ => ignores_takeRegister _ _) ignores_namedOperand
  refine (ignores_closed.sequences.userCall (fun _ _ _ => trivial)
    (fun _ => ⟨ignores_fail _ _, fun _ _ _ _ => trivial⟩)
    ⟨commutes_modify fun _ => rfl, fun _ _ _ _ => trivial⟩ (fun rest => ⟨?_, fun _ _ _ _ => trivial⟩)
    fun id member => ⟨resolves (isCalled.2 id member), fun _ _ _ _ => trivial⟩).1
  refine commutes_get (fun code => ?_) fun code => ?_
  · have same : (call.id ∈ (code.behind made).calls) = (call.id ∈ code.calls) := by
      simp [FunctionCode.behind, isCalled.1]
    simp only [same]
  · split
    · exact commutes_pure _
    · refine commutes_bind (commutes_modify fun current => ?_) fun _ _ _ _ => rest.1
      simp [FunctionCode.behind]

/-- The code of a node is the same whatever calls were made in front that it does not lead to. -/
theorem ignores_node
    (leads : (ignoring made owned).Leads listing)
    {step : Node}
    (allows : (ignoring made owned).Allows listing step) :
    Ignores made (node listing step) := by
  have lawful := ignoring_lawful leads
  refine (lawful.node lawful.toSequences
    ⟨commutes_modify fun _ => rfl, fun _ _ _ _ => trivial⟩ allows (fun _ _ => trivial)
    (fun _ ignores => ⟨ignores_atLine ignores.1, fun _ _ _ _ => trivial⟩)
    (fun _ => lawful.fail _ trivial) fun adjusts => ?_).1
  refine ⟨commutes_modify fun code => ?_, fun _ _ _ _ => trivial⟩
  cases adjusts <;> rfl

theorem ignores_nodes
    (leads : (ignoring made owned).Leads listing)
    (allows : ∀ step ∈ steps, (ignoring made owned).Allows listing step) :
    Ignores made (nodes listing steps) :=
  commutes_forM fun step member => ignores_node leads (allows step member)

end Nodes

section Origins

variable
    {listing origin : Listing}
    {made : List Nat}
    {steps : List Node}

theorem sources_fixed
    (v : Variable) :
    v.fixed.sources = v.sources := by
  obtain ⟨id, type, value, preserved, lastUse, storage⟩ := v
  cases storage with
  | named name isGlobal isParam position scope => cases isParam <;> rfl
  | _ => rfl

/-- What was added behind some point leads to no call that was numbered before. -/
theorem leads_of_contained
    (contained : listing.SelfContained origin)
    (counted : ∀ number ∈ made, number < origin.callCount) :
    (ignoring made (listing.Owns origin)).Leads listing := by
  have isAdded : ∀ id v, listing.Owns origin id → listing.lookup? id = some v →
      v.storage.isNamed = false → listing.OwnsVariable origin v.fixed := by
    intro id v owns known unnamed
    have found : listing.fixed? id = some v.fixed := by simp [Listing.fixed?, known]
    rcases owns with isNew | ⟨w, isFound, isNamed⟩
    · exact contained.vars id v.fixed isNew found
    · cases found.symm.trans isFound
      rw [Variable.isNamed_fixed, unnamed] at isNamed
      cases isNamed
  have sources : ∀ {id v next}, listing.Owns origin id → listing.lookup? id = some v →
      v.storage.isNamed = false → next ∈ v.sources → listing.Owns origin next :=
    fun owns known unnamed member =>
      (isAdded _ _ owns known unnamed).sources _ (by rwa [sources_fixed])
  constructor
  · intro id v owns known
    rwa [show v.id = id from contained.numbered id v.fixed (by simp [Listing.fixed?, known])]
  · intro id v name scope next owns known storage refers
    exact sources owns known (by simp [storage, Storage.isNamed])
      (by simp [Variable.sources, storage, refers])
  · intro id v array index owns known storage
    exact sources owns known (by simp [storage, Storage.isNamed])
      (by simp [Variable.sources, storage])
  · intro id v function call owns known storage
    refine ⟨fun member => ?_, fun next member => ?_⟩
    · have owned := isAdded id v owns known (by simp [storage, Storage.isNamed])
      have numbered := owned.call function call (Variable.fixed_result_iff.mpr storage)
      exact Nat.not_lt_of_le numbered (counted _ member)
    · exact sources owns known (by simp [storage, Storage.isNamed])
        (by simpa [Variable.sources, storage] using member)

theorem allows_of_contained
    (contained : listing.SelfContained origin)
    (counted : ∀ number ∈ made, number < origin.callCount)
    {node : Node}
    (member : node ∈ listing.since origin) :
    (ignoring made (listing.Owns origin)).Allows listing node where
  uses := (contained.nodes node member).uses
  declared {id line v next} isNode known isNamed refers := by
    have isNew := (contained.nodes node member).declared id line isNode
    have found : listing.fixed? id = some v.fixed := by simp [Listing.fixed?, known]
    refine (contained.vars id v.fixed isNew found).sources next ?_
    obtain ⟨number, type, value, preserved, lastUse, storage⟩ := v
    rw [sources_fixed]
    cases storage with
    | named => simpa [Variable.sources] using refers
    | _ => cases isNamed
  call {call} isNode _ := by
    refine ⟨fun isMade => ?_, fun id isArgument => ?_⟩
    · exact Nat.not_lt_of_le ((contained.nodes node member).call _ isNode) (counted _ isMade)
    · exact (contained.nodes node member).uses id (by rwa [isNode])

/-- Nodes that were added behind some point make the same code whatever calls were made before. -/
theorem ignores_since
    (contained : listing.SelfContained origin)
    (counted : ∀ number ∈ made, number < origin.callCount)
    (added : ∀ step ∈ steps, step ∈ listing.since origin) :
    Ignores made (nodes listing steps) :=
  ignores_nodes (leads_of_contained contained counted) fun step member =>
    allows_of_contained contained counted (added step member)

end Origins

end Emit

/-!
## Sections and their texts
-/

/-- Inside a function a line starts with a tab or, if it is a label, with a dot. -/
theorem Line.front_of_isFormed
    {line : Line}
    (formed : line.isFormed) :
    line.text.toList.head? = some '\t' ∨ line.text.toList.head? = some '.' := by
  cases line with
  | instruction instruction => simp [text]
  | label name => simp [text]
  | raw text => cases formed
  | blank => cases formed

variable
    {listing : Listing}
    {part : FunctionSection}

namespace FunctionSection

/-- The nodes of a function between its entry and its end. -/
def inner (part : FunctionSection) : List Node :=
  part.nodes.tail.dropLast

/-- The code of a function on its own, if its nodes make any. -/
def code? (part : FunctionSection) (listing : Listing) : Option FunctionCode :=
  match Emit.nodes listing part.inner (.opened part.function []) with
  | .ok (_, code) => some code
  | .error _ => none

/-- The lines of a function in a file, with the blank line behind it. -/
def text (part : FunctionSection) (listing : Listing) : List String :=
  match part.code? listing with
  | some code => (code.body.add .ret).texts ++ [""]
  | none => []

/-- The calls that the code of a function makes. -/
def calls (part : FunctionSection) (listing : Listing) : List Nat :=
  match part.code? listing with
  | some code => code.calls
  | none => []

theorem code?_eq_some_iff
    {code : FunctionCode} :
    part.code? listing = some code ↔
      Emit.nodes listing part.inner (.opened part.function []) = .ok ((), code) := by
  unfold code?
  cases Emit.nodes listing part.inner (.opened part.function []) with
  | error failure => simp
  | ok pair => simp [Prod.ext_iff]

end FunctionSection

namespace AssemblyFile

/-- Names can be introduced in a file: they are no register names and no name is taken twice. -/
structure Admits (file : AssemblyFile) (names : List String) : Prop where
  distinct : names.Nodup
  registers : ∀ name ∈ names, Reg.isName name = false
  unused : ∀ name ∈ names, name ∉ file.symbols

variable
    {listing : Listing}
    {file final : AssemblyFile}
    {name : String}

theorem declareSymbol_ok_iff
    {line : Nat} :
    file.declareSymbol name line = .ok final ↔
      (Reg.isName name = false ∧ name ∉ file.symbols) ∧
        final = { file with symbols := file.symbols ++ [name] } := by
  unfold declareSymbol
  cases isRegister : Reg.isName name with
  | true => simp
  | false =>
      by_cases taken : name ∈ file.symbols
      · simp [taken]
      · simp [taken, eq_comm]

theorem admits_cons_iff
    {names : List String}
    {next : AssemblyFile}
    (symbols : next.symbols = file.symbols ++ [name]) :
    file.Admits (name :: names) ↔
      (Reg.isName name = false ∧ name ∉ file.symbols) ∧ next.Admits names := by
  constructor
  · intro admits
    have distinct := List.nodup_cons.mp admits.distinct
    refine ⟨⟨admits.registers name (by simp), admits.unused name (by simp)⟩, distinct.2,
      fun other member => admits.registers other (by simp [member]), fun other member taken => ?_⟩
    rw [symbols] at taken
    rcases List.mem_append.mp taken with isOld | isNew
    · exact admits.unused other (by simp [member]) isOld
    · exact distinct.1 (List.mem_singleton.mp isNew ▸ member)
  · rintro ⟨⟨noRegister, unused⟩, others⟩
    have isNext : name ∈ next.symbols := by simp [symbols]
    refine ⟨List.nodup_cons.mpr ⟨fun member => others.unused name member isNext, others.distinct⟩,
      fun other member => ?_, fun other member taken => ?_⟩
    · rcases List.mem_cons.mp member with rfl | inRest
      · exact noRegister
      · exact others.registers other inRest
    · rcases List.mem_cons.mp member with rfl | inRest
      · exact unused taken
      · exact others.unused other inRest (by simp [symbols, taken])

/-- Inside a function nodes are taken exactly when they make code. -/
theorem takes_inside_iff
    {nodes : List Node}
    {code : FunctionCode}
    (inner : ∀ node ∈ nodes, node.endsFunction = false)
    (isOpen : file.current = some code) :
    Takes listing nodes file final ↔
      ∃ after,
        Emit.nodes listing nodes code = .ok ((), after) ∧
          final = { file with current := some after } := by
  refine ⟨takes_inside inner isOpen, ?_⟩
  rintro ⟨after, run, rfl⟩
  induction nodes generalizing file code with
  | nil =>
      cases Emit.nodes_nil_ok_iff.mp run
      show _ = file
      rw [← isOpen]
  | cons node rest inductionHypothesis =>
      obtain ⟨between, first, others⟩ := Emit.nodes_cons_ok_iff.mp run
      have taken : file.step listing node = .ok { file with current := some between } := by
        rw [step_inside isOpen (inner node (by simp)), first]
      exact ⟨_, taken, inductionHypothesis
        (fun other member => inner other (by simp [member])) rfl others⟩

/-- A file after the code of a function that has been taken. -/
def closed (file : AssemblyFile) (name : String) (lines : List String) (calls : List Nat) :
    AssemblyFile :=
  { file with
    code := file.code ++ lines
    symbols := file.symbols ++ [name]
    calls := file.calls ++ calls
    current := none }

theorem openFunction_ok_iff
    {function : Signature} :
    file.openFunction function = .ok final ↔
      (Reg.isName function.name = false ∧ function.name ∉ file.symbols) ∧
        final = { file with
          symbols := file.symbols ++ [function.name]
          current := some (.opened function file.calls) } := by
  unfold openFunction
  cases declared : file.declareSymbol function.name function.line with
  | error failure =>
      have refused : ¬ (Reg.isName function.name = false ∧ function.name ∉ file.symbols) :=
        fun allowed => by
          have accepted := (declareSymbol_ok_iff.mpr ⟨allowed, rfl⟩).symm.trans declared
          cases accepted
      simp [bind, Except.bind, refused]
  | ok named =>
      obtain ⟨allowed, rfl⟩ := declareSymbol_ok_iff.mp declared
      simp only [bind, Except.bind, pure, Except.pure, Except.ok.injEq, allowed, true_and, eq_comm,
        not_false_eq_true]
      rfl

/--
The section of a function is taken exactly when its name can be introduced and it makes code on
its own, and this code is what the file gets.
-/
theorem takes_section_iff
    {scope : Nat}
    {kind : Scope.Kind}
    (shape : part.nodes = .entry part.function :: part.inner ++ [.closeScope scope kind true])
    (inside : ∀ node ∈ part.inner, node.endsFunction = false)
    (ignores : Emit.Ignores file.calls (Emit.nodes listing part.inner))
    (outside : file.current = none) :
    Takes listing part.nodes file final ↔
      (part.code? listing).isSome ∧
        (Reg.isName part.function.name = false ∧ part.function.name ∉ file.symbols) ∧
        final = file.closed part.function.name (part.text listing) (part.calls listing) := by
  let opened : AssemblyFile := { file with
    symbols := file.symbols ++ [part.function.name]
    current := some (.opened part.function file.calls) }
  have enters : file.step listing (.entry part.function) = file.openFunction part.function := by
    simp [step, outside]
  have runs : Emit.nodes listing part.inner (.opened part.function file.calls) =
      (Emit.nodes listing part.inner (.opened part.function [])).map
        fun pair => (pair.1, pair.2.behind file.calls) := by
    rw [← ignores]
    simp [FunctionCode.behind, FunctionCode.opened]
  rw [shape]
  constructor
  · rintro ⟨_, isOpened, others⟩
    rw [enters] at isOpened
    obtain ⟨allowed, rfl⟩ := openFunction_ok_iff.mp isOpened
    obtain ⟨_, innerTaken, _, closes, rfl⟩ := takes_append_iff.mp others
    obtain ⟨code, run, rfl⟩ := (takes_inside_iff inside rfl).mp innerTaken
    rw [runs] at run
    cases alone : Emit.nodes listing part.inner (.opened part.function []) with
    | error failure => simp [alone, Except.map] at run
    | ok pair =>
        obtain ⟨⟨⟩, single⟩ := pair
        rw [alone] at run
        cases run
        have isCode := FunctionSection.code?_eq_some_iff.mpr alone
        refine ⟨by simp [isCode], allowed, ?_⟩
        cases closes
        simp [closed, closeFunction, FunctionSection.text, FunctionSection.calls, isCode,
          FunctionCode.behind]
  · rintro ⟨isSome, allowed, rfl⟩
    obtain ⟨single, isCode⟩ := Option.isSome_iff_exists.mp isSome
    have alone := FunctionSection.code?_eq_some_iff.mp isCode
    rw [alone] at runs
    refine ⟨opened, enters.trans (openFunction_ok_iff.mpr ⟨allowed, rfl⟩), takes_append_iff.mpr
      ⟨_, (takes_inside_iff inside rfl).mpr ⟨_, runs, rfl⟩, _, rfl, ?_⟩⟩
    simp [Takes, closed, closeFunction, FunctionSection.text, FunctionSection.calls, isCode,
      FunctionCode.behind, opened]

/-- Of names that can be introduced any part can be. -/
theorem Admits.sublist
    {names fewer : List String}
    (admits : file.Admits names)
    (sublist : fewer.Sublist names) :
    file.Admits fewer where
  distinct := admits.distinct.sublist sublist
  registers name member := admits.registers name (sublist.subset member)
  unused name member := admits.unused name (sublist.subset member)

/-- A file after the code of functions that have been taken one behind the other. -/
def closedAll (listing : Listing) (file : AssemblyFile) (parts : List FunctionSection) :
    AssemblyFile :=
  parts.foldl (fun file part => file.closed part.name (part.text listing) (part.calls listing)) file

theorem closedAll_eq
    (listing : Listing)
    (file : AssemblyFile)
    (parts : List FunctionSection) :
    (file.closedAll listing parts).code =
        file.code ++ parts.flatMap (fun part => part.text listing) ∧
      (file.closedAll listing parts).data = file.data ∧
      (file.closedAll listing parts).symbols =
        file.symbols ++ parts.map (fun part => part.name) := by
  induction parts generalizing file with
  | nil => simp [closedAll]
  | cons part rest inductionHypothesis =>
      obtain ⟨code, data, symbols⟩ := inductionHypothesis
        (file.closed part.name (part.text listing) (part.calls listing))
      refine ⟨code.trans ?_, data.trans rfl, symbols.trans ?_⟩ <;> simp [closed]

theorem closedAll_current
    (isOutside : file.current = none)
    (parts : List FunctionSection) :
    (file.closedAll listing parts).current = none := by
  induction parts generalizing file with
  | nil => exact isOutside
  | cons part rest inductionHypothesis => exact inductionHypothesis rfl

end AssemblyFile

namespace Lower

open LoweringState AssemblyFile

variable
    {before after : LoweringState}
    {parts : List FunctionSection}
    {file final : AssemblyFile}

/-- The section of a function is its entry, what makes its code, and its end. -/
theorem section_inner
    (known : part.start.listing.Parameters part.function)
    (lowered : functionBody part.function part.body part.start = .ok ((), part.finish)) :
    (∃ scope kind,
      part.nodes = .entry part.function :: part.inner ++ [.closeScope scope kind true]) ∧
      ∀ node ∈ part.inner, node.endsFunction = false := by
  obtain ⟨bound, between, _, _, _, _, proceeds, _, nodes⟩ := functionBody_since known lowered
  have isInner : part.inner =
      .prologue part.function (declarationsIn part.body) ::
        between.closed.listing.since
          (part.start.prepared part.function (declarationsIn part.body)).listing ++
        [.epilogue part.function] := by
    rw [FunctionSection.inner, FunctionSection.nodes, nodes]
    exact List.dropLast_concat
  refine ⟨⟨part.start.listing.scopes.size, .function, ?_⟩, ?_⟩
  · rw [FunctionSection.nodes, nodes, isInner]
  · intro node member
    rw [isInner] at member
    simp only [List.cons_append, List.mem_cons, List.mem_append, List.not_mem_nil,
      or_false] at member
    rcases member with rfl | isBody | rfl
    · rfl
    · exact endsFunction_of_proceeds proceeds node isBody
    · rfl

/--
A file takes functions of a program exactly when each of them makes code on its own and their names
can be introduced.
-/
theorem Laid.takes_iff
    (keeps : FunctionSection → Bool)
    (laid : Laid parts before after)
    (numbered : before.listing.Numbered)
    (isOutside : file.current = none)
    (counted : ∀ number ∈ file.calls, number < before.listing.callCount) :
    Takes after.listing ((parts.filter keeps).flatMap FunctionSection.nodes) file final ↔
      (∀ part ∈ parts.filter keeps, (part.code? after.listing).isSome) ∧
        file.Admits ((parts.filter keeps).map fun part => part.name) ∧
        final = file.closedAll after.listing (parts.filter keeps) := by
  induction laid generalizing file with
  | nil state =>
      have admits : file.Admits [] := ⟨List.nodup_nil, by simp, by simp⟩
      simp [Takes, closedAll, admits]
  | @cons part rest after known parameters lowered restLaid inductionHypothesis =>
      have grown := (functionBody_tags parameters lowered).1
      have numberedAfter := grown.numbered numbered
      by_cases isKept : keeps part
      · have named : part.function.name = part.name := Listing.name_of_signature? known
        obtain ⟨⟨scope, kind, shape⟩, inside⟩ := section_inner parameters lowered
        have contained : after.listing.SelfContained part.start.listing :=
          Laid.selfContained (.cons known parameters lowered restLaid) numbered
        have ignores : Emit.Ignores file.calls (Emit.nodes after.listing part.inner) := by
          refine Emit.ignores_since contained counted fun node member => ?_
          rw [grown.since_trans restLaid.extends_]
          refine List.mem_append_left _ ?_
          show node ∈ part.nodes
          rw [shape]
          simp [member]
        have opens : ∀ next : AssemblyFile, next.symbols = file.symbols ++ [part.name] →
            (file.Admits (part.name :: (rest.filter keeps).map fun part => part.name) ↔
              (Reg.isName part.name = false ∧ part.name ∉ file.symbols) ∧
                next.Admits ((rest.filter keeps).map fun part => part.name)) :=
          fun next => admits_cons_iff
        have others : ∀ between, Takes after.listing part.nodes file between →
            between = file.closed part.name (part.text after.listing) (part.calls after.listing) →
              (Takes after.listing ((rest.filter keeps).flatMap FunctionSection.nodes) between final ↔
                (∀ part ∈ rest.filter keeps, (part.code? after.listing).isSome) ∧
                  between.Admits ((rest.filter keeps).map fun part => part.name) ∧
                  final = between.closedAll after.listing (rest.filter keeps)) := by
          intro between taken same
          obtain ⟨isClosed, stillCounted, _⟩ := function_taken contained.numbered parameters
            lowered restLaid.extends_ taken isOutside counted
          exact inductionHypothesis numberedAfter isClosed stillCounted
        rw [List.filter_cons_of_pos isKept, List.flatMap_cons, List.map_cons]
        constructor
        · intro taken
          obtain ⟨between, partTaken, restTaken⟩ := takes_append_iff.mp taken
          obtain ⟨isSome, allowed, same⟩ :=
            (takes_section_iff shape inside ignores isOutside).mp partTaken
          rw [named] at allowed same
          obtain ⟨areSome, admits, isFinal⟩ := (others between partTaken same).mp restTaken
          refine ⟨List.forall_mem_cons.mpr ⟨isSome, areSome⟩, ?_, ?_⟩
          · exact (opens between (by rw [same]; rfl)).mpr ⟨allowed, admits⟩
          · rw [isFinal, same]
            rfl
        · rintro ⟨areSome, admits, rfl⟩
          let between := file.closed part.name (part.text after.listing) (part.calls after.listing)
          obtain ⟨isSome, restSome⟩ := List.forall_mem_cons.mp areSome
          obtain ⟨allowed, restAdmits⟩ := (opens between rfl).mp admits
          have partTaken : Takes after.listing part.nodes file between := by
            refine (takes_section_iff shape inside ignores isOutside).mpr ⟨isSome, ?_, ?_⟩
            · rwa [named]
            · rw [named]
          exact takes_append_iff.mpr ⟨between, partTaken,
            (others between partTaken rfl).mpr ⟨restSome, restAdmits, rfl⟩⟩
      · rw [List.filter_cons_of_neg isKept]
        exact inductionHypothesis numberedAfter isOutside fun number member =>
          Nat.lt_of_lt_of_le (counted number member) grown.calls

variable
    {declared last : LoweringState}
    {program : Program}

/-- The lines of a function: its name, its code, and a return with a blank line behind it. -/
theorem Row.text_shape
    (row : Row program listing declared last parts)
    (lowered : program.lower = .ok listing)
    (member : part ∈ parts)
    (isSome : (part.code? listing).isSome)
    (noRegister : Reg.isName part.name = false) :
    ∃ lines,
      part.text listing = (part.name ++ ":") :: lines ++ ["\tret", ""] ∧
        ∀ line ∈ lines, line.toList.head? = some '\t' ∨ line.toList.head? = some '.' := by
  obtain ⟨formed, inOrder, _⟩ := formed_of_lower lowered
  obtain ⟨front, back, _, frontLaid, known, parameters, bodyLowered, backLaid⟩ :=
    row.laid.split member
  have named : part.function.name = part.name := Listing.name_of_signature? known
  have grown : part.finish.listing.Extends listing := row.listing_eq ▸ backLaid.extends_
  obtain ⟨_, _, _, _, isFunction⟩ := mem_functionBodies_iff.mp
    (row.same ▸ List.mem_map_of_mem member)
  obtain ⟨signature, declares, _, _, _, _, ordered, _⟩ := inOrder isFunction
  have same := grown.signatures _ _ ((functionBody_tags parameters bodyLowered).1.signatures _ _ known)
  cases declares.symm.trans same
  -- The text of a function is what a file gets that takes nothing else.
  obtain ⟨⟨scope, kind, shape⟩, inside⟩ := section_inner parameters bodyLowered
  let alone : AssemblyFile := { code := [], data := [], symbols := [], calls := [], current := none }
  have taken : Takes listing part.nodes alone
      (alone.closed part.function.name (part.text listing) (part.calls listing)) :=
    (takes_section_iff shape inside (Emit.ignores_nil _) rfl).mpr
      ⟨isSome, ⟨by rwa [named], List.not_mem_nil⟩, rfl⟩
  obtain ⟨bound, between, almost, ended, coded⟩ :=
    function_coded parameters bodyLowered taken rfl fun _ => nofun
  obtain ⟨frame, saved, _, shaped⟩ := coded.shaped formed ordered
    (frontLaid.grounded row.ready.grounded) parameters bodyLowered grown
  obtain ⟨rest, isCode, isFormed⟩ := shaped.formed
  refine ⟨rest.map Line.text, ?_, fun line isLine => ?_⟩
  · have isText : part.text listing = (ended.body.add .ret).texts ++ [""] := coded.code
    rw [isText, Body.texts, isCode, named]
    simp [Line.text, Instruction.text]
  · obtain ⟨source, isSource, rfl⟩ := List.mem_map.mp isLine
    exact Line.front_of_isFormed (isFormed source isSource)

/-- In front of the functions a file gets neither code nor calls. -/
theorem Row.globals_taken
    (row : Row program listing declared last parts)
    (taken : Takes listing declared.listing.nodes.toList (.start listing) file) :
    file.code = [] ∧ file.calls = [] ∧ file.current = none := by
  refine takes_declarations (fun node member => ?_) rfl taken
  have kind := row.ready.globals node member
  cases node with
  | declare id line => exact ⟨id, line, rfl⟩
  | _ => cases kind

/-- Behind its global variables a file takes the functions that are kept one after the other. -/
theorem Row.takes_sections_iff
    (row : Row program listing declared last parts)
    {globals final : AssemblyFile}
    (taken : Takes listing declared.listing.nodes.toList (.start listing) globals)
    (keeps : FunctionSection → Bool) :
    Takes listing ((parts.filter keeps).flatMap FunctionSection.nodes) globals final ↔
      (∀ part ∈ parts.filter keeps, (part.code? listing).isSome) ∧
        globals.Admits ((parts.filter keeps).map fun part => part.name) ∧
        final = globals.closedAll listing (parts.filter keeps) := by
  have listed := row.listing_eq
  obtain ⟨_, noCalls, isOutside⟩ := row.globals_taken taken
  rw [listed]
  refine row.laid.takes_iff _ row.ready.numbered isOutside fun number member => ?_
  rw [noCalls] at member
  cases member

/--
Of the functions that are kept a file is made exactly when its data can be made, each of them makes
code on its own, and their names can be introduced.
-/
theorem Row.emits_iff
    (row : Row program listing declared last parts)
    {pruned : Pruned}
    (choice : pruned = .whole listing ∨ pruned = .ofListing listing)
    {text : String} :
    listing.emit pruned.nodes = .ok text ↔
      ∃ globals : AssemblyFile,
        Takes listing declared.listing.nodes.toList (.start listing) globals ∧
          (∀ part ∈ parts.filter fun part => !pruned.removed.contains part.name,
            (part.code? listing).isSome) ∧
          globals.Admits ((parts.filter fun part => !pruned.removed.contains part.name).map
            fun part => part.name) ∧
          text = (globals.closedAll listing
            (parts.filter fun part => !pruned.removed.contains part.name)).text listing := by
  rw [AssemblyFile.emit_ok_iff, row.pruned choice]
  constructor
  · rintro ⟨file, taken, _, rfl⟩
    obtain ⟨globals, globalsTaken, sectionsTaken⟩ := takes_append_iff.mp taken
    obtain ⟨areSome, admits, rfl⟩ := (row.takes_sections_iff globalsTaken _).mp sectionsTaken
    exact ⟨globals, globalsTaken, areSome, admits, rfl⟩
  · rintro ⟨globals, globalsTaken, areSome, admits, rfl⟩
    obtain ⟨_, _, isOutside⟩ := row.globals_taken globalsTaken
    refine ⟨_, takes_append_iff.mpr ⟨globals, globalsTaken,
      (row.takes_sections_iff globalsTaken _).mpr ⟨areSome, admits, rfl⟩⟩, ?_, rfl⟩
    exact closedAll_current isOutside _

/-- The text of an assembly file whose functions have the given texts. -/
def fileText (functions : List (String × List String)) (data : List String) : String :=
  String.join ((["global " ++ entryName, "", "section .text"] ++ functions.flatMap Prod.snd ++
    ("section .data" :: data ++ ["", "extern " ++ PrintFormat.routine])).map (· ++ "\n"))

theorem text_closedAll
    {globals : AssemblyFile}
    (noCode : globals.code = [])
    (parts : List FunctionSection) :
    (globals.closedAll listing parts).text listing =
      fileText (parts.map fun part => (part.name, part.text listing))
        ((globals.dataLines listing).tail.dropLast) := by
  obtain ⟨code, data, _⟩ := closedAll_eq listing globals parts
  have sameData : (globals.closedAll listing parts).dataLines listing =
      globals.dataLines listing := by
    rw [dataLines, dataLines, data]
  rw [AssemblyFile.text, AssemblyFile.lines, sameData, code, noCode]
  simp [fileText, dataLines, List.flatMap_map]

/--
Pruning only deletes functions from the text. If all of a program is emitted, then so is what
pruning keeps of it, and its text is the one of the whole program without the texts of the functions
that are left out. Each of these goes from the name of the function to the blank line behind its
return, and the other functions, the data and the external routine stay the same.
-/
theorem pruning_deletes_texts
    {program : Program}
    {listing : Listing}
    {text : String}
    (lowered : program.lower = .ok listing)
    (emitted : listing.emit listing.nodes.toList = .ok text) :
    ∃ (functions : List (String × List String)) (data : List String),
      functions.map Prod.fst = functionNames program.statements ∧
        (functions.map Prod.fst).Nodup ∧
        (∀ function ∈ functions, ∃ lines,
          function.2 = (function.1 ++ ":") :: lines ++ ["\tret", ""] ∧ ∀ line ∈ lines, line ≠ "") ∧
        text = fileText functions data ∧
        listing.emit (Pruned.ofListing listing).nodes = .ok (fileText
          (functions.filter fun function =>
            !(Pruned.ofListing listing).removed.contains function.1) data) := by
  obtain ⟨declared, last, parts, row⟩ := lower_row lowered
  have everything : (parts.filter fun part =>
      !(Pruned.whole listing).removed.contains part.name) = parts := by
    simp [Pruned.whole]
  have whole := (row.emits_iff (.inl rfl)).mp emitted
  rw [everything] at whole
  obtain ⟨globals, globalsTaken, areSome, admits, rfl⟩ := whole
  obtain ⟨noCode, _, _⟩ := row.globals_taken globalsTaken
  refine ⟨parts.map fun part => (part.name, part.text listing),
    (globals.dataLines listing).tail.dropLast, ?_, ?_, ?_, text_closedAll noCode parts, ?_⟩
  · rw [List.map_map]
    exact row.names
  · rw [List.map_map]
    exact admits.distinct
  · intro function member
    obtain ⟨part, isPart, rfl⟩ := List.mem_map.mp member
    obtain ⟨lines, shape, fronts⟩ := row.text_shape lowered isPart (areSome part isPart)
      (admits.registers _ (List.mem_map_of_mem isPart))
    refine ⟨lines, shape, fun line member => ?_⟩
    rintro rfl
    simpa using fronts "" member
  · refine (row.emits_iff (.inr rfl)).mpr ⟨globals, globalsTaken, ?_, ?_, ?_⟩
    · exact fun part member => areSome part (List.mem_of_mem_filter member)
    · exact admits.sublist (List.filter_sublist.map _)
    · rw [text_closedAll noCode, List.filter_map]
      rfl

/-- A function that is called from two others, one of which is never called. -/
def sharingProgram : Program :=
  let shared (line : Nat) : Expr := .call line "shared" false []
  { file := "t.ils"
    statements := [
      .declare 1 "a" .int none,
      .function 2 "shared" [] .int 2 [.leave 2 (some (.literal 2 (.scalar .int "1")))],
      .function 3 "idle" [] .int 3 [.leave 3 (some (shared 3))],
      .function 4 "busy" [] .int 4 [.leave 4 (some (shared 4))],
      .function 5 "main" [] .absent 5 [
        .assign 5 "a" none (.binary 5 .add (.call 5 "busy" false []) (shared 5))]] }

theorem sharingProgram_pruned :
    ∃ listing text functions data,
      sharingProgram.lower = .ok listing ∧ listing.emit listing.nodes.toList = .ok text ∧
        functions.map Prod.fst = ["shared", "idle", "busy", "main"] ∧
        text = fileText functions data ∧
        listing.emit (Pruned.ofListing listing).nodes =
          .ok (fileText (functions.filter fun function => !(["idle"].contains function.1)) data) := by
  have accepted : (sharingProgram.lower.toOption.map fun listing =>
      ((listing.emit listing.nodes.toList).toBool, (Pruned.ofListing listing).removed)) =
        some (true, ["idle"]) := by
    decide +kernel
  cases lowered : sharingProgram.lower with
  | error failure => simp [lowered, Except.toOption] at accepted
  | ok listing =>
      cases emitted : listing.emit listing.nodes.toList with
      | error failure => simp [lowered, emitted, Except.toOption, Except.toBool] at accepted
      | ok text =>
          have removed : (Pruned.ofListing listing).removed = ["idle"] := by
            simpa [lowered, emitted, Except.toOption, Except.toBool] using accepted
          obtain ⟨functions, data, names, _, _, isText, pruned⟩ :=
            pruning_deletes_texts lowered emitted
          rw [removed] at pruned
          exact ⟨listing, text, functions, data, rfl, emitted, names.trans (by decide), isText, pruned⟩

end Lower

end IlsCompiler
