import IlsCompiler.Proofs.Assembly.Provisions
import IlsCompiler.Proofs.Lowering.Globals

namespace IlsCompiler

/-!
# What emission refuses in a program

A lowered program gives emission no reason to find fault with its own nodes: every node stands
where it may, and everything that it is about is there. Emission can still refuse what it does not
support, symbols that are defined twice, more temporaries than there are registers, and the few
types that it has no code for.
-/

namespace AssemblyFile

variable
    {listing : Listing}
    {odd : Prop}
    {earlier : List Node}
    {file : AssemblyFile}

/-- A global variable with a name of its own is added, or refused for what is not supported. -/
theorem step_global
    {node : Node}
    {name : String}
    (isClosed : file.current = none)
    (named : listing.globalName? node = some name)
    (isNew : name ∉ file.data.map DataEntry.name) :
    (∀ failure, file.step listing node = .error failure → Emit.Refusal odd failure) ∧
      ∀ between, file.step listing node = .ok between →
        between.current = none ∧ between.data.map DataEntry.name =
          file.data.map DataEntry.name ++ [name] := by
  obtain ⟨id, line, v, isParam, position, scope, rfl, found, storage⟩ :=
    Listing.globalName?_ok named
  obtain ⟨number, type, value, preserved, lastUse, place⟩ := v
  cases storage
  have absent : (file.data.any fun entry => entry.name == name) = false := by
    rw [Bool.eq_false_iff]
    intro isThere
    obtain ⟨entry, member, same⟩ := List.any_eq_true.mp isThere
    exact isNew (List.mem_map.mpr ⟨entry, member, by simpa using same⟩)
  have isStep : file.step listing (.declare id line) = file.addGlobal listing id line := by
    simp [step, isClosed]
  rw [isStep]
  unfold addGlobal
  simp only [found, absent, Bool.false_eq_true, ↓reduceIte]
  by_cases strings : holdsStrings type = true
  · rw [if_pos strings]
    refine ⟨fun failure failed => ?_, by rintro _ ⟨⟩⟩
    cases failed
    exact ⟨rfl, .inl rfl⟩
  · rw [if_neg strings]
    cases value with
    | reference next =>
        refine ⟨fun failure failed => ?_, by rintro _ ⟨⟩⟩
        cases failed
        exact ⟨rfl, .inl rfl⟩
    | literal text =>
        cases declared : file.declareSymbol name line with
        | error failure =>
            refine ⟨fun other failed => ?_, by rintro _ ⟨⟩⟩
            cases failed
            exact declareSymbol_refused declared
        | ok symbols =>
            refine ⟨by rintro _ ⟨⟩, fun between taken => ?_⟩
            cases taken
            cases declareSymbol_ok declared
            exact ⟨isClosed, by simp [DataEntry.ofGlobal]⟩

/-- Global variables with different names are added one after the other. -/
theorem goes_globals
    {nodes : List Node}
    {names : List String}
    (isNames : nodes.map listing.globalName? = names.map some)
    (distinct : (file.data.map DataEntry.name ++ names).Nodup)
    (accepted : (Ledger.blank.behind listing earlier).Accepts listing nodes)
    (isClosed : file.current = none) :
    Goes listing odd (fun final => final.current = none) earlier nodes file := by
  induction nodes generalizing earlier file names with
  | nil => exact isClosed
  | cons node rest inductionHypothesis =>
      cases names with
      | nil => cases isNames
      | cons name others =>
          rw [List.map_cons, List.map_cons, List.cons.injEq] at isNames
          obtain ⟨named, isNames⟩ := isNames
          have isNew : name ∉ file.data.map DataEntry.name := by
            intro member
            exact (List.nodup_append.mp distinct).2.2 name member name List.mem_cons_self rfl
          obtain ⟨refused, added⟩ := @step_global listing odd file node name isClosed named isNew
          refine ⟨?_, refused, fun between taken => ?_⟩
          · exact
              { known := fun id member next touches => by
                  obtain ⟨v, found, _⟩ := accepted.1.touched member touches
                  obtain ⟨w, isFound, _⟩ := Listing.lookup?_of_fixed? found
                  exact ⟨w, isFound⟩
                registers := fun code isOpen => by
                  rw [isClosed] at isOpen
                  cases isOpen
                slots := fun code isOpen => by
                  rw [isClosed] at isOpen
                  cases isOpen }
          · obtain ⟨stillClosed, data⟩ := added between taken
            refine inductionHypothesis isNames ?_ ?_ stillClosed
            · rw [data, List.append_assoc]
              exact distinct
            · rw [Ledger.behind_append]
              exact accepted.2

end AssemblyFile

namespace Lower

open LoweringState AssemblyFile

variable
    {before after : LoweringState}
    {function : Signature}

/-- A local that a function declares is one of those that lowering the function added. -/
theorem declared_local
    {body : List Stmt}
    (grounded : before.Grounded)
    (known : before.listing.Parameters function)
    (lowered : functionBody function body before = .ok ((), after))
    {listing : Listing}
    (ahead : after.listing.Extends listing)
    {id : Nat}
    {line : Nat}
    (member : .declare id line ∈ after.listing.since before.listing)
    (isLocal : listing.hasSlot id = true) :
    id ∈ after.listing.localsSince before.listing := by
  have grown := (functionBody_tags known lowered).1
  obtain ⟨v, found, destroyed⟩ := (functionBody_forms grounded known lowered).2 _ member
  have sameSlot : after.listing.hasSlot id = true := by
    rw [← isLocal]
    simp [Listing.hasSlot, found, ahead.fixed?_of found]
  refine (Listing.mem_localsSince_iff grown).mpr ⟨?_, (Listing.le_size_of_fixed? found).2, sameSlot⟩
  -- What there is before the function has been destroyed and is not declared again.
  refine Nat.lt_of_not_le fun isOld => ?_
  obtain ⟨w, isFound⟩ := Listing.exists_fixed? (Listing.le_size_of_fixed? found).1 isOld
  have wasDestroyed : before.listing.isDestroyed id = true := by
    rw [← Ledger.isDestroyed_mono grown ⟨w, isFound⟩, Listing.isDestroyed_eq found, destroyed]
  have isGone := (grounded.kept.known id).mpr wasDestroyed
  rw [grounded.rested.1, List.nil_append] at isGone
  obtain ⟨accepted, _⟩ := functionBody_accepts grounded known lowered (.refl _)
  have spares := Ledger.spares_of_gone ((Listing.isDestroyed_eq found).trans destroyed) isGone
    (by rw [grounded.rested.1]; exact List.not_mem_nil) accepted _ member
  exact spares.passes.2 line rfl

variable
    {listing : Listing}
    {odd : Prop}
    {earlier : List Node}
    {file : AssemblyFile}

/-- The nodes of a lowered function find what they need wherever nothing is pending. -/
theorem goes_section
    {part : FunctionSection}
    (grounded : part.start.Grounded)
    (known : part.start.listing.Parameters part.function)
    (lowered : functionBody part.function part.body part.start = .ok ((), part.finish))
    (ahead : part.finish.listing.Extends listing)
    (numbered : listing.Numbered)
    (formed : listing.WellFormed)
    (allowed : ∀ node ∈ part.nodes, node.IsOdd listing part.function → odd)
    (rested : (Ledger.blank.behind listing earlier).Rested)
    (gone : (Ledger.blank.behind listing earlier).gone ⊆ part.start.ledger.gone)
    (isClosed : file.current = none) :
    Goes listing odd (fun final => final.current = none) earlier part.nodes file := by
  obtain ⟨accepted, _⟩ := section_accepts grounded known lowered ahead rested gone
  obtain ⟨inner, scope, shape, isInner⟩ := section_shape known lowered
  have member : ∀ node ∈ inner, node ∈ part.nodes := by
    intro node isNode
    rw [shape]
    simp [isNode]
  have wellFormed := (functionBody_forms grounded known lowered).2
  rw [← functionBody_locals grounded known lowered] at shape
  rw [shape] at accepted ⊢
  refine goes_function numbered formed isInner
    (fun node isNode => (wellFormed node (member node isNode)).mono ahead)
    (fun node isNode => allowed node (member node isNode)) ?_ accepted rested.1 isClosed
  exact fun id line isNode isLocal =>
    declared_local grounded known lowered ahead (member _ isNode) isLocal

variable
    {parts : List FunctionSection}

/-- The nodes of some functions of a program find what they need, one function behind the other. -/
theorem Laid.goes
    (laid : Laid parts before after)
    (grounded : before.Grounded)
    (grown : after.listing.Extends listing)
    (chosen : FunctionSection → Bool)
    (numbered : listing.Numbered)
    (formed : listing.WellFormed)
    (allowed : ∀ part ∈ parts, chosen part = true →
      ∀ node ∈ part.nodes, node.IsOdd listing part.function → odd)
    (rested : (Ledger.blank.behind listing earlier).Rested)
    (gone : (Ledger.blank.behind listing earlier).gone ⊆ before.ledger.gone)
    (isClosed : file.current = none) :
    Goes listing odd (fun final => final.current = none) earlier
      ((parts.filter chosen).flatMap FunctionSection.nodes) file := by
  induction laid generalizing earlier file with
  | nil => exact isClosed
  | @cons part rest after _ parameters lowered laid inductionHypothesis =>
      have groundedLater := functionBody_grounded grounded parameters lowered
      have ahead := laid.extends_.trans grown
      have allowedRest : ∀ other ∈ rest, chosen other = true →
          ∀ node ∈ other.nodes, node.IsOdd listing other.function → odd :=
        fun other member => allowed other (List.mem_cons_of_mem _ member)
      cases isChosen : chosen part with
      | false =>
          obtain ⟨_, sameFinish⟩ := functionBody_accepts grounded parameters lowered ahead
          rw [List.filter_cons_of_neg (by simp [isChosen])]
          refine inductionHypothesis groundedLater grown allowedRest rested ?_ isClosed
          rw [← sameFinish]
          exact List.Subset.trans gone (Ledger.gone_subset _ _)
      | true =>
          obtain ⟨_, restedLater, goneLater⟩ :=
            section_accepts grounded parameters lowered ahead rested gone
          rw [← Ledger.behind_append] at restedLater goneLater
          rw [List.filter_cons_of_pos isChosen, List.flatMap_cons]
          refine goes_append (goes_section grounded parameters lowered ahead numbered formed
            (allowed part List.mem_cons_self isChosen) rested gone isClosed) fun between closed => ?_
          exact inductionHypothesis groundedLater grown allowedRest restedLater goneLater closed

variable
    {declared final : LoweringState}
    {program : Program}
    {pruned : Pruned}

/-- The nodes of a lowered program find what they need, whether or not it is pruned. -/
theorem Row.goes
    (row : Row program listing declared final parts)
    (choice : pruned = .whole listing ∨ pruned = .ofListing listing)
    (allowed : ∀ part ∈ parts, part.name ∉ pruned.removed →
      ∀ node ∈ part.nodes, node.IsOdd listing part.function → odd) :
    Goes listing odd (fun last => last.current = none) [] pruned.nodes (.start listing) := by
  have grounded := row.ready.grounded
  have grown : final.listing.Extends listing := row.listing_eq ▸ .refl _
  have declares := row.ready.declaresGlobals
  have ahead := row.laid.extends_.trans grown
  obtain ⟨acceptsFront, sameLedger⟩ := grounded.kept.accepted.mono ahead
  have isLedger : Ledger.blank.behind listing ([] ++ declared.listing.nodes.toList) =
      declared.ledger := sameLedger
  rw [row.pruned choice]
  have isNames : declared.listing.nodes.toList.map listing.globalName? =
      (declared.listing.scopes.moduleNames.map Prod.fst).map some := by
    rw [globalNames_grown declares ahead, List.map_map]
    rfl
  refine goes_append (goes_globals isNames declares.distinct acceptsFront rfl)
    fun between closed => ?_
  refine row.laid.goes grounded grown _ row.numbered ?_ ?_ ?_ ?_ closed
  · exact row.listing_eq ▸ (row.laid.grounded grounded).formed
  · exact fun part member isKept => allowed part member (by simpa using isKept)
  · rw [isLedger]
    exact grounded.rested
  · rw [isLedger]
    exact List.Subset.refl _

/-- Emission of a lowered program is refused for what is allowed. -/
theorem Row.refusal
    (row : Row program listing declared final parts)
    (choice : pruned = .whole listing ∨ pruned = .ofListing listing)
    (allowed : ∀ part ∈ parts, part.name ∉ pruned.removed →
      ∀ node ∈ part.nodes, node.IsOdd listing part.function → odd)
    {failure : Failure}
    (refused : listing.emit pruned.nodes = .error failure) :
    Emit.Refusal odd failure := by
  have steps := (row.goes choice allowed).steps 0
  unfold Listing.emit Emission.ofNodes at refused
  cases run : Emission.steps listing (fun _ => false) 0 pruned.nodes (.start listing) with
  | mk milestones result =>
      rw [run] at steps
      cases result with
      | error found =>
          simp only [run, Except.error.injEq] at refused
          subst refused
          simpa [Emit.Refusal] using steps
      | ok file =>
          have closed : file.current = none := steps
          simp [run, Emission.finish, closed] at refused

/-- What stands behind a row that a node is not in stands behind the whole row. -/
theorem split_behind
    {first second front back : List Node}
    {node : Node}
    (absent : node ∉ first)
    (same : first ++ second = front ++ node :: back) :
    ∃ rest, second = rest ++ node :: back := by
  rcases List.append_eq_append_iff.mp same with ⟨rest, rfl, isSecond⟩ | ⟨rest, rfl, isBack⟩
  · exact ⟨rest, isSecond⟩
  · cases rest with
    | nil => exact ⟨[], by simpa using isBack.symm⟩
    | cons other others =>
        rw [List.cons_append, List.cons.injEq] at isBack
        exact (absent (by simp [isBack.1])).elim

/-- A function that is opened is closed behind its nodes, and none is opened among these. -/
theorem Laid.closed
    (laid : Laid parts before after)
    (chosen : FunctionSection → Bool)
    {front back : List Node}
    (isNodes : (parts.filter chosen).flatMap FunctionSection.nodes =
      front ++ .entry function :: back) :
    ∃ locals inner scope rest,
      back = .prologue function locals ::
          (inner ++ .epilogue function :: .closeScope scope .function true :: rest) ∧
        ∀ node ∈ inner, node.isInner := by
  induction laid generalizing front with
  | nil => simp at isNodes
  | @cons part rest after _ parameters lowered laid inductionHypothesis =>
      cases isChosen : chosen part with
      | false =>
          rw [List.filter_cons_of_neg (by simp [isChosen])] at isNodes
          exact inductionHypothesis isNodes
      | true =>
          obtain ⟨inner, scope, shape, isInner⟩ := section_shape parameters lowered
          rw [List.filter_cons_of_pos isChosen, List.flatMap_cons, shape] at isNodes
          cases front with
          | nil =>
              rw [List.cons_append, List.nil_append, List.cons.injEq, Node.entry.injEq] at isNodes
              obtain ⟨rfl, rfl⟩ := isNodes
              refine ⟨declarationsIn part.body, inner, scope,
                (rest.filter chosen).flatMap FunctionSection.nodes, ?_, isInner⟩
              rw [List.cons_append, List.append_assoc]
              rfl
          | cons first others =>
              obtain ⟨-, isNodes⟩ := List.cons.inj isNodes
              have absent : .entry function ∉
                  .prologue part.function (declarationsIn part.body) ::
                    (inner ++ [.epilogue part.function, .closeScope scope .function true]) := by
                intro member
                have isThere : .entry function ∈ inner := by simpa using member
                cases isInner _ isThere
              obtain ⟨later, isLater⟩ := split_behind absent isNodes
              exact inductionHypothesis isLater

/-- The codes of refusals that find fault with the nodes themselves. -/
def nodeFaults : List Code :=
  [.unresolvedOperand, .misplacedStatement, .undeclaredFunction, .arityMismatch, .unknownBuiltin,
    .duplicateGlobal]

/--
Emission finds no fault with the nodes of a lowered program, pruned or not. At each node that it
comes to, everything that the node leads to exists, the temporaries among it hold registers since
their own declaration, and the locals have slots within the room that the prologue makes; and a
function that is opened is closed before the next one is.
-/
theorem lowered_nodes_provided
    {program : Program}
    {listing : Listing}
    {pruned : Pruned}
    (lowered : program.lower = .ok listing)
    (choice : pruned = .whole listing ∨ pruned = .ofListing listing) :
    (∀ failure, listing.emit pruned.nodes = .error failure → failure.code ∉ nodeFaults) ∧
      (∀ front node back file, pruned.nodes = front ++ node :: back →
        Takes listing front (.start listing) file → file.Provides listing front node) ∧
      ∀ front function back, pruned.nodes = front ++ .entry function :: back →
        ∃ locals inner scope rest,
          back = .prologue function locals ::
              (inner ++ .epilogue function :: .closeScope scope .function true :: rest) ∧
            ∀ node ∈ inner, node.isInner := by
  obtain ⟨declared, final, parts, row⟩ := lower_row lowered
  have allowed : ∀ part ∈ parts, part.name ∉ pruned.removed →
      ∀ node ∈ part.nodes, node.IsOdd listing part.function → True :=
    fun _ _ _ _ _ _ => trivial
  refine ⟨fun failure refused => ?_, fun front node back file isNodes taken => ?_,
    fun front function back isNodes => ?_⟩
  · rcases (row.refusal choice allowed refused).2 with same | same | same | ⟨same, _⟩ <;>
      rw [same] <;> decide
  · have goes := row.goes choice allowed
    rw [isNodes] at goes
    exact goes.provides taken
  · rw [row.pruned choice] at isNodes
    have absent : .entry function ∉ declared.listing.nodes.toList :=
      fun member => nomatch row.ready.globals _ member
    obtain ⟨rest, isRest⟩ := split_behind absent isNodes
    exact row.laid.closed _ isRest

/-- A main function with a local and a temporary that calls a function whose result is an array. -/
def lendingArrayProgram : Program :=
  let called : Expr := .call 3 "f" false [.literal 3 (.scalar .int "1")]
  { file := "t.ils"
    statements := [
      .declare 1 "a" (.array .int 3) none,
      .function 2 "f" [⟨2, "b", .int⟩] .int 2 [.leave 2 (some (.name 2 "b"))],
      .function 3 "main" [] .absent 3 [
        .declare 3 "x" .int (some (.binary 3 .add called (.literal 3 (.scalar .int "2")))),
        .call 3 3 "g" false []],
      .function 4 "g" [] (.array .int 3) 4 [.leave 4 (some (.name 4 "a"))]] }

theorem lendingArrayProgram_refused :
    ∃ listing failure,
      lendingArrayProgram.lower = .ok listing ∧
        listing.emit (Pruned.ofListing listing).nodes = .error failure ∧
        failure.code = .invalidOperandType := by
  have refused : (lendingArrayProgram.lower.toOption.map fun listing =>
      ((listing.emit (Pruned.ofListing listing).nodes).mapError Failure.code).map fun _ => ()) =
      some (.error .invalidOperandType) := by
    decide +kernel
  cases lowered : lendingArrayProgram.lower with
  | error failure => simp [lowered, Except.toOption] at refused
  | ok listing =>
      cases emitted : listing.emit (Pruned.ofListing listing).nodes with
      | ok text => simp [lowered, emitted, Except.toOption, Except.mapError, Except.map] at refused
      | error failure =>
          have isCode : failure.code = .invalidOperandType := by
            simpa [lowered, emitted, Except.toOption, Except.mapError, Except.map] using refused
          exact ⟨listing, failure, rfl, emitted, isCode⟩

theorem lendingArrayProgram_provided :
    ∃ listing failure,
      lendingArrayProgram.lower = .ok listing ∧
        listing.emit (Pruned.ofListing listing).nodes = .error failure ∧
        failure.code = .invalidOperandType ∧ failure.code ∉ nodeFaults ∧
        ∀ front node back file, (Pruned.ofListing listing).nodes = front ++ node :: back →
          Takes listing front (.start listing) file → file.Provides listing front node := by
  obtain ⟨listing, failure, lowered, emitted, isCode⟩ := lendingArrayProgram_refused
  obtain ⟨faultless, provided, _⟩ := lowered_nodes_provided lowered (.inr rfl)
  exact ⟨listing, failure, lowered, emitted, isCode, faultless failure emitted, provided⟩

/--
Lowering lets pass a few things that emission has no code for. Where emission finds operands of a
wrong type, a function that is kept returns an array, or assigns to an element that is an array
itself, or has an operation that is none.
-/
theorem wrong_operands_odd
    {program : Program}
    {listing : Listing}
    {pruned : Pruned}
    {failure : Failure}
    (lowered : program.lower = .ok listing)
    (choice : pruned = .whole listing ∨ pruned = .ofListing listing)
    (refused : listing.emit pruned.nodes = .error failure)
    (isType : failure.code = .invalidOperandType) :
    ∃ line name params result bodyLine body function node,
      .function line name params result bodyLine body ∈ program.statements ∧
        name ∉ pruned.removed ∧ listing.signature? name = some function ∧
        function.result = (if result = .absent then .void else result) ∧
        node ∈ pruned.nodes ∧ node.IsOdd listing function := by
  obtain ⟨declared, final, parts, row⟩ := lower_row lowered
  have refusal : Emit.Refusal (∃ part ∈ parts, part.name ∉ pruned.removed ∧
      ∃ node ∈ part.nodes, node.IsOdd listing part.function) failure :=
    row.refusal choice
      (fun part member isKept node isNode isOdd => ⟨part, member, isKept, node, isNode, isOdd⟩)
      refused
  obtain ⟨part, member, isKept, node, isNode, isOdd⟩ :
      ∃ part ∈ parts, part.name ∉ pruned.removed ∧
        ∃ node ∈ part.nodes, node.IsOdd listing part.function := by
    rcases refusal.2 with same | same | same | ⟨_, odd⟩
    · exact absurd (isType.symm.trans same) (by decide)
    · exact absurd (isType.symm.trans same) (by decide)
    · exact absurd (isType.symm.trans same) (by decide)
    · exact odd
  have inBodies : (part.name, part.body) ∈ functionBodies program.statements := by
    rw [← row.same]
    exact List.mem_map_of_mem member
  obtain ⟨line, params, result, bodyLine, isFunction⟩ := mem_functionBodies_iff.mp inBodies
  obtain ⟨first, rest, _, firstLaid, known, parameters, partLowered, restLaid⟩ :=
    row.laid.split member
  obtain ⟨function, isDeclared, _, _, isResult, _⟩ := row.ready.functions isFunction
  have same := firstLaid.extends_.signatures _ _ isDeclared
  rw [known, Option.some.injEq] at same
  have ahead := (functionBody_tags parameters partLowered).1.trans restLaid.extends_
  refine ⟨line, part.name, params, result, bodyLine, part.body, part.function, node, isFunction,
    isKept, ?_, same ▸ isResult, ?_, isOdd⟩
  · rw [row.listing_eq]
    exact ahead.signatures _ _ known
  · rw [row.pruned choice]
    refine List.mem_append_right _ (List.mem_flatMap.mpr ⟨part, ?_, isNode⟩)
    exact List.mem_filter.mpr ⟨member, by simpa using isKept⟩

theorem lendingArrayProgram_odd :
    ∃ listing failure,
      lendingArrayProgram.lower = .ok listing ∧
        listing.emit (Pruned.ofListing listing).nodes = .error failure ∧
        failure.code = .invalidOperandType ∧
        ∃ name ∈ functionNames lendingArrayProgram.statements, ∃ function,
          listing.signature? name = some function ∧
            ∃ node ∈ (Pruned.ofListing listing).nodes, node.IsOdd listing function := by
  obtain ⟨listing, failure, lowered, emitted, isCode⟩ := lendingArrayProgram_refused
  obtain ⟨line, name, params, result, bodyLine, body, function, node, member, _, declared, _,
    isNode, isOdd⟩ := wrong_operands_odd lowered (.inr rfl) emitted isCode
  refine ⟨listing, failure, lowered, emitted, isCode, name, ?_, function, declared, node, isNode,
    isOdd⟩
  rw [functionNames_eq]
  exact List.mem_map_of_mem (mem_functionBodies_iff.mpr ⟨line, params, result, bodyLine, member⟩)

end Lower

end IlsCompiler
