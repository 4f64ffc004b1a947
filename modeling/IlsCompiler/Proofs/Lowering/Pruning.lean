import IlsCompiler.Proofs.Lowering.ControlFlow
import IlsCompiler.Proofs.Lowering.Globals
import IlsCompiler.Proofs.Lowering.StatementCounts

namespace IlsCompiler

/-!
# Pruning

A function is left out when nothing calls it. Since the calls of a lowered program are made exactly
where they are counted, what is left out are the functions with count zero, and no call that
remains, pending ones included, leads to one of them.
-/

variable
    {function : Function}

namespace Listing

/--
The calls of functions that a node reaches: its own, and the pending ones that its operands and the
value it stores lead to over references, elements and arguments.
-/
def Reaches (listing : Listing) (node : Node) (name : String) : Prop :=
  (∃ call, node = .call call ∧ call.builtin = false ∧ call.name = name) ∨
    ∃ id ∈ node.uses, ∃ result, listing.Touches id result ∧ listing.resultOf? result = some name

variable
    {listing : Listing}
    {name : String}

theorem calls_of_mem
    (distinct : (listing.functions.map fun function => function.signature.name).Nodup)
    (member : function ∈ listing.functions) :
    listing.calls function.signature.name = function.calls := by
  rw [calls]
  cases found : listing.function? function.signature.name with
  | none => simpa using List.find?_eq_none.mp found function member
  | some other =>
      have named : other.signature.name = function.signature.name := by
        simpa using List.find?_some found
      rw [List.inj_on_of_nodup_map distinct (List.mem_of_find?_eq_some found) member named]
      rfl

/-- Calls are counted at the function with the name. -/
theorem calls_pos_iff
    (distinct : (listing.functions.map fun function => function.signature.name).Nodup) :
    0 < listing.calls name ↔
      ∃ function ∈ listing.functions, function.signature.name = name ∧ 0 < function.calls := by
  constructor
  · intro counted
    cases found : listing.function? name with
    | none => simp [calls, found] at counted
    | some function =>
        rw [calls, found] at counted
        exact ⟨function, List.mem_of_find?_eq_some found,
          by simpa using List.find?_some found, counted⟩
  · rintro ⟨function, member, rfl, counted⟩
    rwa [calls_of_mem distinct member]

namespace Balanced

/-- Where nothing waits, the functions that are called are those with calls counted. -/
theorem mem_callTargets_iff
    (balanced : listing.Balanced []) :
    name ∈ listing.callTargets listing.nodes.toList ↔ 0 < listing.calls name := by
  rw [callTargets, List.mem_eraseDups, List.mem_flatMap]
  constructor
  · rintro ⟨node, member, isTarget⟩
    have ofResult : ∀ id, listing.resultOf? id = some name → 0 < listing.calls name := by
      intro id known
      obtain ⟨v, function, call, found, storage, rfl⟩ := exists_of_resultOf? known
      exact balanced.results id v function call found storage
    rcases mem_nodeTargets_iff.mp isTarget with ⟨call, isCall, direct, rfl⟩ |
      ⟨_, _, value, _, _, inside⟩ | ⟨_, value, _, _, _, _, inside⟩ | ⟨id, _, known⟩
    · exact balanced.nodes node member call isCall direct
    · obtain ⟨id, _, known⟩ := mem_valueTargets_iff.mp inside
      exact ofResult id known
    · obtain ⟨id, _, known⟩ := mem_valueTargets_iff.mp inside
      exact ofResult id known
    · exact ofResult id known
  · intro counted
    exact (balanced.targets name counted).resolve_right (List.not_mem_nil)

/-- Every call that a node reaches is counted. -/
theorem reaches
    (balanced : listing.Balanced [])
    {node : Node}
    (member : node ∈ listing.nodes.toList)
    (reached : listing.Reaches node name) :
    0 < listing.calls name := by
  rcases reached with ⟨call, isCall, direct, rfl⟩ | ⟨_, _, result, _, known⟩
  · exact balanced.nodes node member call isCall direct
  · obtain ⟨v, function, call, found, storage, rfl⟩ := exists_of_resultOf? known
    exact balanced.results result v function call found storage

end Balanced

end Listing

namespace Lower

open LoweringState

variable
    {program : Program}
    {declared final : LoweringState}
    {parts : List FunctionSection}

/-- The functions of a lowered program are those of its statements, in their order. -/
theorem function_names
    (ready : Ready program declared)
    (bodies : Bodies program.statements declared final) :
    (final.listing.functions.map fun function => function.signature.name) =
      functionNames program.statements := by
  rw [← ready.names bodies, Listing.tags, List.map_map]
  rfl

/-- The nodes of a function are its section, the one with its name. -/
theorem nodesOf_of_name
    (ready : Ready program declared)
    (bodies : Bodies program.statements declared final)
    (row : Row program final.listing declared final parts)
    {part : FunctionSection}
    (member : function ∈ final.listing.functions)
    (isPart : part ∈ parts)
    (named : part.name = function.signature.name) :
    final.listing.nodesOf function = part.nodes := by
  obtain ⟨other, isOther, isName, first, count⟩ :=
    section_of_owner ready bodies row.laid row.same member
  have distinct : (parts.map fun part => part.name).Nodup := row.names ▸ ready.distinct
  have same := List.inj_on_of_nodup_map distinct isOther isPart (isName.trans named.symm)
  rw [same] at first count
  exact nodesOf_of_place row.laid isPart first count

/-- The section of a function opens with its entry. -/
theorem head?_of_section
    (ready : Ready program declared)
    (bodies : Bodies program.statements declared final)
    (row : Row program final.listing declared final parts)
    (member : function ∈ final.listing.functions) :
    (final.listing.nodesOf function).head? = some (.entry function.signature) := by
  obtain ⟨part, isPart, named, _⟩ :=
    section_of_owner ready bodies row.laid row.same member
  obtain ⟨front, back, rfl, _, known, parameters, bodyLowered, behind⟩ := row.laid.split isPart
  obtain ⟨_, _, _, _, _, _, _, _, nodes⟩ := functionBody_since parameters bodyLowered
  have grown := (functionBody_tags parameters bodyLowered).1.trans behind.extends_
  have isKnown := grown.signatures _ _ known
  obtain ⟨found, isFound, isFunction⟩ := Option.map_eq_some_iff.mp isKnown
  have distinct : (final.listing.functions.map fun function => function.signature.name).Nodup :=
    function_names ready bodies ▸ ready.distinct
  have foundName : found.signature.name = function.signature.name := by
    rw [← named]
    simpa using List.find?_some isFound
  have same := List.inj_on_of_nodup_map distinct (List.mem_of_find?_eq_some isFound) member
    foundName
  rw [nodesOf_of_name ready bodies row member isPart named, FunctionSection.nodes, nodes, ← same,
    isFunction]
  rfl

/-- Functions and sections that are chosen by name have the same nodes. -/
theorem flatMap_nodesOf
    {listing : Listing}
    {functions : List Function}
    (names : parts.map (fun part => part.name) =
      functions.map fun function => function.signature.name)
    (nodes : ∀ function ∈ functions, ∀ part ∈ parts,
      part.name = function.signature.name → listing.nodesOf function = part.nodes)
    (chosen : String → Bool) :
    (functions.filter fun function => chosen function.signature.name).flatMap listing.nodesOf =
      (parts.filter fun part => chosen part.name).flatMap FunctionSection.nodes := by
  induction functions generalizing parts with
  | nil =>
      rw [List.map_nil, List.map_eq_nil_iff] at names
      rw [names]
      rfl
  | cons function rest inductionHypothesis =>
      cases parts with
      | nil => cases names
      | cons part others =>
          obtain ⟨named, restNames⟩ := List.cons_eq_cons.mp names
          have named : part.name = function.signature.name := named
          have first := nodes function (by simp) part (by simp) named
          have behind := inductionHypothesis restNames fun function member part isPart =>
            nodes function (by simp [member]) part (by simp [isPart])
          rw [List.filter_cons, List.filter_cons, named]
          split
          · rw [List.flatMap_cons, List.flatMap_cons, first, behind]
          · exact behind

/--
Pruning is exact and closed under calls. In a lowered program the functions that nodes call are
those with calls counted. Left out are the functions without a counted call, the entry function
apart, in the order of declaration. What remains are the declarations of the global variables and
behind them the nodes of the remaining functions in source order. Every function that a remaining
node calls, or whose pending result it reaches, has its nodes among those that remain.
-/
theorem lowered_pruning_exact
    {listing : Listing}
    (lowered : program.lower = .ok listing) :
    (∀ name, name ∈ listing.callTargets listing.nodes.toList ↔
      ∃ function ∈ listing.functions, function.signature.name = name ∧ 0 < function.calls) ∧
    listing.functions.map (fun function => function.signature.name) =
      functionNames program.statements ∧
    (Pruned.ofListing listing).removed =
      (listing.functions.filter fun function =>
        !function.signature.isEntry && function.calls == 0).map
          (fun function => function.signature.name) ∧
    (∃ front : List Node,
      front.map listing.globalName? = (declaredNames program.statements).eraseDups.map some ∧
        listing.nodes.toList = front ++ listing.functions.flatMap listing.nodesOf ∧
        (Pruned.ofListing listing).nodes =
          front ++ (listing.functions.filter fun function =>
            !(Pruned.ofListing listing).removed.contains function.signature.name).flatMap
              listing.nodesOf) ∧
    ∀ node ∈ (Pruned.ofListing listing).nodes, ∀ name, listing.Reaches node name →
      ∃ function ∈ listing.functions,
        function.signature.name = name ∧
          name ∉ (Pruned.ofListing listing).removed ∧
          (listing.nodesOf function).head? = some (.entry function.signature) ∧
          listing.nodesOf function <:+: (Pruned.ofListing listing).nodes := by
  obtain ⟨declared, final, ready, bodies, rfl⟩ := lower_ready lowered
  obtain ⟨parts, laid, same⟩ := bodies.laid ready.functions
  have row := row_of_bodies ready bodies laid same
  have balanced := lower_balanced lowered
  have names := function_names ready bodies
  have distinct : (final.listing.functions.map fun function => function.signature.name).Nodup :=
    names ▸ ready.distinct
  have counted : ∀ name, name ∈ final.listing.callTargets final.listing.nodes.toList ↔
      0 < final.listing.calls name := fun name => balanced.mem_callTargets_iff
  have sections := flatMap_nodesOf (row.names.trans names.symm) fun function member part isPart =>
    nodesOf_of_name ready bodies row member isPart
  have remaining := row.pruned (.inr rfl)
  rw [← sections fun name => !(Pruned.ofListing final.listing).removed.contains name] at remaining
  refine ⟨fun name => (counted name).trans (Listing.calls_pos_iff distinct), names, ?_, ?_, ?_⟩
  · refine congrArg (List.map _) (List.filter_congr fun function member => ?_)
    congr 1
    rw [Bool.eq_iff_iff]
    simp only [Bool.not_eq_true', ← Bool.not_eq_true, List.contains_iff_mem, counted,
      Listing.calls_of_mem distinct member, beq_iff_eq]
    omega
  · refine ⟨declared.listing.nodes.toList, ready.globalNames laid.extends_, ?_, remaining⟩
    have all := sections fun _ => true
    rw [List.filter_eq_self.mpr fun _ _ => rfl, List.filter_eq_self.mpr fun _ _ => rfl] at all
    rw [row.nodes_eq, all]
  · intro node member name reached
    have called := balanced.reaches ((pruned_nodes_sublist _).subset member) reached
    obtain ⟨function, isFunction, rfl, positive⟩ := (Listing.calls_pos_iff distinct).mp called
    have stays : function.signature.name ∉ (Pruned.ofListing final.listing).removed := by
      intro removed
      obtain ⟨other, isUnused, named⟩ := List.mem_map.mp removed
      have uncalled := (List.mem_filter.mp isUnused).2
      rw [named] at uncalled
      simp [(counted _).mpr called] at uncalled
    refine ⟨function, isFunction, rfl, stays, head?_of_section ready bodies row isFunction, ?_⟩
    have isKept : function ∈ final.listing.functions.filter fun function =>
        !(Pruned.ofListing final.listing).removed.contains function.signature.name :=
      List.mem_filter.mpr ⟨isFunction, by simpa using stays⟩
    obtain ⟨front, back, split⟩ := List.append_of_mem isKept
    rw [remaining, split, List.flatMap_append, List.flatMap_cons, ← List.append_assoc,
      ← List.append_assoc]
    exact List.infix_append _ _ _

/--
The result of `first` is only asked for by the call of `second`, and nothing calls `unused`, whose
own call keeps `third`.
-/
def pruningProgram : Program :=
  { file := "t.ils"
    statements := [
      .function 1 "unused" [] .absent 1 [.call 1 1 "third" false []],
      .declare 2 "a" .int none,
      .function 3 "first" [] .int 3 [.leave 3 (some (.name 3 "a"))],
      .function 4 "second" [{ line := 4, name := "x", type := .int }] .int 4 [
        .leave 4 (some (.name 4 "x"))],
      .function 5 "third" [] .absent 5 [],
      .function 6 "main" [] .absent 6 [
        .declare 6 "y" .int (some (.call 6 "second" false [.call 6 "first" false []]))]] }

theorem pruningProgram_exact :
    ∃ listing,
      pruningProgram.lower = .ok listing ∧
        (Pruned.ofListing listing).removed = ["unused"] ∧
        (∃ front : List Node,
          front.map listing.globalName? = [some "a"] ∧
            (Pruned.ofListing listing).nodes =
              front ++ (listing.functions.filter fun function =>
                !(Pruned.ofListing listing).removed.contains function.signature.name).flatMap
                  listing.nodesOf) ∧
        ∀ node ∈ (Pruned.ofListing listing).nodes, ¬listing.Reaches node "unused" := by
  have accepted : (pruningProgram.lower.toOption.map fun listing =>
      (Pruned.ofListing listing).removed) = some ["unused"] := by
    decide +kernel
  cases lowered : pruningProgram.lower with
  | error failure => simp [lowered, Except.toOption] at accepted
  | ok listing =>
      simp only [lowered, Except.toOption, Option.map_some, Option.some.injEq] at accepted
      obtain ⟨_, _, _, ⟨front, globals, _, remaining⟩, closed⟩ := lowered_pruning_exact lowered
      refine ⟨listing, rfl, accepted, ⟨front, globals.trans (by decide), remaining⟩, ?_⟩
      intro node member reached
      obtain ⟨_, _, _, stays, _⟩ := closed node member "unused" reached
      exact stays (accepted ▸ List.mem_singleton.mpr rfl)

end Lower

end IlsCompiler
