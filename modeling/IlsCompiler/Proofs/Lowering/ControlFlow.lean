import IlsCompiler.Proofs.IR.Transfers
import IlsCompiler.Proofs.Lowering.ProgramLabels
import IlsCompiler.Proofs.Lowering.SoundLifetimes

namespace IlsCompiler

/-!
# Closed control flow

A sequence has a graph when no label is set twice in it and every jump leads to one of its
labels. Both hold of a lowered program, where jumps do not even leave their function, and of what
remains of it behind pruning.
-/

/-- The nodes of a listing that belong to a function. -/
def Listing.nodesOf (listing : Listing) (function : Function) : List Node :=
  (listing.nodes.toList.zipIdx.filter fun entry => function.owns entry.2).map fun entry => entry.1

namespace Graph

variable
    {nodes : List Node}

/-- Where no label is set twice every label heads a block. -/
theorem headings_ok
    (position : Nat)
    (afterPrologue : Bool)
    {seen : List String}
    (distinct : (Listing.labelsOf nodes).Nodup)
    (new : ∀ label ∈ Listing.labelsOf nodes, label ∉ seen) :
    ∃ found,
      headings position afterPrologue seen nodes = .ok found ∧
        found.map (fun heading => heading.label) = Listing.labelsOf nodes ∧
        ∀ heading ∈ found, heading.rest ⊆ nodes := by
  induction nodes generalizing position afterPrologue seen with
  | nil => exact ⟨[], rfl, rfl, nofun⟩
  | cons node rest inductionHypothesis =>
      cases node with
      | label name =>
          have front : Listing.labelsOf (.label name :: rest) = name :: Listing.labelsOf rest := rfl
          rw [front] at distinct new ⊢
          have isNew : name ∉ seen := new name (List.mem_cons_self ..)
          have othersNew : ∀ label ∈ Listing.labelsOf rest, label ∉ name :: seen := by
            intro label member wrong
            rcases List.mem_cons.mp wrong with rfl | wasSeen
            · exact (List.nodup_cons.mp distinct).1 member
            · exact new label (List.mem_cons_of_mem _ member) wasSeen
          obtain ⟨found, isFound, labels, within⟩ :=
            inductionHypothesis (position + 1) false (List.nodup_cons.mp distinct).2 othersNew
          refine ⟨_, by rw [headings, if_neg isNew, isFound], ?_, ?_⟩
          · rw [List.map_cons, labels]
          · intro heading member
            rcases List.mem_cons.mp member with rfl | inRest
            · exact List.subset_cons_self _ _
            · exact List.Subset.trans (within heading inRest) (List.subset_cons_self _ _)
      | _ =>
          obtain ⟨found, isFound, labels, within⟩ := inductionHypothesis _ _ distinct new
          exact ⟨found, isFound, labels, fun heading member =>
            List.Subset.trans (within heading member) (List.subset_cons_self _ _)⟩

variable
    {labels : List String}

/-- Where every jump has its label a block ends. -/
theorem extent_ok
    (block : String)
    (position : Nat)
    (targets : targetsOf nodes ⊆ labels) :
    ∃ found, extent labels block position nodes = .ok found := by
  fun_induction extent labels block position nodes with
  | case4 position label rest isLabel test fault failed inductionHypothesis =>
      obtain ⟨found, isFound⟩ := inductionHypothesis (List.cons_subset.mp targets).2
      cases failed.symm.trans isFound
  | case6 position label condition rest noLabel =>
      exact (noLabel (targets (List.mem_cons_self ..))).elim
  | case9 position node rest notLabel notJump notLast notEpilogue fault failed
      inductionHypothesis =>
      have others : targetsOf rest ⊆ labels := by
        refine List.Subset.trans (fun target member => ?_) targets
        obtain ⟨other, isOther, isTarget⟩ := List.mem_filterMap.mp member
        exact List.mem_filterMap.mpr ⟨other, List.mem_cons_of_mem _ isOther, isTarget⟩
      obtain ⟨found, isFound⟩ := inductionHypothesis others
      cases failed.symm.trans isFound
  | _ => exact ⟨_, rfl⟩

theorem blocksOf_ok
    {found : List Heading}
    (targets : ∀ heading ∈ found, targetsOf heading.rest ⊆ labels) :
    ∃ blocks, blocksOf labels found = .ok blocks := by
  induction found with
  | nil => exact ⟨[], rfl⟩
  | cons heading rest inductionHypothesis =>
      obtain ⟨block, isBlock⟩ := extent_ok heading.label (heading.position + 1)
        (targets heading (List.mem_cons_self ..))
      obtain ⟨blocks, areBlocks⟩ := inductionHypothesis fun other member =>
        targets other (List.mem_cons_of_mem _ member)
      exact ⟨_, by rw [blocksOf, isBlock, areBlocks]⟩

/-- A sequence with distinct labels in which every jump has its label has a graph. -/
theorem ofNodes_ok
    (distinct : (Listing.labelsOf nodes).Nodup)
    (targets : targetsOf nodes ⊆ Listing.labelsOf nodes) :
    ∃ graph, ofNodes nodes = .ok graph := by
  obtain ⟨found, isFound, labels, within⟩ := headings_ok 0 false distinct fun _ _ => List.not_mem_nil
  have inside : ∀ heading ∈ found, targetsOf heading.rest ⊆ Listing.labelsOf nodes :=
    fun heading member =>
      List.Subset.trans (List.filterMap_subset _ (within heading member)) targets
  obtain ⟨blocks, areBlocks⟩ := blocksOf_ok inside
  refine ⟨⟨blocks⟩, ?_⟩
  rw [← labels] at areBlocks
  simp only [ofNodes, isFound, areBlocks]

end Graph

namespace Lower

variable
    {program : Program}
    {listing : Listing}

/-- The labels of a lowered program are distinct. -/
theorem lowered_labels_nodup
    (lowered : program.lower = .ok listing) :
    (Listing.labelsOf listing.nodes.toList).Nodup := by
  obtain ⟨declared, final, ready, bodies, rfl⟩ := lower_ready lowered
  have nothing : (start program.file).listing.Marked := ⟨rfl, List.nodup_nil⟩
  have isMarked := bodies.marked ready.functions ready.distinct ready.labelled ready.entryNew
    (ready.sets.marked nothing)
  rw [isMarked.1]
  exact isMarked.2

variable
    {function : Function}
    {declared final : LoweringState}
    {parts : List FunctionSection}

/-- Every function of a listing stands where lowering its body began. -/
theorem section_of_owner
    (ready : Ready program declared)
    (bodies : Bodies program.statements declared final)
    (laid : Laid parts declared final)
    (same : parts.map (fun part => (part.name, part.body)) = functionBodies program.statements)
    (member : function ∈ final.listing.functions) :
    ∃ part ∈ parts,
      part.name = function.signature.name ∧
        function.firstNode = part.start.listing.nodes.size ∧
        function.nodeCount =
          part.finish.listing.nodes.size - part.start.listing.nodes.size := by
  have names := ready.names bodies
  have isTag : (function.signature, function.firstNode, function.nodeCount) ∈
      final.listing.tags := List.mem_map_of_mem member
  have sameNames : parts.map (fun part => part.name) = functionNames program.statements := by
    rw [functionNames_eq, ← same, List.map_map]
    rfl
  have isName : function.signature.name ∈ parts.map fun part => part.name := by
    rw [sameNames, ← names]
    exact List.mem_map_of_mem isTag
  obtain ⟨part, isPart, named⟩ := List.mem_map.mp isName
  obtain ⟨tag, partTag, tagName, place⟩ := tag_of_section bodies ready.functions ready.distinct
    (fun tag member _ => ready.fresh tag member) laid same part isPart
  have sameTag := tag_unique (names ▸ ready.distinct) isTag partTag (by rw [tagName, named])
  rw [← sameTag] at place
  exact ⟨part, isPart, named, congrArg Prod.fst place, congrArg Prod.snd place⟩

/-- What stands where lowering a body began is what lowering that body added. -/
theorem nodesOf_of_place
    {part : FunctionSection}
    (laid : Laid parts declared final)
    (member : part ∈ parts)
    (first : function.firstNode = part.start.listing.nodes.size)
    (count : function.nodeCount =
      part.finish.listing.nodes.size - part.start.listing.nodes.size) :
    final.listing.nodesOf function = part.nodes := by
  obtain ⟨front, back, rfl, inFront, _, known, bodyLowered, behind⟩ := laid.split member
  have grown := (functionBody_tags known bodyLowered).1
  have length := grown.length_since
  have owns : ∀ position, function.owns position = true ↔
      part.start.listing.nodes.size ≤ position ∧ position < part.finish.listing.nodes.size := by
    intro position
    simp only [Function.owns, first, count, Bool.and_eq_true, decide_eq_true_eq]
    omega
  have apart : ∀ position,
      position < part.start.listing.nodes.size ∨ part.finish.listing.nodes.size ≤ position →
        (!function.owns position) = true := by
    intro position outside
    rw [Bool.not_eq_true', Bool.eq_false_iff, Ne, owns]
    omega
  have kept : final.listing.nodesOf function =
      keep (fun position => !function.owns position) 0 final.listing.nodes.toList := by
    simp [Listing.nodesOf, keep]
  rw [kept, behind.extends_.nodes_eq, grown.nodes_eq, keep_append, keep_append, keep_none,
    keep_all, keep_none, List.nil_append, List.append_nil]
  · rfl
  all_goals
    intro position lower upper
    simp only [List.length_append, Array.length_toList, Nat.zero_add] at lower upper
  · exact apart position (.inr (length ▸ lower))
  · simp only [Bool.not_eq_false', owns]
    omega
  · exact apart position (.inl upper)

/-- What belongs to a function is what lowering its body added. -/
theorem nodesOf_eq_section
    (lowered : program.lower = .ok listing)
    (member : function ∈ listing.functions) :
    ∃ part : FunctionSection,
      part.start.listing.Parameters part.function ∧
        functionBody part.function part.body part.start = .ok ((), part.finish) ∧
        listing.nodesOf function = part.nodes := by
  obtain ⟨declared, final, ready, bodies, rfl⟩ := lower_ready lowered
  obtain ⟨parts, laid, same⟩ := bodies.laid ready.functions
  obtain ⟨part, isPart, _, first, count⟩ := section_of_owner ready bodies laid same member
  obtain ⟨_, _, _, _, _, known, bodyLowered, _⟩ := laid.split isPart
  exact ⟨part, known, bodyLowered, nodesOf_of_place laid isPart first count⟩

theorem pruned_nodes_sublist
    (listing : Listing) :
    (Pruned.ofListing listing).nodes.Sublist listing.nodes.toList := by
  let kept := listing.nodes.toList.zipIdx.filter fun entry =>
    !listing.unusedFunctions.any fun function => function.owns entry.2
  have fewer : (kept.map Prod.fst).Sublist (listing.nodes.toList.zipIdx.map Prod.fst) :=
    List.filter_sublist.map Prod.fst
  rwa [List.zipIdx_map_fst] at fewer

/-- What remains behind pruning sets labels that the listing sets, in the same order. -/
theorem pruned_labels_sublist
    (listing : Listing) :
    (Listing.labelsOf (Pruned.ofListing listing).nodes).Sublist
      (Listing.labelsOf listing.nodes.toList) :=
  (pruned_nodes_sublist listing).filterMap _

/--
Control flow is closed. Lowering is never refused because of a label, wherever it is interrupted.
The labels of a lowered program are pairwise distinct, every jump of a function leads to a label
of that function, and there is a graph of the listing and one of what remains of it behind
pruning.
-/
theorem lowered_control_flow_closed :
    (∀ (program : Program) (interrupted : Nat → Bool) (failure : Failure),
      (Lowering.ofProgram program interrupted).result = .error failure →
        failure.code ≠ .duplicateLabel) ∧
    ∀ (program : Program) (listing : Listing),
      program.lower = .ok listing →
        (Listing.labelsOf listing.nodes.toList).Nodup ∧
          (∀ function ∈ listing.functions, ∀ target ∈ targetsOf (listing.nodesOf function),
            target ∈ Listing.labelsOf (listing.nodesOf function)) ∧
          (∃ graph, Graph.ofNodes listing.nodes.toList = .ok graph) ∧
          ∃ graph, Graph.ofNodes (Pruned.ofListing listing).nodes = .ok graph := by
  refine ⟨fun _ _ _ failed => (ofProgram_spares failed).code_ne, ?_⟩
  intro program listing lowered
  have distinct := lowered_labels_nodup lowered
  obtain ⟨declared, final, parts, row⟩ := lower_row lowered
  have whole : targetsOf listing.nodes.toList ⊆ Listing.labelsOf listing.nodes.toList := by
    refine row.targets (fun _ => true) ?_
    rw [row.nodes_eq, List.filter_eq_self.mpr fun _ _ => rfl]
  have remaining := row.targets (fun part =>
    !(Pruned.ofListing listing).removed.contains part.name) (row.pruned (.inr rfl))
  refine ⟨distinct, ?_, Graph.ofNodes_ok distinct whole, ?_⟩
  · intro function member
    obtain ⟨part, known, bodyLowered, nodes⟩ := nodesOf_eq_section lowered member
    rw [nodes]
    exact fun _ isTarget => functionBody_lands known bodyLowered isTarget
  · exact Graph.ofNodes_ok (distinct.sublist (pruned_labels_sublist listing)) remaining

/-- A loop that is left from the arms of a choice, in front of a function that nothing calls. -/
def leavingProgram : Program :=
  let test (op : CmpOp) (bound : String) : Option Condition :=
    some { line := 1, joins := [], terms := [
      { line := 1, left := .name 1 "i", op := some op,
        right := some (.literal 1 (.scalar .int bound)) }] }
  let next : Expr := .binary 1 .add (.name 1 "i") (.literal 1 (.scalar .int "1"))
  { file := "t.ils"
    statements := [
      .function 1 "main" [] .absent 1 [
        .declare 1 "i" .int (some (.literal 1 (.scalar .int "0"))),
        .loop 1 (test .less "9") 1 [
          .choose 1 (test .equal "7") 1 [.exit 1]
            (.elif 1 (test .equal "8") 1 [.leave 1 none]
              (.otherwise 1 1 [.block 1 [.assign 1 "i" none next]]))]],
      .function 2 "unused" [] .absent 2 [.block 2 [.leave 2 none]]] }

theorem leavingProgram_closed :
    (∃ failure,
      (Lowering.ofProgram { file := "t.ils", statements := [] } fun _ => false).result =
          .error failure ∧ failure.code = .missingEntry ∧ failure.code ≠ .duplicateLabel) ∧
      ∃ listing,
        leavingProgram.lower = .ok listing ∧
          (Pruned.ofListing listing).removed = ["unused"] ∧
          targetsOf (Pruned.ofListing listing).nodes =
            ["WHILE0_COND", "IF1_BODY", "IF1_ALT0", "WHILE0_END", "IF1_END", "IF1_ALT0_BODY",
              "IF1_ALT1", "FUNC_MAIN_END", "IF1_END", "WHILE0_START"] ∧
          (Listing.labelsOf listing.nodes.toList).Nodup ∧
          ∃ graph, Graph.ofNodes (Pruned.ofListing listing).nodes = .ok graph := by
  obtain ⟨spares, closed⟩ := lowered_control_flow_closed
  refine ⟨⟨_, rfl, rfl, spares { file := "t.ils", statements := [] } (fun _ => false) _ rfl⟩, ?_⟩
  have accepted : (leavingProgram.lower.toOption.map fun listing =>
      ((Pruned.ofListing listing).removed, targetsOf (Pruned.ofListing listing).nodes)) =
        some (["unused"], ["WHILE0_COND", "IF1_BODY", "IF1_ALT0", "WHILE0_END", "IF1_END",
          "IF1_ALT0_BODY", "IF1_ALT1", "FUNC_MAIN_END", "IF1_END", "WHILE0_START"]) := by
    decide +kernel
  cases lowered : leavingProgram.lower with
  | error failure => simp [lowered, Except.toOption] at accepted
  | ok listing =>
      simp only [lowered, Except.toOption, Option.map_some, Option.some.injEq,
        Prod.mk.injEq] at accepted
      obtain ⟨distinct, _, _, graph⟩ := closed _ _ lowered
      exact ⟨listing, rfl, accepted.1, accepted.2, distinct, graph⟩

end Lower

end IlsCompiler
