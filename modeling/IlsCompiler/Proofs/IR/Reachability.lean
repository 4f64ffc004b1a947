import Mathlib.Data.List.Perm.Subperm
import IlsCompiler.Proofs.IR.Transfers
import IlsCompiler.Proofs.Scope.Laws

namespace IlsCompiler.Graph

/-!
# Reachability

A block reaches another one if a path of admitted edges leads there. The search for such a path
keeps the labels that it has found and those that it has yet to follow; everything behind a label
that it has followed has been found, and each label is found once, so the search comes to an end.
-/

/-- A path of admitted edges from one block to another, which may be empty. -/
inductive Path (graph : Graph) (admits : Edge → Bool) : Block → Block → Prop
  | here (block : Block) : Path graph admits block block
  | along {source next goal : Block} {edge : Edge} :
      edge ∈ source.successors → admits edge = true →
        next ∈ graph.blocks → next.label = edge.target →
        Path graph admits next goal → Path graph admits source goal

/-- Each block is the one of its label, and each edge leads to one of the blocks. -/
structure Linked (graph : Graph) : Prop where
  named : ∀ block ∈ graph.blocks, graph.block? block.label = some block
  closed : ∀ block ∈ graph.blocks, ∀ edge ∈ block.successors,
    ∃ next ∈ graph.blocks, next.label = edge.target

variable
    {nodes : List Node}
    {graph : Graph}
    {admits : Edge → Bool}
    {source goal : Block}

theorem linked_of_ofNodes
    (succeeds : ofNodes nodes = .ok graph) :
    graph.Linked := by
  obtain ⟨labels, built⟩ := built_of_ofNodes succeeds
  refine ⟨fun block member => built.block?_of_mem member, fun block member edge isEdge => ?_⟩
  obtain ⟨_, _, _, _, _, last, _, _, _, _, isTarget, _⟩ := built.passes_of_edge member isEdge
  obtain ⟨next, nextMember, isNext, _⟩ := built.complete last.position edge.target isTarget
  exact ⟨next, nextMember, isNext⟩

namespace Linked

theorem eq_of_label
    (linked : graph.Linked)
    {block other : Block}
    (member : block ∈ graph.blocks)
    (otherMember : other ∈ graph.blocks)
    (same : block.label = other.label) :
    block = other := by
  have found := linked.named block member
  rw [same, linked.named other otherMember] at found
  exact (Option.some.inj found).symm

/-- The targets of a block's label are those of its admitted edges. -/
theorem mem_targets_iff
    (linked : graph.Linked)
    (member : source ∈ graph.blocks)
    {label : String} :
    label ∈ graph.targets admits source.label ↔
      ∃ edge ∈ source.successors, admits edge = true ∧ edge.target = label := by
  simp only [targets, linked.named source member, List.mem_map, List.mem_filter, and_assoc]

/-- A search that may still come to its goal: what it has found, and what it has yet to follow. -/
structure Searching (graph : Graph) (admits : Edge → Bool) (goal : String) (steps : Nat)
    (pending found : List String) : Prop where
  distinct : found.Nodup
  known : ∀ label ∈ found, ∃ block ∈ graph.blocks, block.label = label
  waiting : pending ⊆ found
  followed : ∀ label ∈ found,
    label ∈ pending ∨ label ≠ goal ∧ ∀ target ∈ graph.targets admits label, target ∈ found
  enough : graph.blocks.length + pending.length < steps + found.length

variable
    {pending found : List String}
    {steps : Nat}

/-- A search whose labels are known has no more of them than there are blocks. -/
theorem Searching.found_le
    {label : String}
    (searching : Searching graph admits label steps pending found) :
    found.length ≤ graph.blocks.length := by
  have within : found ⊆ graph.blocks.map fun block => block.label :=
    fun label member => List.mem_map.mpr (searching.known label member)
  simpa using (searching.distinct.subperm within).length_le

/-- Where nothing is left to follow, no path leads from a found label to the goal. -/
theorem Searching.no_path
    {label : String}
    (searching : Searching graph admits label steps [] found)
    (linked : graph.Linked)
    (path : Path graph admits source goal)
    (member : source ∈ graph.blocks)
    (isFound : source.label ∈ found) :
    goal.label ≠ label := by
  induction path with
  | here block => exact ((searching.followed _ isFound).resolve_left List.not_mem_nil).1
  | along isEdge admitted nextMember isNext _ inductionHypothesis =>
      have behind := ((searching.followed _ isFound).resolve_left List.not_mem_nil).2
      have isTarget := (linked.mem_targets_iff member).mpr ⟨_, isEdge, admitted, isNext.symm⟩
      exact inductionHypothesis nextMember (behind _ isTarget)

/-- Following a label that is not the goal finds its targets, and uses one step. -/
theorem Searching.follow
    {label first : String}
    (searching : Searching graph admits label (steps + 1) (first :: pending) found)
    (linked : graph.Linked)
    (other : first ≠ label) :
    let fresh := ((graph.targets admits first).filter fun target =>
      !found.contains target).eraseDups
    Searching graph admits label steps (fresh ++ pending) (fresh ++ found) := by
  intro fresh
  have mem_fresh : ∀ target,
      target ∈ fresh ↔ target ∈ graph.targets admits first ∧ target ∉ found := by
    intro target
    simp [fresh, List.mem_eraseDups]
  have isFound : first ∈ found := searching.waiting (List.mem_cons_self ..)
  refine ⟨?_, ?_, ?_, ?_, ?_⟩
  · refine List.nodup_append.mpr ⟨ScopeTree.eraseDups_nodup _, searching.distinct, ?_⟩
    rintro target isFresh _ old rfl
    exact ((mem_fresh target).mp isFresh).2 old
  · intro target member
    rcases List.mem_append.mp member with isFresh | old
    · obtain ⟨block, isBlock, rfl⟩ := searching.known first isFound
      obtain ⟨edge, isEdge, _, rfl⟩ :=
        (linked.mem_targets_iff isBlock).mp ((mem_fresh target).mp isFresh).1
      exact linked.closed block isBlock edge isEdge
    · exact searching.known target old
  · exact List.append_subset.mpr ⟨List.subset_append_left _ _, fun target member =>
      List.mem_append_right _ (searching.waiting (List.mem_cons_of_mem _ member))⟩
  · intro target member
    rcases List.mem_append.mp member with isFresh | old
    · exact .inl (List.mem_append_left _ isFresh)
    · by_cases isFirst : target = first
      · subst isFirst
        refine .inr ⟨other, fun next isTarget => ?_⟩
        by_cases seen : next ∈ found
        · exact List.mem_append_right _ seen
        · exact List.mem_append_left _ ((mem_fresh next).mpr ⟨isTarget, seen⟩)
      · rcases searching.followed target old with waits | ⟨noGoal, behind⟩
        · exact .inl (List.mem_append_right _ (List.mem_of_ne_of_mem isFirst waits))
        · exact .inr ⟨noGoal, fun next isTarget => List.mem_append_right _ (behind next isTarget)⟩
  · have enough := searching.enough
    simp only [List.length_append, List.length_cons] at enough ⊢
    omega

/-- A search comes to its goal exactly if a path leads there from a label that it has found. -/
theorem search_iff
    (linked : graph.Linked)
    (goalMember : goal ∈ graph.blocks)
    (searching : Searching graph admits goal.label steps pending found) :
    graph.search admits goal.label steps pending found = true ↔
      ∃ source ∈ graph.blocks, source.label ∈ found ∧ Path graph admits source goal := by
  induction steps generalizing pending found with
  | zero =>
      have enough := searching.enough
      have small := searching.found_le
      omega
  | succ steps inductionHypothesis =>
      cases pending with
      | nil =>
          refine iff_of_false (by simp [search]) ?_
          rintro ⟨source, member, isFound, path⟩
          exact searching.no_path linked path member isFound rfl
      | cons first pending =>
          by_cases isGoal : first = goal.label
          · subst isGoal
            exact iff_of_true (by simp [search]) ⟨goal, goalMember,
              searching.waiting (List.mem_cons_self ..), .here goal⟩
          · simp only [search, if_neg isGoal]
            rw [inductionHypothesis (searching.follow linked isGoal)]
            constructor
            · rintro ⟨source, member, isFound, path⟩
              rcases List.mem_append.mp isFound with isFresh | old
              · rw [List.mem_eraseDups, List.mem_filter] at isFresh
                have firstFound : first ∈ found := searching.waiting (List.mem_cons_self ..)
                obtain ⟨block, isBlock, rfl⟩ := searching.known first firstFound
                obtain ⟨edge, isEdge, admitted, isTarget⟩ :=
                  (linked.mem_targets_iff isBlock).mp isFresh.1
                exact ⟨block, isBlock, firstFound,
                  .along isEdge admitted member isTarget.symm path⟩
              · exact ⟨source, member, old, path⟩
            · rintro ⟨source, member, isFound, path⟩
              exact ⟨source, member, List.mem_append_right _ isFound, path⟩

end Linked

/--
In the graph of a sequence a block is found to be reachable from another one exactly if a path of
admitted edges leads there.
-/
theorem reachable_iff_path
    (succeeds : ofNodes nodes = .ok graph)
    (admits : Edge → Bool)
    (sourceMember : source ∈ graph.blocks)
    (goalMember : goal ∈ graph.blocks) :
    graph.reachable admits source.label goal.label = true ↔ Path graph admits source goal := by
  have linked := linked_of_ofNodes succeeds
  have searching : Linked.Searching graph admits goal.label (graph.blocks.length + 1)
      [source.label] [source.label] :=
    ⟨by simp, by simpa using ⟨source, sourceMember, rfl⟩, List.Subset.refl _,
      fun label member => .inl member, by simp⟩
  unfold reachable
  rw [linked.search_iff goalMember searching]
  constructor
  · rintro ⟨block, member, isSource, path⟩
    rw [linked.eq_of_label sourceMember member (List.mem_singleton.mp isSource).symm]
    exact path
  · exact fun path => ⟨source, sourceMember, List.mem_singleton.mpr rfl, path⟩

/-- A label that jumps to itself or out, and behind it one that jumps back. -/
def loopingNodes : List Node :=
  [.label "a", .jump "a" (some .less), .jump "c" (some .equal), .label "b", .jump "a" none,
    .label "c", .destroy 1]

/-- The block that jumps back. -/
def backBlock : Block :=
  ⟨"b", 3, 5, [.jump "a" none], [⟨"a", none⟩], false⟩

/-- The block that nothing follows. -/
def lastBlock : Block :=
  ⟨"c", 5, 7, [.destroy 1], [], false⟩

/-- The blocks of the three labels. -/
def loopingGraph : Graph :=
  ⟨[⟨"a", 0, 3, [.jump "a" (some .less), .jump "c" (some .equal)],
      [⟨"a", some .less⟩, ⟨"c", some .equal⟩, ⟨"b", none⟩], false⟩, backBlock, lastBlock]⟩

theorem loopingGraph_paths :
    ofNodes loopingNodes = .ok loopingGraph ∧
      backBlock ∈ loopingGraph.blocks ∧ lastBlock ∈ loopingGraph.blocks ∧
      Path loopingGraph (fun _ => true) backBlock lastBlock ∧
      ¬Path loopingGraph (fun edge => edge.condition != some .equal) backBlock lastBlock := by
  have built : ofNodes loopingNodes = .ok loopingGraph := rfl
  have isBack : backBlock ∈ loopingGraph.blocks := by simp [loopingGraph]
  have isLast : lastBlock ∈ loopingGraph.blocks := by simp [loopingGraph]
  exact ⟨built, isBack, isLast,
    (reachable_iff_path built _ isBack isLast).mp (by decide),
    mt (reachable_iff_path built _ isBack isLast).mpr (by decide)⟩

end IlsCompiler.Graph
