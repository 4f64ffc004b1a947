import Mathlib.Data.List.Nodup
import IlsCompiler.IR.Graph

namespace IlsCompiler

/-!
# Control transfers

Control goes through a sequence of nodes from each to the one behind it. A jump that is taken leads
to its label instead, one without a condition is always taken, and the end of a function stops.
The edges of a graph are exactly the transfers from a label to the next one that arise in this way,
each with the condition of the jump that is taken.
-/

namespace Node

/-- Whether control can go on from a node to the one behind it. -/
def goesOn : Node → Bool
  | .jump _ none => false
  | .epilogue _ => false
  | _ => true

/-- Whether a node is a label. -/
def isLabel : Node → Bool
  | .label _ => true
  | _ => false

end Node

namespace Graph

/--
Control goes from one position of a sequence to another: on to the next node, or to the label of a
jump. The condition is that of the jump that is taken.
-/
inductive Moves (nodes : List Node) (position : Nat) : Option CmpOp → Nat → Prop
  | on {node : Node} :
      nodes[position]? = some node → node.goesOn →
        Moves nodes position none (position + 1)
  | jump {label : String} {condition : Option CmpOp} {target : Nat} :
      nodes[position]? = some (.jump label condition) →
        nodes[target]? = some (.label label) →
        Moves nodes position condition target

/-- A position that control has come to, with the condition of the jump that led there. -/
structure Visit where
  condition : Option CmpOp
  position : Nat

/-- The positions that control comes to, one after the other, from a position on. -/
inductive Run (nodes : List Node) : Nat → List Visit → Prop
  | stop {position : Nat} : Run nodes position []
  | move {position next : Nat} {condition : Option CmpOp} {rest : List Visit} :
      Moves nodes position condition next → Run nodes next rest →
        Run nodes position (⟨condition, next⟩ :: rest)

/-- An execution begins at a label; this is what has been visited up to some point of it. -/
inductive Execution (nodes : List Node) : List Visit → Prop
  | start {position : Nat} {name : String} {rest : List Visit} :
      nodes[position]? = some (.label name) → Run nodes position rest →
        Execution nodes (⟨none, position⟩ :: rest)

/-- Among the visits of an execution control passes from a label to the next one. -/
def Passes (nodes : List Node) (visits : List Visit) (source : String)
    (condition : Option CmpOp) (target : String) : Prop :=
  ∃ front first middle last back,
    visits = front ++ first :: (middle ++ last :: back) ∧
      nodes[first.position]? = some (.label source) ∧
      (∀ visit ∈ middle, ∀ name, nodes[visit.position]? ≠ some (.label name)) ∧
      nodes[last.position]? = some (.label target) ∧ last.condition = condition

variable
    {node : Node}

section Ways

variable
    {nodes : List Node}
    {position : Nat}
    {condition : Option CmpOp}
    {target : String}

/-- From a position on, control can come to a label before it comes to any other. -/
inductive Leads (nodes : List Node) (condition : Option CmpOp) (target : String) : Nat → Prop
  | here {position : Nat} :
      nodes[position]? = some (.label target) → condition = none →
        Leads nodes condition target position
  | jump {position : Nat} :
      nodes[position]? = some (.jump target condition) → Leads nodes condition target position
  | on {position : Nat} {node : Node} :
      nodes[position]? = some node → node.isLabel = false → node.goesOn →
        Leads nodes condition target (position + 1) → Leads nodes condition target position

/-- Where control comes to from a node depends on what the node does. -/
theorem leads_iff
    (found : nodes[position]? = some node) :
    Leads nodes condition target position ↔
      (node = .label target ∧ condition = none) ∨ node = .jump target condition ∨
        (node.isLabel = false ∧ node.goesOn ∧ Leads nodes condition target (position + 1)) := by
  constructor
  · intro leads
    cases leads with
    | here isLabel noCondition =>
        exact .inl ⟨Option.some.inj (found.symm.trans isLabel), noCondition⟩
    | jump isJump => exact .inr (.inl (Option.some.inj (found.symm.trans isJump)))
    | on known noLabel goesOn later =>
        cases found.symm.trans known
        exact .inr (.inr ⟨noLabel, goesOn, later⟩)
  · rintro (⟨rfl, noCondition⟩ | rfl | ⟨noLabel, goesOn, later⟩)
    · exact .here found noCondition
    · exact .jump found
    · exact .on found noLabel goesOn later

theorem not_leads_of_end
    (ended : nodes[position]? = none) :
    ¬Leads nodes condition target position := by
  rintro (⟨found, _⟩ | found | ⟨found, _, _, _⟩) <;> simp [ended] at found

variable
    {front back : List Visit}
    {visit : Visit}

/-- What is visited behind a visit of a run is a run from there. -/
theorem Run.behind
    (run : Run nodes position (front ++ visit :: back)) :
    Run nodes visit.position back := by
  induction front generalizing position with
  | nil =>
      cases run with
      | move _ later => exact later
  | cons first rest inductionHypothesis =>
      cases run with
      | move _ later => exact inductionHypothesis later

theorem Execution.behind
    (execution : Execution nodes (front ++ visit :: back)) :
    Run nodes visit.position back := by
  generalize whole : front ++ visit :: back = visits at execution
  cases execution with
  | start isLabel run =>
      cases front with
      | nil =>
          cases whole
          exact run
      | cons first rest =>
          rw [List.cons_append, List.cons.injEq] at whole
          rw [← whole.2] at run
          exact run.behind

variable
    {middle back : List Visit}
    {last : Visit}

/-- A run that comes to a label over other nodes shows where control can come to. -/
theorem Run.leads
    (run : Run nodes position (middle ++ last :: back))
    (noLabel : ∀ name, nodes[position]? ≠ some (.label name))
    (between : ∀ visit ∈ middle, ∀ name, nodes[visit.position]? ≠ some (.label name))
    (ends : nodes[last.position]? = some (.label target)) :
    Leads nodes last.condition target position := by
  have other : ∀ {node : Node}, nodes[position]? = some node → node.isLabel = false := by
    intro node found
    cases node <;> first | rfl | exact absurd found (noLabel _)
  induction middle generalizing position with
  | nil =>
      cases run with
      | move moves later =>
          cases moves with
          | on found goesOn => exact .on found (other found) goesOn (.here ends rfl)
          | jump found isTarget =>
              cases isTarget.symm.trans ends
              exact .jump found
  | cons visit rest inductionHypothesis =>
      cases run with
      | move moves later =>
          have visitNoLabel := between _ (List.mem_cons_self ..)
          cases moves with
          | on found goesOn =>
              refine .on found (other found) goesOn (inductionHypothesis later visitNoLabel
                (fun visit member => between visit (List.mem_cons_of_mem _ member)) ?_)
              intro node isNode
              cases node <;> first | rfl | exact absurd isNode (visitNoLabel _)
          | jump found isTarget => exact absurd isTarget (visitNoLabel _)

/-- Behind a label control comes where the label leads. -/
theorem Run.leads_behind
    {source : String}
    (isLabel : nodes[position]? = some (.label source))
    (run : Run nodes position (middle ++ last :: back))
    (between : ∀ visit ∈ middle, ∀ name, nodes[visit.position]? ≠ some (.label name))
    (ends : nodes[last.position]? = some (.label target)) :
    Leads nodes last.condition target (position + 1) := by
  cases middle with
  | nil =>
      cases run with
      | move moves later =>
          cases moves with
          | on => exact .here ends rfl
          | jump found => cases isLabel.symm.trans found
  | cons visit rest =>
      cases run with
      | move moves later =>
          cases moves with
          | jump found => cases isLabel.symm.trans found
          | on =>
              exact later.leads (between _ (List.mem_cons_self ..))
                (fun visit member => between visit (List.mem_cons_of_mem _ member)) ends

/-- Where control can come to, some run comes. -/
theorem Leads.run
    {goal : Nat}
    (leads : Leads nodes condition target position)
    (isGoal : nodes[goal]? = some (.label target))
    {before : Nat}
    (moves : Moves nodes before none position) :
    ∃ middle last,
      Run nodes before (middle ++ [last]) ∧
        (∀ visit ∈ middle, ∀ name, nodes[visit.position]? ≠ some (.label name)) ∧
        nodes[last.position]? = some (.label target) ∧ last.condition = condition := by
  induction leads generalizing before with
  | here isLabel noCondition =>
      exact ⟨[], _, .move moves .stop, nofun, isLabel, noCondition.symm⟩
  | jump isJump =>
      refine ⟨[_], _, .move moves (.move (.jump isJump isGoal) .stop), ?_, isGoal, rfl⟩
      simp [isJump]
  | on found noLabel goesOn _ inductionHypothesis =>
      obtain ⟨middle, last, run, between, ends, taken⟩ := inductionHypothesis (.on found goesOn)
      refine ⟨_ :: middle, last, .move moves run, ?_, ends, taken⟩
      intro visit member name isLabel
      rcases List.mem_cons.mp member with rfl | inMiddle
      · cases found.symm.trans isLabel
        cases noLabel
      · exact between visit inMiddle name isLabel

end Ways

variable
    {blocks : List Block}

section Blocks

variable
    {nodes rest : List Node}
    {labels : List String}
    {block : String}
    {position : Nat}

theorem at_of_drop
    (behind : nodes.drop position = node :: rest) :
    nodes[position]? = some node ∧ nodes.drop (position + 1) = rest := by
  constructor
  · rw [← List.head?_drop, behind, List.head?_cons]
  · rw [← List.tail_drop, behind, List.tail_cons]

variable
    {found : Extent}

/-- The edges of a block lead where control can come to from behind its label. -/
theorem mem_successors_iff
    (behind : nodes.drop position = rest)
    (scanned : extent labels block position rest = .ok found)
    (edge : Edge) :
    edge ∈ found.successors ↔ Leads nodes edge.condition edge.target position := by
  obtain ⟨target, condition⟩ := edge
  fun_induction extent labels block position rest generalizing found with
  | case1 position =>
      cases scanned
      have ended : nodes[position]? = none := by
        rw [← List.head?_drop, behind, List.head?_nil]
      simp [not_leads_of_end ended]
  | case2 position name rest =>
      cases scanned
      rw [leads_iff (at_of_drop behind).1]
      simp [Node.isLabel, @eq_comm _ name]
  | case3 position label rest isLabel =>
      cases scanned
      rw [leads_iff (at_of_drop behind).1]
      simp [Node.goesOn, @eq_comm _ label, @eq_comm _ none]
  | case4 => cases scanned
  | case5 position label rest isLabel test others isOthers inductionHypothesis =>
      cases scanned
      have later := inductionHypothesis (at_of_drop behind).2 isOthers
      rw [leads_iff (at_of_drop behind).1, ← later]
      simp [Extent.add, Node.goesOn, Node.isLabel, eq_comm]
  | case6 => cases scanned
  | case7 position function scope kind endsFunction rest =>
      cases scanned
      rw [leads_iff (at_of_drop behind).1]
      simp [Node.goesOn]
  | case8 position function rest =>
      cases scanned
      rw [leads_iff (at_of_drop behind).1]
      simp [Node.goesOn]
  | case9 => cases scanned
  | case10 position node rest notLabel notJump notLast notEpilogue others isOthers
      inductionHypothesis =>
      cases scanned
      have later := inductionHypothesis (at_of_drop behind).2 isOthers
      have plain : node.isLabel = false ∧ node.goesOn := by
        cases node <;> simp_all [Node.isLabel, Node.goesOn]
      rw [leads_iff (at_of_drop behind).1, ← later]
      simp only [Extent.add, List.nil_append, plain, true_and]
      constructor
      · exact fun member => .inr (.inr member)
      · rintro (⟨isLabel, _⟩ | isJump | member)
        · exact absurd isLabel (notLabel _)
        · exact absurd isJump (notJump _ _)
        · exact member

/-- Every jump that a scan comes to has its label. -/
theorem jump_of_scanned
    {label : String}
    {condition : Option CmpOp}
    (scanned : extent labels block position (nodes.drop position) = .ok found)
    (isJump : nodes[position]? = some (.jump label condition)) :
    label ∈ labels := by
  have behind : nodes.drop position = .jump label condition :: nodes.drop (position + 1) := by
    rw [List.drop_eq_getElem?_toList_append, isJump]
    rfl
  rw [behind] at scanned
  by_contra unknown
  simp [extent, unknown] at scanned

/-- A scan goes on wherever control goes on from a node that is no label. -/
theorem scanned_on
    (scanned : extent labels block position (nodes.drop position) = .ok found)
    (isNode : nodes[position]? = some node)
    (noLabel : node.isLabel = false)
    (goesOn : node.goesOn) :
    ∃ others, extent labels block (position + 1) (nodes.drop (position + 1)) = .ok others := by
  have behind : nodes.drop position = node :: nodes.drop (position + 1) := by
    rw [List.drop_eq_getElem?_toList_append, isNode]
    rfl
  rw [behind] at scanned
  cases later : extent labels block (position + 1) (nodes.drop (position + 1)) with
  | ok others => exact ⟨others, rfl⟩
  | error fault =>
      -- Only a jump without a condition ends a scan that has no label and no end of a function.
      cases node with
      | jump label condition =>
          by_cases isLabel : label ∈ labels <;> cases condition <;> simp_all [extent, Node.goesOn]
      | _ => simp_all [extent, Node.isLabel, Node.goesOn]

/-- Behind a place that has been scanned, control comes only to labels that are known. -/
theorem Leads.known
    {target : String}
    {condition : Option CmpOp}
    (leads : Leads nodes condition target position)
    (scanned : ∃ found, extent labels block position (nodes.drop position) = .ok found) :
    Node.label target ∈ nodes ∨ target ∈ labels := by
  induction leads with
  | here isLabel => exact .inl (List.mem_of_getElem? isLabel)
  | jump isJump =>
      obtain ⟨found, scanned⟩ := scanned
      exact .inr (jump_of_scanned scanned isJump)
  | on isNode noLabel goesOn _ inductionHypothesis =>
      obtain ⟨found, scanned⟩ := scanned
      exact inductionHypothesis (scanned_on scanned isNode noLabel goesOn)

/-- A label from a position on is behind it, if another node is there. -/
theorem beyond
    {place : Nat}
    {name : String}
    (isNode : nodes[position]? = some node)
    (noLabel : ∀ name, node ≠ .label name)
    (reached : position ≤ place)
    (isLabel : nodes[place]? = some (.label name)) :
    position + 1 ≤ place := by
  refine Nat.lt_of_le_of_ne reached ?_
  rintro rfl
  exact noLabel name (Option.some.inj (isNode.symm.trans isLabel))

/-- The headings of a sequence are its labels, each once, with what stands behind them. -/
theorem headings_sound
    {found : List Heading}
    {afterPrologue : Bool}
    {seen : List String}
    (behind : nodes.drop position = rest)
    (succeeds : headings position afterPrologue seen rest = .ok found) :
    (∀ heading ∈ found, nodes[heading.position]? = some (.label heading.label) ∧
        nodes.drop (heading.position + 1) = heading.rest) ∧
      (∀ place name, position ≤ place → nodes[place]? = some (.label name) →
        ∃ heading ∈ found, heading.position = place ∧ heading.label = name) ∧
      (found.map fun heading => heading.label).Nodup ∧
      ∀ heading ∈ found, heading.label ∉ seen := by
  fun_induction headings position afterPrologue seen rest generalizing found with
  | case1 position =>
      cases succeeds
      refine ⟨nofun, ?_, List.nodup_nil, nofun⟩
      intro place name reached isLabel
      have ended : nodes.length ≤ position := List.drop_eq_nil_iff.mp behind
      simp [List.getElem?_eq_none (Nat.le_trans ended reached)] at isLabel
  | case2 => cases succeeds
  | case3 => cases succeeds
  | case4 position afterPrologue seen name rest fresh others isOthers inductionHypothesis =>
      cases succeeds
      obtain ⟨isLabel, later⟩ := at_of_drop behind
      obtain ⟨placed, complete, distinct, unseen⟩ := inductionHypothesis later isOthers
      refine ⟨?_, ?_, ?_, ?_⟩
      · intro heading member
        rcases List.mem_cons.mp member with rfl | inOthers
        · exact ⟨isLabel, later⟩
        · exact placed heading inOthers
      · intro place other reached isOther
        rcases Nat.eq_or_lt_of_le reached with rfl | behindIt
        · cases isLabel.symm.trans isOther
          exact ⟨_, List.mem_cons_self .., rfl, rfl⟩
        · obtain ⟨heading, member, same⟩ := complete place other behindIt isOther
          exact ⟨heading, List.mem_cons_of_mem _ member, same⟩
      · refine List.nodup_cons.mpr ⟨?_, distinct⟩
        rintro member
        obtain ⟨heading, inOthers, same⟩ := List.mem_map.mp member
        exact unseen heading inOthers (same ▸ List.mem_cons_self ..)
      · intro heading member
        rcases List.mem_cons.mp member with rfl | inOthers
        · exact fresh
        · exact fun inSeen => unseen heading inOthers (List.mem_cons_of_mem _ inSeen)
  | case5 position afterPrologue seen _ _ rest inductionHypothesis =>
      obtain ⟨isNode, later⟩ := at_of_drop behind
      obtain ⟨placed, complete, names⟩ := inductionHypothesis later succeeds
      exact ⟨placed, fun place name reached isLabel =>
        complete place name (beyond isNode nofun reached isLabel) isLabel, names⟩
  | case6 position afterPrologue seen node rest noLabel _ inductionHypothesis =>
      obtain ⟨isNode, later⟩ := at_of_drop behind
      obtain ⟨placed, complete, names⟩ := inductionHypothesis later succeeds
      exact ⟨placed, fun place name reached isLabel =>
        complete place name (beyond isNode noLabel reached isLabel) isLabel, names⟩

/-- A block has the label of a heading and the edges that are found behind it. -/
def Heading.Makes (labels : List String) (heading : Heading) (block : Block) : Prop :=
  block.label = heading.label ∧
    ∃ found, extent labels heading.label (heading.position + 1) heading.rest = .ok found ∧
      block.successors = found.successors

/-- The blocks of headings are those that the headings make. -/
theorem blocksOf_sound
    {found : List Heading}
    (succeeds : blocksOf labels found = .ok blocks) :
    blocks.map (fun block => block.label) = found.map (fun heading => heading.label) ∧
      (∀ block ∈ blocks, ∃ heading ∈ found, heading.Makes labels block) ∧
      ∀ heading ∈ found, ∃ block ∈ blocks, heading.Makes labels block := by
  fun_induction blocksOf labels found generalizing blocks with
  | case1 =>
      cases succeeds
      exact ⟨rfl, nofun, nofun⟩
  | case2 => cases succeeds
  | case3 => cases succeeds
  | case4 heading rest scanned isScanned others isOthers inductionHypothesis =>
      cases succeeds
      obtain ⟨names, sources, results⟩ := inductionHypothesis isOthers
      have makes : ∀ {block : Block}, block.label = heading.label →
          block.successors = scanned.successors → heading.Makes labels block :=
        fun sameLabel sameEdges => ⟨sameLabel, scanned, isScanned, sameEdges⟩
      refine ⟨congrArg (heading.label :: ·) names, ?_, ?_⟩
      · exact List.forall_mem_cons.mpr ⟨⟨heading, List.mem_cons_self .., makes rfl rfl⟩,
          fun block member =>
          (sources block member).imp fun _ made => ⟨List.mem_cons_of_mem _ made.1, made.2⟩⟩
      · exact List.forall_mem_cons.mpr ⟨⟨_, List.mem_cons_self .., makes rfl rfl⟩,
          fun heading member =>
          (results heading member).imp fun _ made => ⟨List.mem_cons_of_mem _ made.1, made.2⟩⟩

end Blocks

/-- The label of a block is at a position, and its edges are those found behind it. -/
def StandsAt (nodes : List Node) (labels : List String) (block : Block) (position : Nat) : Prop :=
  nodes[position]? = some (.label block.label) ∧
    ∃ found, extent labels block.label (position + 1) (nodes.drop (position + 1)) = .ok found ∧
      block.successors = found.successors

/-- The blocks of a graph stand at the labels of the sequence, each label once. -/
structure Built (nodes : List Node) (graph : Graph) (labels : List String) : Prop where
  names : graph.blocks.map (fun block => block.label) = labels
  distinct : labels.Nodup
  placed : ∀ block ∈ graph.blocks, ∃ position, StandsAt nodes labels block position
  complete : ∀ position name, nodes[position]? = some (.label name) →
    ∃ block ∈ graph.blocks, block.label = name ∧ StandsAt nodes labels block position

section Building

variable
    {nodes : List Node}
    {graph : Graph}
    {labels : List String}

/-- A graph that is made from a sequence is built from its labels. -/
theorem built_of_ofNodes
    (succeeds : ofNodes nodes = .ok graph) :
    ∃ labels, Built nodes graph labels := by
  unfold ofNodes at succeeds
  cases isFound : headings 0 false [] nodes with
  | error fault => simp [isFound] at succeeds
  | ok found =>
      cases isBlocks : blocksOf (found.map fun heading => heading.label) found with
      | error fault => simp [isFound, isBlocks] at succeeds
      | ok blocks =>
          simp only [isFound, isBlocks, Except.ok.injEq] at succeeds
          subst succeeds
          obtain ⟨placed, complete, distinct, -⟩ := headings_sound (List.drop_zero) isFound
          obtain ⟨names, sources, results⟩ := blocksOf_sound isBlocks
          have stands : ∀ heading ∈ found, ∀ block, heading.Makes (found.map (·.label)) block →
              StandsAt nodes (found.map (·.label)) block heading.position := by
            intro heading member block makes
            obtain ⟨isLabel, behind⟩ := placed heading member
            obtain ⟨same, scanned⟩ := makes
            rw [StandsAt, same, behind]
            exact ⟨isLabel, scanned⟩
          refine ⟨_, names, distinct, ?_, ?_⟩
          · intro block member
            obtain ⟨heading, isHeading, makes⟩ := sources block member
            exact ⟨_, stands heading isHeading block makes⟩
          · intro position name isLabel
            obtain ⟨heading, isHeading, rfl, rfl⟩ :=
              complete position name (Nat.zero_le _) isLabel
            obtain ⟨block, isBlock, makes⟩ := results heading isHeading
            exact ⟨block, isBlock, makes.1, stands heading isHeading block makes⟩

variable
    {visits : List Visit}
    {block : Block}

namespace Built

/-- The block of a label is the one that has it. -/
theorem block?_of_mem
    (built : Built nodes graph labels)
    (member : block ∈ graph.blocks) :
    graph.block? block.label = some block := by
  have isFound : (graph.block? block.label).isSome :=
    List.find?_isSome.mpr ⟨block, member, by simp⟩
  obtain ⟨found, isFound⟩ := Option.isSome_iff_exists.mp isFound
  have same : found.label = block.label := by
    simpa using List.find?_some isFound
  have distinct := built.names ▸ built.distinct
  rw [isFound, List.inj_on_of_nodup_map distinct (List.mem_of_find?_eq_some isFound) member same]

/-- Every label that a graph knows is a node of the sequence. -/
theorem label_of_known
    (built : Built nodes graph labels)
    {label : String}
    (known : Node.label label ∈ nodes ∨ label ∈ labels) :
    ∃ goal : Nat, nodes[goal]? = some (Node.label label) := by
  rcases known with isNode | isLabel
  · exact List.mem_iff_getElem?.mp isNode
  · rw [← built.names] at isLabel
    obtain ⟨block, member, rfl⟩ := List.mem_map.mp isLabel
    obtain ⟨position, isLabel, _⟩ := built.placed block member
    exact ⟨position, isLabel⟩

/-- Where control passes from a label to the next one, there is an edge. -/
theorem edge_of_passes
    (built : Built nodes graph labels)
    (execution : Execution nodes visits)
    {source target : String}
    {condition : Option CmpOp}
    (passes : Passes nodes visits source condition target) :
    ∃ block next,
      graph.block? source = some block ∧ graph.block? target = some next ∧
        ⟨target, condition⟩ ∈ block.successors := by
  obtain ⟨front, first, middle, last, back, rfl, isSource, between, isTarget, rfl⟩ := passes
  have leads := execution.behind.leads_behind isSource between isTarget
  obtain ⟨block, member, rfl, _, found, scanned, edges⟩ := built.complete _ _ isSource
  obtain ⟨next, nextMember, rfl, _⟩ := built.complete _ _ isTarget
  refine ⟨block, next, built.block?_of_mem member, built.block?_of_mem nextMember, ?_⟩
  rw [edges]
  exact (mem_successors_iff rfl scanned _).mpr leads

/-- Every edge is taken by an execution that begins at the label of its block. -/
theorem passes_of_edge
    (built : Built nodes graph labels)
    (member : block ∈ graph.blocks)
    {edge : Edge}
    (isEdge : edge ∈ block.successors) :
    ∃ visits, Execution nodes visits ∧
      Passes nodes visits block.label edge.condition edge.target := by
  obtain ⟨position, isLabel, found, scanned, edges⟩ := built.placed block member
  rw [edges] at isEdge
  have leads := (mem_successors_iff rfl scanned edge).mp isEdge
  obtain ⟨goal, isGoal⟩ := built.label_of_known (leads.known ⟨found, scanned⟩)
  obtain ⟨middle, last, run, between, isTarget, taken⟩ := leads.run isGoal (.on isLabel rfl)
  exact ⟨_, .start isLabel run, [], ⟨none, position⟩, middle, last, [], rfl, isLabel, between,
    isTarget, taken⟩

end Built

/-- A position is scanned if it has a label or belongs to what is found behind one. -/
def IsScanned (nodes : List Node) (labels : List String) (position : Nat) : Prop :=
  (∃ name, nodes[position]? = some (.label name)) ∨
    ∃ block found, extent labels block position (nodes.drop position) = .ok found

namespace Built

/-- What one move leads to is scanned, if control was at a scanned position before. -/
theorem isScanned_of_moves
    (built : Built nodes graph labels)
    {position next : Nat}
    {condition : Option CmpOp}
    (isScanned : IsScanned nodes labels position)
    (moves : Moves nodes position condition next) :
    IsScanned nodes labels next := by
  cases moves with
  | jump _ isTarget => exact .inl ⟨_, isTarget⟩
  | @on node isNode goesOn =>
      have behindLabel : ∀ name, nodes[position]? = some (.label name) →
          IsScanned nodes labels (position + 1) := by
        intro name isLabel
        obtain ⟨block, _, _, _, found, scanned, _⟩ := built.complete _ _ isLabel
        exact .inr ⟨_, found, scanned⟩
      rcases isScanned with ⟨name, isLabel⟩ | ⟨block, found, scanned⟩
      · exact behindLabel name isLabel
      · cases node with
        | label name => exact behindLabel name isNode
        | _ => exact .inr ⟨block, scanned_on scanned isNode rfl goesOn⟩

variable
    {position : Nat}

/-- Every position that a run visits is scanned. -/
theorem isScanned_of_run
    (built : Built nodes graph labels)
    (isScanned : IsScanned nodes labels position)
    (run : Run nodes position visits) :
    ∀ visit ∈ visits, IsScanned nodes labels visit.position := by
  induction run with
  | stop => exact nofun
  | move moves _ inductionHypothesis =>
      have nextScanned := built.isScanned_of_moves isScanned moves
      exact List.forall_mem_cons.mpr ⟨nextScanned, inductionHypothesis nextScanned⟩

theorem isScanned_of_execution
    (built : Built nodes graph labels)
    (execution : Execution nodes visits) :
    ∀ visit ∈ visits, IsScanned nodes labels visit.position := by
  cases execution with
  | start isLabel run =>
      have startScanned : IsScanned nodes labels _ := .inl ⟨_, isLabel⟩
      exact List.forall_mem_cons.mpr ⟨startScanned, built.isScanned_of_run startScanned run⟩

/-- From a scanned position control goes on, except from the end of a function or of all nodes. -/
theorem moves_of_isScanned
    (built : Built nodes graph labels)
    (isScanned : IsScanned nodes labels position)
    (isNode : nodes[position]? = some node)
    (stays : ∀ function, node ≠ .epilogue function) :
    ∃ condition next, Moves nodes position condition next := by
  by_cases goesOn : node.goesOn
  · exact ⟨none, _, .on isNode goesOn⟩
  · cases node with
    | jump label condition =>
        rcases isScanned with ⟨name, isLabel⟩ | ⟨block, found, scanned⟩
        · cases isNode.symm.trans isLabel
        · obtain ⟨goal, isGoal⟩ := built.label_of_known (.inr (jump_of_scanned scanned isNode))
          exact ⟨_, goal, .jump isNode isGoal⟩
    | epilogue function => exact absurd rfl (stays function)
    | _ => exact absurd rfl goesOn

end Built

/-- Only blocks of the graph precede a label. -/
theorem block_of_predecessor
    {name label : String}
    (member : name ∈ graph.predecessors label) :
    ∃ block ∈ graph.blocks, block.label = name := by
  obtain ⟨block, isBlock, member⟩ := List.mem_flatMap.mp member
  obtain ⟨_, _, same⟩ := List.mem_map.mp member
  exact ⟨block, isBlock, same⟩

/-- Among blocks with different labels, one precedes a label once for each edge to it. -/
theorem count_predecessors
    (distinct : (blocks.map fun block => block.label).Nodup)
    (member : block ∈ blocks)
    (label : String) :
    (predecessors ⟨blocks⟩ label).count block.label =
      block.successors.countP fun edge => edge.target == label := by
  induction blocks with
  | nil => cases member
  | cons first rest inductionHypothesis =>
      obtain ⟨fresh, distinct⟩ := List.nodup_cons.mp distinct
      have split : predecessors ⟨first :: rest⟩ label =
          List.replicate (first.successors.countP fun edge => edge.target == label) first.label ++
            predecessors ⟨rest⟩ label := by
        simp [predecessors, List.countP_eq_length_filter, List.map_const']
      rw [split, List.count_append]
      rcases List.mem_cons.mp member with rfl | inRest
      · have noOther : (predecessors ⟨rest⟩ label).count block.label = 0 := by
          refine List.count_eq_zero.mpr fun precedes => ?_
          obtain ⟨other, inRest, same⟩ := block_of_predecessor precedes
          exact fresh (List.mem_map.mpr ⟨other, inRest, same⟩)
        rw [noOther, List.count_replicate_self, Nat.add_zero]
      · have different : first.label ≠ block.label :=
          fun same => fresh (List.mem_map.mpr ⟨block, inRest, same.symm⟩)
        rw [List.count_replicate, if_neg (by simpa using different), Nat.zero_add,
          inductionHypothesis distinct inRest]

end Building

/--
The graph of a sequence describes its possible transfers. Where an execution passes from a label
to the next one, the block of the first has an edge to the block of the second with the condition
of the jump that is taken. Every edge is taken by an execution, and a block precedes a label once
for each of its edges to it. An execution goes on until it comes to the end of a function or of
the sequence.
-/
theorem edges_are_transfers
    {nodes : List Node}
    {graph : Graph}
    (succeeds : ofNodes nodes = .ok graph) :
    (∀ visits source condition target,
      Execution nodes visits → Passes nodes visits source condition target →
        ∃ block next,
          graph.block? source = some block ∧ graph.block? target = some next ∧
            ⟨target, condition⟩ ∈ block.successors) ∧
      (∀ block ∈ graph.blocks, ∀ edge ∈ block.successors, ∃ visits,
        Execution nodes visits ∧
          Passes nodes visits block.label edge.condition edge.target) ∧
      (∀ label,
        (∀ block ∈ graph.blocks, (graph.predecessors label).count block.label =
          block.successors.countP fun edge => edge.target == label) ∧
          ∀ name ∈ graph.predecessors label, ∃ block ∈ graph.blocks, block.label = name) ∧
      ∀ visits, Execution nodes visits → ∀ visit ∈ visits,
        nodes[visit.position]? = none ∨
          (∃ function, nodes[visit.position]? = some (.epilogue function)) ∨
          ∃ condition next, Moves nodes visit.position condition next := by
  obtain ⟨labels, built⟩ := built_of_ofNodes succeeds
  refine ⟨?_, ?_, ?_, ?_⟩
  · exact fun _ _ _ _ execution passes => built.edge_of_passes execution passes
  · exact fun block member edge isEdge => built.passes_of_edge member isEdge
  · exact fun label => ⟨fun block member =>
      count_predecessors (built.names ▸ built.distinct) member label,
      fun name member => block_of_predecessor member⟩
  · intro visits execution visit member
    have isScanned := built.isScanned_of_execution execution visit member
    cases isNode : nodes[visit.position]? with
    | none => exact .inl rfl
    | some node =>
        refine .inr ?_
        by_cases isEnd : ∃ function, node = .epilogue function
        · obtain ⟨function, rfl⟩ := isEnd
          exact .inl ⟨function, rfl⟩
        · exact .inr (built.moves_of_isScanned isScanned isNode
            fun function same => isEnd ⟨function, same⟩)

/-- Two ways to one label, and a jump back that nothing follows. -/
def forkedNodes : List Node :=
  [.label "a", .jump "b" (some .less), .label "b", .jump "a" none, .destroy 1]

/-- The blocks of the two labels. -/
def forkedGraph : Graph :=
  ⟨[⟨"a", 0, 2, [.jump "b" (some .less)], [⟨"b", some .less⟩, ⟨"b", none⟩], false⟩,
    ⟨"b", 2, 4, [.jump "a" none], [⟨"a", none⟩], false⟩]⟩

theorem forkedGraph_edges :
    ofNodes forkedNodes = .ok forkedGraph ∧
      (forkedGraph.predecessors "b").count "a" = 2 ∧
      ∃ visits, Execution forkedNodes visits ∧ Passes forkedNodes visits "a" (some .less) "b" := by
  have built : ofNodes forkedNodes = .ok forkedGraph := rfl
  obtain ⟨_, taken, counted, _⟩ := edges_are_transfers built
  exact ⟨built, (counted "b").1 _ (List.mem_cons_self ..), taken _ (List.mem_cons_self ..) _
    (List.mem_cons_self ..)⟩

end Graph

end IlsCompiler
