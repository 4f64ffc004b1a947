import IlsCompiler.Proofs.Lowering.JumpTargets
import IlsCompiler.Proofs.Lowering.ProgramLifetimes

namespace IlsCompiler

/-!
# Sound lifetimes

The nodes of a lowered program are in order, and they stay so when unused functions are left out:
a function begins and ends with nothing pending, so that a ledger accepts it wherever it stands.

## Sequences in order

The checks on a sequence find nothing when a ledger accepts it and is left with nothing pending,
its jumps have their labels, its functions follow one another, and the recorded last uses are
uses. The walk over the sequence and the ledger note the same things along the way.
-/

/-- Functions are opened and closed in turn; the flag says that one is open. -/
def alternates : Bool → List Node → Bool
  | isOpen, [] => !isOpen
  | isOpen, .prologue _ _ :: rest => !isOpen && alternates true rest
  | isOpen, .epilogue _ :: rest => isOpen && alternates false rest
  | isOpen, _ :: rest => alternates isOpen rest

/-- Whether a function is open behind a node. -/
def Node.opens (isOpen : Bool) : Node → Bool
  | .prologue _ _ => true
  | .epilogue _ => false
  | _ => isOpen

/-- A node opens a function where none is open and closes one where one is. -/
def Node.inTurn (isOpen : Bool) : Node → Bool
  | .prologue _ _ => !isOpen
  | .epilogue _ => isOpen
  | _ => true

theorem alternates_cons
    (isOpen : Bool)
    (node : Node)
    (rest : List Node) :
    alternates isOpen (node :: rest) = (node.inTurn isOpen && alternates (node.opens isOpen) rest) := by
  cases node <;> simp [alternates, Node.inTurn, Node.opens]

/-- A sequence in which a ledger finds every lifetime, with its jumps, functions and uses. -/
structure Listing.InOrder (listing : Listing) (nodes : List Node) (lastUse : VarId → Option Nat) :
    Prop where
  accepted : Ledger.blank.Accepts listing nodes
  ends : (Ledger.blank.behind listing nodes).pending = []
  targets : targetsOf nodes ⊆ Listing.labelsOf nodes
  functions : alternates false nodes
  recorded : ∀ id position, lastUse id = some position →
    ∃ node, nodes[position]? = some node ∧ id ∈ node.operands

variable
    {ledger : Ledger}
    {listing : Listing}
    {nodes : List Node}

theorem Ledger.distinct_of_accepts
    (accepted : ledger.Accepts listing nodes)
    (distinct : (ledger.pending ++ ledger.gone).Nodup) :
    ((ledger.behind listing nodes).pending ++ (ledger.behind listing nodes).gone).Nodup := by
  induction nodes generalizing ledger with
  | nil => exact distinct
  | cons node rest inductionHypothesis =>
      exact inductionHypothesis accepted.2 (distinct_after accepted.1 distinct)

/-- What a walk has noted behind the front of a sequence, as a ledger knows it. -/
structure Walk.Follows (listing : Listing) (all : List Node) (ledger : Ledger) (isOpen : Bool)
    (walk : Walk) : Prop where
  findings : walk.findings = []
  depth : walk.depth = if isOpen then 1 else 0
  declared : ∀ id, (walk.declared.lookup id).isSome ↔ id ∈ ledger.pending ++ ledger.gone
  destroyed : walk.destroyed.map Prod.fst = ledger.gone.reverse
  placed : ∀ entry ∈ walk.destroyed, all[entry.2]? = some (.destroy entry.1)

variable
    {walk : Walk}
    {labels : List String}
    {isOpen : Bool}
    {node : Node}

/-- A node that is allowed, jumps to a label and is in turn adds no finding. -/
theorem Walk.Follows.visit
    {all : List Node}
    {position : Nat}
    (follows : walk.Follows listing all ledger isOpen)
    (isHere : all[position]? = some node)
    (allowed : ledger.Allows listing node)
    (lands : ∀ target, node.target? = some target → target ∈ labels)
    (inTurn : node.inTurn isOpen) :
    (listing.visit labels walk position node).Follows listing all (ledger.after listing node)
      (node.opens isOpen) := by
  obtain ⟨findings, depth, declared, destroyed, placed⟩ := follows
  cases node with
  | jump label test =>
      simp only [Listing.visit, if_pos (lands label rfl)]
      exact ⟨findings, depth, declared, destroyed, placed⟩
  | prologue function locals =>
      cases isOpen with
      | true => cases inTurn
      | false =>
          simp only [Listing.visit, depth]
          exact ⟨findings, rfl, declared, destroyed, placed⟩
  | epilogue function =>
      cases isOpen with
      | false => cases inTurn
      | true =>
          simp only [Listing.visit, depth]
          exact ⟨findings, rfl, declared, destroyed, placed⟩
  | declare id line =>
      by_cases needs : listing.isDestroyed id = true
      · have visited : listing.visit labels walk position (.declare id line) =
            { walk with declared := (id, position) :: walk.declared } := by
          unfold Listing.isDestroyed at needs
          simp [Listing.visit, needs]
        have noted : ledger.after listing (.declare id line) =
            { ledger with pending := ledger.pending ++ [id] } := by
          simp [Ledger.after, needs, OpenScopes.after]
        rw [visited, noted]
        refine ⟨findings, depth, fun other => ?_, destroyed, placed⟩
        have before := declared other
        simp only [List.lookup_cons, List.mem_append, List.mem_singleton] at before ⊢
        by_cases same : other = id
        · simp [same]
        · have differs : (other == id) = false := by simp [same]
          simp [differs, same, before]
      · have visited : listing.visit labels walk position (.declare id line) = walk := by
          unfold Listing.isDestroyed at needs
          simp [Listing.visit, needs]
        have noted : ledger.after listing (.declare id line) = ledger := by
          simp [Ledger.after, needs, OpenScopes.after]
        rw [visited, noted]
        exact ⟨findings, depth, declared, destroyed, placed⟩
  | destroy id =>
      have isDeclared := (declared id).mpr (List.mem_append_left _ allowed.1)
      simp only [Listing.visit, isDeclared, ↓reduceIte]
      refine ⟨findings, depth, fun other => ?_, ?_, ?_⟩
      · rw [declared other]
        simp only [Ledger.after, List.mem_append, List.mem_singleton]
        by_cases same : other = id
        · simp [same, allowed.1]
        · simp [same, List.mem_erase_of_ne same]
      · simp [Ledger.after, destroyed]
      · intro entry member
        rcases List.mem_cons.mp member with rfl | old
        · exact isHere
        · exact placed entry old
  | _ => exact ⟨findings, depth, declared, destroyed, placed⟩

/-- Walking over the rest of a sequence. -/
theorem Walk.Follows.walkFrom
    {front nodes : List Node}
    (follows : walk.Follows listing (front ++ nodes) ledger isOpen)
    (accepted : ledger.Accepts listing nodes)
    (lands : ∀ target ∈ targetsOf nodes, target ∈ labels)
    (functions : alternates isOpen nodes) :
    (listing.walkFrom labels front.length nodes walk).Follows listing (front ++ nodes)
      (ledger.behind listing nodes) false := by
  induction nodes generalizing front ledger isOpen walk with
  | nil =>
      cases isOpen with
      | true => cases functions
      | false => exact follows
  | cons node rest inductionHypothesis =>
      obtain ⟨allowed, others⟩ := accepted
      rw [alternates_cons, Bool.and_eq_true] at functions
      have isHere : (front ++ node :: rest)[front.length]? = some node := by simp
      have target : ∀ label, node.target? = some label → label ∈ labels := by
        intro label isTarget
        exact lands label (List.mem_filterMap.mpr ⟨node, by simp, isTarget⟩)
      have visited := follows.visit isHere allowed target functions.1
      have split : front ++ node :: rest = (front ++ [node]) ++ rest := by simp
      rw [split] at visited ⊢
      have onward := inductionHypothesis visited others (fun label member =>
        lands label (by
          obtain ⟨other, inRest, isTarget⟩ := List.mem_filterMap.mp member
          exact List.mem_filterMap.mpr ⟨other, by simp [inRest], isTarget⟩)) functions.2
      rw [List.length_append] at onward
      exact onward

namespace Listing.InOrder

variable
    {listing : Listing}
    {nodes : List Node}
    {lastUse : VarId → Option Nat}

theorem follows
    (inOrder : listing.InOrder nodes lastUse) :
    (listing.walkFrom (labelsOf nodes) 0 nodes ⟨0, [], [], []⟩).Follows listing nodes
      (Ledger.blank.behind listing nodes) false := by
  have start : (⟨0, [], [], []⟩ : Walk).Follows listing ([] ++ nodes) .blank false :=
    { findings := rfl
      depth := rfl
      declared := by simp [Ledger.blank]
      destroyed := rfl
      placed := fun _ member => (List.not_mem_nil member).elim }
  exact start.walkFrom inOrder.accepted (fun _ member => inOrder.targets member)
    inOrder.functions

/-- Behind the place where a variable is destroyed no node is about it. -/
theorem unused_behind
    (inOrder : listing.InOrder nodes lastUse)
    {id : VarId}
    {destroyed used : Nat}
    (isDestroyed : nodes[destroyed]? = some (.destroy id))
    (isUsed : nodes[used]? = some node)
    (behind : destroyed < used) :
    id ∉ node.operands := by
  have inside : destroyed < nodes.length := (List.getElem?_eq_some_iff.mp isDestroyed).1
  have here : nodes.drop destroyed = .destroy id :: nodes.drop (destroyed + 1) := by
    rw [List.drop_eq_getElem_cons inside]
    rw [List.getElem?_eq_getElem inside, Option.some.injEq] at isDestroyed
    rw [isDestroyed]
  have accepted := inOrder.accepted
  rw [← List.take_append_drop destroyed nodes, Ledger.accepts_append, here] at accepted
  obtain ⟨front, allowed, others⟩ := accepted
  have distinct := Ledger.distinct_after allowed (Ledger.distinct_of_accepts front List.nodup_nil)
  have isGone : id ∈ ((Ledger.blank.behind listing (nodes.take destroyed)).after listing
      (.destroy id)).gone := by simp [Ledger.after]
  have spares := Ledger.spares_of_gone allowed.2.1 isGone
    (fun wrong => (List.nodup_append.mp distinct).2.2 id wrong id isGone rfl) others
  intro isOperand
  refine (spares node ?_).2 id (Node.mem_uses_of_operands isOperand) (.self id)
  have place : destroyed + 1 + (used - (destroyed + 1)) = used := by omega
  exact List.mem_of_getElem? (by rw [List.getElem?_drop, place, isUsed])

/-- Every variable that is declared is destroyed once. -/
theorem destroyFinding?_none
    (inOrder : listing.InOrder nodes lastUse)
    (follows : walk.Follows listing nodes (Ledger.blank.behind listing nodes) false)
    {id : VarId}
    (isDeclared : (walk.declared.lookup id).isSome) :
    listing.destroyFinding? walk id = none := by
  have distinct := Ledger.distinct_of_accepts inOrder.accepted List.nodup_nil
  have isGone := (follows.declared id).mp isDeclared
  rw [inOrder.ends, List.nil_append] at distinct isGone
  have same : walk.destroyed.countP (fun entry => entry.1 == id) =
      (walk.destroyed.map Prod.fst).count id := by
    rw [List.count, List.countP_map]
    rfl
  have once : walk.destroyed.countP (fun entry => entry.1 == id) = 1 := by
    rw [same, follows.destroyed, List.count_reverse]
    rw [distinct.count, if_pos isGone]
  simp [destroyFinding?, once]

/-- No variable is used behind the place where it is destroyed. -/
theorem useFinding?_none
    (inOrder : listing.InOrder nodes lastUse)
    (follows : walk.Follows listing nodes (Ledger.blank.behind listing nodes) false)
    (id : VarId) :
    listing.useFinding? lastUse walk id = none := by
  unfold useFinding?
  cases destroyed : walk.destroyed.lookup id with
  | none => rfl
  | some place =>
      cases used : lastUse id with
      | none => rfl
      | some position =>
          have isThere : (id, place) ∈ walk.destroyed := by
            obtain ⟨front, back, same, _⟩ := List.lookup_eq_some_iff.mp destroyed
            rw [same]
            simp
          obtain ⟨node, isUsed, isOperand⟩ := inOrder.recorded id position used
          have early : ¬place < position := fun behind =>
            inOrder.unused_behind (follows.placed _ isThere) isUsed behind isOperand
          simp [early]

/-- The checks find nothing in a sequence that is in order. -/
theorem findings_nil
    (inOrder : listing.InOrder nodes lastUse) :
    listing.findings nodes lastUse = [] := by
  have follows := inOrder.follows
  have declared : ∀ (table : List (VarId × Nat)) (id : VarId), id ∈ sortedKeys table →
      (table.lookup id).isSome := by
    intro table id member
    rw [sortedKeys, List.mem_mergeSort, List.mem_eraseDups] at member
    obtain ⟨entry, isEntry, rfl⟩ := List.mem_map.mp member
    exact List.lookup_isSome_iff.mpr ⟨entry, isEntry, by simp⟩
  simp only [findings]
  rw [follows.findings, follows.depth,
    List.filterMap_eq_nil_iff.mpr fun id member =>
      inOrder.destroyFinding?_none follows (declared _ id member),
    List.filterMap_eq_nil_iff.mpr fun id _ => inOrder.useFinding?_none follows id]
  rfl

end Listing.InOrder

/-!
## Functions that are left out

The ledger of a function does not depend on what was destroyed in front of it, so the nodes that
remain are accepted as well.
-/

variable
    {function : Signature}

namespace Ledger

variable
    {listing : Listing}

theorem gone_subset
    (ledger : Ledger)
    (nodes : List Node) :
    ledger.gone ⊆ (ledger.behind listing nodes).gone := by
  induction nodes generalizing ledger with
  | nil => exact List.Subset.refl _
  | cons node rest inductionHypothesis =>
      refine List.Subset.trans ?_ (inductionHypothesis (ledger.after listing node))
      cases node with
      | declare id line =>
          simp only [after]
          split <;> exact List.Subset.refl _
      | destroy id => exact List.subset_append_left _ _
      | _ => exact List.Subset.refl _

/-- Nothing is pending and no scope is open. -/
def Rested (ledger : Ledger) : Prop :=
  ledger.pending = [] ∧ ledger.open_.scopes = []

/-- The nodes of a function are accepted wherever nothing is pending. -/
theorem accepts_function
    {less more : Ledger}
    (lessRested : less.Rested)
    (moreRested : more.Rested)
    (gone : less.gone ⊆ more.gone)
    {rest : List Node}
    (accepted : more.Accepts listing (.entry function :: rest)) :
    less.Accepts listing (.entry function :: rest) ∧
      (less.behind listing (.entry function :: rest)).Fewer
        (more.behind listing (.entry function :: rest)) := by
  have fewer : (less.after listing (.entry function)).Fewer
      (more.after listing (.entry function)) := by
    refine ⟨?_, lessRested.1.trans moreRested.1.symm, gone⟩
    simp only [after, OpenScopes.after, lessRested.2, moreRested.2]
  obtain ⟨acceptsRest, fewerRest⟩ := fewer.accepts accepted.2
  exact ⟨⟨fun _ member => (List.not_mem_nil member).elim, acceptsRest⟩, fewerRest⟩

end Ledger

theorem LoweringState.Grounded.rested
    {state : LoweringState}
    (grounded : state.Grounded) :
    state.ledger.Rested := by
  refine ⟨?_, ?_⟩
  · have same := grounded.kept.pending
    rw [grounded.pending] at same
    exact same.eq_nil
  · rw [grounded.kept.scopes, grounded.frames]
    rfl

namespace Lower

open LoweringState

variable
    {part : FunctionSection}

/-- The nodes of a function, between its entry and its end. -/
theorem section_shape
    (known : part.start.listing.Parameters part.function)
    (lowered : functionBody part.function part.body part.start = .ok ((), part.finish)) :
    ∃ inner scope,
      part.nodes = .entry part.function :: .prologue part.function (declarationsIn part.body) ::
          (inner ++ [.epilogue part.function, .closeScope scope .function true]) ∧
        ∀ node ∈ inner, node.isInner := by
  obtain ⟨_, between, _, _, _, _, proceeds, _, since⟩ := functionBody_since known lowered
  refine ⟨_, part.start.listing.scopes.size, ?_, isInner_of_proceeds proceeds⟩
  rw [FunctionSection.nodes, since]
  simp

theorem alternates_inner
    {inner : List Node}
    (isInner : ∀ node ∈ inner, node.isInner)
    (isOpen : Bool)
    (rest : List Node) :
    alternates isOpen (inner ++ rest) = alternates isOpen rest := by
  induction inner with
  | nil => rfl
  | cons node others inductionHypothesis =>
      have kind := isInner node (by simp)
      have passes : alternates isOpen (node :: (others ++ rest)) =
          alternates isOpen (others ++ rest) := by
        cases node <;> first | rfl | cases kind
      rw [List.cons_append, passes]
      exact inductionHypothesis fun other member => isInner other (by simp [member])

variable
    {parts : List FunctionSection}
    {before after : LoweringState}
    {listing : Listing}

/-- The ledger in front of a function accepts its nodes and is then the one behind it. -/
theorem functionBody_accepts
    {body : List Stmt}
    (grounded : before.Grounded)
    (known : before.listing.Parameters function)
    (lowered : functionBody function body before = .ok ((), after))
    (ahead : after.listing.Extends listing) :
    before.ledger.Accepts listing (after.listing.since before.listing) ∧
      before.ledger.behind listing (after.listing.since before.listing) = after.ledger := by
  have grown := (functionBody_tags known lowered).1
  -- The ledger of the whole listing runs from the start of the function to its end.
  have whole := (functionBody_grounded grounded known lowered).kept.accepted.mono ahead
  have sameStart : Ledger.blank.behind listing before.listing.nodes.toList = before.ledger :=
    (grounded.kept.accepted.mono (grown.trans ahead)).2
  have sameFinish : Ledger.blank.behind listing after.listing.nodes.toList = after.ledger :=
    whole.2
  have accepted := whole.1
  rw [grown.nodes_eq, Ledger.accepts_append, sameStart] at accepted
  rw [grown.nodes_eq, Ledger.behind_append, sameStart] at sameFinish
  exact ⟨accepted.2, sameFinish⟩

/-- A ledger at rest accepts the nodes of a function that stood behind more than it has seen. -/
theorem section_accepts
    (grounded : part.start.Grounded)
    (known : part.start.listing.Parameters part.function)
    (lowered : functionBody part.function part.body part.start = .ok ((), part.finish))
    (ahead : part.finish.listing.Extends listing)
    (rested : ledger.Rested)
    (gone : ledger.gone ⊆ part.start.ledger.gone) :
    ledger.Accepts listing part.nodes ∧ (ledger.behind listing part.nodes).Rested ∧
      (ledger.behind listing part.nodes).gone ⊆ part.finish.ledger.gone := by
  have groundedLater := functionBody_grounded grounded known lowered
  obtain ⟨accepted, sameFinish⟩ := functionBody_accepts grounded known lowered ahead
  rw [← FunctionSection.nodes] at accepted sameFinish
  obtain ⟨_, _, shape, _⟩ := section_shape known lowered
  rw [shape] at accepted
  obtain ⟨acceptsPart, fewer⟩ := Ledger.accepts_function rested grounded.rested gone accepted
  rw [← shape] at acceptsPart fewer
  rw [sameFinish] at fewer
  refine ⟨acceptsPart, ⟨fewer.pending.trans groundedLater.rested.1, ?_⟩, fewer.gone⟩
  rw [fewer.open_]
  exact groundedLater.rested.2

/-- A ledger at rest accepts the nodes of some of the functions that follow. -/
theorem Laid.accepts
    (laid : Laid parts before after)
    (grounded : before.Grounded)
    (grown : after.listing.Extends listing)
    (chosen : FunctionSection → Bool)
    (rested : ledger.Rested)
    (gone : ledger.gone ⊆ before.ledger.gone) :
    ledger.Accepts listing ((parts.filter chosen).flatMap FunctionSection.nodes) ∧
      (ledger.behind listing
        ((parts.filter chosen).flatMap FunctionSection.nodes)).Rested := by
  induction laid generalizing ledger with
  | nil => exact ⟨trivial, rested⟩
  | @cons part rest after _ parameters lowered laid inductionHypothesis =>
      have groundedLater := functionBody_grounded grounded parameters lowered
      have ahead := laid.extends_.trans grown
      cases isChosen : chosen part with
      | false =>
          obtain ⟨_, sameFinish⟩ := functionBody_accepts grounded parameters lowered ahead
          rw [List.filter_cons_of_neg (by simp [isChosen])]
          refine inductionHypothesis groundedLater grown rested ?_
          rw [← sameFinish]
          exact List.Subset.trans gone (Ledger.gone_subset _ _)
      | true =>
          obtain ⟨acceptsPart, restedLater, goneLater⟩ :=
            section_accepts grounded parameters lowered ahead rested gone
          obtain ⟨acceptsRest, restedEnd⟩ :=
            inductionHypothesis groundedLater grown restedLater goneLater
          rw [List.filter_cons_of_pos isChosen, List.flatMap_cons, Ledger.accepts_append,
            Ledger.behind_append]
          exact ⟨⟨acceptsPart, acceptsRest⟩, restedEnd⟩

/-- The jumps of functions have their labels, and functions follow one another. -/
theorem Laid.in_turn
    (laid : Laid parts before after)
    (chosen : FunctionSection → Bool) :
    (∀ part ∈ parts, targetsOf part.nodes ⊆ Listing.labelsOf part.nodes) ∧
      alternates false ((parts.filter chosen).flatMap FunctionSection.nodes) = true := by
  induction laid with
  | nil => exact ⟨fun _ member => (List.not_mem_nil member).elim, rfl⟩
  | @cons part rest after _ parameters lowered laid inductionHypothesis =>
      obtain ⟨landing, turns⟩ := inductionHypothesis
      refine ⟨?_, ?_⟩
      · intro other member
        rcases List.mem_cons.mp member with rfl | inRest
        · exact functionBody_lands parameters lowered
        · exact landing other inRest
      · cases isChosen : chosen part with
        | false =>
            rw [List.filter_cons_of_neg (by simp [isChosen])]
            exact turns
        | true =>
            obtain ⟨inner, scope, shape, isInner⟩ := section_shape parameters lowered
            rw [List.filter_cons_of_pos isChosen, List.flatMap_cons, shape]
            simp only [List.cons_append, List.append_assoc, alternates, Bool.not_false,
              Bool.true_and, alternates_inner isInner, List.nil_append]
            exact turns

namespace Row

variable
    {program : Program}
    {declared final : LoweringState}

/-- Every jump of a lowered program, and of some of its functions alone, has its label there. -/
theorem targets
    (row : Row program listing declared final parts)
    (chosen : FunctionSection → Bool)
    (isNodes : nodes = declared.listing.nodes.toList ++
      (parts.filter chosen).flatMap FunctionSection.nodes) :
    targetsOf nodes ⊆ Listing.labelsOf nodes := by
  obtain ⟨landing, _⟩ := row.laid.in_turn chosen
  intro target member
  obtain ⟨node, isNode, isTarget⟩ := List.mem_filterMap.mp member
  rw [isNodes] at isNode ⊢
  rw [Listing.labelsOf_append]
  rcases List.mem_append.mp isNode with inFront | inParts
  · have kind := row.ready.globals node inFront
    have noTarget : node.target? = none := by
      cases node <;> first | rfl | cases kind
    rw [noTarget] at isTarget
    cases isTarget
  · obtain ⟨part, isPart, inPart⟩ := List.mem_flatMap.mp inParts
    have lands := landing part (List.mem_filter.mp isPart).1
      (List.mem_filterMap.mpr ⟨node, inPart, isTarget⟩)
    obtain ⟨place, isPlace, isLabel⟩ := List.mem_filterMap.mp lands
    refine List.mem_append_right _ (List.mem_filterMap.mpr ⟨place, ?_, isLabel⟩)
    exact List.mem_flatMap.mpr ⟨part, isPart, isPlace⟩

/-- The nodes of a lowered program, and those of some of its functions alone, are in order. -/
theorem inOrder
    (row : Row program listing declared final parts)
    (chosen : FunctionSection → Bool)
    (isNodes : nodes = declared.listing.nodes.toList ++
      (parts.filter chosen).flatMap FunctionSection.nodes)
    {lastUse : VarId → Option Nat}
    (recorded : ∀ id position, lastUse id = some position →
      ∃ node, nodes[position]? = some node ∧ id ∈ node.operands) :
    listing.InOrder nodes lastUse := by
  have grounded := row.ready.grounded
  have grown : final.listing.Extends listing := row.listing_eq ▸ .refl _
  obtain ⟨acceptsFront, sameLedger⟩ :=
    grounded.kept.accepted.mono (row.laid.extends_.trans grown)
  have isLedger : Ledger.blank.behind listing declared.listing.nodes.toList =
      declared.ledger := sameLedger
  obtain ⟨accepted, rested⟩ := row.laid.accepts grounded grown chosen grounded.rested
    (List.Subset.refl _)
  obtain ⟨_, turns⟩ := row.laid.in_turn chosen
  have isInner : ∀ node ∈ declared.listing.nodes.toList, node.isInner := by
    intro node member
    have kind := row.ready.globals node member
    cases node <;> first | rfl | cases kind
  refine
    { accepted := ?_
      ends := ?_
      targets := row.targets chosen isNodes
      functions := ?_
      recorded := recorded }
  · rw [isNodes, Ledger.accepts_append, isLedger]
    exact ⟨acceptsFront, accepted⟩
  · rw [isNodes, Ledger.behind_append, isLedger]
    exact rested.1
  · rw [isNodes, alternates_inner isInner]
    exact turns

end Row

/-- Where a node that remains stood is its position among those that remain. -/
theorem Pruned.recorded
    (recorded : listing.Recorded)
    (id : VarId)
    (position : Nat)
    (used : (Pruned.ofListing listing).lastUse listing id = some position) :
    ∃ node, (Pruned.ofListing listing).nodes[position]? = some node ∧ id ∈ node.operands := by
  obtain ⟨stood, isLast, isPlace⟩ := Option.bind_eq_some_iff.mp used
  obtain ⟨node, isNode, isOperand⟩ := recorded id stood isLast
  refine ⟨node, ?_, isOperand⟩
  let kept := listing.nodes.toList.zipIdx.filter fun entry =>
    !listing.unusedFunctions.any fun function => function.owns entry.2
  have isPosition : (kept.map Prod.snd)[position]? = some stood := by
    obtain ⟨inside, same, _⟩ := List.idxOf?_eq_some_iff.mp isPlace
    exact List.getElem?_eq_some_iff.mpr ⟨inside, same⟩
  rw [List.getElem?_map, Option.map_eq_some_iff] at isPosition
  obtain ⟨entry, isEntry, rfl⟩ := isPosition
  have isThere := List.mem_zipIdx_iff_getElem?.mp
    (List.mem_filter.mp (List.mem_of_getElem? isEntry)).1
  rw [Array.getElem?_toList, isNode, Option.some.injEq] at isThere
  show (kept.map Prod.fst)[position]? = some node
  rw [List.getElem?_map, isEntry, isThere]
  rfl

/-- The checks find nothing in what remains of a lowered program. -/
theorem remaining_validates
    {program : Program}
    (lowered : program.lower = .ok listing) :
    (Pruned.ofListing listing).validate? listing = none := by
  obtain ⟨declared, final, parts, row⟩ := lower_row lowered
  have recorded : listing.Recorded :=
    row.listing_eq ▸ (row.laid.grounded row.ready.grounded).recorded
  have remaining := row.inOrder (fun part =>
    !(Pruned.ofListing listing).removed.contains part.name) (row.pruned (.inr rfl))
      (Pruned.recorded recorded)
  rw [Pruned.validate?, remaining.findings_nil]
  rfl

/--
Lifetimes in lowered programs are sound. The checks find nothing in the nodes of the listing nor
in those that remain when unused functions are left out. Every temporary and every local that is
no parameter is declared once and destroyed once behind that, both times in the scope it belongs
to, and no later node is about it, be it itself, through the index of an element, through the
value of a variable or through the argument of a pending call.
-/
theorem lowered_lifetimes_sound
    {program : Program}
    {listing : Listing}
    (lowered : program.lower = .ok listing) :
    listing.validate? = none ∧ (Pruned.ofListing listing).validate? listing = none ∧
      ∀ id v, listing.lookup? id = some v →
        ((∃ name scope, v.storage = .temporary name scope) ∨
          ∃ name position scope, v.storage = .named name false false position scope) →
          listing.Lifetime listing.nodes.toList id := by
  obtain ⟨declared, final, parts, row⟩ := lower_row lowered
  have grounded := row.laid.grounded row.ready.grounded
  have recorded : listing.Recorded := row.listing_eq ▸ grounded.recorded
  have whole : listing.InOrder listing.nodes.toList listing.lastUse := by
    refine row.inOrder (fun _ => true) ?_ ?_
    · rw [row.nodes_eq, List.filter_eq_self.mpr fun _ _ => rfl]
    · intro id position used
      obtain ⟨node, isNode, isOperand⟩ := recorded id position used
      exact ⟨node, by simpa using isNode, isOperand⟩
  refine ⟨?_, remaining_validates lowered, ?_⟩
  · rw [Listing.validate?, whole.findings_nil]
    rfl
  · intro id v found kind
    have destroyed : listing.isDestroyed id = true := by
      rcases kind with ⟨name, scope, storage⟩ | ⟨name, position, scope, storage⟩ <;>
        simp [Listing.isDestroyed, found, Variable.needsDestroy, storage]
    refine Ledger.lifetime_of_accepts destroyed whole.accepted whole.ends ?_
    have known := (grounded.kept.known id).mpr (row.listing_eq ▸ destroyed)
    have sameLedger : Ledger.blank.behind listing listing.nodes.toList = final.ledger := by
      rw [row.listing_eq]
      rfl
    rw [grounded.rested.1, List.nil_append, ← sameLedger] at known
    exact known

/--
A main function that passes an element of an array to a function and adds to the result, while
a function that nothing calls is left out.
-/
def lendingProgram : Program :=
  let index : Expr := .binary 4 .add (.name 4 "i") (.literal 4 (.scalar .int "1"))
  let lent : Expr := .call 4 "f" false [.element 4 "g" index]
  { file := "t.ils"
    statements := [
      .declare 1 "g" (.array .int 2)
        (some (.array 1 [.literal 1 (.scalar .int "1"), .literal 1 (.scalar .int "2")])),
      .function 2 "f" [⟨2, "a", .int⟩] .int 2 [.leave 2 (some (.name 2 "a"))],
      .function 3 "unused" [⟨3, "b", .int⟩] .int 3 [.leave 3 (some (.name 3 "b"))],
      .function 4 "main" [] .absent 4 [
        .declare 4 "i" .int (some (.literal 4 (.scalar .int "0"))),
        .block 4 [.declare 4 "x" .int (some (.binary 4 .add lent (.name 4 "i")))]]] }

theorem lendingProgram_lifetimes :
    ∃ listing v,
      lendingProgram.lower = .ok listing ∧ listing.lookup? 12 = some v ∧
        v.storage = .temporary "TEMP_12" 4 ∧ v.value = .reference 11 ∧
        (Pruned.ofListing listing).removed = ["unused"] ∧ listing.validate? = none ∧
        (Pruned.ofListing listing).validate? listing = none ∧
        listing.Lifetime listing.nodes.toList 12 := by
  have accepted : (lendingProgram.lower.toOption.map fun listing =>
      ((listing.lookup? 12).map fun v => (v.storage, v.value),
        (Pruned.ofListing listing).removed)) =
          some (some (.temporary "TEMP_12" 4, .reference 11), ["unused"]) := by
    decide +kernel
  cases lowered : lendingProgram.lower with
  | error failure => simp [lowered, Except.toOption] at accepted
  | ok listing =>
      simp only [lowered, Except.toOption, Option.map_some, Option.some.injEq,
        Prod.mk.injEq] at accepted
      obtain ⟨found, removed⟩ := accepted
      obtain ⟨v, isFound, same⟩ := Option.map_eq_some_iff.mp found
      obtain ⟨storage, isValue⟩ := Prod.mk.inj same
      obtain ⟨valid, validPruned, lifetime⟩ := lowered_lifetimes_sound lowered
      exact ⟨listing, v, rfl, isFound, storage, isValue, removed, valid, validPruned,
        lifetime 12 v isFound (.inl ⟨_, _, storage⟩)⟩

end Lower

end IlsCompiler
