import IlsCompiler.Proofs.Lowering.FunctionSections

namespace IlsCompiler

/-!
# Targets of jumps

A jump leads to a label that is set in the same statement or to a way out: the end of the scope
or of the function that the statement stands in, or behind the loop around it. All ways out of
the body of a function are set when its scopes are closed, so that every jump of a function has
its label in the function.
-/

/-- The labels that nodes jump to. -/
def targetsOf (nodes : List Node) : List String :=
  nodes.filterMap Node.target?

/-- The labels that lead out of an open scope. -/
def Frame.exits (open_ : Frame) : List String :=
  if open_.kind = .loop then [open_.endLabel, open_.exitLabel] else [open_.endLabel]

/-- The labels that lead out of open scopes, up to the function they are in. -/
def exitsOf : List Frame → List String
  | [] => []
  | current :: rest => current.exits ++ if current.kind = .function then [] else exitsOf rest

theorem exitsOf_bare
    (frames : List Frame) :
    exitsOf (frames.map Frame.bare) = exitsOf frames := by
  induction frames with
  | nil => rfl
  | cons first rest inductionHypothesis =>
      rw [List.map_cons, exitsOf, exitsOf, inductionHypothesis]
      rfl

variable
    {kind : Scope.Kind}

/-- The end of an enclosing scope is a way out, and so is the exit of an enclosing loop. -/
theorem exit_of_enclosing
    {frames : List Frame}
    {around : Frame}
    (found : Lower.enclosingFrame? kind frames = some around) :
    around.exits ⊆ exitsOf frames ∧ around.kind = kind := by
  induction frames with
  | nil => cases found
  | cons first rest inductionHypothesis =>
      rw [Lower.enclosingFrame?] at found
      split at found
      next isKind =>
        cases found
        exact ⟨List.subset_append_left _ _, isKind⟩
      next =>
        split at found
        · cases found
        next inFunction =>
          obtain ⟨member, isKind⟩ := inductionHypothesis found
          rw [exitsOf, if_neg inFunction]
          exact ⟨List.Subset.trans member (List.subset_append_right _ _), isKind⟩

namespace Listing

theorem labelsOf_append
    (first second : List Node) :
    labelsOf (first ++ second) = labelsOf first ++ labelsOf second :=
  List.filterMap_append

end Listing

variable
    {name : String}

namespace LoweringState

/-- The labels that lead out of where a state is. -/
def exits (state : LoweringState) : List String :=
  state.innermost.endLabel :: exitsOf state.frames

/-- Lowering proceeds, and what it jumps to it sets itself or is among the given labels. -/
structure Lands (exits : List String) (before after : LoweringState) : Prop
    extends before.Proceeds after where
  jumps : ∀ target ∈ targetsOf (after.listing.since before.listing),
    target ∈ Listing.labelsOf (after.listing.since before.listing) ∨ target ∈ exits

variable
    {before after : LoweringState}

/-- The labels that lead out stay the same while lowering proceeds. -/
theorem exits_of_proceeds
    (proceeds : before.Proceeds after) :
    after.exits = before.exits := by
  unfold exits
  rw [proceeds.endLabel, ← exitsOf_bare, proceeds.frames, exitsOf_bare]

namespace Lands

variable
    {exits more : List String}
    {before between after : LoweringState}

theorem trans
    (earlier : Lands exits before between)
    (later : Lands exits between after) :
    Lands exits before after := by
  refine ⟨earlier.toProceeds.trans later.toProceeds, ?_⟩
  intro target member
  rw [earlier.extends_.since_trans later.extends_] at member ⊢
  rw [Listing.labelsOf_append]
  rw [targetsOf, List.filterMap_append] at member
  rcases List.mem_append.mp member with inFirst | inSecond
  · rcases earlier.jumps target inFirst with isSet | isExit
    · exact .inl (List.mem_append_left _ isSet)
    · exact .inr isExit
  · rcases later.jumps target inSecond with isSet | isExit
    · exact .inl (List.mem_append_right _ isSet)
    · exact .inr isExit

theorem mono
    (lands : Lands exits before after)
    (fewer : exits ⊆ more) :
    Lands more before after :=
  ⟨lands.toProceeds, fun target member => (lands.jumps target member).imp_right (@fewer target)⟩

/-- A label that is set on the way need not be given. -/
theorem discharge
    (lands : Lands (name :: exits) before after)
    (isSet : name ∈ Listing.labelsOf (after.listing.since before.listing)) :
    Lands exits before after := by
  refine ⟨lands.toProceeds, fun target member => ?_⟩
  rcases lands.jumps target member with alreadySet | given
  · exact .inl alreadySet
  · rcases List.mem_cons.mp given with rfl | other
    · exact .inl isSet
    · exact .inr other

/-- Where no node jumps, no label is needed. -/
theorem of_targets
    (proceeds : before.Proceeds after)
    (targets : targetsOf (after.listing.since before.listing) ⊆ exits) :
    Lands exits before after :=
  ⟨proceeds, fun _ member => .inr (targets member)⟩

theorem of_unlabelled
    (unlabelled : Unlabelled exits before after) :
    Lands exits before after := by
  refine .of_targets unlabelled.toProceeds fun target member => ?_
  obtain ⟨node, isAdded, jumps⟩ := List.mem_filterMap.mp member
  have isUnlabelled := unlabelled.extends_.since_of_adds unlabelled.unlabelled node isAdded
  cases node with
  | jump name test =>
      cases jumps
      exact of_decide_eq_true isUnlabelled
  | _ => cases jumps

theorem of_computes
    (computes : before.Computes after) :
    Lands exits before after :=
  .of_unlabelled (.of_computes computes)

theorem refl
    (state : LoweringState) :
    Lands exits state state :=
  of_computes (.refl _)

end Lands

variable
    {node : Node}

theorem since_of_push
    (nodes : after.listing.nodes = before.listing.nodes.push node) :
    after.listing.since before.listing = [node] := by
  unfold Listing.since
  rw [nodes]
  simp

theorem lands_appended
    (state : LoweringState)
    {exits : List String}
    (inner : node.isInner)
    (target : ∀ label, node.target? = some label → label ∈ exits) :
    Lands exits state (state.appended node) := by
  refine .of_targets (proceeds_appended state inner) ?_
  rw [since_of_push (nodes_appended state node)]
  intro label member
  obtain ⟨_, isNode, jumps⟩ := List.mem_filterMap.mp member
  cases List.mem_singleton.mp isNode
  exact target label jumps

theorem lands_same
    {exits : List String}
    (proceeds : before.Proceeds after)
    (nodes : after.listing.nodes = before.listing.nodes) :
    Lands exits before after := by
  refine .of_targets proceeds ?_
  unfold Listing.since
  rw [nodes, ← Array.length_toList, List.drop_length]
  exact List.nil_subset _

theorem lands_labelled
    (state : LoweringState)
    (exits : List String)
    (name : String) :
    Lands exits state (state.labelled name) ∧
      name ∈ Listing.labelsOf ((state.labelled name).listing.since state.listing) := by
  have since : (state.labelled name).listing.since state.listing = [.label name] :=
    since_of_push (by simp [labelled])
  refine ⟨.of_targets (proceeds_labelled state name) ?_, ?_⟩
  · rw [since]
    exact List.nil_subset _
  · rw [since]
    exact List.mem_singleton.mpr rfl

/-- A label that was set stays set while lowering proceeds. -/
theorem labels_before
    {before between after : LoweringState}
    (earlier : before.Proceeds between)
    (later : between.Proceeds after)
    (isSet : name ∈ Listing.labelsOf (between.listing.since before.listing)) :
    name ∈ Listing.labelsOf (after.listing.since before.listing) := by
  rw [earlier.extends_.since_trans later.extends_, Listing.labelsOf_append]
  exact List.mem_append_left _ isSet

theorem labels_behind
    {before between after : LoweringState}
    (earlier : before.Proceeds between)
    (later : between.Proceeds after)
    (isSet : name ∈ Listing.labelsOf (after.listing.since between.listing)) :
    name ∈ Listing.labelsOf (after.listing.since before.listing) := by
  rw [earlier.extends_.since_trans later.extends_, Listing.labelsOf_append]
  exact List.mem_append_right _ isSet

end LoweringState

namespace Lower

open LoweringState

variable
    {before after : LoweringState}
    {line : Nat}
    {done : Unit}
    {test : Option Condition}

theorem condition_lands
    {whenTrue whenFalse : String}
    {falseFollows : Bool}
    (lowered : condition test whenTrue whenFalse falseFollows before = .ok (done, after)) :
    Lands [whenTrue, whenFalse] before after :=
  .of_unlabelled (condition_unlabelled lowered)

/-- The ways out of a scope that is entered are its ends and the ways out around it. -/
theorem exits_entered
    (state : LoweringState)
    (exitLabel : String)
    {exits : List String}
    (around : state.exits ⊆ exits)
    (loop : kind = .loop → exitLabel ∈ exits) :
    (state.entered kind exitLabel).exits ⊆
      (state.newFrame kind exitLabel).endLabel :: exits := by
  have own : (state.newFrame kind exitLabel).exits ⊆
      (state.newFrame kind exitLabel).endLabel :: exits := by
    unfold Frame.exits
    split
    next isLoop => simpa [newFrame] using .inr (loop isLoop)
    next => simp
  have others : exitsOf state.frames ⊆ (state.newFrame kind exitLabel).endLabel :: exits :=
    fun label member => List.mem_cons_of_mem _ (around (List.mem_cons_of_mem _ member))
  show (state.newFrame kind exitLabel).endLabel ::
    exitsOf (state.newFrame kind exitLabel :: state.frames) ⊆ _
  rw [exitsOf]
  refine List.cons_subset.mpr ⟨by simp, List.append_subset.mpr ⟨own, ?_⟩⟩
  split
  · exact List.nil_subset _
  · exact others

/-- The jumps of a body land when its scope is closed, or they lead out of it. -/
theorem inScope_lands
    {exitLabel : String}
    {exits : List String}
    {body : Lower Unit}
    (each : ∀ {before after : LoweringState},
      body before = .ok ((), after) → Lands before.exits before after)
    (lowered : inScope kind exitLabel body before = .ok (done, after))
    (around : before.exits ⊆ exits)
    (loop : kind = .loop → exitLabel ∈ exits) :
    Lands exits before after := by
  have proceeds : before.Proceeds after :=
    inScope_proceeds (fun bodyLowered => (each bodyLowered).toProceeds) lowered
  obtain ⟨between, _, bodyLowered, _, rfl⟩ := inScope_ok lowered
  have inside := (each bodyLowered).mono (exits_entered before exitLabel around loop)
  obtain ⟨labelled_, isSet⟩ := lands_labelled between.emptied
    ((before.newFrame kind exitLabel).endLabel :: exits) between.innermost.endLabel
  have closes := (Lands.of_computes (computes_emptied between)).trans labelled_
  have sameEnd : between.innermost.endLabel = (before.newFrame kind exitLabel).endLabel :=
    inside.toProceeds.endLabel
  have whole : Lands exits (before.entered kind exitLabel)
      (between.emptied.labelled between.innermost.endLabel) := by
    refine (inside.trans closes).discharge ?_
    refine labels_behind (inside.toProceeds.trans (computes_emptied between).toProceeds)
      labelled_.toProceeds ?_
    rw [← sameEnd]
    exact isSet
  refine ⟨proceeds, ?_⟩
  have opened := (grows_entered before kind exitLabel).extends_
  have begins : (before.entered kind exitLabel).listing.since before.listing =
      [.label (before.newFrame kind exitLabel).startLabel,
        .openScope before.listing.scopes.size kind] := by
    have nodes := opened.nodes_eq
    simpa [entered, labelled, LoweringState.opened] using nodes.symm
  show ∀ target ∈ targetsOf ((between.emptied.labelled
      between.innermost.endLabel).listing.since before.listing), target ∈ Listing.labelsOf
        ((between.emptied.labelled between.innermost.endLabel).listing.since before.listing) ∨ _
  rw [opened.since_trans whole.extends_, begins]
  intro target member
  rcases whole.jumps target member with isHere | isExit
  · exact .inl (List.mem_cons_of_mem _ isHere)
  · exact .inr isExit

theorem lands_skipped
    (state : LoweringState)
    {exits : List String}
    {endLabel : String}
    (next : Branch)
    (given : endLabel ∈ exits) :
    Lands exits state (skipped state endLabel next) := by
  unfold skipped
  split
  · refine lands_appended _ rfl ?_
    rintro label ⟨⟩
    exact given
  · exact .refl _

theorem exitTarget_mem
    (state : LoweringState) :
    state.exitTarget ∈ state.exits := by
  unfold exitTarget
  cases found : enclosingFrame? .loop state.frames with
  | none => exact List.mem_cons_self
  | some around =>
      obtain ⟨isExit, isLoop⟩ := exit_of_enclosing found
      refine List.mem_cons_of_mem _ (isExit ?_)
      simp [Frame.exits, isLoop]

theorem leave_lands
    {result : Option Expr}
    (lowered : leave line result before = .ok (done, after)) :
    Lands before.exits before after := by
  obtain ⟨body, found, unlabelled⟩ := leave_unlabelled lowered
  obtain ⟨isExit, isFunction⟩ := exit_of_enclosing found
  refine (Lands.of_unlabelled unlabelled).mono (List.cons_subset.mpr ⟨?_, List.nil_subset _⟩)
  exact List.mem_cons_of_mem _ (isExit (by simp [Frame.exits, isFunction]))

variable
    {body : List Stmt}

/-- An arm of a choice jumps to its body, to the next arm or to the end of the choice. -/
theorem arm_lands
    {number arm : Nat}
    {next : Branch}
    {bodyLabel endLabel : String}
    {tested chosen : LoweringState}
    (bodyHypothesis : ∀ {before after : LoweringState},
      statements body before = .ok ((), after) → Lands before.exits before after)
    (nextHypothesis : ∀ {number arm : Nat} {endLabel : String} {before after : LoweringState},
      branch number arm endLabel next before = .ok ((), after) →
        Lands (endLabel :: before.exits) before after ∧
          (next.exists → armLabel number arm ∈
            Listing.labelsOf (after.listing.since before.listing)))
    (notLoop : kind ≠ .loop)
    (testLowered : condition test bodyLabel (otherwiseLabel number arm endLabel next) false
      before = .ok ((), tested))
    (bodyLowered : inScope kind "" (statements body) (tested.labelled bodyLabel) =
      .ok ((), chosen))
    (branchLowered : branch number arm endLabel next (skipped chosen endLabel next) =
      .ok ((), after)) :
    Lands (endLabel :: before.exits) before after := by
  let given := bodyLabel :: otherwiseLabel number arm endLabel next :: endLabel :: before.exits
  have outer : endLabel :: before.exits ⊆ given :=
    fun _ member => List.mem_cons_of_mem _ (List.mem_cons_of_mem _ member)
  have tests : Lands given before tested :=
    (condition_lands testLowered).mono (by simp [given])
  obtain ⟨labelled_, bodySet⟩ := lands_labelled tested given bodyLabel
  have begins := tests.trans labelled_
  have inside : Lands given (tested.labelled bodyLabel) chosen := by
    refine inScope_lands bodyHypothesis bodyLowered ?_ fun wrong => (notLoop wrong).elim
    rw [exits_of_proceeds begins.toProceeds]
    exact fun _ member => outer (List.mem_cons_of_mem _ member)
  have skips : Lands given chosen (skipped chosen endLabel next) :=
    lands_skipped chosen next (outer (by simp))
  have front := begins.trans (inside.trans skips)
  obtain ⟨branches, armSet⟩ := nextHypothesis branchLowered
  rw [exits_of_proceeds front.toProceeds] at branches
  have whole := front.trans (branches.mono outer)
  have bodyLands := whole.discharge (labels_before begins.toProceeds
    (inside.trans (skips.trans (branches.mono outer))).toProceeds
    (labels_behind tests.toProceeds labelled_.toProceeds bodySet))
  -- The label of the other way is that of the next arm, or the end of the choice without one.
  cases isNext : next.exists with
  | true =>
      refine bodyLands.discharge (labels_behind front.toProceeds branches.toProceeds ?_)
      simpa [otherwiseLabel, isNext] using armSet isNext
  | false =>
      refine bodyLands.mono ?_
      simp [otherwiseLabel, isNext]

theorem loop_lands
    {condLabel startLabel endLabel : String}
    {looped tested : LoweringState}
    (bodyHypothesis : ∀ {before after : LoweringState},
      statements body before = .ok ((), after) → Lands before.exits before after)
    (bodyLowered : inScope .loop endLabel (statements body)
      ((before.numbered.appended (.jump condLabel none)).labelled startLabel) = .ok ((), looped))
    (testLowered : condition test startLabel endLabel true (looped.labelled condLabel) =
      .ok ((), tested)) :
    Lands before.exits before (tested.labelled endLabel) := by
  let given := startLabel :: condLabel :: endLabel :: before.exits
  have jumps : Lands given before.numbered (before.numbered.appended (.jump condLabel none)) := by
    refine lands_appended _ rfl ?_
    rintro label ⟨⟩
    simp [given]
  have begins := (lands_same (proceeds_numbered before) rfl).trans jumps
  obtain ⟨started, startSet⟩ :=
    lands_labelled (before.numbered.appended (.jump condLabel none)) given startLabel
  have inside : Lands given
      ((before.numbered.appended (.jump condLabel none)).labelled startLabel) looped := by
    refine inScope_lands bodyHypothesis bodyLowered ?_ fun _ => by simp [given]
    rw [exits_of_proceeds (begins.trans started).toProceeds]
    exact fun _ member => by simp [given, member]
  obtain ⟨tests, condSet⟩ := lands_labelled looped given condLabel
  have conditioned : Lands given (looped.labelled condLabel) tested :=
    (condition_lands testLowered).mono (by simp [given])
  obtain ⟨ended, endSet⟩ := lands_labelled tested given endLabel
  have front := (begins.trans started).trans inside
  have whole := (front.trans tests).trans (conditioned.trans ended)
  have startLands := whole.discharge (labels_before (begins.trans started).toProceeds
    ((inside.trans tests).trans (conditioned.trans ended)).toProceeds
    (labels_behind begins.toProceeds started.toProceeds startSet))
  have condLands := startLands.discharge (labels_before (front.trans tests).toProceeds
    (conditioned.trans ended).toProceeds
    (labels_behind front.toProceeds tests.toProceeds condSet))
  exact condLands.discharge (labels_behind ((front.trans tests).trans conditioned).toProceeds
    ended.toProceeds endSet)

/-- The jumps of every statement, arm and body land or lead out. -/
theorem lowering_lands :
    (∀ statement_ : Stmt, ∀ {before after : LoweringState},
      statement statement_ before = .ok ((), after) → Lands before.exits before after) ∧
    (∀ branch_ : Branch, ∀ {number arm : Nat} {endLabel : String}
      {before after : LoweringState},
      branch number arm endLabel branch_ before = .ok ((), after) →
        Lands (endLabel :: before.exits) before after ∧
          (branch_.exists → armLabel number arm ∈
            Listing.labelsOf (after.listing.since before.listing))) ∧
    ∀ body : List Stmt, ∀ {before after : LoweringState},
      statements body before = .ok ((), after) → Lands before.exits before after := by
  apply Stmt.induction
  case block =>
    intro line body bodyHypothesis before after lowered
    exact inScope_lands bodyHypothesis (statement_block_ok lowered) (List.Subset.refl _)
      (by rintro ⟨⟩)
  case declare =>
    intro line name type value before after lowered
    rw [statement] at lowered
    exact .of_unlabelled (declare_unlabelled _ lowered)
  case function =>
    intro line name params result bodyLine body _ before after lowered
    exact (statement_function_ok.mp lowered).elim
  case assign =>
    intro line name index value before after lowered
    rw [statement] at lowered
    exact .of_unlabelled (assign_unlabelled _ lowered)
  case call =>
    intro line callLine name builtin arguments before after lowered
    rw [statement] at lowered
    exact .of_computes (callStatement_computes lowered)
  case leave =>
    intro line value before after lowered
    rw [statement] at lowered
    exact leave_lands lowered
  case choose =>
    intro line test bodyLine body next bodyHypothesis nextHypothesis before after lowered
    obtain ⟨tested, chosen, branched, _, testLowered, _, bodyLowered, branchLowered, _, rfl⟩ :=
      statement_choose_ok lowered
    obtain ⟨started, _⟩ := lands_labelled before.numbered
      ((chooseStem before.listing.labelCount ++ "_END") :: before.exits)
      (chooseStem before.listing.labelCount ++ "_START")
    have begins : before.Proceeds (before.numbered.labelled
        (chooseStem before.listing.labelCount ++ "_START")) :=
      (proceeds_numbered before).trans started.toProceeds
    have arms := arm_lands bodyHypothesis nextHypothesis (by decide) testLowered bodyLowered
      branchLowered
    rw [exits_of_proceeds begins] at arms
    obtain ⟨ended, isSet⟩ := lands_labelled branched
      ((chooseStem before.listing.labelCount ++ "_END") :: before.exits)
      (chooseStem before.listing.labelCount ++ "_END")
    have whole := ((lands_same (proceeds_numbered before) rfl).trans started).trans
      (arms.trans ended)
    exact whole.discharge (labels_behind (begins.trans arms.toProceeds) ended.toProceeds isSet)
  case loop =>
    intro line test bodyLine body bodyHypothesis before after lowered
    obtain ⟨looped, tested, _, bodyLowered, _, testLowered, _, rfl⟩ := statement_loop_ok lowered
    exact loop_lands bodyHypothesis bodyLowered testLowered
  case exit =>
    intro line before after lowered
    rw [statement] at lowered
    cases exit_ok lowered
    refine lands_appended _ rfl ?_
    rintro label ⟨⟩
    exact exitTarget_mem before
  case none =>
    intro number arm endLabel before after lowered
    cases branch_none_ok lowered
    exact ⟨.refl _, by rintro ⟨⟩⟩
  case elif =>
    intro line test bodyLine body next bodyHypothesis nextHypothesis number arm endLabel before
      after lowered
    obtain ⟨tested, chosen, _, testLowered, _, bodyLowered, branchLowered⟩ :=
      branch_elif_ok lowered
    obtain ⟨labelled_, isSet⟩ := lands_labelled before (endLabel :: before.exits)
      (armLabel number arm)
    have arms := arm_lands bodyHypothesis nextHypothesis (by decide) testLowered bodyLowered
      branchLowered
    rw [exits_of_proceeds labelled_.toProceeds] at arms
    exact ⟨labelled_.trans arms, fun _ =>
      labels_before labelled_.toProceeds arms.toProceeds isSet⟩
  case otherwise =>
    intro line bodyLine body bodyHypothesis number arm endLabel before after lowered
    obtain ⟨_, bodyLowered⟩ := branch_otherwise_ok lowered
    obtain ⟨labelled_, isSet⟩ := lands_labelled before (endLabel :: before.exits)
      (armLabel number arm)
    have around : (before.labelled (armLabel number arm)).exits ⊆ endLabel :: before.exits := by
      rw [exits_of_proceeds labelled_.toProceeds]
      exact List.subset_cons_self _ _
    have inside := inScope_lands bodyHypothesis bodyLowered around (by rintro ⟨⟩)
    exact ⟨labelled_.trans inside, fun _ =>
      labels_before labelled_.toProceeds inside.toProceeds isSet⟩
  case nil =>
    intro before after lowered
    cases statements_nil_ok lowered
    exact .refl _
  case cons =>
    intro first rest firstHypothesis restHypothesis before after lowered
    obtain ⟨between, firstLowered, restLowered⟩ := statements_cons_ok lowered
    have first := firstHypothesis firstLowered
    have others := restHypothesis restLowered
    rw [exits_of_proceeds first.toProceeds] at others
    exact first.trans others

/-- Every jump of a function leads to a label of the function. -/
theorem functionBody_lands
    {function : Signature}
    (known : before.listing.Parameters function)
    (lowered : functionBody function body before = .ok ((), after)) :
    targetsOf (after.listing.since before.listing) ⊆
      Listing.labelsOf (after.listing.since before.listing) := by
  obtain ⟨bound, between, _, binds, sameNodes, bodyLowered, _, _, since⟩ :=
    functionBody_since known lowered
  let prepared := before.prepared function (declarationsIn body)
  have exits : prepared.exits = [prepared.innermost.endLabel, prepared.innermost.endLabel] := rfl
  obtain ⟨labelled_, _⟩ := lands_labelled prepared prepared.exits
    ((before.enteredBy function).newFrame .function "").startLabel
  have begins : Lands prepared.exits prepared (before.begun function (declarationsIn body)) :=
    labelled_.trans (lands_appended _ rfl fun _ wrong => nomatch wrong)
  have front := begins.trans (lands_same binds sameNodes)
  have inside := lowering_lands.2.2 body bodyLowered
  rw [exits_of_proceeds front.toProceeds] at inside
  obtain ⟨ended, isSet⟩ :=
    lands_labelled between.emptied prepared.exits between.innermost.endLabel
  have reached := (front.trans inside).trans (.of_computes (computes_emptied between))
  have whole := reached.trans ended
  have endSet := labels_behind reached.toProceeds ended.toProceeds isSet
  have sameEnd := (front.trans inside).toProceeds.endLabel
  rw [exits, ← sameEnd] at whole
  have lands := (whole.discharge endSet).discharge endSet
  intro target member
  rw [since] at member ⊢
  simp only [targetsOf, List.cons_append, List.filterMap_cons, List.filterMap_append,
    Node.target?, List.filterMap_nil, List.append_nil] at member
  simp only [Listing.labelsOf, List.cons_append, List.filterMap_cons, List.filterMap_append,
    List.filterMap_nil, List.append_nil]
  exact (lands.jumps target member).resolve_right List.not_mem_nil

end Lower

end IlsCompiler
