import IlsCompiler.Proofs.Lowering.StatementSteps

namespace IlsCompiler

/-!
# Statements only add to a listing

A statement that lowering accepts leaves the open scopes as they were and takes
nothing back from the listing; its nodes are counted to the function it stands in.
-/

namespace ScopeTree

/-- Opening a scope keeps the scopes that are there. -/
theorem extends_addChild
    (tree : ScopeTree)
    (parent : Nat)
    (kind : Scope.Kind) :
    tree.Extends (tree.addChild parent kind).1 := by
  intro id scope found
  have inside : id < tree.scopes.length := (List.getElem?_eq_some_iff.mp found).1
  unfold get? addChild
  simp only [List.length_modify, List.getElem?_append_left, inside, List.getElem?_modify]
  unfold get? at found
  rw [found]
  split
  · exact ⟨_, rfl, rfl, rfl, List.prefix_refl _⟩
  · exact ⟨_, rfl, .refl _⟩

/-- Binding a name adds to the bindings of one scope. -/
theorem extends_bind
    (tree : ScopeTree)
    (changed : Nat)
    (name : String)
    (reference : Nat) :
    tree.Extends (tree.bind changed name reference) := by
  intro id scope found
  unfold get? bind
  unfold get? at found
  simp only [List.getElem?_modify, found]
  split
  · exact ⟨_, rfl, rfl, rfl, List.prefix_append _ _⟩
  · exact ⟨_, rfl, .refl _⟩

end ScopeTree

namespace LoweringState

theorem extends_labels
    (state : LoweringState)
    (name : String) :
    state.listing.Extends
      { state.listing with labels := state.listing.labels ++ [name] } :=
  { Listing.Extends.refl state.listing with labels := List.prefix_append _ _ }

theorem proceeds_labelled
    (state : LoweringState)
    (name : String) :
    state.Proceeds (state.labelled name) := by
  refine Proceeds.trans ?_ (proceeds_appended _ rfl)
  exact .of_same_nodes (extends_labels state name) rfl rfl rfl rfl fun _ old => .inl old

theorem proceeds_numbered
    (state : LoweringState) :
    state.Proceeds state.numbered :=
  .of_same_nodes { Listing.Extends.refl state.listing with } rfl rfl rfl rfl
    fun _ old => .inl old

theorem proceeds_withString
    (state : LoweringState)
    (text : Bytes) :
    state.Proceeds (state.withString text) := by
  refine .of_same_nodes ?_ rfl rfl rfl rfl fun _ old => .inl old
  exact { Listing.Extends.refl state.listing with strings := StringTable.prefix_intern _ _ }

theorem grows_opened
    (state : LoweringState)
    (kind : Scope.Kind)
    (exitLabel : String) :
    state.Grows (state.opened kind exitLabel) := by
  refine .of_same_nodes ?_ rfl rfl rfl ?_
  · exact { Listing.Extends.refl state.listing with
      scopes := ScopeTree.extends_addChild _ _ _ }
  · rintro id ⟨open_, member, inside⟩
    rcases List.mem_cons.mp member with rfl | isOuter
    · simp [newFrame] at inside
    · exact .inl ⟨open_, isOuter, inside⟩

theorem grows_entered
    (state : LoweringState)
    (kind : Scope.Kind)
    (exitLabel : String) :
    state.Grows (state.entered kind exitLabel) := by
  refine (grows_opened state kind exitLabel).trans ?_
  exact ((proceeds_labelled _ _).trans (proceeds_appended _ rfl)).toGrows

theorem adds_entered
    (state : LoweringState)
    (kind : Scope.Kind)
    (exitLabel : String) :
    state.listing.Adds Node.isInner (state.entered kind exitLabel).listing := by
  have opens : (Node.openScope state.listing.scopes.size kind).isInner := rfl
  have labels := proceeds_labelled (state.opened kind exitLabel)
    (state.newFrame kind exitLabel).startLabel
  exact (labels.trans (proceeds_appended _ opens)).inner

/-- Destroying variables adds a node for each of them. -/
theorem computes_destroyAll
    (ids : List VarId)
    (state : LoweringState) :
    state.Computes (ids.foldl (fun current id => current.appended (.destroy id)) state) := by
  induction ids generalizing state with
  | nil => exact .refl _
  | cons first rest inductionHypothesis =>
      exact (computes_appended state rfl).trans (inductionHypothesis _)

theorem computes_emptied
    (state : LoweringState) :
    state.Computes state.emptied :=
  computes_destroyAll _ state

theorem proceeds_withLocal
    (state : LoweringState)
    (name : String)
    (type : Ty)
    (value : Value)
    (line : Nat) :
    state.Proceeds (state.withLocal name type value line) := by
  refine Proceeds.trans ?_ (proceeds_appended _ rfl)
  refine .of_same_nodes ?_ rfl rfl rfl ?_ ?_
  · have added := extends_addVariable state.listing type value fun _ =>
      .named name false false 0 state.scope
    refine added.trans ?_
    exact { Listing.Extends.refl _ with scopes := ScopeTree.extends_bind _ _ _ _ }
  · cases state.frames <;> rfl
  · rintro id ⟨open_, member, inside⟩
    cases frames : state.frames with
    | nil => simp [frames] at member
    | cons current rest =>
        simp only [frames, List.modifyHead_cons, List.mem_cons] at member
        rcases member with rfl | isOuter
        · exact .inl ⟨current, by simp [frames], inside⟩
        · exact .inl ⟨open_, by simp [frames, isOuter], inside⟩

theorem proceeds_withGlobal
    (state : LoweringState)
    (name : String)
    (type : Ty)
    (value : Value)
    (line : Nat) :
    state.Proceeds (state.withGlobal name type value line) := by
  refine Proceeds.trans ?_ (proceeds_appended _ rfl)
  refine .of_same_nodes ?_ rfl rfl rfl rfl fun _ old => .inl old
  have added := extends_addVariable state.listing type value fun _ =>
    .named name true false 0 state.scope
  refine added.trans ?_
  exact { Listing.Extends.refl _ with scopes := ScopeTree.extends_bind _ _ _ _ }

variable
    {before after : LoweringState}

/-- The innermost scope stays the same while lowering proceeds. -/
theorem innermost_bare
    (proceeds : before.Proceeds after) :
    after.innermost.bare = before.innermost.bare := by
  have first : ∀ frames : List Frame,
      (frames.headD .outermost).bare = (frames.map Frame.bare).headD .outermost := by
    intro frames
    cases frames <;> rfl
  unfold LoweringState.innermost
  rw [first, first, proceeds.frames]

theorem Proceeds.endLabel
    (proceeds : before.Proceeds after) :
    after.innermost.endLabel = before.innermost.endLabel := by
  have same := congrArg Frame.endLabel (innermost_bare proceeds)
  exact same

theorem Proceeds.deep
    (proceeds : before.Proceeds after) :
    after.frames.length = before.frames.length := by
  simpa using congrArg List.length proceeds.frames

/-- A new local variable is found under the next number. -/
theorem fixed?_withLocal
    (state : LoweringState)
    (name : String)
    (type : Ty)
    (value : Value)
    (line : Nat) :
    ∃ v,
      (state.withLocal name type value line).listing.fixed? (state.listing.vars.size + 1) =
          some v ∧
        v.storage = .named name false false 0 state.scope ∧ v.value = value ∧
        v.type = type := by
  have found : (state.listing.addVariable type value fun _ =>
      .named name false false 0 state.scope).1.fixed? (state.listing.vars.size + 1) =
        some { id := state.listing.vars.size + 1, type := type, value := value,
               preserved := false, lastUse := none,
               storage := .named name false false 0 state.scope } := by
    rw [Listing.fixed?_addVariable]
    simp [Storage.fixed]
  have same : (state.withLocal name type value line).listing.fixed?
      (state.listing.vars.size + 1) = (state.listing.addVariable type value fun _ =>
        .named name false false 0 state.scope).1.fixed? (state.listing.vars.size + 1) := by
    simp only [withLocal, appended, Lower.fixed?_appendNode]
    rfl
  exact ⟨_, same.trans found, rfl, rfl, rfl⟩

theorem nodes_withLocal
    (state : LoweringState)
    (name : String)
    (type : Ty)
    (value : Value)
    (line : Nat) :
    (state.withLocal name type value line).listing.nodes =
      state.listing.nodes.push (.declare (state.listing.vars.size + 1) line) := by
  simp [withLocal, Listing.addNamed, Listing.addVariable]

end LoweringState

namespace Lower

open LoweringState

variable
    {before after : LoweringState}
    {line : Nat}
    {done : Unit}

theorem proceeds_defaulted
    (state : LoweringState)
    (type : Ty) :
    state.Proceeds (defaulted state type) := by
  unfold defaulted
  split
  · exact proceeds_withString _ _
  · exact .refl _

end Lower

/-!
## Steps that set no labels

The simple statements and the conditions set no labels, open no scopes and take no numbers for
labels. They jump to labels that are told beforehand, if they jump at all.
-/

/-- The label that a node jumps to. -/
def Node.target? : Node → Option String
  | .jump name _ => some name
  | _ => none

/-- Whether a node sets no label, and jumps to one of the given labels if it jumps. -/
def Node.isUnlabelled (targets : List String) : Node → Bool
  | .label _ => false
  | .jump name _ => name ∈ targets
  | _ => true

/-- Lowering proceeds without setting labels or opening scopes, and jumps to given labels only. -/
structure LoweringState.Unlabelled (targets : List String) (before after : LoweringState) : Prop
    extends before.Proceeds after where
  unlabelled : before.listing.Adds (Node.isUnlabelled targets) after.listing
  labels : after.listing.labels = before.listing.labels
  labelCount : after.listing.labelCount = before.listing.labelCount
  scopeCount : after.listing.scopes.size = before.listing.scopes.size

namespace LoweringState.Unlabelled

variable
    {targets : List String}
    {before between after : LoweringState}

theorem of_computes
    (computes : before.Computes after) :
    Unlabelled targets before after where
  toProceeds := computes.toProceeds
  unlabelled := by
    obtain ⟨added, nodes, straight⟩ := computes.straight
    refine ⟨added, nodes, fun node member => ?_⟩
    have kind := straight node member
    cases node <;> first | rfl | cases kind
  labels := computes.labels
  labelCount := computes.labelCount
  scopeCount := congrArg ScopeTree.size computes.scopes

theorem refl
    (state : LoweringState) :
    Unlabelled targets state state :=
  of_computes (.refl _)

theorem trans
    (earlier : Unlabelled targets before between)
    (later : Unlabelled targets between after) :
    Unlabelled targets before after where
  toProceeds := earlier.toProceeds.trans later.toProceeds
  unlabelled := earlier.unlabelled.trans later.unlabelled
  labels := later.labels.trans earlier.labels
  labelCount := later.labelCount.trans earlier.labelCount
  scopeCount := later.scopeCount.trans earlier.scopeCount

theorem appended
    (state : LoweringState)
    {node : Node}
    (inner : node.isInner)
    (isUnlabelled : node.isUnlabelled targets) :
    Unlabelled targets state (state.appended node) where
  toProceeds := proceeds_appended state inner
  unlabelled := ⟨[node], by simp, by simpa using isUnlabelled⟩
  labels := by simp [LoweringState.appended]
  labelCount := by simp [LoweringState.appended]
  scopeCount := by simp [LoweringState.appended]

theorem defaulted
    (state : LoweringState)
    (type : Ty) :
    Unlabelled targets state (Lower.defaulted state type) := by
  refine ⟨Lower.proceeds_defaulted state type, .refl ?_, ?_, ?_, ?_⟩
  all_goals
    unfold Lower.defaulted
    split <;> rfl

end LoweringState.Unlabelled

namespace Lower

open LoweringState

variable
    {before after : LoweringState}
    {line : Nat}
    {done : Unit}
    {name : String}
    {initial : Option Expr}
    {type : Ty}
    {stored : Value}
    {whenTrue whenFalse : String}
    (targets : List String)

theorem initializer_unlabelled
    (lowered : initializer line type initial before = .ok (stored, after)) :
    Unlabelled targets before after := by
  rcases initializer_ok lowered with ⟨_, _, rfl⟩ | ⟨_, _, _, exprLowered, _, _⟩
  · exact .defaulted _ _
  · exact .of_computes (expression_computes exprLowered)

theorem initializer_proceeds
    (lowered : initializer line type initial before = .ok (stored, after)) :
    before.Proceeds after :=
  (initializer_unlabelled [] lowered).toProceeds

theorem conditionTerms_unlabelled
    {terms : List Comparison}
    {joins : List Logic}
    (lowered : conditionTerms whenTrue whenFalse terms joins before = .ok (done, after)) :
    Unlabelled [whenTrue, whenFalse] before after := by
  induction terms generalizing before joins with
  | nil =>
      cases conditionTerms_nil_ok lowered
      exact .refl _
  | cons term rest inductionHypothesis =>
      obtain ⟨left, right, test, between, sidesLowered, restLowered⟩ :=
        conditionTerms_cons_ok lowered
      let tested := (between.appended (.compare left right term.line)).destroyed left
      have destroys : Unlabelled [whenTrue, whenFalse] between (tested.destroyed right) :=
        .trans (.trans (.appended between rfl rfl) (.of_computes (computes_destroyed _ left)))
          (.of_computes (computes_destroyed _ right))
      have jumps : Unlabelled [whenTrue, whenFalse] (tested.destroyed right)
          ((tested.destroyed right).appended (termJump whenTrue whenFalse test rest joins)) := by
        unfold termJump
        split <;> exact .appended _ rfl (by simp [Node.isUnlabelled])
      exact (((Unlabelled.of_computes (comparison_computes sidesLowered)).trans destroys).trans
        jumps).trans (inductionHypothesis restLowered)

theorem conditionTerms_proceeds
    {terms : List Comparison}
    {joins : List Logic}
    (lowered : conditionTerms whenTrue whenFalse terms joins before = .ok (done, after)) :
    before.Proceeds after :=
  (conditionTerms_unlabelled lowered).toProceeds

theorem condition_unlabelled
    {test : Option Condition}
    {falseFollows : Bool}
    (lowered : condition test whenTrue whenFalse falseFollows before = .ok (done, after)) :
    Unlabelled [whenTrue, whenFalse] before after := by
  obtain ⟨_, _, _, _, termsLowered, rfl⟩ := condition_ok lowered
  have terms := conditionTerms_unlabelled termsLowered
  split
  · exact terms
  · exact terms.trans (.appended _ rfl (by simp [Node.isUnlabelled]))

theorem condition_proceeds
    {test : Option Condition}
    {falseFollows : Bool}
    (lowered : condition test whenTrue whenFalse falseFollows before = .ok (done, after)) :
    before.Proceeds after :=
  (condition_unlabelled lowered).toProceeds

theorem assign_unlabelled
    {index : Option Expr}
    {expr : Expr}
    (lowered : assign line name index expr before = .ok (done, after)) :
    Unlabelled targets before after := by
  obtain ⟨_, _, _, middle, _, _, _, selects, exprLowered, _, stores⟩ := assign_ok lowered
  have selected : before.Computes middle := by
    rcases selects with ⟨_, _, _, _, rfl⟩ | ⟨_, _, accessed, _⟩
    · exact .refl _
    · exact elementOf_computes accessed
  have valued : Unlabelled targets before _ :=
    .of_computes (selected.trans (expression_computes exprLowered))
  rcases stores with ⟨_, _, rfl⟩ | ⟨_, rfl⟩
  · exact valued.trans (.appended _ rfl rfl)
  · exact valued

theorem assign_proceeds
    {index : Option Expr}
    {expr : Expr}
    (lowered : assign line name index expr before = .ok (done, after)) :
    before.Proceeds after :=
  (assign_unlabelled [] lowered).toProceeds

/-- A return jumps to the end of its function. -/
theorem leave_unlabelled
    {result : Option Expr}
    (lowered : leave line result before = .ok (done, after)) :
    ∃ body, enclosingFrame? .function before.frames = some body ∧
      Unlabelled [body.endLabel] before after := by
  obtain ⟨_, body, id, between, _, found, values, rfl⟩ := leave_ok lowered
  have valued : before.Computes between := by
    rcases values with ⟨_, _, rfl⟩ | ⟨_, _, exprLowered, _⟩
    · exact .refl _
    · exact expression_computes exprLowered
  exact ⟨body, found, ((Unlabelled.of_computes valued).trans (.appended _ rfl rfl)).trans
    (.appended _ rfl (by simp [Node.isUnlabelled]))⟩

theorem leave_proceeds
    {result : Option Expr}
    (lowered : leave line result before = .ok (done, after)) :
    before.Proceeds after :=
  let ⟨_, _, unlabelled⟩ := leave_unlabelled lowered
  unlabelled.toProceeds

theorem constant_unlabelled
    (lowered : constant line name type initial before = .ok (stored, after)) :
    Unlabelled targets before after := by
  rcases constant_ok lowered with
    ⟨_, _, rfl⟩ | ⟨_, _, _, _, _, _, _, _, rfl⟩ | ⟨_, _, _, _, _, rfl⟩ |
      ⟨_, _, _, _, _, _, _, _, rfl⟩
  · exact .defaulted _ _
  · refine ⟨.of_same_nodes ?_ rfl rfl rfl rfl fun _ old => .inl old, .refl rfl, rfl, rfl, rfl⟩
    exact extends_addVariable before.listing (.array type.element type.length) _ fun _ =>
      .array type.element type.length _
  · exact ⟨proceeds_withString _ _, .refl rfl, rfl, rfl, rfl⟩
  · exact .refl _

theorem constant_proceeds
    (lowered : constant line name type initial before = .ok (stored, after)) :
    before.Proceeds after :=
  (constant_unlabelled [] lowered).toProceeds

theorem declare_unlabelled
    (lowered : declare line name type initial before = .ok (done, after)) :
    Unlabelled targets before after := by
  cases isModule : before.listing.scopes.isModule before.scope with
  | true =>
      rcases declare_module_ok isModule lowered with ⟨_, rfl⟩ | ⟨_, stored, middle, found, rfl⟩
      · exact .refl _
      · refine (constant_unlabelled targets found).trans
          ⟨proceeds_withGlobal _ _ _ _ _,
            ⟨[.declare (middle.listing.vars.size + 1) line], ?_, by simp [Node.isUnlabelled]⟩,
            ?_, ?_, ?_⟩
        all_goals simp [withGlobal, Listing.addNamed, Listing.addVariable, LoweringState.appended,
          ScopeTree.size, ScopeTree.bind]
  | false =>
      obtain ⟨_, stored, middle, initialized, _, rfl⟩ := declare_local_ok isModule lowered
      refine (initializer_unlabelled targets initialized).trans
          ⟨proceeds_withLocal _ _ _ _ _,
            ⟨[.declare (middle.listing.vars.size + 1) line], ?_, by simp [Node.isUnlabelled]⟩,
            ?_, ?_, ?_⟩
      all_goals simp [withLocal, Listing.addNamed, Listing.addVariable, LoweringState.appended,
        ScopeTree.size, ScopeTree.bind]

theorem declare_proceeds
    (lowered : declare line name type initial before = .ok (done, after)) :
    before.Proceeds after :=
  (declare_unlabelled [] lowered).toProceeds

/-- A scope is left as it was entered when its body keeps the open scopes. -/
theorem inScope_proceeds
    {kind : Scope.Kind}
    {exitLabel : String}
    {body : Lower Unit}
    (each : ∀ {before after : LoweringState},
      body before = .ok ((), after) → before.Proceeds after)
    (lowered : inScope kind exitLabel body before = .ok (done, after)) :
    before.Proceeds after := by
  obtain ⟨between, _, bodyLowered, _, rfl⟩ := inScope_ok lowered
  have inside := each bodyLowered
  have closes := (computes_emptied between).toProceeds.trans
    (proceeds_labelled _ between.innermost.endLabel)
  have opened := grows_entered before kind exitLabel
  have whole := inside.trans closes
  have entry : before.listing.Adds Node.isInner (before.entered kind exitLabel).listing :=
    adds_entered before kind exitLabel
  refine ⟨opened.trans (whole.toGrows.trans ?_), ?_, entry.trans whole.inner⟩
  · refine .of_same_nodes (.refl _) rfl rfl rfl ?_
    rintro id ⟨open_, member, isPending⟩
    exact .inl ⟨open_, List.mem_of_mem_tail member, isPending⟩
  · have frames := whole.frames
    show List.map Frame.bare (List.tail _) = _
    rw [List.map_tail, frames]
    rfl

/-- Every statement leaves the open scopes as they were. -/
theorem composed_proceeds :
    Composed (fun _ => True) (fun _ => True) fun _ => LoweringState.Proceeds where
  refl := .refl
  trans := .trans
  numbered := proceeds_numbered
  labelled := proceeds_labelled
  jumped state _ := proceeds_appended state rfl
  condition _ := condition_proceeds
  declare _ := declare_proceeds
  assign _ := assign_proceeds
  call _ lowered := (callStatement_computes lowered).toProceeds
  leave _ := leave_proceeds
  inScope := inScope_proceeds

theorem statement_proceeds
    {statement_ : Stmt}
    (lowered : statement statement_ before = .ok ((), after)) :
    before.Proceeds after :=
  (composed_proceeds.lowering .always).1 statement_ trivial lowered

theorem branch_proceeds
    {branch_ : Branch}
    {number arm : Nat}
    {endLabel : String}
    (lowered : branch number arm endLabel branch_ before = .ok ((), after)) :
    before.Proceeds after :=
  (composed_proceeds.lowering .always).2.1 branch_ trivial lowered

theorem statements_proceeds
    {body : List Stmt}
    (lowered : statements body before = .ok ((), after)) :
    before.Proceeds after :=
  composed_proceeds.statements lowered

end Lower

namespace LoweringState

/-- Steps that leave the scopes as they are. -/
structure Stays (before after : LoweringState) : Prop extends before.Proceeds after where
  scopes : after.listing.scopes = before.listing.scopes

namespace Stays

variable
    {before between after : LoweringState}

theorem of_computes
    (computes : before.Computes after) :
    before.Stays after :=
  ⟨computes.toProceeds, computes.scopes⟩

theorem refl
    (state : LoweringState) :
    state.Stays state :=
  ⟨.refl state, rfl⟩

theorem trans
    (earlier : before.Stays between)
    (later : between.Stays after) :
    before.Stays after :=
  ⟨earlier.toProceeds.trans later.toProceeds, later.scopes.trans earlier.scopes⟩

theorem appended
    (state : LoweringState)
    {node : Node}
    (isInner : node.isInner) :
    state.Stays (state.appended node) :=
  ⟨proceeds_appended state isInner, by simp [LoweringState.appended]⟩

theorem labelled
    (state : LoweringState)
    (name : String) :
    state.Stays (state.labelled name) :=
  ⟨proceeds_labelled state name, by simp [LoweringState.labelled, LoweringState.appended]⟩

theorem numbered
    (state : LoweringState) :
    state.Stays state.numbered :=
  ⟨proceeds_numbered state, rfl⟩

theorem skipped
    (state : LoweringState)
    (endLabel : String)
    (next : Branch) :
    state.Stays (Lower.skipped state endLabel next) := by
  unfold Lower.skipped
  split
  · exact .appended state rfl
  · exact .refl state

end Stays

end LoweringState

end IlsCompiler
