import IlsCompiler.Proofs.Lowering.ExpressionLifetimes
import IlsCompiler.Proofs.Scope.Lookup
import IlsCompiler.Proofs.Lowering.Sections

namespace IlsCompiler

/-!
# Lifetimes in statements

A statement moves on by steps, too. What the scopes around it hold stays alive, and the names
that its own scope sees stay names of variables that are alive. The end label of the innermost
scope is still free behind a statement, which is why no label on the way closes the scope.
-/

variable
    {before after : LoweringState}
    {type : Ty}
    {kind : Scope.Kind}

namespace LoweringState

/-- A state from which statements can be lowered. -/
structure Placed (state : LoweringState) : Prop extends state.Settled where
  rooted : state.listing.scopes.Rooted
  inside : Lower.Inside state.listing.scopes state.scope
  function : state.function.isSome

/-- The label that ends the innermost scope has not been set. -/
def EndFree (state : LoweringState) : Prop :=
  state.innermost.endLabel ∉ state.listing.labels

/-- Scopes of an earlier tree hang and bind in a later one as they did. -/
def SameScopes (earlier later : ScopeTree) (touched : Nat → Prop) : Prop :=
  ∀ id scope, ¬touched id → earlier.get? id = some scope →
    ∃ twin, later.get? id = some twin ∧ twin.parent = scope.parent ∧
      twin.bindings = scope.bindings

/-- Steps inside one scope: the scopes around it keep what they hold and what they bind. -/
structure Moves (before after : LoweringState) : Prop where
  steps : Steps before after
  outer : after.frames.tail = before.frames.tail
  held : before.innermost.held ⊆ after.innermost.held
  elsewhere : SameScopes before.listing.scopes after.listing.scopes (· = before.scope)
  moduleNames : after.listing.scopes.moduleNames = before.listing.scopes.moduleNames
  placed : after.Placed

/-- What lowering a statement does: it proceeds by such steps. -/
structure Settles (before after : LoweringState) : Prop extends before.Proceeds after where
  moves : before.Placed → after.EndFree → before.Moves after

/-- What proceeds inside a function stays inside it. -/
theorem Proceeds.keepsFunction
    (proceeds : before.Proceeds after) :
    ∀ owner, before.function = some owner → after.function = some owner := by
  intro owner isOwner
  rw [proceeds.function, isOwner]

/-- What is free at the end was free before. -/
theorem EndFree.of_proceeds
    (proceeds : before.Proceeds after)
    (free : after.EndFree) :
    before.EndFree := by
  intro taken
  refine free ?_
  rw [proceeds.endLabel]
  exact proceeds.extends_.labels.subset taken

variable
    {state : LoweringState}

theorem Moves.refl
    (placed : state.Placed) :
    state.Moves state where
  steps := .refl
  outer := rfl
  held := List.Subset.refl _
  elsewhere _ scope _ found := ⟨scope, found, rfl, rfl⟩
  moduleNames := rfl
  placed := placed

theorem SameScopes.trans
    {earlier between later : ScopeTree}
    {touched : Nat → Prop}
    (first : SameScopes earlier between touched)
    (second : SameScopes between later touched) :
    SameScopes earlier later touched := by
  intro id scope other found
  obtain ⟨middle, isMiddle, middleParent, middleBindings⟩ := first id scope other found
  obtain ⟨last, isLast, lastParent, lastBindings⟩ := second id middle other isMiddle
  exact ⟨last, isLast, lastParent.trans middleParent, lastBindings.trans middleBindings⟩

theorem Moves.trans
    {before between after : LoweringState}
    (first : before.Moves between)
    (sameScope : between.scope = before.scope)
    (second : between.Moves after) :
    before.Moves after where
  steps := first.steps.trans second.steps
  outer := second.outer.trans first.outer
  held := List.Subset.trans first.held second.held
  elsewhere := first.elsewhere.trans (sameScope ▸ second.elsewhere)
  moduleNames := second.moduleNames.trans first.moduleNames
  placed := second.placed

namespace Settles

variable
    {before between after : LoweringState}

theorem refl
    (state : LoweringState) :
    state.Settles state where
  toProceeds := .refl _
  moves placed _ := .refl placed

theorem trans
    (earlier : before.Settles between)
    (later : between.Settles after) :
    before.Settles after where
  toProceeds := earlier.toProceeds.trans later.toProceeds
  moves placed free := by
    have first := earlier.moves placed (free.of_proceeds later.toProceeds)
    have second := later.moves first.placed free
    exact first.trans (Lower.scope_of_proceeds earlier.toProceeds) second

/-- Steps that change neither scopes nor what is held. -/
theorem of_same_scopes
    (proceeds : before.Proceeds after)
    (scopes : after.listing.scopes = before.listing.scopes)
    (outer : after.frames.tail = before.frames.tail)
    (held : before.innermost.held ⊆ after.innermost.held)
    (steps : before.Placed → after.EndFree → Steps before after) :
    before.Settles after where
  toProceeds := proceeds
  moves placed free := by
    have sameScope := Lower.scope_of_proceeds proceeds
    refine
      { steps := steps placed free
        outer := outer
        held := held
        elsewhere := ?_
        moduleNames := by rw [scopes]
        placed :=
          { numbered := proceeds.extends_.numbered placed.numbered
            tidy := proceeds.tidy placed.tidy
            deep := by
              rw [proceeds.deep]
              exact placed.deep
            visible := ?_
            rooted := by
              rw [scopes]
              exact placed.rooted
            inside := placed.inside.proceeds proceeds
            function := by
              rw [proceeds.function]
              exact placed.function } }
    · rw [scopes]
      exact fun _ scope _ found => ⟨scope, found, rfl, rfl⟩
    · intro name id seen
      rw [scopes, sameScope] at seen
      exact (placed.visible name id seen).mono proceeds.extends_ (pending_mono outer held)
        proceeds.keepsFunction

end Settles

/-- A statement that binds nothing and opens no scope. -/
theorem settles_of_works
    (proceeds : before.Proceeds after)
    (works : before.Placed → before.Works after) :
    before.Settles after where
  toProceeds := proceeds
  moves placed free := by
    have working := works placed
    exact (Settles.of_same_scopes proceeds working.scopes working.outer
      working.holds fun _ _ => working.steps).moves placed free

theorem settles_labelled
    (state : LoweringState)
    (name : String) :
    state.Settles (state.labelled name) := by
  refine .of_same_scopes (proceeds_labelled state name) (by simp [labelled, appended]) rfl
    (List.Subset.refl _) fun placed free => .single (.label ?_)
  rintro rfl
  refine free ?_
  rw [(proceeds_labelled state _).endLabel]
  simp [labelled, appended]

theorem settles_numbered
    (state : LoweringState) :
    state.Settles state.numbered :=
  .of_same_scopes (proceeds_numbered state) rfl rfl (List.Subset.refl _) fun _ _ =>
    .single (.quiet (proceeds_numbered state).extends_ rfl (Listing.fresh_none rfl))

theorem scopes_withLocal
    (state : LoweringState)
    (name : String)
    (type : Ty)
    (value : Value)
    (line : Nat) :
    (state.withLocal name type value line).listing.scopes =
      state.listing.scopes.bind state.scope name (state.listing.vars.size + 1) := by
  simp [withLocal, Listing.addNamed, Listing.addVariable, appended]

/-- A local is declared and bound in the innermost scope, which then sees it. -/
theorem settles_withLocal
    (name : String)
    (scalar : type.isArray = false)
    {value : Value}
    (line : Nat)
    (lent : ∀ next, value.reference? = some next → state.Lends next) :
    state.Settles (state.withLocal name type value line) where
  toProceeds := proceeds_withLocal state name type value line
  moves placed free := by
    have proceeds := proceeds_withLocal state name type value line
    have scopes := scopes_withLocal state name type value line
    obtain ⟨first, rest, isFrames⟩ : ∃ first rest, state.frames = first :: rest :=
      List.exists_cons_of_length_pos (Nat.lt_of_lt_of_le (by decide) placed.deep)
    have frames : (state.withLocal name type value line).frames =
        { first with locals := first.locals ++ [state.listing.vars.size + 1] } :: rest := by
      show state.frames.modifyHead _ = _
      rw [isFrames]
      rfl
    have outer : (state.withLocal name type value line).frames.tail = state.frames.tail := by
      rw [frames, isFrames]
      rfl
    have held : state.innermost.held ⊆
        (state.withLocal name type value line).innermost.held := by
      rw [innermost_eq frames, innermost_eq isFrames]
      intro id member
      simp only [Frame.held, ← List.append_assoc]
      exact List.mem_append_left _ member
    refine
      { steps := .single (.bound name line placed.deep scalar lent)
        outer := outer
        held := held
        elsewhere := ?_
        moduleNames := by rw [scopes]; rfl
        placed :=
          { numbered := proceeds.extends_.numbered placed.numbered
            tidy := proceeds.tidy placed.tidy
            deep := by
              rw [proceeds.deep]
              exact placed.deep
            visible := ?_
            rooted := by
              rw [scopes]
              exact ScopeTree.rooted_bind placed.rooted _ _ _
            inside := placed.inside.proceeds proceeds
            function := placed.function } }
    · intro id scope other found
      rw [scopes, ScopeTree.get?_bind, found, Option.map_some, if_neg other]
      exact ⟨scope, rfl, rfl, rfl⟩
    · intro wanted id seen
      rw [scopes, Lower.scope_of_proceeds proceeds] at seen
      rcases ScopeTree.lookup?_bind seen with old | rfl
      · exact (placed.visible wanted id old).mono proceeds.extends_ (pending_mono outer held)
          proceeds.keepsFunction
      · obtain ⟨v, found, storage, isValue, _⟩ := fixed?_withLocal state name type value line
        refine ⟨.intro found (fun _ => ?_) ?_, fun w isFound isParameter => ?_⟩
        · rw [pending_eq, innermost_eq frames]
          simp [Frame.held]
        · intro next member
          refine (lent next ?_).1.mono proceeds.extends_ (pending_mono outer held)
          simpa [Variable.refs, storage, Storage.refs, isValue] using member
        · rw [found, Option.some.injEq] at isFound
          rw [← isFound, storage] at isParameter
          cases isParameter

theorem scopes_entered
    (state : LoweringState)
    (kind : Scope.Kind)
    (exitLabel : String) :
    (state.entered kind exitLabel).listing.scopes =
      (state.listing.scopes.addChild state.scope kind).1 := by
  simp [entered, labelled, opened, appended]

theorem placed_entered
    (placed : state.Placed)
    (kind : Scope.Kind)
    (exitLabel : String) :
    (state.entered kind exitLabel).Placed := by
  have grows := grows_entered state kind exitLabel
  have scopes := scopes_entered state kind exitLabel
  have inside : state.scope < state.listing.scopes.size := by
    obtain ⟨found, isFound, _⟩ := placed.inside
    exact (List.getElem?_eq_some_iff.mp isFound).1
  exact
    { numbered := grows.extends_.numbered placed.numbered
      tidy := grows.tidy placed.tidy
      deep := Nat.le_succ_of_le placed.deep
      visible := by
        intro name id seen
        rw [scopes] at seen
        have same := ScopeTree.lookup?_addChild placed.rooted inside kind name
        exact (placed.visible name id (same.symm.trans seen)).mono grows.extends_
          (List.Subset.refl _) fun _ isOwner => isOwner
      rooted := by
        rw [scopes]
        exact ScopeTree.rooted_addChild placed.rooted inside kind
      inside := Lower.inside_entered state kind exitLabel
      function := placed.function }

/-! ## Leaving a scope -/

section Left

variable
    (state : LoweringState)

theorem frames_left :
    (state.emptied.labelled state.innermost.endLabel).popped.frames = state.frames.tail := by
  show state.emptied.frames.tail = _
  rw [(frames_emptied state).1]

theorem scopes_left :
    (state.emptied.labelled state.innermost.endLabel).popped.listing.scopes =
      state.listing.scopes := by
  rw [← (computes_emptied state).scopes]
  simp [labelled, popped, appended]

theorem extends_left :
    state.listing.Extends
      (state.emptied.labelled state.innermost.endLabel).popped.listing :=
  (computes_emptied state).extends_.trans (proceeds_labelled _ _).extends_

end Left

/-- The scopes that were there before a scope was opened hang and bind as they did. -/
theorem SameScopes.of_opened
    {before opened later : ScopeTree}
    {parent : Nat}
    (isOpened : opened = (before.addChild parent kind).1)
    (elsewhere : SameScopes opened later (· = before.size))
    (id : Nat)
    (found : Scope)
    (isFound : before.get? id = some found) :
    ∃ twin, later.get? id = some twin ∧ twin.parent = found.parent ∧
      twin.bindings = found.bindings := by
  obtain ⟨twin, isTwin, sameParent, sameBindings⟩ :=
    ScopeTree.get?_addChild before parent kind isFound
  have old : id ≠ before.size := Nat.ne_of_lt (List.getElem?_eq_some_iff.mp isFound).1
  rw [← isOpened] at isTwin
  obtain ⟨last, isLast, lastParent, lastBindings⟩ := elsewhere id twin old isTwin
  exact ⟨last, isLast, lastParent.trans sameParent, lastBindings.trans sameBindings⟩

end LoweringState

namespace Lower

open LoweringState

variable
    {before after : LoweringState}
    {line : Nat}
    {done : Unit}
    {initial : Option Expr}

/-- The initial value of a local is computed before it is declared. -/
theorem initializer_works
    {stored : Value}
    (settled : before.Settled)
    (scalar : type.isArray = false)
    (lowered : initializer line type initial before = .ok (stored, after)) :
    before.Works after ∧ ∀ next, stored.reference? = some next → after.Lends next := by
  rcases initializer_ok lowered with ⟨_, rfl, rfl⟩ | ⟨expr, id, _, exprLowered, fits, rfl⟩
  · refine ⟨?_, fun _ wrong => nomatch wrong⟩
    unfold defaulted
    split
    · refine works_quiet (computes_of_listing ?_ rfl rfl rfl rfl rfl rfl) rfl (Listing.fresh_none rfl)
      exact (proceeds_withString before []).extends_
    · exact .refl _
  · obtain ⟨works, yields⟩ := expression_yields settled exprLowered
    refine ⟨works, fun next refers => ?_⟩
    have alive := (yields id rfl).alive
    obtain ⟨v, found, _⟩ := alive.found
    have isId : v.id = id := (works.settled settled).numbered id v found
    simp only [boundIn, found] at refers
    rw [reference_bound refers, isId]
    exact ⟨alive, (yields id rfl).isOperand (isArray_of_assignable fits scalar)⟩

theorem declare_settles
    {name : String}
    (lowered : declare line name type initial before = .ok (done, after)) :
    before.Settles after where
  toProceeds := declare_proceeds lowered
  moves placed free := by
    obtain ⟨scalar, stored, between, initialized, _, rfl⟩ :=
      declare_local_ok placed.inside.isModule lowered
    obtain ⟨works, lent⟩ := initializer_works placed.toSettled scalar initialized
    have computed : before.Settles between := settles_of_works works.toProceeds fun _ => works
    exact (computed.trans (settles_withLocal name scalar line lent)).moves placed free

/-- A scope is left with what the scopes around it held and bound when it was entered. -/
theorem inScope_settles
    {exitLabel : String}
    {body : Lower Unit}
    (each : ∀ {before after : LoweringState},
      body before = .ok ((), after) → before.Settles after)
    (lowered : inScope kind exitLabel body before = .ok (done, after)) :
    before.Settles after where
  toProceeds := inScope_proceeds (fun bodyLowered => (each bodyLowered).toProceeds) lowered
  moves placed free := by
    have proceeds : before.Proceeds after :=
      inScope_proceeds (fun bodyLowered => (each bodyLowered).toProceeds) lowered
    obtain ⟨between, _, bodyLowered, endFresh, rfl⟩ := inScope_ok lowered
    have isFree : between.EndFree := by
      intro taken
      exact endFresh (by rwa [(computes_emptied between).labels])
    have moves := (each bodyLowered).moves (placed_entered placed kind exitLabel) isFree
    have startOther : (before.newFrame kind exitLabel).startLabel ≠
        before.innermost.endLabel := by
      intro same
      refine free ?_
      rw [proceeds.endLabel, ← same]
      refine ((each bodyLowered).extends_.trans (extends_left between)).labels.subset ?_
      simp [entered, labelled, opened, appended]
    have frames : (between.emptied.labelled between.innermost.endLabel).popped.frames =
        before.frames := by
      rw [frames_left, moves.outer]
      rfl
    have isInnermost : (between.emptied.labelled
        between.innermost.endLabel).popped.innermost = before.innermost :=
      congrArg (fun list : List Frame => list.headD .outermost) frames
    -- The scopes that were there before are not the new one, in which alone the body binds.
    have same := SameScopes.of_opened (scopes_entered before kind exitLabel) moves.elsewhere
    rw [← scopes_left between] at same
    have names : (between.emptied.labelled
        between.innermost.endLabel).popped.listing.scopes.moduleNames =
          before.listing.scopes.moduleNames := by
      rw [scopes_left, moves.moduleNames, scopes_entered]
      rfl
    refine
      { steps := ?_
        outer := by rw [frames]
        held := by
          rw [isInnermost]
          exact List.Subset.refl _
        elsewhere := fun other scope _ found => same other scope found
        moduleNames := names
        placed :=
          { numbered := proceeds.extends_.numbered placed.numbered
            tidy := proceeds.tidy placed.tidy
            deep := by
              rw [frames]
              exact placed.deep
            visible := ?_
            rooted := by
              rw [scopes_left]
              exact moves.placed.rooted
            inside := placed.inside.proceeds proceeds
            function := by
              rw [proceeds.function]
              exact placed.function } }
    · refine Relation.ReflTransGen.trans (.single (.enter kind exitLabel placed.function ?_
        startOther)) (moves.steps.tail (.leave moves.placed.deep))
      intro none_
      have deep := placed.deep
      rw [none_] at deep
      cases deep
    · intro name id seen
      obtain ⟨found, isFound, _⟩ := placed.inside
      have within := (List.getElem?_eq_some_iff.mp isFound).1
      rw [scope_of_proceeds proceeds, ScopeTree.lookup?_congr placed.rooted within
        same names] at seen
      refine (placed.visible name id seen).mono proceeds.extends_ ?_ proceeds.keepsFunction
      rw [pending, pending, frames]
      exact List.Subset.refl _

theorem condition_settles
    {test : Option Condition}
    {whenTrue whenFalse : String}
    {falseFollows : Bool}
    (lowered : condition test whenTrue whenFalse falseFollows before = .ok (done, after)) :
    before.Settles after :=
  settles_of_works (condition_proceeds lowered) fun placed =>
    condition_works placed.toSettled lowered

/-- Every statement is lowered by steps inside its scope. -/
theorem composed_settles :
    Composed (fun _ => True) (fun _ => True) fun _ => LoweringState.Settles where
  refl := .refl
  trans := .trans
  numbered := settles_numbered
  labelled := settles_labelled
  jumped _ _ := settles_of_works (proceeds_appended _ rfl) fun _ => works_jump _ _ _
  condition _ := condition_settles
  declare _ := declare_settles
  assign _ lowered := settles_of_works (assign_proceeds lowered) fun placed =>
    assign_works placed.toSettled lowered
  call _ lowered := settles_of_works (callStatement_computes lowered).toProceeds fun placed =>
    callStatement_works placed.toSettled lowered
  leave _ lowered := settles_of_works (leave_proceeds lowered) fun placed =>
    leave_works placed.toSettled lowered
  inScope := inScope_settles

end Lower

/-!
## Well-formed listings

Every step of lowering inside a function adds well-formed variables and nodes, so whatever the
steps have added is well formed at their end: references lead down to variables of the kind that
is wanted, calls fit the functions they name, and operands are no arrays.
-/

/-- Every variable of a listing is well formed. -/
def Listing.WellFormed (listing : Listing) : Prop :=
  ∀ id v, listing.fixed? id = some v → v.WellFormed listing id

/-- Variables that are added to a listing have to be looked at, the others stay well formed. -/
theorem Listing.WellFormed.grown
    {earlier later : Listing}
    (formed : earlier.WellFormed)
    (grown : earlier.Extends later)
    (fresh : ∀ id v, earlier.vars.size < id → later.fixed? id = some v → v.WellFormed later id) :
    later.WellFormed := by
  intro id v found
  by_cases isOld : id ≤ earlier.vars.size
  · rw [grown.stable id isOld] at found
    exact (formed id v found).mono grown
  · exact fresh id v (Nat.lt_of_not_le isOld) found

theorem Listing.since_of_append
    {earlier later : Listing}
    {added : List Node}
    (nodes : later.nodes.toList = earlier.nodes.toList ++ added) :
    later.since earlier = added := by
  simp [since, nodes]

/-- A variable with a constant value that refers to nothing and is never destroyed. -/
theorem Variable.wellFormed_constant
    {listing : Listing}
    {id : VarId}
    {v : Variable}
    {text : String}
    (isValue : v.value = .literal text)
    (storage : v.storage.WellFormed listing)
    (bare : v.storage.refs = [])
    (kept : v.needsDestroy = false) :
    v.WellFormed listing id where
  descends := by simp [refs, bare, isValue, Value.reference?]
  storage := storage
  value := by simp [isValue, Value.reference?]
  scalar := by simp [kept]

namespace LoweringState

/-- What has been added from one state to another is well formed. -/
structure Forms (before after : LoweringState) : Prop where
  extends_ : before.listing.Extends after.listing
  function : after.function = before.function
  vars : before.listing.WellFormed → after.listing.WellFormed
  nodes : ∀ node ∈ after.listing.since before.listing,
    node.WellFormed before.function after.listing

namespace Forms

variable
    {before between after : LoweringState}

theorem refl
    (state : LoweringState) :
    state.Forms state where
  extends_ := .refl _
  function := rfl
  vars := id
  nodes := by
    rw [Listing.since_of_append (List.append_nil _).symm]
    exact fun _ member => (List.not_mem_nil member).elim

theorem trans
    (earlier : before.Forms between)
    (later : between.Forms after) :
    before.Forms after where
  extends_ := earlier.extends_.trans later.extends_
  function := later.function.trans earlier.function
  vars := later.vars ∘ earlier.vars
  nodes := by
    intro node member
    rw [earlier.extends_.since_trans later.extends_] at member
    rcases List.mem_append.mp member with isFirst | isSecond
    · exact (earlier.nodes node isFirst).mono later.extends_
    · rw [← earlier.function]
      exact later.nodes node isSecond

/-- Nodes are added and no variables. -/
theorem of_nodes
    (grown : before.listing.Extends after.listing)
    (function : after.function = before.function)
    (size : after.listing.vars.size = before.listing.vars.size)
    {added : List Node}
    (nodes : after.listing.nodes.toList = before.listing.nodes.toList ++ added)
    (formed : ∀ node ∈ added, node.WellFormed before.function after.listing) :
    before.Forms after where
  extends_ := grown
  function := function
  vars isFormed := isFormed.grown grown fun id v isNew found => by
    have inside := (Listing.le_size_of_fixed? found).2
    omega
  nodes := by
    rw [Listing.since_of_append nodes]
    exact formed

/-- A variable is added and declared. -/
theorem of_declared
    (grown : before.listing.Extends after.listing)
    (function : after.function = before.function)
    (size : after.listing.vars.size = before.listing.vars.size + 1)
    {line : Nat}
    (nodes : after.listing.nodes =
      before.listing.nodes.push (.declare (before.listing.vars.size + 1) line))
    {v : Variable}
    (found : after.listing.fixed? (before.listing.vars.size + 1) = some v)
    (bare : v.storage.refs = [])
    (storage : v.storage.WellFormed after.listing)
    (destroyed : v.needsDestroy)
    (scalar : v.isOperand)
    (lent : ∀ next, v.value.reference? = some next → before.Lends next) :
    before.Forms after where
  extends_ := grown
  function := function
  vars isFormed := by
    refine isFormed.grown grown (Listing.fresh_last size found ?_)
    refine
      { descends := fun next member => ?_
        storage := storage
        value := fun next refers => grown.isOperand (lent next refers).2
        scalar := fun _ => scalar }
    have refers : v.value.reference? = some next := by
      simpa [Variable.refs, bare] using member
    exact Nat.lt_succ_of_le (lent next refers).1.le_size
  nodes := by
    have added : after.listing.nodes.toList =
        before.listing.nodes.toList ++ [.declare (before.listing.vars.size + 1) line] := by
      simp [nodes]
    rw [Listing.since_of_append added]
    intro node member
    cases List.mem_singleton.mp member
    exact ⟨v, found, destroyed⟩

end Forms

/-- Every step adds what is well formed. -/
theorem Step.forms
    (step : Step before after) :
    before.Forms after := by
  cases step with
  | quiet grown nodes fresh =>
      refine ⟨grown, rfl, fun formed => formed.grown grown fun id v isNew found =>
        (fresh id v isNew found).2, ?_⟩
      rw [@Listing.since_of_append _ _ [] (by simp [nodes])]
      exact fun _ member => (List.not_mem_nil member).elim
  | temporary type isResult line deep lent =>
      exact .of_declared (computes_withTemporary before type _ isResult line).extends_ rfl
        (by simp) (nodes_withTemporary before type _ isResult line)
        (fixed?_withTemporary before type _ isResult line) rfl trivial rfl rfl lent
  | @bound name type value line deep scalar lent =>
      obtain ⟨v, found, storage, isValue, isType⟩ := fixed?_withLocal before name type value line
      refine .of_declared (proceeds_withLocal before name type value line).extends_ rfl ?_
        (nodes_withLocal before name type value line) found ?_ ?_ ?_ ?_ ?_
      · simp [withLocal, Listing.addNamed, Listing.addVariable]
      · rw [storage]
        rfl
      · rw [storage]
        trivial
      · simp [Variable.needsDestroy, storage]
      · simp [Variable.isOperand, storage, isType, scalar]
      · rw [isValue]
        exact lent
  | @node node work formed alive =>
      refine .of_nodes (extends_appended before node) rfl (by simp)
        (by simp : _ = before.listing.nodes.toList ++ [node]) ?_
      intro other member
      cases List.mem_singleton.mp member
      exact formed.mono (extends_appended before node)
  | @destroy id deep member =>
      have isPending : (before.frames.any fun open_ => decide (id ∈ open_.temporaries)) = true := by
        cases isFrames : before.frames with
        | nil => simp [isFrames] at deep
        | cons first rest =>
            rw [innermost_eq isFrames] at member
            simp [member]
      refine .of_nodes (computes_destroyed before id).extends_
        (computes_destroyed before id).function (by simp)
        (by simp [destroyed, isPending] : _ = before.listing.nodes.toList ++ [.destroy id]) ?_
      intro other isOther
      cases List.mem_singleton.mp isOther
      trivial
  | @label name other =>
      refine .of_nodes (proceeds_labelled before name).extends_ rfl (size_labelled before name)
        (by simp [nodes_labelled] : _ = before.listing.nodes.toList ++ [.label name]) ?_
      intro other isOther
      cases List.mem_singleton.mp isOther
      trivial
  | enter kind exitLabel =>
      refine .of_nodes (grows_entered before kind exitLabel).extends_ rfl
        (by simp [entered, labelled, opened]) (nodes_entered before kind exitLabel) ?_
      intro other isOther
      simp only [List.mem_cons, List.not_mem_nil, or_false] at isOther
      rcases isOther with rfl | rfl <;> trivial
  | leave =>
      obtain ⟨_, function, size⟩ := frames_emptied before
      refine @Forms.of_nodes before _ (extends_left before) function ?_
        (before.innermost.held.map .destroy ++ [.label before.innermost.endLabel]) ?_ ?_
      · rw [← size]
        exact size_labelled _ _
      · show (before.emptied.labelled _).listing.nodes.toList = _
        simp [nodes_labelled, nodes_emptied]
      · intro other isOther
        rcases List.mem_append.mp isOther with isDestroy | isLabel
        · obtain ⟨id, _, rfl⟩ := List.mem_map.mp isDestroy
          trivial
        · cases List.mem_singleton.mp isLabel
          trivial

/-- Steps one after the other add what is well formed. -/
theorem Steps.forms
    (steps : Steps before after) :
    before.Forms after := by
  induction steps with
  | refl => exact .refl _
  | tail _ step inductionHypothesis => exact inductionHypothesis.trans step.forms

end LoweringState

end IlsCompiler
