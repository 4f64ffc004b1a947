import IlsCompiler.Proofs.Lowering.StatementLifetimes
import IlsCompiler.Proofs.Lowering.FunctionSections

namespace IlsCompiler

/-!
# Lifetimes in programs

Between functions nothing is pending and no scope is open. Global variables and the variables of
parameters are never destroyed. A function opens a scope of its own, sees the globals and its
parameters there, and leaves nothing behind that it has declared.
-/

variable
    {listing : Listing}

namespace LoweringState

/-- A state between functions. -/
structure Grounded (state : LoweringState) : Prop where
  kept : state.Kept
  frames : state.frames = [.outermost]
  function : state.function = none
  numbered : state.listing.Numbered
  recorded : state.listing.Recorded
  rooted : state.listing.scopes.Rooted
  isModule : state.listing.scopes.isModule 0 = true
  visible : state.Visible
  formed : state.listing.WellFormed

namespace Grounded

variable
    {state : LoweringState}

theorem pending
    (grounded : state.Grounded) :
    state.pending = [] := by
  rw [LoweringState.pending, grounded.frames]
  rfl

theorem scope
    (grounded : state.Grounded) :
    state.scope = 0 := by
  rw [LoweringState.scope, grounded.frames]
  rfl

theorem tidy
    (grounded : state.Grounded) :
    state.Tidy := by
  rintro id ⟨open_, member, isPending⟩
  rw [grounded.frames, List.mem_singleton] at member
  rw [member] at isPending
  cases isPending

theorem isOutermost
    (grounded : state.Grounded) :
    state.listing.scopes.isModule state.scope = true := by
  rw [grounded.scope]
  exact grounded.isModule

theorem inside
    (grounded : state.Grounded) :
    state.scope < state.listing.scopes.size := by
  rw [grounded.scope]
  have isModule := grounded.isModule
  unfold ScopeTree.isModule at isModule
  cases found : state.listing.scopes.get? 0 with
  | none => simp [found] at isModule
  | some module_ => exact (List.getElem?_eq_some_iff.mp found).1

/-- Something is added to the listing that is never destroyed, and the scopes stay the same. -/
theorem quiet
    (grounded : state.Grounded)
    (grown : state.listing.Extends listing)
    (nodes : listing.nodes = state.listing.nodes)
    (scopes : listing.scopes = state.listing.scopes)
    (fresh : ∀ id v, state.listing.vars.size < id → listing.fixed? id = some v →
      v.needsDestroy = false ∧ v.WellFormed listing id) :
    Grounded { state with listing := listing } where
  kept := kept_quiet grown nodes (fun id v isNew found => (fresh id v isNew found).1)
    grounded.kept
  frames := grounded.frames
  function := grounded.function
  numbered := grown.numbered grounded.numbered
  recorded := grown.recorded grounded.recorded
  rooted := scopes ▸ grounded.rooted
  isModule := scopes ▸ grounded.isModule
  visible name id seen :=
    (grounded.visible name id (scopes ▸ seen)).mono grown (List.Subset.refl _)
      fun _ isOwner => isOwner
  formed := grounded.formed.grown grown fun id v isNew found => (fresh id v isNew found).2

end Grounded

/-- Before a file is lowered there is nothing. -/
theorem grounded_start
    (file : String) :
    (Lower.start file).Grounded where
  kept :=
    { accepted := trivial
      pending := .refl _
      distinct := List.nodup_nil
      known := by
        intro id
        simp [ledger, Lower.start, Listing.empty, Ledger.behind, Ledger.blank,
          Listing.isDestroyed, Listing.lookup?]
      scopes := rfl
      function := by simp [Lower.start]
      owned := by
        intro open_ member id held
        rw [List.mem_singleton.mp member] at held
        cases held }
  frames := rfl
  function := rfl
  numbered := by
    intro id v found
    simp [Lower.start, Listing.empty, Listing.fixed?, Listing.lookup?] at found
  recorded := by
    intro id position used
    simp [Lower.start, Listing.empty, Listing.lastUse, Listing.lookup?] at used
  rooted := by
    intro id scope parent found isParent
    cases id with
    | zero =>
        cases found
        cases isParent
    | succ id => cases found
  isModule := rfl
  visible := by
    intro name id seen
    cases seen
  formed := by
    intro id v found
    simp [Lower.start, Listing.empty, Listing.fixed?, Listing.lookup?] at found

theorem fixed?_withGlobal
    (state : LoweringState)
    (name : String)
    (type : Ty)
    (value : Value)
    (line : Nat) :
    ∃ v,
      (state.withGlobal name type value line).listing.fixed? (state.listing.vars.size + 1) =
          some v ∧
        v.storage = .named name true false 0 state.scope ∧ v.value = value ∧ v.type = type := by
  have found : (state.listing.addVariable type value fun _ =>
      .named name true false 0 state.scope).1.fixed? (state.listing.vars.size + 1) =
        some { id := state.listing.vars.size + 1, type := type, value := value,
               preserved := false, lastUse := none,
               storage := .named name true false 0 state.scope } := by
    rw [Listing.fixed?_addVariable]
    simp [Storage.fixed]
  have same : (state.withGlobal name type value line).listing.fixed?
      (state.listing.vars.size + 1) = (state.listing.addVariable type value fun _ =>
        .named name true false 0 state.scope).1.fixed? (state.listing.vars.size + 1) := by
    simp only [withGlobal, appended, Lower.fixed?_appendNode]
    rfl
  exact ⟨_, same.trans found, rfl, rfl, rfl⟩

/-- A global variable with a constant value is declared and bound. -/
theorem Grounded.withGlobal
    {state : LoweringState}
    (grounded : state.Grounded)
    (name : String)
    (type : Ty)
    (text : String)
    (line : Nat) :
    (state.withGlobal name type (.literal text) line).Grounded := by
  have proceeds := proceeds_withGlobal state name type (.literal text) line
  obtain ⟨v, found, storage, isValue, _⟩ := fixed?_withGlobal state name type (.literal text) line
  have size : (state.withGlobal name type (.literal text) line).listing.vars.size =
      state.listing.vars.size + 1 := by
    simp [LoweringState.withGlobal, Listing.addNamed, Listing.addVariable]
  have nodes : (state.withGlobal name type (.literal text) line).listing.nodes.toList =
      state.listing.nodes.toList ++ [.declare (state.listing.vars.size + 1) line] := by
    simp [LoweringState.withGlobal, Listing.addNamed, Listing.addVariable]
  have scopes : (state.withGlobal name type (.literal text) line).listing.scopes =
      { state.listing.scopes.bind state.scope name (state.listing.vars.size + 1) with
        moduleNames := state.listing.scopes.moduleNames ++
          [(name, state.listing.vars.size + 1)] } := by
    simp [LoweringState.withGlobal, Listing.addNamed, Listing.addVariable, appended]
  have quiet : v.needsDestroy = false := by simp [Variable.needsDestroy, storage]
  have alive : ∀ pending, (state.withGlobal name type (.literal text) line).listing.Alive pending
      (state.listing.vars.size + 1) := by
    intro pending
    refine .intro found (fun destroyed => ?_) ?_
    · rw [quiet] at destroyed
      cases destroyed
    · simp [Variable.refs, storage, Storage.refs, isValue, Value.reference?]
  have isDestroyed : (state.withGlobal name type (.literal text) line).listing.isDestroyed
      (state.listing.vars.size + 1) = false := (Listing.isDestroyed_eq found).trans quiet
  have fresh : ∀ id w, state.listing.vars.size < id →
      (state.withGlobal name type (.literal text) line).listing.fixed? id = some w →
        w.needsDestroy = false := by
    intro id w isNew isFound
    have inside := (Listing.le_size_of_fixed? isFound).2
    rw [size] at inside
    rw [Nat.le_antisymm inside isNew, found, Option.some.injEq] at isFound
    rw [← isFound]
    exact quiet
  refine
    { kept := ?_
      frames := grounded.frames
      function := grounded.function
      numbered := proceeds.extends_.numbered grounded.numbered
      recorded := proceeds.extends_.recorded grounded.recorded
      rooted := ?_
      isModule := Lower.isModule_grown proceeds.extends_.scopes grounded.isModule
      visible := ?_
      formed := grounded.formed.grown proceeds.extends_ (Listing.fresh_last size found ?_) }
  · refine kept_of_open grounded.kept proceeds.extends_ fresh nodes ⟨⟨?_, alive _⟩, trivial⟩ ?_
      rfl grounded.kept.scopes grounded.kept.function
      fun open_ member _ held => ⟨open_, member, rfl, held⟩
    · rw [isDestroyed]
      intro wrong
      cases wrong
    · show Ledger.after _ _ (.declare _ _) = _
      simp only [Ledger.after, isDestroyed]
      rfl
  · rw [scopes]
    exact ScopeTree.rooted_bind grounded.rooted _ _ _
  · intro wanted id seen
    rw [scopes] at seen
    rcases ScopeTree.lookup?_bind_module seen with old | rfl
    · exact (grounded.visible wanted id old).mono proceeds.extends_ (List.Subset.refl _)
        proceeds.keepsFunction
    · refine ⟨alive _, fun w isFound isParameter => ?_⟩
      rw [found, Option.some.injEq] at isFound
      rw [← isFound, storage] at isParameter
      cases isParameter
  · refine Variable.wellFormed_constant isValue ?_ ?_ quiet
    · rw [storage]
      trivial
    · rw [storage]
      rfl

end LoweringState

namespace Lower

open LoweringState Stateful

variable
    {before after : LoweringState}
    {done : Unit}
    {line : Nat}
    {initial : Option Expr}
    {name : String}
    {type : Ty}

theorem constant_grounded
    {stored : Value}
    (grounded : before.Grounded)
    (lowered : constant line name type initial before = .ok (stored, after)) :
    after.Grounded ∧ ∃ text, stored = .literal text := by
  have interned : ∀ text : Bytes, (before.withString text).Grounded := by
    intro text
    exact grounded.quiet (proceeds_withString before text).extends_ rfl rfl (Listing.fresh_none rfl)
  rcases constant_ok lowered with
    ⟨_, rfl, rfl⟩ | ⟨_, _, texts, _, _, _, _, rfl, rfl⟩ | ⟨_, _, _, _, rfl, rfl⟩ |
      ⟨_, text, _, _, _, _, _, rfl, rfl⟩
  · refine ⟨?_, _, rfl⟩
    unfold defaulted
    split
    · exact interned []
    · exact grounded
  · refine ⟨grounded.quiet (extends_addVariable _ _ _ _) rfl rfl ?_, _, rfl⟩
    have found := Listing.fixed?_addVariable before.listing (.array type.element type.length)
      (.literal (", ".intercalate texts))
      (fun _ => .array type.element type.length (", ".intercalate texts))
      (before.listing.vars.size + 1)
    rw [if_pos rfl] at found
    exact Listing.fresh_last (Listing.size_addVariable _ _ _ _) found
      ⟨rfl, Variable.wellFormed_constant rfl trivial rfl rfl⟩
  · exact ⟨interned _, _, rfl⟩
  · exact ⟨grounded, _, rfl⟩

theorem declare_grounded
    (grounded : before.Grounded)
    (lowered : declare line name type initial before = .ok (done, after)) :
    after.Grounded := by
  rcases declare_module_ok grounded.isOutermost lowered with ⟨_, rfl⟩ | ⟨_, _, _, found, rfl⟩
  · exact grounded
  · obtain ⟨groundedThere, text, rfl⟩ := constant_grounded grounded found
    exact groundedThere.withGlobal name type text line

variable
    {stmts : List Stmt}

theorem moduleVariables_grounded
    (grounded : before.Grounded)
    (lowered : moduleVariables stmts before = .ok (done, after)) :
    after.Grounded := by
  induction stmts generalizing before with
  | nil =>
      rw [moduleVariables] at lowered
      obtain ⟨-, rfl⟩ := pure_ok_iff.mp lowered
      exact grounded
  | cons first rest inductionHypothesis =>
      cases first with
      | declare line name type initial =>
          rw [moduleVariables] at lowered
          obtain ⟨_, between, declared, others⟩ := bind_ok_iff.mp lowered
          exact inductionHypothesis (declare_grounded grounded declared) others
      | _ => exact inductionHypothesis grounded lowered

/-- A parameter is never destroyed and refers to nothing. -/
theorem isParameter_alive
    {id : VarId}
    (isParameter : listing.IsParameter id)
    (pending : List VarId) :
    listing.Alive pending id := by
  obtain ⟨v, name, position, found, storage, isValue⟩ := isParameter
  refine .intro found (fun destroyed => ?_) ?_
  · simp [Variable.needsDestroy, storage] at destroyed
  · simp [Variable.refs, storage, Storage.refs, isValue, Value.reference?]

theorem moduleFunctions_grounded
    (grounded : before.Grounded)
    (lowered : moduleFunctions stmts before = .ok (done, after)) :
    after.Grounded := by
  obtain ⟨declares, _⟩ := moduleFunctions_ok lowered
  have isState : after = { before with listing := after.listing } := by
    obtain ⟨listing, function, frames⟩ := after
    have sameFunction : function = before.function := declares.function
    have sameFrames : frames = before.frames := declares.frames
    rw [sameFunction, sameFrames]
  rw [isState]
  refine grounded.quiet declares.extends_ (congrArg Listing.Frozen.nodes declares.frozen)
    (congrArg Listing.Frozen.scopes declares.frozen) ?_
  intro id v isNew found
  obtain ⟨w, name, position, isFound, storage, isValue⟩ := declares.added id v isNew found
  rw [found, Option.some.injEq] at isFound
  subst isFound
  have kept : v.needsDestroy = false := by simp [Variable.needsDestroy, storage]
  refine ⟨kept, Variable.wellFormed_constant isValue ?_ ?_ kept⟩
  · rw [storage]
    trivial
  · rw [storage]
    rfl

/-! ## Functions -/

section Begun

variable
    {state : LoweringState}
    (function : Signature)
    (locals : Nat)

theorem extends_begun
    (state : LoweringState) :
    state.listing.Extends (state.begun function locals).listing :=
  (grows_prepared state function locals).extends_.trans
    (proceeds_begun state function locals).extends_

theorem scopes_begun
    (state : LoweringState) :
    (state.begun function locals).listing.scopes =
      (state.listing.scopes.addChild state.scope .function).1 := by
  simp [begun, prepared, enteredBy, opened, labelled, appended, Listing.modifyFunction,
    LoweringState.scope]

theorem frames_begun
    (state : LoweringState) :
    (state.begun function locals).frames =
      (state.enteredBy function).newFrame .function "" :: state.frames :=
  rfl

theorem begun_kept
    (grounded : state.Grounded) :
    (state.begun function locals).Kept := by
  have isOpen : state.ledger.open_.scopes = [] := by
    rw [grounded.kept.scopes, grounded.frames]
    rfl
  have nodes : (state.begun function locals).listing.nodes.toList =
      state.listing.nodes.toList ++
        [.entry function, .prologue function locals,
          .label ((state.enteredBy function).newFrame .function "").startLabel,
          .openScope (state.enteredBy function).listing.scopes.size .function] := by
    simp [begun, labelled, nodes_prepared]
  have size : (state.begun function locals).listing.vars.size = state.listing.vars.size := by
    simp [begun, prepared, enteredBy, opened, labelled, Listing.modifyFunction]
  have nothing : ∀ {listing : Listing} {ledger : Ledger} {node : Node}, node.uses = [] →
      ∀ id ∈ node.uses, listing.Alive ledger.pending id := by
    intro listing ledger node none_ id member
    rw [none_] at member
    cases member
  refine @kept_of_open state _ grounded.kept (extends_begun function locals state)
    (fresh_of_size size) _ nodes ⟨nothing rfl, nothing rfl, nothing rfl, nothing rfl, trivial⟩
    { function := some function
      scopes := [(((state.enteredBy function).newFrame .function "").scope,
        ((state.enteredBy function).newFrame .function "").endLabel)] } ?_ ?_ ?_ ?_ ?_
  · generalize state.ledger = ledger at isOpen ⊢
    obtain ⟨⟨owner, scopes⟩, pending, gone⟩ := ledger
    cases isOpen
    rfl
  · rfl
  · rw [frames_begun, grounded.frames]
    rfl
  · intro _
    rfl
  · intro open_ member id held
    rw [frames_begun] at member
    rcases List.mem_cons.mp member with rfl | old
    · cases held
    · exact ⟨open_, old, rfl, held⟩

theorem begun_placed
    (grounded : state.Grounded) :
    (state.begun function locals).Placed where
  numbered := (extends_begun function locals state).numbered grounded.numbered
  tidy := (proceeds_begun state function locals).tidy
    ((grows_prepared state function locals).tidy grounded.tidy)
  deep := by
    rw [frames_begun, grounded.frames]
    exact Nat.le_refl _
  visible := by
    intro name id seen
    rw [scopes_begun, scope_begun] at seen
    have same := ScopeTree.lookup?_addChild grounded.rooted grounded.inside .function name
    refine (grounded.visible name id (same.symm.trans seen)).mono
      (extends_begun function locals state) (List.Subset.refl _) fun owner isOwner => ?_
    rw [grounded.function] at isOwner
    cases isOwner
  rooted := by
    rw [scopes_begun]
    exact ScopeTree.rooted_addChild grounded.rooted grounded.inside .function
  inside := by
    rw [scope_begun]
    exact inside_begun state function locals
  function := rfl

end Begun

variable
    {function : Signature}

/-- Parameters are bound in the scope of their function. -/
theorem bindParameters_moves
    {ids : List VarId}
    (placed : before.Placed)
    (inside : before.function = some function)
    (owned : ids ⊆ function.params)
    (known : ∀ id ∈ ids, before.listing.IsParameter id)
    (lowered : bindParameters before.scope line ids before = .ok (done, after)) :
    before.Moves after := by
  induction ids generalizing before with
  | nil =>
      rw [bindParameters] at lowered
      obtain ⟨-, rfl⟩ := pure_ok_iff.mp lowered
      exact .refl placed
  | cons id rest inductionHypothesis =>
      obtain ⟨v, name, position, found, storage, _⟩ := known id (by simp)
      obtain ⟨_, restLowered⟩ :=
        bindParameters_cons_ok placed.inside.isModule found storage lowered
      have proceeds := proceeds_bound before.scope found storage
      have alive := isParameter_alive (proceeds.extends_.isParameter (known id (by simp)))
      have first : before.Moves (before.bound before.scope id name false true position) :=
        { steps := .single (.quiet proceeds.extends_ (nodes_bound _ _ _ _ _ _ _) (Listing.fresh_none ?_))
          outer := rfl
          held := List.Subset.refl _
          elsewhere := by
            intro other scope differs isScope
            refine ⟨scope, ?_, rfl, rfl⟩
            show (before.listing.scopes.bind before.scope name id).get? other = some scope
            rw [ScopeTree.get?_bind, isScope, Option.map_some, if_neg differs]
          moduleNames := rfl
          placed :=
            { numbered := proceeds.extends_.numbered placed.numbered
              tidy := proceeds.tidy placed.tidy
              deep := placed.deep
              visible := by
                intro wanted seen isSeen
                rcases ScopeTree.lookup?_bind isSeen with old | rfl
                · exact (placed.visible wanted seen old).mono proceeds.extends_
                    (List.Subset.refl _) proceeds.keepsFunction
                · exact ⟨alive _, fun _ _ _ => ⟨function, inside, owned (by simp)⟩⟩
              rooted := ScopeTree.rooted_bind placed.rooted _ _ _
              inside := placed.inside.proceeds proceeds
              function := placed.function } }
      · refine first.trans rfl (inductionHypothesis first.placed inside
          (fun other member => owned (by simp [member])) ?_ restLowered)
        exact fun other member => proceeds.extends_.isParameter (known other (by simp [member]))
      · show (before.listing.modifyVariable id _).vars.size = _
        simp

variable
    {body : List Stmt}

/-- The body of a function is lowered by steps, from where it is begun on. -/
theorem functionBody_moves
    (grounded : before.Grounded)
    (known : before.listing.Parameters function)
    (lowered : functionBody function body before = .ok (done, after)) :
    ∃ between,
      (before.begun function (declarationsIn body)).Moves between ∧
        after = (between.finished function before.listing.scopes.size).outside := by
  obtain ⟨bound, between, parametersBound, bodyLowered, endFresh, rfl⟩ := functionBody_ok lowered
  have placed := begun_placed function (declarationsIn body) grounded
  have parameters := (extends_begun function (declarationsIn body) before).parameters known
  have inside := inside_begun before function (declarationsIn body)
  have bindsProceed := (bindParameters_proceeds inside parameters parametersBound).1
  rw [← scope_begun before function (declarationsIn body)] at parametersBound
  have binds := bindParameters_moves placed rfl (List.Subset.refl _) parameters parametersBound
  have isFree : between.EndFree := by
    intro taken
    exact endFresh (by rwa [(computes_emptied between).labels])
  have settles := composed_settles.statements bodyLowered
  exact ⟨between,
    binds.trans (scope_of_proceeds bindsProceed) (settles.moves binds.placed isFree), rfl⟩

theorem scopes_outside
    (between : LoweringState)
    (function : Signature)
    (scope : Nat) :
    (between.finished function scope).outside.listing.scopes = between.listing.scopes := by
  rw [← scopes_left between]
  simp [outside, popped, finished, closed, appended]

/-- What stands behind the body of a function when it has been left. -/
theorem extends_outside
    (between : LoweringState)
    (function : Signature)
    (scope : Nat) :
    (between.emptied.labelled between.innermost.endLabel).popped.listing.Extends
      (between.finished function scope).outside.listing :=
  (extends_appended _ _).trans (extends_appended _ _)

/-- Everything that a function adds to a listing is well formed. -/
theorem functionBody_forms
    (grounded : before.Grounded)
    (known : before.listing.Parameters function)
    (lowered : functionBody function body before = .ok (done, after)) :
    after.listing.WellFormed ∧
      ∀ node ∈ after.listing.since before.listing,
        node.WellFormed (some function) after.listing := by
  obtain ⟨between, moves, rfl⟩ := functionBody_moves grounded known lowered
  have begins := extends_begun function (declarationsIn body) before
  have inner := moves.steps.forms.trans (Step.leave moves.placed.deep).forms
  have ends := extends_outside between function before.listing.scopes.size
  have first := begins.trans inner.extends_
  have sizes : (before.begun function (declarationsIn body)).listing.vars.size =
      before.listing.vars.size := by
    simp [begun, prepared, enteredBy, opened, labelled, Listing.modifyFunction]
  have lastSizes : (between.finished function before.listing.scopes.size).outside.listing.vars.size =
      (between.emptied.labelled between.innermost.endLabel).popped.listing.vars.size := by
    simp [outside, popped, finished, closed]
  refine ⟨(inner.vars (grounded.formed.grown begins (Listing.fresh_none sizes))).grown ends
    (Listing.fresh_none lastSizes), ?_⟩
  have starts : (before.begun function (declarationsIn body)).listing.nodes.toList =
      before.listing.nodes.toList ++
        [.entry function, .prologue function (declarationsIn body),
          .label ((before.enteredBy function).newFrame .function "").startLabel,
          .openScope (before.enteredBy function).listing.scopes.size .function] := by
    simp [begun, labelled, nodes_prepared]
  have finishes :
      (between.finished function before.listing.scopes.size).outside.listing.nodes.toList =
        (between.emptied.labelled between.innermost.endLabel).popped.listing.nodes.toList ++
          [.epilogue function, .closeScope before.listing.scopes.size .function true] := by
    simp [outside, popped, finished, closed]
  intro node member
  rw [first.since_trans ends, begins.since_trans inner.extends_, Listing.since_of_append starts,
    Listing.since_of_append finishes] at member
  simp only [List.mem_append, List.mem_cons, List.not_mem_nil, or_false] at member
  rcases member with ((rfl | rfl | rfl | rfl) | isInner) | rfl | rfl
  · trivial
  · trivial
  · trivial
  · trivial
  · exact (inner.nodes node isInner).mono ends
  · trivial
  · trivial

/-- A function leaves nothing behind that is pending. -/
theorem functionBody_grounded
    (grounded : before.Grounded)
    (known : before.listing.Parameters function)
    (lowered : functionBody function body before = .ok (done, after)) :
    after.Grounded := by
  have formed := (functionBody_forms grounded known lowered).1
  obtain ⟨between, moves, rfl⟩ := functionBody_moves grounded known lowered
  have grown := extends_begun function (declarationsIn body) before
  have keptThere := moves.steps.kept (begun_kept function (declarationsIn body) grounded)
  have left := (Step.leave moves.placed.deep).kept keptThere
  have frames : (between.emptied.labelled between.innermost.endLabel).popped.frames =
      [.outermost] := by
    rw [frames_left, moves.outer]
    exact grounded.frames
  have ends := extends_outside between function before.listing.scopes.size
  have whole := (grown.trans moves.steps.forms.extends_).trans ((extends_left between).trans ends)
  have scopes := scopes_outside between function before.listing.scopes.size
  have same := SameScopes.of_opened (scopes_begun function (declarationsIn body) before)
    (scope_begun before function (declarationsIn body) ▸ moves.elsewhere)
  rw [← scopes] at same
  refine
    { kept := ?_
      frames := frames
      function := rfl
      numbered := whole.numbered grounded.numbered
      recorded := whole.recorded grounded.recorded
      rooted := by
        rw [scopes]
        exact moves.placed.rooted
      isModule := isModule_grown whole.scopes grounded.isModule
      visible := ?_
      formed := formed }
  · have nodes : (between.finished function before.listing.scopes.size).outside.listing.nodes.toList =
        (between.emptied.labelled between.innermost.endLabel).popped.listing.nodes.toList ++
          [.epilogue function, .closeScope before.listing.scopes.size .function true] := by
      simp [outside, popped, finished, closed]
    refine kept_of_open left ends (fresh_of_size ?_) nodes
      ⟨fun _ member => (List.not_mem_nil member).elim,
        fun _ member => (List.not_mem_nil member).elim, trivial⟩ rfl rfl left.scopes
      (by rintro ⟨⟩) fun open_ member _ held => ⟨open_, member, rfl, held⟩
    simp [outside, popped, finished, closed]
  · intro name id seen
    have names : (between.finished function
        before.listing.scopes.size).outside.listing.scopes.moduleNames =
          before.listing.scopes.moduleNames := by
      rw [scopes, moves.moduleNames, scopes_begun]
      rfl
    have sameScope : (between.finished function before.listing.scopes.size).outside.scope =
        before.scope := by
      unfold LoweringState.scope
      rw [grounded.frames]
      exact congrArg (fun list : List Frame => (list.headD .outermost).scope) frames
    rw [sameScope, ScopeTree.lookup?_congr grounded.rooted grounded.inside same names] at seen
    refine (grounded.visible name id seen).mono whole ?_ fun owner isOwner => ?_
    · rw [grounded.pending]
      exact List.nil_subset _
    · rw [grounded.function] at isOwner
      cases isOwner

variable
    {parts : List FunctionSection}

theorem Laid.grounded
    (laid : Laid parts before after)
    (grounded : before.Grounded) :
    after.Grounded := by
  induction laid with
  | nil => exact grounded
  | cons _ parameters lowered _ inductionHypothesis =>
      exact inductionHypothesis (functionBody_grounded grounded parameters lowered)

/-- Everything in a row of functions is well formed. -/
theorem Laid.forms
    (laid : Laid parts before after)
    (grounded : before.Grounded) :
    ∀ part ∈ parts, ∀ node ∈ part.nodes, node.WellFormed (some part.function) after.listing := by
  induction laid with
  | nil => exact fun _ member => (List.not_mem_nil member).elim
  | cons _ parameters lowered others inductionHypothesis =>
      have groundedLater := functionBody_grounded grounded parameters lowered
      intro part member node isNode
      rcases List.mem_cons.mp member with rfl | inRest
      · exact ((functionBody_forms grounded parameters lowered).2 node isNode).mono others.extends_
      · exact inductionHypothesis groundedLater part inRest node isNode

theorem Ready.grounded
    {program : Program}
    {declared : LoweringState}
    (ready : Ready program declared) :
    declared.Grounded := by
  obtain ⟨globals, globalsLowered, functionsLowered⟩ := ready.reached
  have first := moduleVariables_grounded (grounded_start program.file) globalsLowered
  exact moduleFunctions_grounded first functionsLowered

end Lower

end IlsCompiler
