import IlsCompiler.Proofs.Lowering.Steps
import IlsCompiler.Proofs.Text.Interning

namespace IlsCompiler

/-!
# Listings only grow

A step of lowering adds to the listing and takes nothing back: nodes, variables,
strings and labels that are there stay where they are. Lowering an expression, in
addition, leaves the scopes and the names they bind alone.
-/

/-- A later scope is an earlier one with more children and more bindings. -/
structure Scope.Extends (earlier later : Scope) : Prop where
  kind : later.kind = earlier.kind
  parent : later.parent = earlier.parent
  bindings : earlier.bindings <+: later.bindings

namespace Scope.Extends

theorem refl
    (scope : Scope) :
    scope.Extends scope :=
  ⟨rfl, rfl, List.prefix_refl _⟩

theorem trans
    {first second third : Scope}
    (earlier : first.Extends second)
    (later : second.Extends third) :
    first.Extends third :=
  ⟨later.kind.trans earlier.kind, later.parent.trans earlier.parent,
    earlier.bindings.trans later.bindings⟩

end Scope.Extends

/-- A later tree has the scopes of an earlier one and maybe more. -/
def ScopeTree.Extends (earlier later : ScopeTree) : Prop :=
  ∀ id scope, earlier.get? id = some scope →
    ∃ grown, later.get? id = some grown ∧ scope.Extends grown

namespace ScopeTree.Extends

theorem refl
    (tree : ScopeTree) :
    tree.Extends tree :=
  fun _ scope found => ⟨scope, found, .refl scope⟩

theorem trans
    {first second third : ScopeTree}
    (earlier : first.Extends second)
    (later : second.Extends third) :
    first.Extends third := by
  intro id scope found
  obtain ⟨middle, middleFound, middleGrown⟩ := earlier id scope found
  obtain ⟨last, lastFound, lastGrown⟩ := later id middle middleFound
  exact ⟨last, lastFound, middleGrown.trans lastGrown⟩

end ScopeTree.Extends

/-- A later listing has everything an earlier one has, in the same places. -/
structure Listing.Extends (earlier later : Listing) : Prop where
  nodes : earlier.nodes.toList <+: later.nodes.toList
  size : earlier.vars.size ≤ later.vars.size
  stable : ∀ id ≤ earlier.vars.size, later.fixed? id = earlier.fixed? id
  strings : earlier.strings.contents <+: later.strings.contents
  labels : earlier.labels <+: later.labels
  scopes : earlier.scopes.Extends later.scopes
  calls : earlier.callCount ≤ later.callCount
  signatures : ∀ name signature,
    earlier.signature? name = some signature → later.signature? name = some signature
  numbered : earlier.Numbered → later.Numbered
  recorded : earlier.Recorded → later.Recorded

variable
    {earlier later : Listing}
    {node : Node}
    {first second third : Listing}
    {id : VarId}

namespace Listing.Extends

theorem refl
    (listing : Listing) :
    listing.Extends listing :=
  { nodes := List.prefix_refl _
    size := Nat.le_refl _
    stable := fun _ _ => rfl
    strings := List.prefix_refl _
    labels := List.prefix_refl _
    scopes := .refl _
    calls := Nat.le_refl _
    signatures := fun _ _ known => known
    numbered := fun numbered => numbered
    recorded := fun recorded => recorded }

theorem trans
    (earlier : first.Extends second)
    (later : second.Extends third) :
    first.Extends third :=
  { nodes := earlier.nodes.trans later.nodes
    size := Nat.le_trans earlier.size later.size
    stable := by
      intro id bound
      rw [later.stable id (Nat.le_trans bound earlier.size), earlier.stable id bound]
    strings := earlier.strings.trans later.strings
    labels := earlier.labels.trans later.labels
    scopes := earlier.scopes.trans later.scopes
    calls := Nat.le_trans earlier.calls later.calls
    signatures := fun name signature known =>
      later.signatures name signature (earlier.signatures name signature known)
    numbered := fun numbered => later.numbered (earlier.numbered numbered)
    recorded := fun recorded => later.recorded (earlier.recorded recorded) }

/-- The variables of an earlier listing carry their numbers when those of a later one do. -/
theorem numbered_of
    (grown : earlier.Extends later)
    (numbered : later.Numbered) :
    earlier.Numbered := by
  intro id v found
  exact numbered id v (by rw [grown.stable id (le_size_of_fixed? found).2, found])

/-- A variable of an earlier listing is the same in a later one. -/
theorem fixed?_of
    (grown : earlier.Extends later)
    {v : Variable}
    (found : earlier.fixed? id = some v) :
    later.fixed? id = some v := by
  rw [grown.stable id (le_size_of_fixed? found).2, found]

/-- A node of an earlier listing stands at the same place in a later one. -/
theorem node_of
    (grown : earlier.Extends later)
    {position : Nat}
    (found : earlier.nodes[position]? = some node) :
    later.nodes[position]? = some node := by
  obtain ⟨more, same⟩ := grown.nodes
  have inside : position < earlier.nodes.toList.length := by
    simpa using (Array.getElem?_eq_some_iff.mp found).1
  rw [← Array.getElem?_toList, ← same, List.getElem?_append_left inside,
    Array.getElem?_toList, found]

/-- Lowering never takes nodes back. -/
theorem size_nodes
    (grown : earlier.Extends later) :
    earlier.nodes.size ≤ later.nodes.size := by
  simpa using grown.nodes.length_le

end Listing.Extends

namespace Node

/-- Whether a node computes: control passes through it, and it marks no place. -/
def isStraight : Node → Bool
  | .declare _ _ => true
  | .arith _ _ _ _ _ => true
  | .call _ => true
  | .destroy _ => true
  | _ => false

/-- Whether a node stands inside a function and neither begins nor ends one. -/
def isInner : Node → Bool
  | .entry _ => false
  | .prologue _ _ => false
  | .epilogue _ => false
  | .closeScope _ _ _ => false
  | _ => true

/-- Whether a node stores, passes and returns nothing, and tells no line. -/
def isPlain : Node → Bool
  | .label _ | .prologue _ _ | .epilogue _ | .openScope _ _ | .closeScope _ _ _ | .jump _ _
  | .destroy _ => true
  | _ => false

end Node

/-- A later listing has more nodes than an earlier one, all of a kind. -/
def Listing.Adds (earlier : Listing) (kind : Node → Bool) (later : Listing) : Prop :=
  ∃ added : List Node,
    later.nodes.toList = earlier.nodes.toList ++ added ∧ ∀ node ∈ added, kind node

namespace Listing.Adds

variable
    {kind : Node → Bool}

theorem refl
    (same : later.nodes = earlier.nodes) :
    earlier.Adds kind later :=
  ⟨[], by simp [same], by simp⟩

theorem trans
    (earlier : first.Adds kind second)
    (later : second.Adds kind third) :
    first.Adds kind third := by
  obtain ⟨added, sameAdded, addedOfKind⟩ := earlier
  obtain ⟨more, sameMore, moreOfKind⟩ := later
  refine ⟨added ++ more, by rw [sameMore, sameAdded, List.append_assoc], ?_⟩
  intro node member
  rcases List.mem_append.mp member with inAdded | inMore
  · exact addedOfKind node inAdded
  · exact moreOfKind node inMore

end Listing.Adds

/-- An open scope without the variables it has to destroy. -/
def Frame.bare (frame : Frame) : Frame :=
  { frame with temporaries := [], locals := [] }

/-- Whether a number belongs to a temporary. -/
def Listing.IsTemporary (listing : Listing) (id : VarId) : Prop :=
  ∃ v name scope, listing.fixed? id = some v ∧ v.storage = .temporary name scope

/-- What the open scopes still have to destroy early are temporaries. -/
def LoweringState.Tidy (state : LoweringState) : Prop :=
  ∀ id, state.Pending id → state.listing.IsTemporary id

variable
    {before after : LoweringState}

/-- A state stays tidy when nothing but temporaries becomes pending in it. -/
theorem LoweringState.Tidy.of_pending
    (grown : before.listing.Extends after.listing)
    (pending : ∀ id, after.Pending id → before.Pending id ∨ after.listing.IsTemporary id)
    (tidy : before.Tidy) :
    after.Tidy := by
  intro id isPending
  rcases pending id isPending with old | new
  · obtain ⟨v, name, scope, found, storage⟩ := tidy id old
    exact ⟨v, name, scope, grown.fixed?_of found, storage⟩
  · exact new

/--
What lowering does to a state inside a function: the listing grows, and its new nodes
are counted to the function.
-/
structure LoweringState.Grows (before after : LoweringState) : Prop where
  extends_ : before.listing.Extends after.listing
  function : after.function = before.function
  tags : after.listing.tags =
    before.listing.tags.map
      (Listing.tagged before.function before.listing.nodes.size
        (after.listing.nodes.size - before.listing.nodes.size))
  tidy : before.Tidy → after.Tidy

/-- What lowering a statement does: the listing grows, and the open scopes stay the same. -/
structure LoweringState.Proceeds (before after : LoweringState) : Prop
    extends LoweringState.Grows before after where
  frames : after.frames.map Frame.bare = before.frames.map Frame.bare
  inner : before.listing.Adds Node.isInner after.listing

variable
    {first second third : LoweringState}

namespace LoweringState.Grows

/-- A step that adds no nodes lets the listing grow when it moves no function. -/
theorem of_same_nodes
    (grown : before.listing.Extends after.listing)
    (function : after.function = before.function)
    (nodes : after.listing.nodes = before.listing.nodes)
    (tags : after.listing.tags = before.listing.tags)
    (pending : ∀ id, after.Pending id → before.Pending id ∨ after.listing.IsTemporary id) :
    before.Grows after := by
  refine ⟨grown, function, ?_, .of_pending grown pending⟩
  rw [tags, nodes, Nat.sub_self]
  have unchanged : Listing.tagged before.function before.listing.nodes.size 0 = id := by
    funext tag
    exact Listing.tagged_zero _ _ _
  rw [unchanged, List.map_id]

theorem refl
    (state : LoweringState) :
    state.Grows state :=
  of_same_nodes (.refl _) rfl rfl rfl fun _ old => .inl old

theorem trans
    (earlier : first.Grows second)
    (later : second.Grows third) :
    first.Grows third := by
  refine ⟨earlier.extends_.trans later.extends_, later.function.trans earlier.function, ?_,
    later.tidy ∘ earlier.tidy⟩
  have grewFirst := earlier.extends_.size_nodes
  have grewSecond := later.extends_.size_nodes
  rw [later.tags, earlier.tags, earlier.function, List.map_map]
  congr 1
  funext tag
  have composed := Listing.tagged_tagged first.function first.listing.nodes.size
    (second.listing.nodes.size - first.listing.nodes.size)
    (third.listing.nodes.size - second.listing.nodes.size) tag
  rw [Nat.add_sub_cancel' grewFirst] at composed
  simp only [Function.comp, composed]
  congr 1
  omega

end LoweringState.Grows

namespace LoweringState.Proceeds

theorem refl
    (state : LoweringState) :
    state.Proceeds state :=
  ⟨.refl _, rfl, .refl rfl⟩

theorem trans
    (earlier : first.Proceeds second)
    (later : second.Proceeds third) :
    first.Proceeds third :=
  ⟨earlier.toGrows.trans later.toGrows, later.frames.trans earlier.frames,
    earlier.inner.trans later.inner⟩

/-- A step that adds no nodes proceeds when it moves no function and no scope. -/
theorem of_same_nodes
    (grown : before.listing.Extends after.listing)
    (function : after.function = before.function)
    (nodes : after.listing.nodes = before.listing.nodes)
    (tags : after.listing.tags = before.listing.tags)
    (frames : after.frames.map Frame.bare = before.frames.map Frame.bare)
    (pending : ∀ id, after.Pending id → before.Pending id ∨ after.listing.IsTemporary id) :
    before.Proceeds after :=
  ⟨.of_same_nodes grown function nodes tags pending, frames, .refl nodes⟩

end LoweringState.Proceeds

/--
What lowering an expression does to a state: it proceeds by nodes that only compute,
and beside the temporaries of the open scopes nothing else changes.
-/
structure LoweringState.Computes (before after : LoweringState) : Prop
    extends LoweringState.Proceeds before after where
  straight : before.listing.Adds Node.isStraight after.listing
  scopes : after.listing.scopes = before.listing.scopes
  globals : after.listing.globals = before.listing.globals
  labels : after.listing.labels = before.listing.labels
  labelCount : after.listing.labelCount = before.listing.labelCount
  locals : after.frames.map (fun open_ => open_.locals) =
    before.frames.map fun open_ => open_.locals

namespace LoweringState

namespace Computes

theorem refl
    (state : LoweringState) :
    state.Computes state :=
  ⟨.refl _, .refl rfl, rfl, rfl, rfl, rfl, rfl⟩

theorem trans
    (earlier : first.Computes second)
    (later : second.Computes third) :
    first.Computes third :=
  { toProceeds := earlier.toProceeds.trans later.toProceeds
    straight := earlier.straight.trans later.straight
    scopes := later.scopes.trans earlier.scopes
    globals := later.globals.trans earlier.globals
    labels := later.labels.trans earlier.labels
    labelCount := later.labelCount.trans earlier.labelCount
    locals := later.locals.trans earlier.locals }

end Computes

@[simp] theorem nodes_appended
    (state : LoweringState)
    (node : Node) :
    (state.appended node).listing.nodes = state.listing.nodes.push node := by
  simp [appended]

/-- Appending a node makes the listing grow by that node. -/
theorem extends_appended
    (state : LoweringState)
    (node : Node) :
    state.listing.Extends (state.appended node).listing :=
  { nodes := by simp
    size := by simp [appended]
    stable := by simp [appended]
    strings := by simp [appended]
    labels := by simp [appended]
    scopes := by simpa [appended] using ScopeTree.Extends.refl _
    calls := by simp [appended]
    signatures := by simp [appended]
    numbered := by
      intro numbered id v found
      exact numbered id v (by simpa [appended] using found)
    recorded := Lower.recorded_appendNode }

theorem grows_appended
    (state : LoweringState)
    (node : Node) :
    state.Grows (state.appended node) := by
  refine ⟨extends_appended state node, rfl, ?_,
    .of_pending (extends_appended state node) fun _ old => .inl old⟩
  have one : (state.appended node).listing.nodes.size - state.listing.nodes.size = 1 := by
    simp
  rw [one]
  exact Lower.tags_appendNode state.function state.listing node

theorem proceeds_appended
    (state : LoweringState)
    (inner : node.isInner) :
    state.Proceeds (state.appended node) :=
  ⟨grows_appended state node, rfl, ⟨[node], by simp, by simpa using inner⟩⟩

theorem computes_appended
    (state : LoweringState)
    (straight : node.isStraight) :
    state.Computes (state.appended node) :=
  { toProceeds := proceeds_appended state (by cases node <;> first | rfl | cases straight)
    straight := ⟨[node], by simp, by simpa using straight⟩
    scopes := by simp [appended]
    globals := by simp [appended]
    labels := by simp [appended]
    labelCount := by simp [appended]
    locals := rfl }

/-- Adding a variable makes the listing grow by that variable. -/
theorem extends_addVariable
    (listing : Listing)
    (type : Ty)
    (value : Value)
    (storage : VarId → Storage) :
    listing.Extends (listing.addVariable type value storage).1 :=
  { nodes := List.prefix_refl _
    size := by simp
    stable := by
      intro id bound
      have other : id ≠ listing.vars.size + 1 := by omega
      simp [other]
    strings := List.prefix_refl _
    labels := List.prefix_refl _
    scopes := .refl _
    calls := Nat.le_refl _
    signatures := fun _ _ known => known
    numbered := fun numbered => Listing.numbered_addVariable numbered type value storage
    recorded := fun recorded => Listing.recorded_addVariable recorded type value storage }

/-- Only the listing changes, and it grows without touching scopes and labels. -/
theorem computes_of_listing
    {listing : Listing}
    (grown : before.listing.Extends listing)
    (nodes : listing.nodes = before.listing.nodes)
    (scopes : listing.scopes = before.listing.scopes)
    (globals : listing.globals = before.listing.globals)
    (labels : listing.labels = before.listing.labels)
    (labelCount : listing.labelCount = before.listing.labelCount)
    (tags : listing.tags = before.listing.tags) :
    before.Computes { before with listing := listing } :=
  ⟨.of_same_nodes grown rfl nodes tags rfl fun _ old => .inl old, .refl nodes, scopes,
    globals, labels, labelCount, rfl⟩

theorem computes_withTemporary
    (state : LoweringState)
    (type : Ty)
    (value : Value)
    (isResult : Bool)
    (line : Nat) :
    state.Computes (state.withTemporary type value isResult line) := by
  refine Computes.trans ?_ (computes_appended _ rfl)
  refine ⟨.of_same_nodes ?_ rfl rfl rfl ?_ ?_, .refl rfl, rfl, rfl, rfl, rfl, ?_⟩
  · exact extends_addVariable state.listing type value fun id =>
      .temporary (Listing.temporaryName isResult id) state.scope
  · cases state.frames <;> rfl
  · rintro id ⟨open_, member, inside⟩
    cases frames : state.frames with
    | nil => simp [frames] at member
    | cons current rest =>
        simp only [frames, List.modifyHead_cons, List.mem_cons] at member
        rcases member with rfl | isOuter
        · rcases List.mem_append.mp inside with old | new
          · exact .inl ⟨current, by simp [frames], old⟩
          · right
            rw [List.mem_singleton.mp new]
            exact ⟨_, _, _, by simp [Listing.addTemporary]; rfl, rfl⟩
        · exact .inl ⟨open_, by simp [frames, isOuter], inside⟩
  · cases state.frames <;> rfl

theorem computes_destroyed
    (state : LoweringState)
    (id : VarId) :
    state.Computes (state.destroyed id) := by
  unfold destroyed
  split
  · refine Computes.trans ?_ (computes_appended _ rfl)
    refine ⟨.of_same_nodes (.refl _) rfl rfl rfl ?_ ?_, .refl rfl, rfl, rfl, rfl, rfl, ?_⟩
    · simp [Frame.bare, Function.comp_def]
    · rintro other ⟨open_, member, inside⟩
      obtain ⟨old, isOld, rfl⟩ := List.mem_map.mp member
      exact .inl ⟨old, isOld, List.mem_of_mem_erase inside⟩
    · simp [Function.comp_def]
  · exact .refl _

theorem computes_withElement
    (state : LoweringState)
    (array index : VarId) :
    state.Computes (state.withElement array index) :=
  computes_of_listing (extends_addVariable _ _ _ _) rfl rfl rfl rfl rfl rfl

theorem computes_withResult
    (state : LoweringState)
    (function : Signature)
    (call : Call) :
    state.Computes (state.withResult function call) :=
  computes_of_listing (extends_addVariable _ _ _ _) rfl rfl rfl rfl rfl rfl

theorem extends_addLiteral
    (listing : Listing)
    (type : Ty)
    (text : Bytes) :
    listing.Extends (listing.addLiteral type text).1 := by
  unfold Listing.addLiteral
  split
  · refine Listing.Extends.trans ?_ (extends_addVariable _ _ _ _)
    exact { Listing.Extends.refl listing with strings := StringTable.prefix_intern listing.strings text }
  · exact extends_addVariable _ _ _ _

theorem computes_withLiteral
    (state : LoweringState)
    (value : Literal) :
    state.Computes (state.withLiteral value) := by
  unfold withLiteral
  apply computes_of_listing
  · cases value <;> exact extends_addLiteral _ _ _
  all_goals
    cases value <;>
      · simp only [Listing.addLiteral]
        split <;> rfl

theorem computes_counted
    (state : LoweringState)
    (function : Signature) :
    state.Computes (state.counted function) := by
  unfold counted
  refine computes_of_listing ?_ rfl rfl rfl rfl rfl ?tags
  case tags =>
    apply Listing.tags_modifyFunction
    intro called
    rfl
  refine { Listing.Extends.refl state.listing with calls := Nat.le_succ _, signatures := ?_ }
  intro name signature known
  rw [← known]
  apply Listing.signature?_modifyFunction
  intro called
  rfl

/-- Marking variables leaves the listing as it was, up to the marks. -/
theorem extends_marks
    (listing : Listing)
    (ids : List VarId) :
    let marked := ids.foldl (fun current id =>
      current.modifyVariable id fun v => { v with preserved := true }) listing
    listing.Extends marked ∧ marked.frozen = listing.frozen ∧
      marked.functions = listing.functions := by
  induction ids generalizing listing with
  | nil => exact ⟨.refl _, rfl, rfl⟩
  | cons first rest inductionHypothesis =>
      simp only [List.foldl_cons]
      obtain ⟨grown, same, sameFunctions⟩ := inductionHypothesis
        (listing.modifyVariable first fun v => { v with preserved := true })
      have frozen := listing.frozen_modifyVariable first fun v => { v with preserved := true }
      refine ⟨Listing.Extends.trans ?_ grown, same.trans frozen,
        sameFunctions.trans (Listing.functions_modifyVariable _ _ _)⟩
      have sameVariables : ∀ id,
          (listing.modifyVariable first fun v => { v with preserved := true }).fixed? id =
            listing.fixed? id := by
        intro id
        apply Listing.fixed?_modifyVariable
        intro v _
        rfl
      have nodes := congrArg Listing.Frozen.nodes frozen
      have strings := congrArg Listing.Frozen.strings frozen
      have labels := congrArg Listing.Frozen.labels frozen
      have scopes := congrArg Listing.Frozen.scopes frozen
      have calls := congrArg Listing.Frozen.callCount frozen
      simp only [Listing.frozen] at nodes strings labels scopes calls
      exact
        { nodes := by simp [nodes]
          size := by simp
          stable := fun id _ => sameVariables id
          strings := by simp [strings]
          labels := by simp [labels]
          scopes := by rw [scopes]; exact .refl _
          calls := Nat.le_of_eq calls.symm
          signatures := by simp [Listing.signature?, Listing.function?]
          numbered := by
            intro numbered id v found
            rw [sameVariables] at found
            exact numbered id v found
          recorded := by
            intro recorded id position used
            rw [nodes]
            refine Listing.recorded_modifyVariable recorded first ?_ id position used
            intro v
            rfl }

theorem computes_marked
    (state : LoweringState)
    (ids : List VarId) :
    state.Computes (state.marked ids) := by
  obtain ⟨grown, same, functions⟩ := extends_marks state.listing ids
  exact computes_of_listing grown (congrArg Listing.Frozen.nodes same)
    (congrArg Listing.Frozen.scopes same)
    (congrArg Listing.Frozen.globals same) (congrArg Listing.Frozen.labels same)
    (congrArg Listing.Frozen.labelCount same) (by rw [Listing.tags, functions]; rfl)

@[simp] theorem callCount_appended
    (state : LoweringState)
    (node : Node) :
    (state.appended node).listing.callCount = state.listing.callCount := by
  simp [appended]

@[simp] theorem size_appended
    (state : LoweringState)
    (node : Node) :
    (state.appended node).listing.vars.size = state.listing.vars.size := by
  simp [appended]

@[simp] theorem callCount_withTemporary
    (state : LoweringState)
    (type : Ty)
    (value : Value)
    (isResult : Bool)
    (line : Nat) :
    (state.withTemporary type value isResult line).listing.callCount =
      state.listing.callCount := by
  simp [withTemporary, Listing.addTemporary, Listing.addVariable]

@[simp] theorem size_withTemporary
    (state : LoweringState)
    (type : Ty)
    (value : Value)
    (isResult : Bool)
    (line : Nat) :
    (state.withTemporary type value isResult line).listing.vars.size =
      state.listing.vars.size + 1 := by
  simp [withTemporary, Listing.addTemporary]

@[simp] theorem callCount_destroyed
    (state : LoweringState)
    (id : VarId) :
    (state.destroyed id).listing.callCount = state.listing.callCount := by
  unfold destroyed
  split <;> simp

@[simp] theorem size_destroyed
    (state : LoweringState)
    (id : VarId) :
    (state.destroyed id).listing.vars.size = state.listing.vars.size := by
  unfold destroyed
  split <;> simp

theorem nodes_withTemporary
    (state : LoweringState)
    (type : Ty)
    (value : Value)
    (isResult : Bool)
    (line : Nat) :
    (state.withTemporary type value isResult line).listing.nodes =
      state.listing.nodes.push (.declare (state.listing.vars.size + 1) line) := by
  simp [withTemporary, Listing.addTemporary, Listing.addVariable]

/-- A new temporary is found under the next number. -/
theorem fixed?_withTemporary
    (state : LoweringState)
    (type : Ty)
    (value : Value)
    (isResult : Bool)
    (line : Nat) :
    (state.withTemporary type value isResult line).listing.fixed?
        (state.listing.vars.size + 1) =
      some
        { id := state.listing.vars.size + 1, type := type, value := value, preserved := false,
          lastUse := none,
          storage := .temporary
            (Listing.temporaryName isResult (state.listing.vars.size + 1)) state.scope } := by
  simp [withTemporary, appended, Listing.addTemporary, Storage.fixed]

theorem fixed?_withElement
    (state : LoweringState)
    (array index : VarId) :
    ∃ v,
      (state.withElement array index).listing.fixed? (state.listing.vars.size + 1) = some v ∧
        v.storage = .element array index ∧
        v.type = ((state.listing.fixed? array).map fun whole => whole.type.element).getD .absent := by
  have types : ((state.listing.fixed? array).map fun whole => whole.type.element) =
      (state.listing.lookup? array).map fun whole => whole.type.element := by
    unfold Listing.fixed?
    cases state.listing.lookup? array <;> rfl
  simp [withElement, Listing.addElement, Storage.fixed, types]

theorem fixed?_withLiteral
    (state : LoweringState)
    (value : Literal) :
    ∃ v,
      (state.withLiteral value).listing.fixed? (state.listing.vars.size + 1) = some v ∧
        v.storage = .literal := by
  cases value <;>
    · simp only [withLiteral, Listing.addLiteral]
      split <;> simp [Storage.fixed]

@[simp] theorem size_withLiteral
    (state : LoweringState)
    (value : Literal) :
    (state.withLiteral value).listing.vars.size = state.listing.vars.size + 1 := by
  cases value <;>
    · simp only [withLiteral, Listing.addLiteral]
      split <;> simp

@[simp] theorem callCount_withLiteral
    (state : LoweringState)
    (value : Literal) :
    (state.withLiteral value).listing.callCount = state.listing.callCount := by
  cases value <;>
    · simp only [withLiteral, Listing.addLiteral]
      split <;> rfl

@[simp] theorem nodes_withLiteral
    (state : LoweringState)
    (value : Literal) :
    (state.withLiteral value).listing.nodes = state.listing.nodes := by
  cases value <;>
    · simp only [withLiteral, Listing.addLiteral]
      split <;> rfl

theorem fixed?_withResult
    (state : LoweringState)
    (function : Signature)
    (call : Call) :
    ∃ v,
      (state.withResult function call).listing.fixed? (state.listing.vars.size + 1) = some v ∧
        v.storage = .result function call := by
  simp [withResult, Listing.addResult, Storage.fixed]

end LoweringState

namespace Lower

open LoweringState

variable
    {before after : LoweringState}
    {line : Nat}

theorem materialize_computes
    {id copied : VarId}
    (materialized : materialize id line before = .ok (copied, after)) :
    before.Computes after := by
  rcases materialize_ok materialized with ⟨_, _, _, _, _, _, rfl⟩ | ⟨_, rfl, _⟩
  · exact computes_withTemporary _ _ _ _ _
  · exact .refl _

variable
    {array : Variable}

theorem element_computes
    {index id : VarId}
    (accessed : element array index line before = .ok (id, after)) :
    before.Computes after := by
  obtain ⟨_, _, position, between, copied, _, rfl⟩ := element_ok accessed
  exact (materialize_computes copied).trans (computes_withElement _ _ _)

theorem operation_computes
    {op : ArithOp}
    {left right id : VarId}
    (operated : operation op left right line before = .ok (id, after)) :
    before.Computes after := by
  obtain ⟨_, _, leftOperand, rightOperand, middle, between, leftCopied, rightCopied, _, rfl⟩ :=
    operation_ok operated
  have copied := (materialize_computes leftCopied).trans (materialize_computes rightCopied)
  have result := computes_withTemporary between .int (.literal "0") true line
  refine copied.trans (result.trans (Computes.trans ?_ (computes_destroyed _ _)))
  exact (computes_appended _ rfl).trans (computes_destroyed _ _)

theorem argument_computes
    {function : String}
    {id copied : VarId}
    (passed : argument function id line before = .ok (copied, after)) :
    before.Computes after := by
  rcases argument_ok passed with ⟨_, _, _, _, _, rfl⟩ | ⟨_, rfl, _⟩
  · exact computes_withTemporary _ _ _ _ _
  · exact .refl _

variable
    {result : Option VarId}
    {given : List VarId}

theorem invoke_computes
    {function : Signature}
    {isStatement : Bool}
    (invoked : invoke function given line isStatement before = .ok (result, after)) :
    before.Computes after := by
  rcases invoke_ok invoked with ⟨_, _, rfl⟩ | ⟨_, _, rfl⟩
  · have prepared := (computes_counted before function).trans (computes_marked _ given)
    exact prepared.trans (computes_appended _ rfl)
  · have added := (computes_counted before function).trans
      (computes_withResult _ function (before.nextCall function given line))
    split
    · exact added.trans (computes_appended _ rfl)
    · exact added

theorem invokeBuiltin_computes
    {builtin : Builtin}
    {result : Unit}
    (invoked : invokeBuiltin builtin given line before = .ok (result, after)) :
    before.Computes after := by
  obtain ⟨_, rfl⟩ := invokeBuiltin_ok invoked
  refine Computes.trans ?_ (computes_appended _ rfl)
  refine computes_of_listing ?_ rfl rfl rfl rfl rfl rfl
  exact { Listing.Extends.refl before.listing with calls := Nat.le_succ _ }

variable
    {name : String}
    {given : List Expr}

/-- Lowering an expression only adds to the listing, and so does lowering arguments. -/
theorem evaluated_computes :
    Evaluated (fun _ before after _ => before.Computes after)
      fun _ _ _ before after _ => before.Computes after where
  name _ _ := .refl _
  literal _ _ _ := computes_withLiteral _ _
  folded _ _ _ := computes_withLiteral _ _
  binary _ _ _ operated left right := (left.trans right).trans (operation_computes operated)
  element _ _ _ _ accessed index := index.trans (element_computes accessed)
  builtin _ _ _ invoked passed := passed.trans (invokeBuiltin_computes invoked)
  invoke _ _ _ invoked passed := passed.trans (invoke_computes invoked)
  nil _ := .refl _
  cons _ passed _ first rest := first.trans ((argument_computes passed).trans rest)

theorem arguments_computes
    {ids : List VarId}
    (lowered : arguments name line given before = .ok (ids, after)) :
    before.Computes after :=
  evaluated_computes.arguments lowered

theorem expression_computes
    {expr : Expr}
    (lowered : expression expr before = .ok (result, after)) :
    before.Computes after :=
  evaluated_computes.expression lowered

/-- The value of an expression is a variable. -/
theorem expression_found
    {expr : Expr}
    (numbered : after.listing.Numbered)
    (lowered : expression expr before = .ok (some id, after)) :
    ∃ v, after.listing.fixed? id = some v := by
  cases expr with
  | missing => exact (expression_missing_ok.mp lowered).elim
  | array => exact (expression_array_ok.mp lowered).elim
  | name line name =>
      obtain ⟨v, resolved, same⟩ := expression_name_ok lowered
      obtain ⟨rfl, number, _, known, _⟩ := resolve_ok resolved
      cases same
      have found : after.listing.fixed? number = some v.fixed := by simp [Listing.fixed?, known]
      have same : v.id = number := numbered number v.fixed found
      exact ⟨v.fixed, same ▸ found⟩
  | literal line value =>
      obtain ⟨same, rfl⟩ := expression_literal_ok lowered
      cases same
      obtain ⟨v, found, _⟩ := fixed?_withLiteral before value
      exact ⟨v, found⟩
  | binary line op left right =>
      rcases expression_binary_ok lowered with
        ⟨_, value, _, same, rfl⟩ | ⟨_, _, _, _, _, _, _, _, operated, same⟩
      · cases same
        obtain ⟨v, found, _⟩ := fixed?_withLiteral before (.scalar .int (toString value))
        exact ⟨v, found⟩
      · cases same
        obtain ⟨_, _, leftOperand, rightOperand, _, between, _, _, rfl, rfl⟩ :=
          operation_ok operated
        have straight : (Node.arith (between.listing.vars.size + 1) leftOperand rightOperand op
            line).isStraight := rfl
        have grown := (computes_appended
          (between.withTemporary .int (.literal "0") true line) straight).trans
            ((computes_destroyed _ leftOperand).trans (computes_destroyed _ rightOperand))
        exact ⟨_, grown.extends_.fixed?_of (fixed?_withTemporary between .int _ true line)⟩
  | element line name index =>
      obtain ⟨array, _, _, _, _, _, _, accessed, same⟩ := expression_element_ok lowered
      cases same
      obtain ⟨_, _, position, between, _, rfl, rfl⟩ := element_ok accessed
      obtain ⟨v, found, _⟩ := fixed?_withElement between array.id position
      exact ⟨v, found⟩
  | call line name builtin given =>
      cases builtin with
      | true => cases (expression_builtin_ok lowered).1
      | false =>
          obtain ⟨function, ids, between, _, _, _, invoked⟩ := expression_call_ok lowered
          rcases invoke_ok invoked with ⟨_, absent, _⟩ | ⟨_, same, rfl⟩
          · cases absent
          · cases same
            obtain ⟨v, found, _⟩ := fixed?_withResult (between.counted function) function
              (between.nextCall function ids line)
            exact ⟨v, found⟩

theorem elementOf_computes
    {index : Expr}
    (lowered : elementOf array name index line before = .ok (id, after)) :
    before.Computes after := by
  obtain ⟨_, _, _, indexLowered, accessed⟩ := elementOf_ok lowered
  exact (expression_computes indexLowered).trans (element_computes accessed)

theorem callStatement_computes
    {builtin : Bool}
    {done : Unit}
    (lowered : callStatement line name builtin given before = .ok (done, after)) :
    before.Computes after :=
  evaluated_computes.callStatement lowered

end Lower

end IlsCompiler
