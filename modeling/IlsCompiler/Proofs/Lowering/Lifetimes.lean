import IlsCompiler.Proofs.Lowering.Ledger

namespace IlsCompiler

/-!
# Steps of lowering and their ledger

Inside a function lowering goes by steps of a few kinds: it adds something that is never
destroyed, declares a temporary or a local, adds a node about variables that are alive, destroys
a temporary of the innermost scope, sets a label, and enters or leaves a scope. Along such steps
the ledger of the nodes shows what the open scopes hold.
-/

/-- What an open scope still holds. -/
def Frame.held (open_ : Frame) : List VarId :=
  open_.temporaries ++ open_.locals

/-- What open scopes still hold. -/
def pendingOf (frames : List Frame) : List VarId :=
  frames.flatMap Frame.held

/-- The scopes that nodes have opened: all but the last, which is that of the module. -/
def openOf (frames : List Frame) : List (Nat × String) :=
  frames.dropLast.map fun open_ => (open_.scope, open_.endLabel)

variable
    {frames : List Frame}

theorem mem_pendingOf
    {id : VarId} :
    id ∈ pendingOf frames ↔ ∃ open_ ∈ frames, id ∈ open_.held := by
  simp [pendingOf]

theorem openOf_congr
    {frames others : List Frame}
    (same : frames.map Frame.bare = others.map Frame.bare) :
    openOf frames = openOf others := by
  have labels : ∀ list : List Frame,
      openOf list = (list.map Frame.bare).dropLast.map fun open_ =>
        (open_.scope, open_.endLabel) := by
    intro list
    rw [openOf, ← List.map_dropLast, List.map_map]
    rfl
  rw [labels, labels, same]

namespace LoweringState

/-- What the open scopes of a state still hold. -/
def pending (state : LoweringState) : List VarId :=
  pendingOf state.frames

/-- The ledger of all nodes so far. -/
def ledger (state : LoweringState) : Ledger :=
  Ledger.blank.behind state.listing state.listing.nodes.toList

/-- A variable is alive in a state. -/
def Alive (state : LoweringState) (id : VarId) : Prop :=
  state.listing.Alive state.pending id

/-- A variable is alive in a state and can be an operand, so that others take its value. -/
def Lends (state : LoweringState) (id : VarId) : Prop :=
  state.Alive id ∧ state.listing.IsOperand id

/-- The ledger accepts the nodes so far and shows what the open scopes hold. -/
structure Kept (state : LoweringState) : Prop where
  accepted : Ledger.blank.Accepts state.listing state.listing.nodes.toList
  pending : state.ledger.pending.Perm state.pending
  distinct : (state.ledger.pending ++ state.ledger.gone).Nodup
  known : ∀ id,
    id ∈ state.ledger.pending ++ state.ledger.gone ↔ state.listing.isDestroyed id = true
  scopes : state.ledger.open_.scopes = openOf state.frames
  function : state.function.isSome → state.ledger.open_.function = state.function
  owned : ∀ open_ ∈ state.frames, ∀ id ∈ open_.held,
    state.listing.scopeOf? id = some open_.scope

/-- One step of lowering inside a function. -/
inductive Step : LoweringState → LoweringState → Prop
  | quiet {before : LoweringState} {listing : Listing} :
      before.listing.Extends listing → listing.nodes = before.listing.nodes →
        (∀ id v, before.listing.vars.size < id → listing.fixed? id = some v →
          v.needsDestroy = false ∧ v.WellFormed listing id) →
        Step before { before with listing := listing }
  | temporary {before : LoweringState} (type : Ty) {value : Value} (isResult : Bool)
      (line : Nat) :
      2 ≤ before.frames.length → (∀ next, value.reference? = some next → before.Lends next) →
        Step before (before.withTemporary type value isResult line)
  | bound {before : LoweringState} (name : String) {type : Ty} {value : Value} (line : Nat) :
      2 ≤ before.frames.length → type.isArray = false →
        (∀ next, value.reference? = some next → before.Lends next) →
        Step before (before.withLocal name type value line)
  | node {before : LoweringState} {node : Node} :
      node.isWork → node.WellFormed before.function before.listing →
        (∀ id ∈ node.uses, before.Alive id) →
        Step before (before.appended node)
  | destroy {before : LoweringState} {id : VarId} :
      2 ≤ before.frames.length → id ∈ before.innermost.temporaries →
        Step before (before.destroyed id)
  | label {before : LoweringState} {name : String} :
      name ≠ before.innermost.endLabel → Step before (before.labelled name)
  | enter {before : LoweringState} (kind : Scope.Kind) (exitLabel : String) :
      before.function.isSome → before.frames ≠ [] →
        (before.newFrame kind exitLabel).startLabel ≠ before.innermost.endLabel →
        Step before (before.entered kind exitLabel)
  | leave {before : LoweringState} :
      2 ≤ before.frames.length →
        Step before (before.emptied.labelled before.innermost.endLabel).popped

section Kept

variable
    {before after : LoweringState}
    {listing : Listing}

/-- The ledger of more nodes goes on from that of the nodes so far. -/
theorem Kept.goes_on
    (kept : before.Kept)
    (grown : before.listing.Extends listing)
    {added : List Node}
    (nodes : listing.nodes.toList = before.listing.nodes.toList ++ added)
    (accepted : before.ledger.Accepts listing added) :
    Ledger.blank.Accepts listing listing.nodes.toList ∧
      Ledger.blank.behind listing listing.nodes.toList =
        before.ledger.behind listing added := by
  obtain ⟨acceptedBefore, behindBefore⟩ := kept.accepted.mono grown
  have same : Ledger.blank.behind listing before.listing.nodes.toList = before.ledger :=
    behindBefore
  refine ⟨?_, ?_⟩
  · rw [nodes, Ledger.accepts_append, same]
    exact ⟨acceptedBefore, accepted⟩
  · rw [nodes, Ledger.behind_append, same]

variable
    {id : VarId}

theorem Kept.le_size
    (kept : before.Kept)
    (member : id ∈ before.ledger.pending ++ before.ledger.gone) :
    id ≤ before.listing.vars.size := by
  obtain ⟨v, found, _⟩ := Ledger.known_of_isDestroyed ((kept.known id).mp member)
  exact (Listing.le_size_of_fixed? found).2

theorem Kept.alive
    (kept : before.Kept)
    (grown : before.listing.Extends listing)
    {more : List VarId}
    (covers : before.ledger.pending ⊆ more)
    (alive : before.Alive id) :
    listing.Alive more id :=
  Listing.Alive.mono alive grown fun _ member => covers (kept.pending.symm.subset member)

theorem Kept.isDestroyed_of_held
    (kept : before.Kept)
    {open_ : Frame}
    (member : open_ ∈ before.frames)
    (held : id ∈ open_.held) :
    before.listing.isDestroyed id = true := by
  refine (kept.known id).mp (List.mem_append_left _ (kept.pending.symm.subset ?_))
  exact mem_pendingOf.mpr ⟨open_, member, held⟩

/-- Nodes that declare and destroy nothing keep the ledger but for its open scopes. -/
theorem kept_of_open
    (kept : before.Kept)
    (grown : before.listing.Extends after.listing)
    (fresh : ∀ id v, before.listing.vars.size < id → after.listing.fixed? id = some v →
      v.needsDestroy = false)
    {added : List Node}
    (nodes : after.listing.nodes.toList = before.listing.nodes.toList ++ added)
    (accepted : before.ledger.Accepts after.listing added)
    {open_ : OpenScopes}
    (behind : before.ledger.behind after.listing added = { before.ledger with open_ := open_ })
    (pending : after.pending = before.pending)
    (scopes : open_.scopes = openOf after.frames)
    (function : after.function.isSome → open_.function = after.function)
    (owned : ∀ frame ∈ after.frames, ∀ id ∈ frame.held,
      ∃ old ∈ before.frames, old.scope = frame.scope ∧ id ∈ old.held) :
    after.Kept := by
  have isSame := Ledger.isDestroyed_of_fresh grown fresh
  obtain ⟨acceptedAll, same⟩ := kept.goes_on grown nodes accepted
  change after.ledger = _ at same
  rw [behind] at same
  refine ⟨acceptedAll, ?_, ?_, ?_, ?_, ?_, ?_⟩
  · rw [same, pending]
    exact kept.pending
  · rw [same]
    exact kept.distinct
  · intro id
    rw [same, isSame]
    exact kept.known id
  · rw [same]
    exact scopes
  · rw [same]
    exact function
  · intro frame member id held
    obtain ⟨old, isOld, sameScope, wasHeld⟩ := owned frame member id held
    rw [Ledger.scopeOf?_mono grown (kept.isDestroyed_of_held isOld wasHeld), ← sameScope]
    exact kept.owned old isOld id wasHeld

theorem kept_quiet
    (grown : before.listing.Extends listing)
    (nodes : listing.nodes = before.listing.nodes)
    (fresh : ∀ id v, before.listing.vars.size < id → listing.fixed? id = some v →
      v.needsDestroy = false)
    (kept : before.Kept) :
    Kept { before with listing := listing } := by
  have none_ : listing.nodes.toList = before.listing.nodes.toList ++ [] := by simp [nodes]
  exact kept_of_open kept grown fresh none_ trivial rfl rfl kept.scopes kept.function
    fun open_ member _ held => ⟨open_, member, rfl, held⟩

/-- Nodes are added to a listing and nothing else. -/
theorem fresh_of_size
    (size : after.listing.vars.size = before.listing.vars.size) :
    ∀ id v, before.listing.vars.size < id → after.listing.fixed? id = some v →
      v.needsDestroy = false := by
  intro id v isNew found
  have inside := (Listing.le_size_of_fixed? found).2
  rw [size] at inside
  exact (Nat.not_lt_of_le inside isNew).elim

theorem kept_work
    {node : Node}
    (work : node.isWork)
    (alive : ∀ id ∈ node.uses, before.Alive id)
    (kept : before.Kept) :
    (before.appended node).Kept := by
  have grown := extends_appended before node
  have allowed : before.ledger.Allows (before.appended node).listing node := by
    cases node <;> first
      | exact fun id member => kept.alive grown (List.Subset.refl _) (alive id member)
      | cases work
  have same : before.ledger.after (before.appended node).listing node = before.ledger := by
    cases node <;> first
      | rfl
      | cases work
  have nodes : (before.appended node).listing.nodes.toList =
      before.listing.nodes.toList ++ [node] := by
    simp
  exact kept_of_open kept grown (fresh_of_size (by simp)) nodes ⟨allowed, trivial⟩ same rfl
    kept.scopes kept.function fun open_ member _ held => ⟨open_, member, rfl, held⟩

theorem nodes_labelled
    (state : LoweringState)
    (name : String) :
    (state.labelled name).listing.nodes = state.listing.nodes.push (.label name) := by
  simp [labelled]

theorem size_labelled
    (state : LoweringState)
    (name : String) :
    (state.labelled name).listing.vars.size = state.listing.vars.size := by
  simp [labelled]

variable
    {name : String}

/-- A label that is not the end label of the innermost scope closes none. -/
theorem Kept.stays_open
    (kept : before.Kept)
    (other : name ≠ before.innermost.endLabel) :
    before.ledger.open_.after (.label name) = before.ledger.open_ := by
  have unmatched : before.ledger.open_.scopes.head?.map Prod.snd ≠ some name := by
    rw [kept.scopes, openOf]
    unfold LoweringState.innermost at other
    cases isFrames : before.frames with
    | nil => simp
    | cons first rest =>
        cases rest with
        | nil => simp
        | cons second rest =>
            rw [isFrames] at other
            simpa using fun same => other same.symm
  simp [OpenScopes.after, unmatched]

theorem Kept.after_label
    (kept : before.Kept)
    (other : name ≠ before.innermost.endLabel) :
    before.ledger.after listing (.label name) = before.ledger := by
  unfold Ledger.after
  rw [kept.stays_open other]

theorem kept_labelled
    (other : name ≠ before.innermost.endLabel)
    (kept : before.Kept) :
    (before.labelled name).Kept := by
  have same : before.ledger.after (before.labelled name).listing (.label name) =
      before.ledger := kept.after_label other
  have nodes : (before.labelled name).listing.nodes.toList =
      before.listing.nodes.toList ++ [.label name] := by
    simp [nodes_labelled]
  refine kept_of_open kept (proceeds_labelled before name).extends_
    (fresh_of_size (size_labelled before name)) nodes ⟨?_, trivial⟩ same
    rfl kept.scopes kept.function fun open_ member _ held => ⟨open_, member, rfl, held⟩
  intro id member
  cases member

theorem nodes_entered
    (state : LoweringState)
    (kind : Scope.Kind)
    (exitLabel : String) :
    (state.entered kind exitLabel).listing.nodes.toList =
      state.listing.nodes.toList ++
        [.label (state.newFrame kind exitLabel).startLabel,
          .openScope state.listing.scopes.size kind] := by
  simp [entered, labelled, opened]

theorem kept_entered
    (kind : Scope.Kind)
    (exitLabel : String)
    (inFunction : before.function.isSome)
    (some_ : before.frames ≠ [])
    (other : (before.newFrame kind exitLabel).startLabel ≠ before.innermost.endLabel)
    (kept : before.Kept) :
    (before.entered kind exitLabel).Kept := by
  have size : (before.entered kind exitLabel).listing.vars.size = before.listing.vars.size := by
    simp [entered, labelled, opened]
  have frames : (before.entered kind exitLabel).frames =
      before.newFrame kind exitLabel :: before.frames := rfl
  have behind : before.ledger.behind (before.entered kind exitLabel).listing
      [.label (before.newFrame kind exitLabel).startLabel,
        .openScope before.listing.scopes.size kind] =
      { before.ledger with
        open_ := { before.ledger.open_ with
          scopes := (before.listing.scopes.size, (before.newFrame kind exitLabel).endLabel) ::
            before.ledger.open_.scopes } } := by
    show Ledger.after (before.entered kind exitLabel).listing
      (Ledger.after (before.entered kind exitLabel).listing before.ledger (.label _))
        (.openScope _ _) = _
    rw [kept.after_label other]
    simp only [Ledger.after, OpenScopes.after, kept.function inFunction]
    rfl
  refine kept_of_open kept (grows_entered before kind exitLabel).extends_ (fresh_of_size size)
    (nodes_entered before kind exitLabel) ⟨?_, ?_, trivial⟩ behind ?_ ?_ kept.function ?_
  · intro id member
    cases member
  · intro id member
    cases member
  · rw [pending, frames]
    rfl
  · rw [frames, openOf, List.dropLast_cons_of_ne_nil some_, List.map_cons, kept.scopes]
    rfl
  · intro open_ member id held
    rw [frames] at member
    rcases List.mem_cons.mp member with rfl | old
    · cases held
    · exact ⟨open_, old, rfl, held⟩

/-- The innermost scope of the ledger is that of the first frame. -/
theorem Kept.innermost
    (kept : before.Kept)
    (deep : 2 ≤ before.frames.length) :
    before.ledger.open_.innermost? = some before.innermost.scope ∧
      before.ledger.open_.scopes.head?.map Prod.snd = some before.innermost.endLabel := by
  match isFrames : before.frames, deep with
  | first :: second :: rest, _ =>
      simp [OpenScopes.innermost?, kept.scopes, LoweringState.innermost, isFrames, openOf]

/-- A step that declares a variable in the innermost scope notes it as pending. -/
theorem kept_declared
    {line : Nat}
    (kept : before.Kept)
    (deep : 2 ≤ before.frames.length)
    (grown : before.listing.Extends after.listing)
    (size : after.listing.vars.size = before.listing.vars.size + 1)
    (nodes : after.listing.nodes =
      before.listing.nodes.push (.declare (before.listing.vars.size + 1) line))
    {v : Variable}
    (found : after.listing.fixed? (before.listing.vars.size + 1) = some v)
    (destroyed : v.needsDestroy)
    (scope : v.storage.scope? = some before.innermost.scope)
    (alive : ∀ next ∈ v.refs, before.Alive next)
    (function : after.function = before.function)
    (frames : after.frames.map Frame.bare = before.frames.map Frame.bare)
    (pending : after.pending.Perm (before.pending ++ [before.listing.vars.size + 1]))
    (owned : ∀ open_ ∈ after.frames, ∀ id ∈ open_.held,
      (∃ old ∈ before.frames, old.scope = open_.scope ∧ id ∈ old.held) ∨
        (id = before.listing.vars.size + 1 ∧ open_.scope = before.innermost.scope)) :
    after.Kept := by
  have isDestroyed : after.listing.isDestroyed (before.listing.vars.size + 1) = true := by
    rw [Listing.isDestroyed_eq found, destroyed]
  have isScope : after.listing.scopeOf? (before.listing.vars.size + 1) =
      some before.innermost.scope := by
    rw [Listing.scopeOf?_eq found destroyed, scope]
  have unknown : before.listing.vars.size + 1 ∉ before.ledger.pending ++ before.ledger.gone :=
    fun member => Nat.not_succ_le_self _ (kept.le_size member)
  have isAfter : before.ledger.after after.listing
      (.declare (before.listing.vars.size + 1) line) =
        { before.ledger with
          pending := before.ledger.pending ++ [before.listing.vars.size + 1] } := by
    simp [Ledger.after, isDestroyed, OpenScopes.after]
  have allowed : before.ledger.Allows after.listing
      (.declare (before.listing.vars.size + 1) line) := by
    refine ⟨fun _ => ⟨?_, ?_, isDestroyed, ?_, ?_⟩, ?_⟩
    · exact fun member => unknown (List.mem_append_left _ member)
    · exact fun member => unknown (List.mem_append_right _ member)
    · rw [isScope, (kept.innermost deep).1]
    · rw [isScope]
      rfl
    · rw [isAfter]
      refine .intro found (fun _ => by simp) fun next member => ?_
      exact kept.alive grown (fun _ inside => by simp [inside]) (alive next member)
  obtain ⟨accepted, same⟩ := @Kept.goes_on before after.listing kept grown
    [.declare (before.listing.vars.size + 1) line] (by simp [nodes]) ⟨allowed, trivial⟩
  change after.ledger = before.ledger.after after.listing
    (.declare (before.listing.vars.size + 1) line) at same
  rw [isAfter] at same
  refine ⟨accepted, ?_, ?_, ?_, ?_, ?_, ?_⟩
  · rw [same]
    exact (kept.pending.append_right _).trans pending.symm
  · rw [same]
    refine (List.Perm.nodup_iff ?_).mpr (List.nodup_cons.mpr ⟨unknown, kept.distinct⟩)
    rw [List.append_assoc]
    exact List.perm_middle
  · intro id
    rw [same]
    have split : id ∈ (before.ledger.pending ++ [before.listing.vars.size + 1]) ++
        before.ledger.gone ↔ id ∈ before.ledger.pending ++ before.ledger.gone ∨
          id = before.listing.vars.size + 1 := by
      simp only [List.mem_append, List.mem_singleton]
      exact or_right_comm
    refine split.trans ?_
    constructor
    · rintro (old | rfl)
      · have before_ := (kept.known id).mp old
        obtain ⟨w, isFound, _⟩ := Ledger.known_of_isDestroyed before_
        rw [Ledger.isDestroyed_mono grown ⟨w, isFound⟩]
        exact before_
      · exact isDestroyed
    · intro now
      obtain ⟨w, isFound, _⟩ := Ledger.known_of_isDestroyed now
      obtain ⟨positive, inside⟩ := Listing.le_size_of_fixed? isFound
      by_cases new : id = before.listing.vars.size + 1
      · exact .inr new
      · left
        have isOldNumber : id ≤ before.listing.vars.size :=
          Nat.le_of_lt_succ (Nat.lt_of_le_of_ne (Nat.le_trans inside (Nat.le_of_eq size)) new)
        obtain ⟨old, isOld⟩ := Listing.exists_fixed? positive isOldNumber
        rw [Ledger.isDestroyed_mono grown ⟨old, isOld⟩] at now
        exact (kept.known id).mpr now
  · rw [same, openOf_congr frames]
    exact kept.scopes
  · rw [same, function]
    exact kept.function
  · intro open_ member id held
    rcases owned open_ member id held with ⟨old, isOld, sameScope, wasHeld⟩ | ⟨rfl, sameScope⟩
    · rw [Ledger.scopeOf?_mono grown (kept.isDestroyed_of_held isOld wasHeld), ← sameScope]
      exact kept.owned old isOld id wasHeld
    · rw [isScope, sameScope]

variable
    {change : Frame → Frame}

/-- The first frame holds one more variable. -/
theorem perm_modifyHead
    (some_ : frames ≠ [])
    (more : ∀ open_, (change open_).held.Perm (open_.held ++ [id])) :
    (pendingOf (frames.modifyHead change)).Perm (pendingOf frames ++ [id]) := by
  cases frames with
  | nil => exact (some_ rfl).elim
  | cons first rest =>
      have here := (more first).append_right (pendingOf rest)
      refine here.trans ?_
      simp only [pendingOf, List.flatMap_cons, List.append_assoc, List.singleton_append]
      exact (List.perm_append_singleton id _).symm.append_left _ |>.trans (by simp)

theorem owned_modifyHead
    (sameScope : ∀ open_, (change open_).scope = open_.scope)
    (more : ∀ open_, (change open_).held.Perm (open_.held ++ [id])) :
    ∀ open_ ∈ frames.modifyHead change, ∀ other ∈ open_.held,
      (∃ old ∈ frames, old.scope = open_.scope ∧ other ∈ old.held) ∨
        (other = id ∧ open_.scope = (frames.headD .outermost).scope) := by
  intro open_ member other held
  cases frames with
  | nil => cases member
  | cons first rest =>
      rcases List.mem_cons.mp member with rfl | inRest
      · rcases List.mem_append.mp ((more first).subset held) with old | new
        · exact .inl ⟨first, by simp, (sameScope first).symm, old⟩
        · exact .inr ⟨List.mem_singleton.mp new, sameScope first⟩
      · exact .inl ⟨open_, by simp [inRest], rfl, held⟩

theorem kept_temporary
    (type : Ty)
    {value : Value}
    (isResult : Bool)
    (line : Nat)
    (deep : 2 ≤ before.frames.length)
    (alive : ∀ next, value.reference? = some next → before.Alive next)
    (kept : before.Kept) :
    (before.withTemporary type value isResult line).Kept := by
  have computes := computes_withTemporary before type value isResult line
  have more : ∀ open_ : Frame,
      Frame.held { open_ with
        temporaries := open_.temporaries ++ [before.listing.vars.size + 1] } |>.Perm
          (open_.held ++ [before.listing.vars.size + 1]) := by
    intro open_
    simp only [Frame.held, List.append_assoc]
    exact List.Perm.append_left _ (List.perm_append_comm)
  refine kept_declared kept deep computes.extends_ (by simp) (nodes_withTemporary _ _ _ _ _)
    (fixed?_withTemporary before type value isResult line) rfl rfl ?_ rfl computes.frames
    (perm_modifyHead (by rintro none_; simp [none_] at deep) more)
    (owned_modifyHead (fun _ => rfl) more)
  intro next member
  exact alive next (by simpa [Variable.refs, Storage.refs] using member)

theorem kept_local
    (name : String)
    (type : Ty)
    {value : Value}
    (line : Nat)
    (deep : 2 ≤ before.frames.length)
    (alive : ∀ next, value.reference? = some next → before.Alive next)
    (kept : before.Kept) :
    (before.withLocal name type value line).Kept := by
  have proceeds := proceeds_withLocal before name type value line
  obtain ⟨v, found, storage, isValue, _⟩ := fixed?_withLocal before name type value line
  have more : ∀ open_ : Frame,
      Frame.held { open_ with locals := open_.locals ++ [before.listing.vars.size + 1] } |>.Perm
        (open_.held ++ [before.listing.vars.size + 1]) := by
    intro open_
    simp [Frame.held]
  refine kept_declared kept deep proceeds.extends_ ?_ (nodes_withLocal _ _ _ _ _) found ?_ ?_ ?_
    rfl proceeds.frames (perm_modifyHead (by rintro none_; simp [none_] at deep) more)
    (owned_modifyHead (fun _ => rfl) more)
  · simp [withLocal, Listing.addNamed, Listing.addVariable]
  · simp [Variable.needsDestroy, storage]
  · rw [storage]
    rfl
  · intro next member
    refine alive next ?_
    simpa [Variable.refs, storage, Storage.refs, isValue] using member

/-- Variables of the innermost scope are destroyed, and the scope may be closed behind them. -/
theorem kept_of_destroys
    (kept : before.Kept)
    (grown : before.listing.Extends after.listing)
    (size : after.listing.vars.size = before.listing.vars.size)
    (deep : 2 ≤ before.frames.length)
    {ids rest : List VarId}
    (held : ids ⊆ before.innermost.held)
    (perm : before.pending.Perm (ids ++ rest))
    {closing : Option String}
    (nodes : after.listing.nodes.toList =
      before.listing.nodes.toList ++ (ids.map .destroy ++ closing.toList.map .label))
    (function : after.function = before.function)
    (pending : after.pending.Perm rest)
    {open_ : OpenScopes}
    (closed : (closing.toList.map .label).foldl OpenScopes.after before.ledger.open_ = open_)
    (sameFunction : open_.function = before.ledger.open_.function)
    (scopes : open_.scopes = openOf after.frames)
    (owned : ∀ frame ∈ after.frames, ∀ id ∈ frame.held,
      ∃ old ∈ before.frames, old.scope = frame.scope ∧ id ∈ old.held) :
    after.Kept := by
  have isSame := Ledger.isDestroyed_of_fresh grown (fresh_of_size size)
  have isFirst : before.innermost ∈ before.frames := by
    match isFrames : before.frames, deep with
    | first :: others, _ => simp [LoweringState.innermost, isFrames]
  have fits : ∀ id ∈ ids, before.ledger.Fits after.listing id := by
    intro id member
    have destroyed := kept.isDestroyed_of_held isFirst (held member)
    have isScope := kept.owned _ isFirst id (held member)
    refine ⟨(isSame id).trans destroyed, ?_, ?_⟩
    · rw [Ledger.scopeOf?_mono grown destroyed, isScope, (kept.innermost deep).1]
    · rw [Ledger.scopeOf?_mono grown destroyed, isScope]
      rfl
  obtain ⟨accepted, left, isLeft, isBehind⟩ :=
    Ledger.accepts_destroys (kept.pending.trans perm) fits
  have acceptsLabel : ∀ ledger : Ledger,
      ledger.Accepts after.listing (closing.toList.map .label) := by
    intro ledger
    cases closing with
    | none => trivial
    | some name => exact ⟨fun _ member => (List.not_mem_nil member).elim, trivial⟩
  have behindLabel : ∀ ledger : Ledger,
      ledger.behind after.listing (closing.toList.map .label) =
        { ledger with open_ := (closing.toList.map .label).foldl OpenScopes.after ledger.open_ } := by
    intro ledger
    cases closing <;> rfl
  obtain ⟨acceptedAll, same⟩ := kept.goes_on grown nodes
    (Ledger.accepts_append.mpr ⟨accepted, acceptsLabel _⟩)
  change after.ledger = _ at same
  rw [Ledger.behind_append, isBehind, behindLabel] at same
  simp only [closed] at same
  have moved : (left ++ (before.ledger.gone ++ ids)).Perm
      (before.ledger.pending ++ before.ledger.gone) := by
    have first : (before.ledger.gone ++ ids).Perm (ids ++ before.ledger.gone) :=
      List.perm_append_comm
    refine (first.append_left left).trans ?_
    rw [← List.append_assoc]
    refine List.Perm.append_right _ ?_
    exact ((isLeft.append_right ids).trans List.perm_append_comm).trans
      (kept.pending.trans perm).symm
  refine ⟨acceptedAll, ?_, ?_, ?_, ?_, ?_, ?_⟩
  · rw [same]
    exact isLeft.trans pending.symm
  · rw [same]
    exact moved.nodup_iff.mpr kept.distinct
  · intro id
    rw [same, isSame]
    exact moved.mem_iff.trans (kept.known id)
  · rw [same]
    exact scopes
  · rw [same, function]
    intro inside
    exact sameFunction.trans (kept.function inside)
  · intro frame member id wasHeld
    obtain ⟨old, isOld, sameScope, isHeld⟩ := owned frame member id wasHeld
    rw [Ledger.scopeOf?_mono grown (kept.isDestroyed_of_held isOld isHeld), ← sameScope]
    exact kept.owned old isOld id isHeld

variable
    {rest : List Frame}
    {first : Frame}

theorem innermost_eq
    (isFrames : before.frames = first :: rest) :
    before.innermost = first := by
  simp [LoweringState.innermost, isFrames]

/-- Without one of its temporaries a frame holds what it held apart from that. -/
theorem perm_erase
    (isFrames : frames = first :: rest)
    (distinct : (pendingOf frames).Nodup)
    (member : id ∈ first.temporaries) :
    (pendingOf frames).Perm
      (id :: pendingOf (frames.map fun open_ : Frame =>
        { open_ with temporaries := open_.temporaries.erase id })) := by
  subst isFrames
  have notInRest : id ∉ pendingOf rest := by
    intro later
    have apart := (List.nodup_append.mp distinct).2.2
    exact apart id (List.mem_append_left _ member) id later rfl
  have sameRest : pendingOf (rest.map fun open_ : Frame =>
      { open_ with temporaries := open_.temporaries.erase id }) = pendingOf rest := by
    simp only [pendingOf, List.flatMap_def, List.map_map]
    refine congrArg List.flatten (List.map_congr_left fun open_ isThere => ?_)
    have absent : id ∉ open_.temporaries := fun inside =>
      notInRest (mem_pendingOf.mpr ⟨open_, isThere, List.mem_append_left _ inside⟩)
    simp [Frame.held, List.erase_of_not_mem absent]
  have here : first.held.Perm
      (id :: Frame.held { first with temporaries := first.temporaries.erase id }) :=
    (List.perm_cons_erase member).append_right _
  have whole := here.append_right (pendingOf rest)
  rw [List.map_cons]
  show (first.held ++ pendingOf rest).Perm (id :: (Frame.held _ ++ pendingOf (rest.map _)))
  rw [sameRest]
  exact whole

theorem kept_destroyed
    (deep : 2 ≤ before.frames.length)
    (member : id ∈ before.innermost.temporaries)
    (kept : before.Kept) :
    (before.destroyed id).Kept := by
  obtain ⟨first, rest, isFrames⟩ : ∃ first rest, before.frames = first :: rest :=
    List.exists_cons_of_length_pos (by omega)
  rw [innermost_eq isFrames] at member
  have isPending : (before.frames.any fun open_ => decide (id ∈ open_.temporaries)) = true := by
    simp [isFrames, member]
  have distinct : (pendingOf before.frames).Nodup :=
    kept.pending.nodup_iff.mp (List.nodup_append.mp kept.distinct).1
  have perm := perm_erase isFrames distinct member
  have computes := computes_destroyed before id
  have isState : before.destroyed id =
      { before with
        frames := before.frames.map fun (open_ : Frame) =>
          { open_ with temporaries := open_.temporaries.erase id } }.appended (.destroy id) := by
    simp only [destroyed, isPending, ↓reduceIte]
  refine @kept_of_destroys before _ kept computes.extends_ (by simp) deep [id] _ ?_ perm none ?_
    computes.function ?_ _ rfl rfl ?_ ?_
  · rw [innermost_eq isFrames]
    simpa [Frame.held] using .inl member
  · rw [isState]
    simp
  · rw [isState]
    exact .refl _
  · rw [openOf_congr computes.frames]
    exact kept.scopes
  · rw [isState]
    intro frame isThere other held
    obtain ⟨old, isOld, rfl⟩ := List.mem_map.mp isThere
    refine ⟨old, isOld, rfl, ?_⟩
    rcases List.mem_append.mp held with isTemporary | isLocal
    · exact List.mem_append_left _ (List.mem_of_mem_erase isTemporary)
    · exact List.mem_append_right _ isLocal

theorem nodes_emptied
    (state : LoweringState) :
    state.emptied.listing.nodes.toList =
      state.listing.nodes.toList ++ state.innermost.held.map .destroy := by
  have each : ∀ (ids : List VarId) (start : LoweringState),
      (ids.foldl (fun current id => current.appended (.destroy id)) start).listing.nodes.toList =
        start.listing.nodes.toList ++ ids.map .destroy := by
    intro ids
    induction ids with
    | nil => simp
    | cons id rest inductionHypothesis => simp [inductionHypothesis]
  exact each _ state

theorem frames_emptied
    (state : LoweringState) :
    state.emptied.frames = state.frames ∧ state.emptied.function = state.function ∧
      state.emptied.listing.vars.size = state.listing.vars.size := by
  have each : ∀ (ids : List VarId) (start : LoweringState),
      (ids.foldl (fun current id => current.appended (.destroy id)) start).frames =
          start.frames ∧
        (ids.foldl (fun current id => current.appended (.destroy id)) start).function =
          start.function ∧
        (ids.foldl (fun current id =>
          current.appended (.destroy id)) start).listing.vars.size =
            start.listing.vars.size := by
    intro ids
    induction ids with
    | nil => simp
    | cons id rest inductionHypothesis =>
        intro start
        obtain ⟨frames, function, size⟩ := inductionHypothesis (start.appended (.destroy id))
        exact ⟨frames, function, by simpa using size⟩
  exact each _ state

theorem kept_left
    (deep : 2 ≤ before.frames.length)
    (kept : before.Kept) :
    (before.emptied.labelled before.innermost.endLabel).popped.Kept := by
  obtain ⟨frames, function, size⟩ := frames_emptied before
  have grown : before.listing.Extends
      (before.emptied.labelled before.innermost.endLabel).popped.listing :=
    (computes_emptied before).extends_.trans (proceeds_labelled _ _).extends_
  match isFrames : before.frames, deep with
  | first :: second :: rest, _ =>
      have isFirst := innermost_eq isFrames
      have isPopped : (before.emptied.labelled before.innermost.endLabel).popped.frames =
          second :: rest := by
        show before.emptied.frames.tail = _
        rw [frames, isFrames]
        rfl
      have isOpen : before.ledger.open_.scopes =
          (first.scope, first.endLabel) :: openOf (second :: rest) := by
        rw [kept.scopes, isFrames]
        simp [openOf]
      refine @kept_of_destroys before _ kept grown ?_ (by simp [isFrames])
        before.innermost.held (pendingOf (second :: rest)) (List.Subset.refl _) ?_
        (some before.innermost.endLabel) ?_ function ?_
        { before.ledger.open_ with scopes := openOf (second :: rest) } ?_ rfl ?_ ?_
      · rw [← size]
        exact size_labelled _ _
      · rw [pending, isFrames, isFirst]
        exact .refl _
      · show (before.emptied.labelled _).listing.nodes.toList = _
        simp [nodes_labelled, nodes_emptied]
      · rw [pending, isPopped]
      · simp [OpenScopes.after, isOpen, isFirst]
      · rw [isPopped]
      · intro frame member id held
        rw [isPopped] at member
        exact ⟨frame, by rw [isFrames]; exact List.mem_cons_of_mem _ member, rfl, held⟩

end Kept

/-- Every step keeps the ledger. -/
theorem Step.kept
    {before after : LoweringState}
    (step : Step before after)
    (kept : before.Kept) :
    after.Kept := by
  cases step with
  | quiet grown nodes fresh =>
      exact kept_quiet grown nodes (fun id v isNew found => (fresh id v isNew found).1) kept
  | temporary type isResult line deep lent =>
      exact kept_temporary type isResult line deep (fun next refers => (lent next refers).1) kept
  | bound name line deep _ lent =>
      exact kept_local name _ line deep (fun next refers => (lent next refers).1) kept
  | node work _ alive => exact kept_work work alive kept
  | destroy deep member => exact kept_destroyed deep member kept
  | label other => exact kept_labelled other kept
  | enter kind exitLabel inFunction some_ other =>
      exact kept_entered kind exitLabel inFunction some_ other kept
  | leave deep => exact kept_left deep kept

end LoweringState

end IlsCompiler
