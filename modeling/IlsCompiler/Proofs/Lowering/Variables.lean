import IlsCompiler.IR.Validate
import IlsCompiler.Lowering.Program

namespace IlsCompiler

/-!
# What never changes of a variable

A variable keeps its number, type, value and storage from the moment it is added.
Only its marks change: the last use so far, whether it has to survive a call, and
the scope of a parameter, which is known when the body of its function is lowered.
This module reads a listing without these marks, so that a later listing shows the
same variables as an earlier one.
-/

namespace Storage

/-- A storage without the scope of a parameter. -/
def fixed : Storage → Storage
  | .named name isGlobal true position _ => .named name isGlobal true position 0
  | other => other

/-- Whether a storage belongs to a named variable. -/
def isNamed : Storage → Bool
  | .named _ _ _ _ _ => true
  | _ => false

/-- Whether an argument with this storage is copied before it is passed. -/
def isCopied : Storage → Bool
  | .named _ _ _ _ _ => true
  | .element _ _ => true
  | .result _ _ => true
  | _ => false

/-- Only a parameter is changed, and only in the scope that it is placed in. -/
theorem fixed_cases
    (storage : Storage) :
    storage.fixed = storage ∨
      ∃ name isGlobal position scope,
        storage = .named name isGlobal true position scope ∧
          storage.fixed = .named name isGlobal true position 0 := by
  fun_cases Storage.fixed storage
  next name isGlobal position scope => exact .inr ⟨name, isGlobal, position, scope, rfl, rfl⟩
  next => exact .inl rfl

end Storage

variable
    {name : String}
    {position : Nat}

namespace Variable

/-- A variable without its marks. -/
def fixed (v : Variable) : Variable :=
  { v with preserved := false, lastUse := none, storage := v.storage.fixed }

section Fixed

variable
    {v : Variable}

@[simp] theorem isNamed_fixed :
    v.fixed.storage.isNamed = v.storage.isNamed := by
  show v.storage.fixed.isNamed = _
  rcases v.storage.fixed_cases with same | ⟨_, _, _, _, storage, fixed⟩
  · rw [same]
  · rw [fixed, storage]
    rfl

@[simp] theorem isCopied_fixed :
    v.fixed.storage.isCopied = v.storage.isCopied := by
  show v.storage.fixed.isCopied = _
  rcases v.storage.fixed_cases with same | ⟨_, _, _, _, storage, fixed⟩
  · rw [same]
  · rw [fixed, storage]
    rfl

theorem fixed_temporary_iff
    {scope : Nat} :
    v.fixed.storage = .temporary name scope ↔ v.storage = .temporary name scope := by
  show v.storage.fixed = _ ↔ _
  rcases v.storage.fixed_cases with same | ⟨_, _, _, _, storage, fixed⟩
  · rw [same]
  · rw [fixed, storage]
    simp

theorem fixed_literal_iff :
    v.fixed.storage = .literal ↔ v.storage = .literal := by
  show v.storage.fixed = _ ↔ _
  rcases v.storage.fixed_cases with same | ⟨_, _, _, _, storage, fixed⟩
  · rw [same]
  · rw [fixed, storage]
    simp

theorem fixed_element_iff
    {array index : VarId} :
    v.fixed.storage = .element array index ↔ v.storage = .element array index := by
  show v.storage.fixed = _ ↔ _
  rcases v.storage.fixed_cases with same | ⟨_, _, _, _, storage, fixed⟩
  · rw [same]
  · rw [fixed, storage]
    simp

theorem fixed_result_iff
    {function : Signature}
    {call : Call} :
    v.fixed.storage = .result function call ↔ v.storage = .result function call := by
  show v.storage.fixed = _ ↔ _
  rcases v.storage.fixed_cases with same | ⟨_, _, _, _, storage, fixed⟩
  · rw [same]
  · rw [fixed, storage]
    simp

variable
    {isGlobal : Bool}

/-- A parameter keeps everything but the scope it is placed in. -/
theorem storage_of_fixed_param
    (known : v.fixed.storage = .named name isGlobal true position 0) :
    ∃ scope, v.storage = .named name isGlobal true position scope := by
  change v.storage.fixed = _ at known
  cases storage : v.storage with
  | named otherName otherGlobal isParam otherPosition scope =>
      cases isParam with
      | true =>
          simp only [storage, Storage.fixed, Storage.named.injEq, and_true, true_and] at known
          obtain ⟨rfl, rfl, rfl⟩ := known
          exact ⟨scope, rfl⟩
      | false => simp [storage, Storage.fixed] at known
  | _ => simp [storage, Storage.fixed] at known

/-- A variable that is no parameter keeps its whole storage. -/
theorem storage_of_fixed_local
    {position scope : Nat}
    (known : v.fixed.storage = .named name isGlobal false position scope) :
    v.storage = .named name isGlobal false position scope := by
  change v.storage.fixed = _ at known
  cases storage : v.storage with
  | named otherName otherGlobal isParam otherPosition otherScope =>
      cases isParam with
      | true => simp [storage, Storage.fixed] at known
      | false => simpa [storage, Storage.fixed] using known
  | _ => simp [storage, Storage.fixed] at known

end Fixed

end Variable

variable
    {listing : Listing}
    {id : VarId}

namespace Listing

/-- The variable with a number, without its marks. -/
def fixed? (listing : Listing) (id : VarId) : Option Variable :=
  (listing.lookup? id).map Variable.fixed

/-- A variable that is found has a number up to the last one given out. -/
theorem le_size_of_fixed?
    {id : Nat}
    {v : Variable}
    (found : listing.fixed? id = some v) :
    0 < id ∧ id ≤ listing.vars.size := by
  obtain ⟨w, lookup, -⟩ := Option.map_eq_some_iff.mp found
  by_cases zero : id = 0
  · simp [lookup?, zero] at lookup
  · simp only [lookup?, zero, ↓reduceIte] at lookup
    have bound := (Array.getElem?_eq_some_iff.mp lookup).1
    omega

/-- Every number that has been given out finds a variable. -/
theorem exists_fixed?
    {id : Nat}
    (positive : 0 < id)
    (bound : id ≤ listing.vars.size) :
    ∃ v, listing.fixed? id = some v := by
  have inside : id - 1 < listing.vars.size := by omega
  refine ⟨(listing.vars[id - 1]).fixed, ?_⟩
  simp [fixed?, lookup?, Nat.ne_of_gt positive, inside]

/-- The type of a variable does not depend on its marks. -/
theorem type_fixed?
    (listing : Listing)
    (id : VarId) :
    (listing.fixed? id).map (fun v => v.type) = (listing.lookup? id).map fun v => v.type := by
  unfold fixed?
  cases listing.lookup? id <;> rfl

/-- A variable that is found without its marks is there with them. -/
theorem lookup?_of_fixed?
    {v : Variable}
    (found : listing.fixed? id = some v) :
    ∃ w, listing.lookup? id = some w ∧ w.fixed = v :=
  Option.map_eq_some_iff.mp found

/-- A variable that is added gets the next number, and the others stay. -/
theorem fixed?_push
    (listing : Listing)
    (added : Variable)
    (id : Nat) :
    ({ listing with vars := listing.vars.push added } : Listing).fixed? id =
      if id = listing.vars.size + 1 then some added.fixed else listing.fixed? id := by
  unfold fixed? lookup?
  rcases Nat.eq_zero_or_pos id with zero | positive
  · subst zero
    simp
  · have nonzero : id ≠ 0 := by omega
    simp only [nonzero, ↓reduceIte, Array.getElem?_push]
    have shifted : id - 1 = listing.vars.size ↔ id = listing.vars.size + 1 := by omega
    by_cases last : id = listing.vars.size + 1
    · simp [last]
    · simp [last, shifted]

@[simp] theorem fixed?_addVariable
    (listing : Listing)
    (type : Ty)
    (value : Value)
    (storage : VarId → Storage)
    (id : VarId) :
    (listing.addVariable type value storage).1.fixed? id =
      if id = listing.vars.size + 1 then
        some { id := id, type := type, value := value, preserved := false, lastUse := none,
               storage := (storage id).fixed }
      else
        listing.fixed? id := by
  unfold addVariable
  rw [fixed?_push]
  split
  next last =>
    subst last
    rfl
  next => rfl

@[simp] theorem size_addVariable
    (listing : Listing)
    (type : Ty)
    (value : Value)
    (storage : VarId → Storage) :
    (listing.addVariable type value storage).1.vars.size = listing.vars.size + 1 := by
  simp [addVariable]

variable
    {change : Variable → Variable}

/-- Changing the marks of a variable leaves every variable as it was. -/
theorem fixed?_modifyVariable
    (listing : Listing)
    (changed : Nat)
    (keeps : ∀ v, listing.lookup? changed = some v → (change v).fixed = v.fixed)
    (id : Nat) :
    (listing.modifyVariable changed change).fixed? id = listing.fixed? id := by
  unfold modifyVariable
  split
  · rfl
  next nonzero =>
    unfold fixed?
    by_cases zero : id = 0
    · simp [lookup?, zero]
    · simp only [lookup?, zero, ↓reduceIte, Array.getElem?_modify]
      split
      next same =>
        have sameId : changed = id :=
          Nat.sub_one_cancel (Nat.pos_of_ne_zero nonzero) (Nat.pos_of_ne_zero zero) same
        cases found : listing.vars[id - 1]? with
        | none => rfl
        | some v =>
            have known : listing.lookup? changed = some v := by
              simp [lookup?, sameId, zero, found]
            simp [keeps v known]
      next => rfl

/-- Another change of a variable keeps where the last uses are. -/
theorem lastUse_modifyVariable
    (listing : Listing)
    (changed : Nat)
    (change : Variable → Variable)
    {id position : Nat}
    (used : (listing.modifyVariable changed change).lastUse id = some position) :
    listing.lastUse id = some position ∨
      id = changed ∧ ∃ v, listing.lookup? id = some v ∧ (change v).lastUse = some position := by
  unfold modifyVariable at used
  split at used
  · exact .inl used
  next nonzero =>
    by_cases zero : id = 0
    · simp [lastUse, lookup?, zero] at used
    · simp only [lastUse, lookup?, zero, ↓reduceIte, Array.getElem?_modify] at used ⊢
      split at used
      next same =>
        have sameId : changed = id :=
          Nat.sub_one_cancel (Nat.pos_of_ne_zero nonzero) (Nat.pos_of_ne_zero zero) same
        cases found : listing.vars[id - 1]? with
        | none => simp [found] at used
        | some v => exact .inr ⟨sameId.symm, v, rfl, by simpa [found] using used⟩
      next => exact .inl used

/-- The last use of a variable is a node that is about it. -/
def Recorded (listing : Listing) : Prop :=
  ∀ id position, listing.lastUse id = some position →
    ∃ node, listing.nodes[position]? = some node ∧ id ∈ node.operands

theorem recorded_modifyVariable
    (recorded : listing.Recorded)
    (changed : VarId)
    (keeps : ∀ v, (change v).lastUse = v.lastUse) :
    ∀ id position, (listing.modifyVariable changed change).lastUse id = some position →
      ∃ node, listing.nodes[position]? = some node ∧ id ∈ node.operands := by
  intro id position used
  rcases listing.lastUse_modifyVariable changed change used with old | ⟨_, v, found, same⟩
  · exact recorded id position old
  · refine recorded id position ?_
    rw [keeps] at same
    simpa [lastUse, found] using same

theorem recorded_addVariable
    (recorded : listing.Recorded)
    (type : Ty)
    (value : Value)
    (storage : VarId → Storage) :
    (listing.addVariable type value storage).1.Recorded := by
  intro id position used
  refine recorded id position ?_
  unfold lastUse lookup? addVariable at used
  by_cases zero : id = 0
  · simp [zero] at used
  · simp only [zero, ↓reduceIte, Array.getElem?_push] at used
    split at used
    · simp at used
    · simpa [lastUse, lookup?, zero] using used

@[simp] theorem size_modifyVariable
    (listing : Listing)
    (changed : VarId)
    (change : Variable → Variable) :
    (listing.modifyVariable changed change).vars.size = listing.vars.size := by
  unfold modifyVariable
  split <;> simp

@[simp] theorem functions_modifyVariable
    (listing : Listing)
    (changed : VarId)
    (change : Variable → Variable) :
    (listing.modifyVariable changed change).functions = listing.functions := by
  unfold modifyVariable
  split <;> rfl

/-- The parts of a listing that marks on variables and counts of functions do not touch. -/
structure Frozen where
  scopes : ScopeTree
  strings : StringTable
  nodes : Array Node
  globals : List VarId
  labels : List String
  labelCount : Nat
  callCount : Nat

/-- A listing without its variables and functions. -/
def frozen (listing : Listing) : Frozen :=
  { scopes := listing.scopes, strings := listing.strings, nodes := listing.nodes,
    globals := listing.globals, labels := listing.labels, labelCount := listing.labelCount,
    callCount := listing.callCount }

@[simp] theorem frozen_modifyVariable
    (listing : Listing)
    (changed : VarId)
    (change : Variable → Variable) :
    (listing.modifyVariable changed change).frozen = listing.frozen := by
  unfold modifyVariable
  split <;> rfl

/-- Every variable carries the number it is found under. -/
def Numbered (listing : Listing) : Prop :=
  ∀ id v, listing.fixed? id = some v → v.id = id

theorem numbered_addVariable
    (numbered : listing.Numbered)
    (type : Ty)
    (value : Value)
    (storage : VarId → Storage) :
    (listing.addVariable type value storage).1.Numbered := by
  intro id v found
  rw [fixed?_addVariable] at found
  split at found
  · cases found
    rfl
  · exact numbered id v found

/-- The signature a function was declared with. -/
def signature? (listing : Listing) (name : String) : Option Signature :=
  (listing.function? name).map fun function => function.signature

/-- The functions by signature, with where their nodes start and how many there are. -/
def tags (listing : Listing) : List (Signature × Nat × Nat) :=
  listing.functions.map fun function =>
    (function.signature, function.firstNode, function.nodeCount)

variable
    {change : Function → Function}

/-- Changing a function without moving it leaves its signature and its place in the list. -/
theorem function?_modifyFunction
    (listing : Listing)
    (changed : String)
    (keeps : ∀ function, (change function).signature = function.signature)
    (name : String) :
    (listing.modifyFunction changed change).function? name =
      (listing.function? name).map fun function =>
        if name = changed then change function else function := by
  unfold function? modifyFunction
  simp only [List.find?_map]
  have sameTest :
      ((fun function : Function => function.signature.name == name) ∘ fun function =>
        if function.signature.name = changed then change function else function) =
        fun function => function.signature.name == name := by
    funext function
    simp only [Function.comp]
    split <;> simp [keeps]
  rw [sameTest]
  cases found : listing.functions.find? fun function => function.signature.name == name with
  | none => rfl
  | some function =>
      have named : function.signature.name = name := by
        simpa using List.find?_some found
      simp only [Option.map_some, named]

/-- Changing the counts of a function leaves every signature as it was. -/
theorem signature?_modifyFunction
    (listing : Listing)
    (changed : String)
    (keeps : ∀ function, (change function).signature = function.signature)
    (name : String) :
    (listing.modifyFunction changed change).signature? name = listing.signature? name := by
  unfold signature?
  rw [function?_modifyFunction listing changed keeps]
  cases listing.function? name with
  | none => rfl
  | some function =>
      simp only [Option.map_some]
      split <;> simp [keeps]

/-- A function is found under the name in its signature. -/
theorem name_of_signature?
    {signature : Signature}
    (found : listing.signature? name = some signature) :
    signature.name = name := by
  obtain ⟨function, known, rfl⟩ := Option.map_eq_some_iff.mp found
  simpa using List.find?_some known

/-- Changing a function without moving it leaves every tag as it was. -/
theorem tags_modifyFunction
    (listing : Listing)
    (changed : String)
    (stays : ∀ function,
      ((change function).signature, (change function).firstNode, (change function).nodeCount) =
        (function.signature, function.firstNode, function.nodeCount)) :
    (listing.modifyFunction changed change).tags = listing.tags := by
  unfold tags modifyFunction
  simp only [List.map_map]
  congr 1
  funext function
  simp only [Function.comp]
  split
  · exact stays function
  · rfl

/-- A name under which no function is found belongs to none. -/
theorem fresh_name
    (free : listing.signature? name = none) :
    name ∉ listing.tags.map fun tag => tag.1.name := by
  unfold signature? function? at free
  simpa [tags] using free

/-- The tally of a function behind more of its nodes, the first of them at a position. -/
def counted (position added : Nat) (tally : Nat × Nat) : Nat × Nat :=
  if added = 0 then
    tally
  else
    (if tally.2 = 0 then position else tally.1, tally.2 + added)

theorem counted_counted
    (position first second : Nat)
    (tally : Nat × Nat) :
    counted (position + first) second (counted position first tally) =
      counted position (first + second) tally := by
  unfold counted
  by_cases firstZero : first = 0
  · simp [firstZero]
  · by_cases secondZero : second = 0
    · simp [firstZero, secondZero]
    · simp [firstZero, secondZero, Nat.add_assoc]

/-- The tag of a function behind nodes that belong to an owner. -/
def tagged (owner : Option Signature) (position added : Nat) (tag : Signature × Nat × Nat) :
    Signature × Nat × Nat :=
  if owner.map Signature.name = some tag.1.name then
    (tag.1, counted position added tag.2)
  else
    tag

theorem tagged_zero
    (owner : Option Signature)
    (position : Nat)
    (tag : Signature × Nat × Nat) :
    tagged owner position 0 tag = tag := by
  unfold tagged
  split <;> rfl

theorem fst_tagged
    (owner : Option Signature)
    (position added : Nat)
    (tag : Signature × Nat × Nat) :
    (tagged owner position added tag).1 = tag.1 := by
  unfold tagged
  split <;> rfl

variable
    {tag : Signature × Nat × Nat}
    {owner : Signature}

theorem tagged_other
    (other : tag.1.name ≠ owner.name)
    (position added : Nat) :
    tagged (some owner) position added tag = tag := by
  unfold tagged
  rw [if_neg]
  simpa using other.symm

theorem tagged_own
    (own : tag.1.name = owner.name)
    (position added : Nat) :
    tagged (some owner) position added tag = (tag.1, counted position added tag.2) := by
  unfold tagged
  rw [if_pos]
  simpa using own.symm

theorem tagged_tagged
    (owner : Option Signature)
    (position first second : Nat)
    (tag : Signature × Nat × Nat) :
    tagged owner (position + first) second (tagged owner position first tag) =
      tagged owner position (first + second) tag := by
  unfold tagged
  by_cases owned : owner.map Signature.name = some tag.1.name
  · simp only [owned, ↓reduceIte, counted_counted]
  · simp only [owned, ↓reduceIte]

end Listing

namespace Lower

theorem recordUses_cons
    (listing : Listing)
    (position : Nat)
    (id : VarId)
    (operands : List VarId) :
    recordUses listing position (id :: operands) =
      recordUses
        (listing.modifyVariable id fun v => { v with lastUse := some position })
        position operands :=
  rfl

@[simp] theorem fixed?_recordUses
    (listing : Listing)
    (position : Nat)
    (operands : List VarId)
    (id : VarId) :
    (recordUses listing position operands).fixed? id = listing.fixed? id := by
  induction operands generalizing listing with
  | nil => rfl
  | cons first rest inductionHypothesis =>
      rw [recordUses_cons, inductionHypothesis]
      apply Listing.fixed?_modifyVariable
      intro v _
      rfl

/-- A use is noted at the variables it is about and at no other. -/
theorem lastUse_recordUses
    {noted : Nat}
    {operands : List VarId}
    (used : (recordUses listing noted operands).lastUse id = some position) :
    listing.lastUse id = some position ∨ position = noted ∧ id ∈ operands := by
  induction operands generalizing listing with
  | nil => exact .inl used
  | cons first rest inductionHypothesis =>
      rw [recordUses_cons] at used
      rcases inductionHypothesis used with earlier | ⟨isHere, member⟩
      · rcases listing.lastUse_modifyVariable first _ earlier with old | ⟨isFirst, v, _, here⟩
        · exact .inl old
        · exact .inr ⟨(Option.some.inj here).symm, by simp [isFirst]⟩
      · exact .inr ⟨isHere, by simp [member]⟩

@[simp] theorem size_recordUses
    (listing : Listing)
    (position : Nat)
    (operands : List VarId) :
    (recordUses listing position operands).vars.size = listing.vars.size := by
  induction operands generalizing listing with
  | nil => rfl
  | cons first rest inductionHypothesis =>
      rw [recordUses_cons, inductionHypothesis, Listing.size_modifyVariable]

@[simp] theorem frozen_recordUses
    (listing : Listing)
    (position : Nat)
    (operands : List VarId) :
    (recordUses listing position operands).frozen = listing.frozen := by
  induction operands generalizing listing with
  | nil => rfl
  | cons first rest inductionHypothesis =>
      rw [recordUses_cons, inductionHypothesis, Listing.frozen_modifyVariable]

@[simp] theorem functions_recordUses
    (listing : Listing)
    (position : Nat)
    (operands : List VarId) :
    (recordUses listing position operands).functions = listing.functions := by
  induction operands generalizing listing with
  | nil => rfl
  | cons first rest inductionHypothesis =>
      rw [recordUses_cons, inductionHypothesis, Listing.functions_modifyVariable]

section AppendNode

variable
    (function : Option Signature)
    (listing : Listing)
    (node : Node)

/-- Appending a node changes nothing else but marks and counts. -/
theorem frozen_appendNode :
    (appendNode function listing node).frozen =
      { listing.frozen with nodes := listing.nodes.push node } := by
  unfold appendNode
  rw [frozen_recordUses]
  cases function <;> rfl

@[simp] theorem nodes_appendNode :
    (appendNode function listing node).nodes = listing.nodes.push node :=
  congrArg Listing.Frozen.nodes (frozen_appendNode function listing node)

@[simp] theorem scopes_appendNode :
    (appendNode function listing node).scopes = listing.scopes :=
  congrArg Listing.Frozen.scopes (frozen_appendNode function listing node)

@[simp] theorem strings_appendNode :
    (appendNode function listing node).strings = listing.strings :=
  congrArg Listing.Frozen.strings (frozen_appendNode function listing node)

@[simp] theorem globals_appendNode :
    (appendNode function listing node).globals = listing.globals :=
  congrArg Listing.Frozen.globals (frozen_appendNode function listing node)

@[simp] theorem labels_appendNode :
    (appendNode function listing node).labels = listing.labels :=
  congrArg Listing.Frozen.labels (frozen_appendNode function listing node)

@[simp] theorem labelCount_appendNode :
    (appendNode function listing node).labelCount = listing.labelCount :=
  congrArg Listing.Frozen.labelCount (frozen_appendNode function listing node)

@[simp] theorem callCount_appendNode :
    (appendNode function listing node).callCount = listing.callCount :=
  congrArg Listing.Frozen.callCount (frozen_appendNode function listing node)

@[simp] theorem fixed?_appendNode
    (id : VarId) :
    (appendNode function listing node).fixed? id = listing.fixed? id := by
  unfold appendNode
  rw [fixed?_recordUses]
  cases function <;> rfl

@[simp] theorem size_appendNode :
    (appendNode function listing node).vars.size = listing.vars.size := by
  unfold appendNode
  rw [size_recordUses]
  cases function <;> rfl

@[simp] theorem signature?_appendNode
    (name : String) :
    (appendNode function listing node).signature? name = listing.signature? name := by
  unfold appendNode
  unfold Listing.signature? Listing.function?
  rw [functions_recordUses]
  cases function with
  | none => rfl
  | some owner =>
      apply Listing.signature?_modifyFunction { listing with nodes := listing.nodes.push node }
      intro owner
      rfl

/-- A node is counted to the function it belongs to. -/
theorem tags_appendNode :
    (appendNode function listing node).tags =
      listing.tags.map (Listing.tagged function listing.nodes.size 1) := by
  unfold appendNode Listing.tags
  rw [functions_recordUses]
  cases function with
  | none => simp [Listing.tagged]
  | some owner =>
      simp only [Listing.modifyFunction, List.map_map]
      congr 1
      funext counted
      simp only [Function.comp, Listing.tagged, Option.map_some, Option.some.injEq, eq_comm]
      split <;> rfl

end AppendNode

/-- A node is the last use of what it is about. -/
theorem recorded_appendNode
    {function : Option Signature}
    {node : Node}
    (recorded : listing.Recorded) :
    (appendNode function listing node).Recorded := by
  intro id position used
  rw [nodes_appendNode]
  have noted : listing.lastUse id = some position ∨
      position = listing.nodes.size ∧ id ∈ node.operands := by
    rcases lastUse_recordUses used with earlier | new
    · left
      cases function <;> exact earlier
    · exact .inr new
  rcases noted with earlier | ⟨rfl, member⟩
  · obtain ⟨old, found, member⟩ := recorded id position earlier
    have inside := (Array.getElem?_eq_some_iff.mp found).1
    exact ⟨old, by rw [Array.getElem?_push_lt inside, ← found, Array.getElem?_eq_getElem inside],
      member⟩
  · exact ⟨node, by simp, member⟩

end Lower

end IlsCompiler
