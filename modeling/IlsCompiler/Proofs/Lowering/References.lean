import IlsCompiler.Proofs.Lowering.StatementGrowth

namespace IlsCompiler

/-!
# References between variables

A variable refers to others: an element to its array and its index, the result of a call to the
arguments, and a temporary or local to the variable that its value is taken from. What a variable
touches is all that these references lead to. A variable is alive as long as everything it
touches that can be destroyed is still pending. Variables and nodes are well formed when what they
refer to is of the kind that they need.
-/

/-- The variables that a place is made of. -/
def Storage.refs : Storage → List VarId
  | .element whole index => [whole, index]
  | .result _ call => call.arguments
  | _ => []

/-- The scope that a temporary or named variable belongs to. -/
def Storage.scope? : Storage → Option Nat
  | .named _ _ _ _ scope => some scope
  | .temporary _ scope => some scope
  | _ => none

variable
    {v : Variable}

namespace Variable

/-- The variables that a variable refers to itself. -/
def refs (v : Variable) : List VarId :=
  v.storage.refs ++ v.value.reference?.toList

@[simp] theorem refs_fixed
    (v : Variable) :
    v.fixed.refs = v.refs := by
  obtain ⟨id, type, value, preserved, lastUse, storage⟩ := v
  cases storage with
  | named name isGlobal isParam position scope => cases isParam <;> rfl
  | _ => rfl

@[simp] theorem needsDestroy_fixed
    (v : Variable) :
    v.fixed.needsDestroy = v.needsDestroy := by
  obtain ⟨id, type, value, preserved, lastUse, storage⟩ := v
  cases storage with
  | named name isGlobal isParam position scope => cases isParam <;> rfl
  | _ => rfl

/-- Whether a variable is a local that gets a slot: a named one that is destroyed. -/
def hasSlot (v : Variable) : Bool :=
  v.storage.isNamed && v.needsDestroy

theorem needsDestroy_of_hasSlot
    (hasSlot : v.hasSlot = true) :
    v.needsDestroy = true := by
  rw [Variable.hasSlot, Bool.and_eq_true] at hasSlot
  exact hasSlot.2

theorem scope?_fixed
    (destroyed : v.needsDestroy) :
    v.fixed.storage.scope? = v.storage.scope? := by
  obtain ⟨id, type, value, preserved, lastUse, storage⟩ := v
  cases storage with
  | named name isGlobal isParam position scope =>
      cases isParam with
      | true => simp [needsDestroy] at destroyed
      | false => rfl
  | _ => rfl

end Variable

variable
    {earlier later : Listing}

namespace Listing

variable
    {property : VarId → Variable → Prop}

/-- Where no variable is added, none is that has to be looked at. -/
theorem fresh_none
    (size : later.vars.size = earlier.vars.size) :
    ∀ id v, earlier.vars.size < id → later.fixed? id = some v → property id v := by
  intro id v isNew found
  have inside := (le_size_of_fixed? found).2
  rw [size] at inside
  exact (Nat.not_lt_of_le inside isNew).elim

/-- The only new variable of a listing is the last one. -/
theorem fresh_last
    {added : Variable}
    (size : later.vars.size = earlier.vars.size + 1)
    (found : later.fixed? (earlier.vars.size + 1) = some added)
    (holds : property (earlier.vars.size + 1) added) :
    ∀ id v, earlier.vars.size < id → later.fixed? id = some v → property id v := by
  intro id v isNew isFound
  have isLast : id = earlier.vars.size + 1 := by
    have inside := (le_size_of_fixed? isFound).2
    omega
  subst isLast
  rw [found, Option.some.injEq] at isFound
  rwa [← isFound]

/-- What a variable refers to, itself or through others. -/
inductive Touches (listing : Listing) : VarId → VarId → Prop
  | self (id : VarId) : Touches listing id id
  | step {id next target : VarId} {v : Variable} :
      listing.lookup? id = some v → next ∈ v.refs → Touches listing next target →
        Touches listing id target

/--
A variable exists, is pending if it is one that is destroyed, and everything it refers to is
alive as well.
-/
inductive Alive (listing : Listing) (pending : List VarId) : VarId → Prop
  | intro {id : VarId} {v : Variable} :
      listing.fixed? id = some v → (v.needsDestroy → id ∈ pending) →
        (∀ next ∈ v.refs, Alive listing pending next) → Alive listing pending id

namespace Alive

variable
    {listing earlier later : Listing}
    {pending more : List VarId}
    {id : VarId}

theorem found
    (alive : listing.Alive pending id) :
    ∃ v, listing.fixed? id = some v ∧ (v.needsDestroy → id ∈ pending) := by
  cases alive with
  | intro isFound held _ => exact ⟨_, isFound, held⟩

theorem touched
    {target : VarId}
    (alive : listing.Alive pending id)
    (touches : listing.Touches id target) :
    listing.Alive pending target := by
  induction touches with
  | self => exact alive
  | step isFound member _ inductionHypothesis =>
      cases alive with
      | intro known _ others =>
          simp only [fixed?, isFound, Option.map_some, Option.some.injEq] at known
          subst known
          exact inductionHypothesis (others _ (by simpa using member))

/-- What is alive stays so while the listing grows and nothing that is pending is destroyed. -/
theorem mono
    (alive : earlier.Alive pending id)
    (grown : earlier.Extends later)
    (kept : pending ⊆ more) :
    later.Alive more id := by
  induction alive with
  | intro isFound held _ inductionHypothesis =>
      exact .intro (grown.fixed?_of isFound) (fun destroyed => kept (held destroyed))
        inductionHypothesis

theorem le_size
    (alive : listing.Alive pending id) :
    id ≤ listing.vars.size := by
  obtain ⟨v, isFound, _⟩ := alive.found
  exact (le_size_of_fixed? isFound).2

end Alive

end Listing

/-- Whether a storage is that of a parameter. -/
def Storage.isParameter : Storage → Bool
  | .named _ _ isParam _ _ => isParam
  | _ => false

/-- Whether a storage is one that an argument is passed from: a constant or a temporary. -/
def Storage.isPassed : Storage → Bool
  | .literal => true
  | .temporary _ _ => true
  | _ => false

/-- Whether a variable can be an operand: a constant, or a place of its own that is no array. -/
def Variable.isOperand (v : Variable) : Bool :=
  match v.storage with
  | .named _ _ _ _ _ => !v.type.isArray
  | .array _ _ _ => false
  | _ => true

/-- Whether a storage is one that the value of an expression can have. -/
def Storage.isValue : Storage → Bool
  | .array _ _ _ => false
  | _ => true

variable
    {id : VarId}

namespace Listing

/-- A number belongs to a variable that can be the value of an expression. -/
def IsValue (listing : Listing) (id : VarId) : Prop :=
  ∃ v, listing.fixed? id = some v ∧ v.storage.isValue

/-- A number belongs to a variable that can be an operand. -/
def IsOperand (listing : Listing) (id : VarId) : Prop :=
  ∃ v, listing.fixed? id = some v ∧ v.isOperand

/-- A number belongs to a variable that is passed to a function or builtin. -/
def IsPassed (listing : Listing) (id : VarId) : Prop :=
  ∃ v, listing.fixed? id = some v ∧ v.storage.isPassed

theorem Extends.isValue
    (grown : earlier.Extends later)
    (known : earlier.IsValue id) :
    later.IsValue id := by
  obtain ⟨v, found, isValue⟩ := known
  exact ⟨v, grown.fixed?_of found, isValue⟩

theorem Extends.isOperand
    (grown : earlier.Extends later)
    (known : earlier.IsOperand id) :
    later.IsOperand id := by
  obtain ⟨v, found, operand⟩ := known
  exact ⟨v, grown.fixed?_of found, operand⟩

theorem Extends.isPassed
    (grown : earlier.Extends later)
    (known : earlier.IsPassed id) :
    later.IsPassed id := by
  obtain ⟨v, found, passed⟩ := known
  exact ⟨v, grown.fixed?_of found, passed⟩

end Listing

/--
A call gives a builtin arguments that it accepts, or a declared function as many arguments as it
takes.
-/
def Call.WellFormed (listing : Listing) (call : Call) : Prop :=
  (∀ id ∈ call.arguments, listing.IsPassed id) ∧
    if call.builtin then
      ∃ builtin,
        Builtin.ofName? call.name = some builtin ∧ call.arguments.length = builtin.arity ∧
          ∀ id ∈ call.arguments, ∃ v, listing.fixed? id = some v ∧ builtin.accepts v.type
    else
      ∃ function,
        call.function = some function ∧ listing.signature? call.name = some function ∧
          call.arguments.length = function.params.length

/-- An element is one of a named variable, and a pending call is one of a function. -/
def Storage.WellFormed (listing : Listing) : Storage → Prop
  | .element owner index =>
      (∃ w, listing.fixed? owner = some w ∧ w.storage.isNamed) ∧ listing.IsOperand index ∧
        ∀ v, listing.fixed? index = some v → v.storage = .literal →
          (Text.integer? 64 v.value.text).isSome
  | .result _ call => call.builtin = false ∧ call.WellFormed listing
  | _ => True

/-- A variable refers to earlier ones only, and what it takes its value from is no array. -/
structure Variable.WellFormed (listing : Listing) (id : VarId) (v : Variable) : Prop where
  descends : ∀ next ∈ v.refs, next < id
  storage : v.storage.WellFormed listing
  value : ∀ next, v.value.reference? = some next → listing.IsOperand next
  scalar : v.needsDestroy → v.isOperand

theorem Call.WellFormed.mono
    {call : Call}
    (formed : call.WellFormed earlier)
    (grown : earlier.Extends later) :
    call.WellFormed later := by
  obtain ⟨passed, called⟩ := formed
  refine ⟨fun id member => grown.isPassed (passed id member), ?_⟩
  by_cases isBuiltin : call.builtin = true
  · rw [if_pos isBuiltin] at called ⊢
    obtain ⟨builtin, known, arity, accepted⟩ := called
    refine ⟨builtin, known, arity, fun id member => ?_⟩
    obtain ⟨v, found, accepts⟩ := accepted id member
    exact ⟨v, grown.fixed?_of found, accepts⟩
  · rw [if_neg isBuiltin] at called ⊢
    obtain ⟨function, isFunction, declared, arity⟩ := called
    exact ⟨function, isFunction, grown.signatures _ _ declared, arity⟩

theorem Storage.WellFormed.mono
    {storage : Storage}
    (formed : storage.WellFormed earlier)
    (grown : earlier.Extends later) :
    storage.WellFormed later := by
  cases storage with
  | element owner index =>
      obtain ⟨⟨w, isOwner, isNamed⟩, ⟨v, found, operand⟩, numeric⟩ := formed
      refine ⟨⟨w, grown.fixed?_of isOwner, isNamed⟩, ⟨v, grown.fixed?_of found, operand⟩, ?_⟩
      intro other isOther isLiteral
      rw [grown.fixed?_of found, Option.some.injEq] at isOther
      exact numeric other (isOther ▸ found) isLiteral
  | result function call => exact ⟨formed.1, formed.2.mono grown⟩
  | _ => trivial

theorem Variable.WellFormed.mono
    (formed : v.WellFormed earlier id)
    (grown : earlier.Extends later) :
    v.WellFormed later id :=
  ⟨formed.descends, formed.storage.mono grown,
    fun next refers => grown.isOperand (formed.value next refers), formed.scalar⟩

namespace Node

/-- Whether a node does something between labels and declarations. -/
def isWork : Node → Bool
  | .assign _ _ _ _ _ => true
  | .arith _ _ _ _ _ => true
  | .compare _ _ _ => true
  | .jump _ _ => true
  | .call _ => true
  | .leave _ _ => true
  | _ => false

/--
What a node names is of the right kind: what an operation results in is a temporary, what is
assigned to is a named variable or an element of one, and a parameter that is assigned to is one
of the function. Operands are no arrays, but a function whose result is an array may return one.
-/
def WellFormed (function : Option Signature) (listing : Listing) : Node → Prop
  | .assign target value _ selected _ =>
      ∃ w,
        listing.fixed? target = some w ∧ w.storage.isNamed ∧
          (w.storage.isParameter → ∃ owner, function = some owner ∧ target ∈ owner.params) ∧
          (if selected = 0 then
            w.type.isArray = false
          else
            ∃ v owner index,
              listing.fixed? selected = some v ∧ v.storage = .element owner index) ∧
          ∀ next, value.reference? = some next →
            listing.IsOperand next ∨ w.type.element.isArray
  | .arith result left right _ _ =>
      listing.IsTemporary result ∧ listing.IsOperand left ∧ listing.IsOperand right
  | .compare left right _ => listing.IsOperand left ∧ listing.IsOperand right
  | .call invoked => invoked.WellFormed listing
  | .declare id _ => ∃ v, listing.fixed? id = some v ∧ v.needsDestroy
  | .leave value _ =>
      value = 0 ∨ listing.IsOperand value ∨
        ∃ owner, function = some owner ∧ owner.result.isArray
  | _ => True

theorem WellFormed.mono
    {function : Option Signature}
    {node : Node}
    (formed : node.WellFormed function earlier)
    (grown : earlier.Extends later) :
    node.WellFormed function later := by
  cases node with
  | assign target value type selected line =>
      obtain ⟨w, found, isNamed, owned, selects, refers⟩ := formed
      refine ⟨w, grown.fixed?_of found, isNamed, owned, ?_, fun next isNext =>
        (refers next isNext).imp_left grown.isOperand⟩
      by_cases none_ : selected = 0
      · rw [if_pos none_] at selects ⊢
        exact selects
      · rw [if_neg none_] at selects ⊢
        obtain ⟨v, owner, index, isSelected, storage⟩ := selects
        exact ⟨v, owner, index, grown.fixed?_of isSelected, storage⟩
  | arith result left right op line =>
      obtain ⟨⟨v, name, scope, found, storage⟩, leftOperand, rightOperand⟩ := formed
      exact ⟨⟨v, name, scope, grown.fixed?_of found, storage⟩, grown.isOperand leftOperand,
        grown.isOperand rightOperand⟩
  | compare left right line => exact ⟨grown.isOperand formed.1, grown.isOperand formed.2⟩
  | call invoked => exact Call.WellFormed.mono formed grown
  | declare id line =>
      obtain ⟨v, found, destroyed⟩ := formed
      exact ⟨v, grown.fixed?_of found, destroyed⟩
  | leave value line => exact formed.imp_right fun valued => valued.imp_left grown.isOperand
  | _ => trivial

/-- The variables that a node is about: its operands, and the variable whose value it stores. -/
def uses (node : Node) : List VarId :=
  match node with
  | .assign _ value _ _ _ => node.operands ++ value.reference?.toList
  | _ => node.operands

theorem mem_uses_of_operands
    {node : Node}
    (member : id ∈ node.operands) :
    id ∈ node.uses := by
  unfold uses
  split
  · exact List.mem_append_left _ member
  · exact member

/-- The lines that are told when no code can be made for a node. -/
def lines : Node → List Nat
  | .entry function => [function.line]
  | .declare _ line => [line]
  | .assign _ _ _ _ line => [line]
  | .arith _ _ _ _ line => [line]
  | .compare _ _ line => [line]
  | .call invoked => [invoked.line]
  | .leave _ line => [line]
  | _ => []

end Node

end IlsCompiler
