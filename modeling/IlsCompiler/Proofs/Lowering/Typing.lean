import Mathlib.Data.List.Forall2
import IlsCompiler.Proofs.Program.Constants
import IlsCompiler.Proofs.Lowering.FunctionSections
import IlsCompiler.Proofs.Lowering.References

namespace IlsCompiler

/-!
# Typed listings

What a listing stores keeps to types. A constant that is stored is spelled as one of the type that
is wanted, and anything else that is stored has that type, where integers and characters take each
other's place. The same goes for arguments and for values that are returned.
-/

/-- Where a value of a type may be taken from: no string is an element or an intermediate value. -/
def Variable.IsSource (v : Variable) : Prop :=
  match v.storage with
  | .named _ _ _ _ _ => True
  | .result _ _ => True
  | .temporary _ _ => v.type.IsItem
  | .element _ _ => v.type.IsItem
  | _ => False

/-- Whether a variable gives a value of a type: a constant that spells one, or one that is taken. -/
def Variable.Gives (strings : StringTable) (wanted : Ty) (v : Variable) : Prop :=
  match v.storage with
  | .literal => ∃ text, v.value = .literal text ∧ wanted.Spells strings text
  | .array _ _ _ => False
  | _ => wanted.Takes v.type

namespace Listing

/-- Whether a value may be stored where a type is wanted. -/
def Stores (listing : Listing) (wanted : Ty) : Value → Prop
  | .literal text => wanted.Spells listing.strings text
  | .reference id => ∃ v, listing.fixed? id = some v ∧ v.IsSource ∧ wanted.Takes v.type

/-- Whether a variable is passed where a type is wanted. -/
def Passes (listing : Listing) (wanted : Ty) (id : VarId) : Prop :=
  ∃ v, listing.fixed? id = some v ∧ v.Gives listing.strings wanted

end Listing

/-- A call gives every parameter an argument of its type, or a builtin one that it accepts. -/
def Call.Agrees (listing : Listing) (call : Call) : Prop :=
  match call.function with
  | some function =>
      List.Forall₂ (fun param given => ∃ p, listing.fixed? param = some p ∧
        listing.Passes p.type given) function.params call.arguments
  | none =>
      ∃ builtin, Builtin.ofName? call.name = some builtin ∧
        ∀ id ∈ call.arguments, ∃ type, builtin.accepts type ∧ listing.Passes type id

/--
A variable is declared with a value of its type, unless it is a parameter. A global one is declared
with a constant, and no other one is an array. A constant spells one of its type; an element has
the element type of its array, and the result of a call that of the function.
-/
def Variable.Typed (listing : Listing) (v : Variable) : Prop :=
  match v.storage with
  | .named _ isGlobal isParam _ _ =>
      v.type.IsStored ∧ (isParam = false → listing.Stores v.type v.value) ∧
        if isGlobal then ∃ text, v.value = .literal text else v.type.isArray = false
  | .temporary _ _ => listing.Stores v.type v.value
  | .literal =>
      v.type.isArray = false ∧ ∃ text, v.value = .literal text ∧ v.type.Spells listing.strings text
  | .element array _ =>
      v.type.IsItem ∧ ∃ w, listing.fixed? array = some w ∧ w.storage.isNamed ∧
        v.type = w.type.element
  | .array _ _ _ => True
  | .result function call =>
      v.type = function.result ∧ call.function = some function ∧ call.Agrees listing

/--
A node declares a global variable. A constant index of an element is a number that lies inside of its
array.
-/
def Variable.Anchored (listing : Listing) (v : Variable) : Prop :=
  match v.storage with
  | .named _ isGlobal _ _ _ =>
      isGlobal = true → ∃ line, .declare v.id line ∈ listing.nodes.toList
  | .element array index =>
      ∃ a i, listing.fixed? array = some a ∧ listing.fixed? index = some i ∧
        (i.storage = .literal → i.type.isArithmetic ∧
          Lower.indexOutside i.value.text a.type.length = false)
  | _ => True

namespace Node

/--
What a node in a function stores, passes or returns has the type of the variable or element, of the
parameter or of the function. Operations are done on numbers and give an integer.
-/
def Typed (function : Option Signature) (listing : Listing) : Node → Prop
  | .assign target value _ element _ =>
      ∃ v, listing.fixed? target = some v ∧ v.storage.isNamed ∧
        if element = 0 then
          listing.Stores v.type value
        else
          ∃ place index, listing.fixed? element = some place ∧
            place.storage = .element target index ∧ place.type = v.type.element ∧
            listing.Stores place.type value
  | .arith result left right _ _ =>
      (∃ v, listing.fixed? result = some v ∧ v.type = .int) ∧
        ∀ id ∈ [left, right], ∃ v, listing.fixed? id = some v ∧ v.type.isArithmetic
  | .call invoked => invoked.Agrees listing
  | .leave value _ =>
      ∃ signature, function = some signature ∧
        (value = 0 ∧ signature.isVoid ∨ listing.Passes signature.result value)
  | _ => True

end Node

/-- The lines that are told when a pending call cannot be made. -/
def Variable.lines (v : Variable) : List Nat :=
  match v.storage with
  | .result _ call => [call.line]
  | _ => []

variable
    {v : Variable}
    {node : Node}
    {function : Option Signature}

section Growth

variable
    {earlier later : Listing}
    {wanted : Ty}

theorem Variable.Gives.mono
    (gives : v.Gives earlier.strings wanted)
    (grown : earlier.Extends later) :
    v.Gives later.strings wanted := by
  unfold Variable.Gives at gives ⊢
  split at gives
  · obtain ⟨text, isValue, spells⟩ := gives
    exact ⟨text, isValue, spells.mono grown.strings⟩
  · exact gives
  · exact gives

theorem Listing.Stores.mono
    {value : Value}
    (stores : earlier.Stores wanted value)
    (grown : earlier.Extends later) :
    later.Stores wanted value := by
  cases value with
  | literal text => exact Ty.Spells.mono stores grown.strings
  | reference id =>
      obtain ⟨v, found, isSource, takes⟩ := stores
      exact ⟨v, grown.fixed?_of found, isSource, takes⟩

theorem Listing.Passes.mono
    {id : VarId}
    (passes : earlier.Passes wanted id)
    (grown : earlier.Extends later) :
    later.Passes wanted id := by
  obtain ⟨v, found, gives⟩ := passes
  exact ⟨v, grown.fixed?_of found, gives.mono grown⟩

theorem Call.Agrees.mono
    {called : Call}
    (agrees : called.Agrees earlier)
    (grown : earlier.Extends later) :
    called.Agrees later := by
  unfold Call.Agrees at agrees ⊢
  split at agrees
  · refine agrees.imp fun param given passed => ?_
    obtain ⟨p, found, passes⟩ := passed
    exact ⟨p, grown.fixed?_of found, passes.mono grown⟩
  · obtain ⟨builtin, known, each⟩ := agrees
    refine ⟨builtin, known, fun id member => ?_⟩
    obtain ⟨type, accepted, passes⟩ := each id member
    exact ⟨type, accepted, passes.mono grown⟩

theorem Variable.Typed.mono
    (typed : v.Typed earlier)
    (grown : earlier.Extends later) :
    v.Typed later := by
  unfold Variable.Typed at typed ⊢
  split at typed
  · exact ⟨typed.1, fun isLocal => (typed.2.1 isLocal).mono grown, typed.2.2⟩
  · exact typed.mono grown
  · obtain ⟨noArray, text, isValue, spells⟩ := typed
    exact ⟨noArray, text, isValue, spells.mono grown.strings⟩
  · obtain ⟨isItem, w, found, isNamed, isType⟩ := typed
    exact ⟨isItem, w, grown.fixed?_of found, isNamed, isType⟩
  · trivial
  · exact ⟨typed.1, typed.2.1, typed.2.2.mono grown⟩

theorem Variable.Anchored.mono
    (anchored : v.Anchored earlier)
    (grown : earlier.Extends later) :
    v.Anchored later := by
  unfold Variable.Anchored at anchored ⊢
  split at anchored
  · intro isGlobal
    obtain ⟨line, member⟩ := anchored isGlobal
    exact ⟨line, grown.nodes.subset member⟩
  · obtain ⟨a, i, isArray, isIndex, inside⟩ := anchored
    exact ⟨a, i, grown.fixed?_of isArray, grown.fixed?_of isIndex, inside⟩
  · trivial

theorem Node.Typed.mono
    (typed : node.Typed function earlier)
    (grown : earlier.Extends later) :
    node.Typed function later := by
  cases node with
  | assign target value type element line =>
      obtain ⟨v, found, isNamed, stores⟩ := typed
      refine ⟨v, grown.fixed?_of found, isNamed, ?_⟩
      by_cases whole : element = 0
      · rw [if_pos whole] at stores ⊢
        exact stores.mono grown
      · rw [if_neg whole] at stores ⊢
        obtain ⟨place, index, isPlace, storage, isType, stored⟩ := stores
        exact ⟨place, index, grown.fixed?_of isPlace, storage, isType, stored.mono grown⟩
  | arith result left right op line =>
      obtain ⟨⟨v, found, isType⟩, each⟩ := typed
      refine ⟨⟨v, grown.fixed?_of found, isType⟩, fun id member => ?_⟩
      obtain ⟨w, isFound, arithmetic⟩ := each id member
      exact ⟨w, grown.fixed?_of isFound, arithmetic⟩
  | call invoked => exact Call.Agrees.mono typed grown
  | leave value line =>
      obtain ⟨signature, isFunction, returned⟩ := typed
      exact ⟨signature, isFunction, returned.imp_right fun passes => passes.mono grown⟩
  | _ => trivial

end Growth

/-!
## Steps that keep to types

Lowering adds variables and nodes that keep to types, as long as those that are there do, and they
tell lines of the program.
-/

/--
Every variable of a listing carries its number, keeps to its type, is declared if it is global, keeps
to the bounds of its array, and tells known lines.
-/
structure Listing.Sound (known : Nat → Prop) (listing : Listing) : Prop where
  numbered : listing.Numbered
  typed : ∀ id v, listing.fixed? id = some v → v.Typed listing
  anchored : ∀ id v, listing.fixed? id = some v → v.Anchored listing
  lines : ∀ id v, listing.fixed? id = some v → ∀ line ∈ v.lines, known line

/-- A node keeps to types and tells known lines. -/
structure Node.Sound (known : Nat → Prop) (function : Option Signature) (listing : Listing)
    (node : Node) : Prop where
  typed : node.Typed function listing
  lines : ∀ line ∈ node.lines, known line

variable
    {known : Nat → Prop}

theorem Node.sound_plain
    {listing : Listing}
    (plain : node.isPlain) :
    node.Sound known function listing := by
  cases node with
  | label | prologue | epilogue | openScope | closeScope | jump | destroy =>
      exact ⟨by simp [Typed], by simp [Node.lines]⟩
  | _ => cases plain

/-- What has been added from one state to another keeps to types and tells known lines. -/
structure LoweringState.Respects (known : Nat → Prop) (before after : LoweringState) : Prop where
  extends_ : before.listing.Extends after.listing
  function : after.function = before.function
  sound : after.listing.Sound known
  nodes : ∀ node ∈ after.listing.since before.listing,
    node.Sound known before.function after.listing

namespace LoweringState.Respects

variable
    {known : Nat → Prop}
    {before between after : LoweringState}

theorem refl
    (sound : before.listing.Sound known) :
    before.Respects known before where
  extends_ := .refl _
  function := rfl
  sound := sound
  nodes := by simp

theorem trans
    (earlier : before.Respects known between)
    (later : between.Respects known after) :
    before.Respects known after where
  extends_ := earlier.extends_.trans later.extends_
  function := later.function.trans earlier.function
  sound := later.sound
  nodes := by
    intro node member
    rw [earlier.extends_.since_trans later.extends_] at member
    rcases List.mem_append.mp member with isFirst | isSecond
    · obtain ⟨typed, lines⟩ := earlier.nodes node isFirst
      exact ⟨typed.mono later.extends_, lines⟩
    · rw [← earlier.function]
      exact later.nodes node isSecond

end LoweringState.Respects

/-- Variables that are added to a listing have to be looked at, the others stay as they are. -/
theorem Listing.Sound.grown
    {earlier later : Listing}
    (sound : earlier.Sound known)
    (grown : earlier.Extends later)
    (fresh : ∀ id v, earlier.vars.size < id → later.fixed? id = some v →
      v.Typed later ∧ v.Anchored later ∧ ∀ line ∈ v.lines, known line) :
    later.Sound known where
  numbered := grown.numbered sound.numbered
  typed id v found := by
    by_cases isOld : id ≤ earlier.vars.size
    · rw [grown.stable id isOld] at found
      exact (sound.typed id v found).mono grown
    · exact (fresh id v (Nat.lt_of_not_le isOld) found).1
  anchored id v found := by
    by_cases isOld : id ≤ earlier.vars.size
    · rw [grown.stable id isOld] at found
      exact (sound.anchored id v found).mono grown
    · exact (fresh id v (Nat.lt_of_not_le isOld) found).2.1
  lines id v found := by
    by_cases isOld : id ≤ earlier.vars.size
    · rw [grown.stable id isOld] at found
      exact sound.lines id v found
    · exact (fresh id v (Nat.lt_of_not_le isOld) found).2.2

namespace LoweringState

variable
    {known : Nat → Prop}
    {before after : LoweringState}
    {added : List Node}

/-- Nodes are added and no variables. -/
theorem respects_nodes
    (sound : before.listing.Sound known)
    (grown : before.listing.Extends after.listing)
    (function : after.function = before.function)
    (size : after.listing.vars.size = before.listing.vars.size)
    (nodes : after.listing.nodes.toList = before.listing.nodes.toList ++ added)
    (each : ∀ node ∈ added, node.Sound known before.function after.listing) :
    before.Respects known after where
  extends_ := grown
  function := function
  sound := sound.grown grown (Listing.fresh_none size)
  nodes := by
    have isAdded : after.listing.since before.listing = added := by
      simp [Listing.since, nodes]
    rw [isAdded]
    exact each

/-- A variable is added, with or without nodes behind it. -/
theorem respects_variable
    (sound : before.listing.Sound known)
    (grown : before.listing.Extends after.listing)
    (function : after.function = before.function)
    (size : after.listing.vars.size = before.listing.vars.size + 1)
    (found : after.listing.fixed? (before.listing.vars.size + 1) = some v)
    (typed : v.Typed after.listing)
    (anchored : v.Anchored after.listing)
    (lines : ∀ line ∈ v.lines, known line)
    (nodes : after.listing.nodes.toList = before.listing.nodes.toList ++ added)
    (each : ∀ node ∈ added, node.Sound known before.function after.listing) :
    before.Respects known after where
  extends_ := grown
  function := function
  sound := sound.grown grown (Listing.fresh_last size found ⟨typed, anchored, lines⟩)
  nodes := by
    have isAdded : after.listing.since before.listing = added := by
      simp [Listing.since, nodes]
    rw [isAdded]
    exact each

theorem respects_appended
    (sound : before.listing.Sound known)
    (isSound : node.Sound known before.function before.listing) :
    before.Respects known (before.appended node) := by
  refine respects_nodes sound (extends_appended before node) rfl (size_appended before node)
    (by simp : _ = before.listing.nodes.toList ++ [node]) ?_
  intro other member
  cases List.mem_singleton.mp member
  exact ⟨isSound.typed.mono (extends_appended before node), isSound.lines⟩

theorem respects_destroyed
    (sound : before.listing.Sound known)
    (id : VarId) :
    before.Respects known (before.destroyed id) := by
  unfold destroyed
  split
  · refine respects_nodes sound (extends_appended _ _) rfl (size_appended _ _)
      (by simp : _ = before.listing.nodes.toList ++ [.destroy id]) ?_
    intro other member
    cases List.mem_singleton.mp member
    exact Node.sound_plain rfl
  · exact .refl sound

theorem respects_withTemporary
    (sound : before.listing.Sound known)
    {type : Ty}
    {value : Value}
    (stores : before.listing.Stores type value)
    (isResult : Bool)
    {line : Nat}
    (here : known line) :
    before.Respects known (before.withTemporary type value isResult line) := by
  have grown := (computes_withTemporary before type value isResult line).extends_
  refine respects_variable sound grown rfl (size_withTemporary before type value isResult line)
    (fixed?_withTemporary before type value isResult line) (stores.mono grown) trivial
    (fun _ member => (List.not_mem_nil member).elim)
    (by simp [nodes_withTemporary] : _ = before.listing.nodes.toList ++
      [.declare (before.listing.vars.size + 1) line]) ?_
  intro node member
  cases List.mem_singleton.mp member
  exact ⟨by simp [Node.Typed], by simpa [Node.lines] using here⟩

end LoweringState

end IlsCompiler
