import IlsCompiler.Proofs.Lowering.CallCounts
import IlsCompiler.Proofs.Lowering.Typing
import IlsCompiler.Proofs.Program.Lines

namespace IlsCompiler

/-!
# Expressions keep to types

The value of an expression is a constant of its type or may be stored as what it is. Everything
that is added to compute it keeps to types, and so do the arguments that calls in it are given.
-/

namespace Listing

/-- A number belongs to a constant or to a variable that a value is taken from. -/
def IsOutcome (listing : Listing) (id : VarId) : Prop :=
  ∃ v, listing.fixed? id = some v ∧ (v.storage = .literal ∨ v.IsSource)

variable
    {known : Nat → Prop}
    {listing : Listing}
    {wanted : Ty}
    {id : VarId}
    {v : Variable}

theorem IsOutcome.grown
    {later : Listing}
    (isOutcome : listing.IsOutcome id)
    (grown : listing.Extends later) :
    later.IsOutcome id := by
  obtain ⟨v, found, isValue⟩ := isOutcome
  exact ⟨v, grown.fixed?_of found, isValue⟩

theorem IsOutcome.isValue
    (isOutcome : listing.IsOutcome id) :
    ∃ v, listing.fixed? id = some v ∧ v.storage.isValue := by
  obtain ⟨v, found, isLiteral | isSource⟩ := isOutcome
  · exact ⟨v, found, by rw [isLiteral]; rfl⟩
  · refine ⟨v, found, ?_⟩
    unfold Variable.IsSource at isSource
    split at isSource <;> simp_all [Storage.isValue]

/-- What is stored for a constant or a source has the type that takes it. -/
theorem Sound.stores
    (sound : listing.Sound known)
    (isOutcome : listing.IsOutcome id)
    (found : listing.fixed? id = some v)
    (takes : wanted.Takes v.type) :
    listing.Stores wanted (Lower.bound v) := by
  obtain ⟨w, isFound, isValue⟩ := isOutcome
  cases isFound.symm.trans found
  have typed := sound.typed id v found
  have number := sound.numbered id v found
  rcases isValue with isLiteral | isSource
  · simp only [Variable.Typed, isLiteral] at typed
    obtain ⟨_, text, isText, spells⟩ := typed
    simp only [Lower.bound, isLiteral, isText]
    exact takes.spells spells
  · have isReference : Lower.bound v = .reference id := by
      unfold Variable.IsSource at isSource
      unfold Lower.bound
      split at isSource <;> simp_all
    rw [isReference]
    exact ⟨v, found, isSource, takes⟩

/-- A variable that is no constant array may be passed where its type is taken. -/
theorem Sound.passes
    (sound : listing.Sound known)
    (found : listing.fixed? id = some v)
    (isValue : v.storage.isValue)
    (takes : wanted.Takes v.type) :
    listing.Passes wanted id := by
  refine ⟨v, found, ?_⟩
  have typed := sound.typed id v found
  unfold Variable.Gives
  split
  next isLiteral =>
    simp only [Variable.Typed, isLiteral] at typed
    obtain ⟨_, text, isText, spells⟩ := typed
    exact ⟨text, isText, takes.spells spells⟩
  next isArray =>
    rw [isArray] at isValue
    cases isValue
  next => exact takes

end Listing

namespace Lower

open LoweringState Listing

/-- A value is assignable if there is one and its type is taken. -/
theorem takes_of_assignable
    {wanted given : Ty}
    {line : Nat}
    (assigned : assignable wanted given line = .ok ()) :
    given ≠ .absent ∧ wanted.Takes given := by
  unfold assignable at assigned
  split at assigned
  · cases assigned
  next some_ =>
    split at assigned
    next takes => exact ⟨fun isAbsent => some_ (.inl isAbsent), takes⟩
    · cases assigned

variable
    {state : LoweringState}
    {id : VarId}

/-- There is a variable where a type is told. -/
theorem exists_of_typeIn
    (some_ : typeIn state id ≠ .absent) :
    ∃ v, state.listing.fixed? id = some v ∧ v.type = typeIn state id := by
  unfold typeIn at some_ ⊢
  cases found : state.listing.fixed? id with
  | none => simp [found] at some_
  | some v => exact ⟨v, rfl, rfl⟩

/-- A variable that can be computed with exists. -/
theorem exists_of_arithmetic
    (arithmetic : (typeIn state id).isArithmetic) :
    ∃ v, state.listing.fixed? id = some v ∧ v.type.isArithmetic := by
  have some_ : typeIn state id ≠ .absent := by
    intro isAbsent
    rw [isAbsent] at arithmetic
    cases arithmetic
  obtain ⟨v, found, isType⟩ := exists_of_typeIn some_
  exact ⟨v, found, isType ▸ arithmetic⟩

variable
    {v : Variable}

theorem typeIn_of_found
    (found : state.listing.fixed? id = some v) :
    typeIn state id = v.type := by
  simp [typeIn, found]

variable
    {known : Nat → Prop}
    {before after : LoweringState}
    {line : Nat}

/-- A constant that is entered is one of the string table. -/
theorem spells_intern
    (table : StringTable)
    (text : Bytes) :
    Ty.str.Spells (table.intern text).1 (table.intern text).2 := by
  unfold StringTable.intern
  dsimp only
  split
  next position isThere =>
    obtain ⟨inside, same, _⟩ := List.idxOf?_eq_some_iff.mp isThere
    refine ⟨table.contents[position], ?_⟩
    unfold StringTable.entries
    exact List.mem_mapIdx.mpr ⟨position, inside, rfl⟩
  next =>
    refine ⟨Text.normalize text, ?_⟩
    unfold StringTable.entries
    exact List.mem_mapIdx.mpr ⟨table.contents.length, by simp, by simp⟩

/-- The text of a constant that can be written is shown as it is. -/
theorem display_of_spells
    {type : Ty}
    {strings : StringTable}
    {text : String}
    (isItem : type.IsItem)
    (spells : type.Spells strings text) :
    (Bytes.ofString text).display = text := by
  have ofNumber : (Text.integer? 32 text).isSome → (Bytes.ofString text).display = text := by
    intro isNumber
    obtain ⟨value, read⟩ := Option.isSome_iff_exists.mp isNumber
    exact Bytes.display_ofString (Text.ascii_of_integer? read)
  rcases isItem with rfl | rfl | rfl
  · exact ofNumber spells
  · exact ofNumber spells
  · rcases spells with rfl | rfl <;> decide +kernel

theorem respects_withLiteral
    (sound : before.listing.Sound known)
    {value : Literal}
    (spelled : value.IsSpelled) :
    before.Respects known (before.withLiteral value) ∧
      (before.withLiteral value).listing.IsOutcome (before.listing.vars.size + 1) := by
  have grown := (computes_withLiteral before value).extends_
  obtain ⟨v, found, isLiteral, typed⟩ : ∃ v,
      (before.withLiteral value).listing.fixed? (before.listing.vars.size + 1) = some v ∧
        v.storage = .literal ∧ v.Typed (before.withLiteral value).listing := by
    cases value with
    | scalar type text =>
        obtain ⟨isItem, spells⟩ := spelled
        have noString : type ≠ .str := by
          rintro rfl
          simp [Ty.IsItem] at isItem
        have noArray : type.isArray = false := by
          rcases isItem with rfl | rfl | rfl <;> rfl
        have shown := display_of_spells isItem (spells before.listing.strings)
        have added : (before.withLiteral (.scalar type text)).listing =
            (before.listing.addVariable type (.literal text) fun _ => .literal).1 := by
          simp [withLiteral, addLiteral, noString, shown]
        rw [added, fixed?_addVariable, if_pos rfl]
        exact ⟨_, rfl, rfl, noArray, text, rfl, spells _⟩
    | string contents =>
        have added : (before.withLiteral (.string contents)).listing =
            ({ before.listing with
                strings := (before.listing.strings.intern contents).1 }.addVariable
              .str (.literal (before.listing.strings.intern contents).2) fun _ => .literal).1 := by
          simp [withLiteral, addLiteral]
        rw [added, fixed?_addVariable, if_pos rfl]
        exact ⟨_, rfl, rfl, rfl, _, rfl, spells_intern _ _⟩
  refine ⟨respects_variable sound grown ?_ (size_withLiteral _ _) found typed
    (by simp [Variable.Anchored, isLiteral]) (by simp [Variable.lines, isLiteral]) (by simp : _ = before.listing.nodes.toList ++ []) (by simp),
    v, found, .inl isLiteral⟩
  cases value <;> rfl

variable
    {name : String}

/-- A variable that a name stands for has its number and is a named one. -/
theorem resolve_found
    {target : Variable}
    (sound : before.listing.Sound known)
    (resolved : resolve name line before = .ok (target, after)) :
    after = before ∧ before.listing.fixed? target.id = some target.fixed ∧
      target.fixed.storage.isNamed := by
  obtain ⟨rfl, id, _, lookup, isNamed⟩ := resolve_ok resolved
  have found : after.listing.fixed? id = some target.fixed := by simp [Listing.fixed?, lookup]
  have number : target.id = id := sound.numbered id target.fixed found
  exact ⟨rfl, number ▸ found, by simpa using isNamed⟩

theorem isSource_of_named
    (isNamed : v.storage.isNamed) :
    v.IsSource := by
  unfold Variable.IsSource
  cases storage : v.storage <;> simp_all [Storage.isNamed]

variable
    {id copied : VarId}

/-- A value that is copied for another use keeps its type. -/
theorem materialize_respects
    (sound : before.listing.Sound known)
    (here : known line)
    (found : before.listing.fixed? id = some v)
    (materialized : materialize id line before = .ok (copied, after)) :
    before.Respects known after ∧
      ∃ w, after.listing.fixed? copied = some w ∧ w.type = v.type := by
  rcases materialize_ok materialized with ⟨w, function, call, isFound, storage, rfl, rfl⟩ |
    ⟨rfl, rfl, _⟩
  · cases isFound.symm.trans found
    have isSource : v.IsSource := by simp [Variable.IsSource, storage]
    have stores : before.listing.Stores v.type (.reference id) :=
      ⟨v, found, isSource, Ty.takes_refl _⟩
    exact ⟨respects_withTemporary sound stores false here, _, fixed?_withTemporary _ _ _ _ _, rfl⟩
  · exact ⟨.refl sound, v, found, rfl⟩

/-- A constant is not copied, so a constant index is the one that was looked at. -/
theorem index_of_materialize
    {length : Int}
    (found : before.listing.fixed? id = some v)
    (arithmetic : v.type.isArithmetic)
    (inside : ∀ w, before.listing.fixed? id = some w → w.storage = .literal →
      indexOutside w.value.text length = false)
    (materialized : materialize id line before = .ok (copied, after)) :
    ∃ w, after.listing.fixed? copied = some w ∧
      (w.storage = .literal → w.type.isArithmetic ∧
        indexOutside w.value.text length = false) := by
  rcases materialize_ok materialized with ⟨w, function, call, isFound, storage, rfl, rfl⟩ |
    ⟨rfl, rfl, _⟩
  · exact ⟨_, fixed?_withTemporary _ _ _ _ _, nofun⟩
  · exact ⟨v, found, fun isLiteral => ⟨arithmetic, inside v found isLiteral⟩⟩

/-- An argument has the type of the value that is passed. -/
theorem argument_respects
    {function : String}
    (sound : before.listing.Sound known)
    (here : known line)
    (isOutcome : before.listing.IsOutcome id)
    (passed : argument function id line before = .ok (copied, after)) :
    before.Respects known after ∧
      ∃ w, after.listing.fixed? copied = some w ∧ w.storage.isValue := by
  rcases argument_ok passed with ⟨v, isFound, isCopied, _, rfl, rfl⟩ | ⟨rfl, rfl, _⟩
  · obtain ⟨w, found, isValue⟩ := isOutcome
    cases found.symm.trans isFound
    have isSource : v.IsSource := by
      rcases isValue with isLiteral | isSource
      · rw [isLiteral] at isCopied
        cases isCopied
      · exact isSource
    have stores : before.listing.Stores v.type (.reference id) :=
      ⟨v, found, isSource, Ty.takes_refl _⟩
    exact ⟨respects_withTemporary sound stores false here, _, fixed?_withTemporary _ _ _ _ _, rfl⟩
  · exact ⟨.refl sound, isOutcome.isValue⟩

/-- An element has the type of the elements of its array. -/
theorem element_respects
    {array : Variable}
    {index id : VarId}
    (sound : before.listing.Sound known)
    (here : known line)
    (isArray : array.type.isArray)
    (found : before.listing.fixed? array.id = some array.fixed)
    (isNamed : array.fixed.storage.isNamed)
    (accessed : element array index line before = .ok (id, after)) :
    before.Respects known after ∧
      ∃ v position, after.listing.fixed? id = some v ∧ v.storage = .element array.id position ∧
        v.type = array.type.element ∧ v.type.IsItem := by
  obtain ⟨arithmetic, inside, position, between, copied, rfl, rfl⟩ := element_ok accessed
  obtain ⟨w, isIndex, isNumber⟩ := exists_of_arithmetic arithmetic
  obtain ⟨copies, _⟩ := materialize_respects sound here isIndex copied
  obtain ⟨i, isPosition, bound⟩ := index_of_materialize isIndex isNumber inside copied
  have isThere := copies.extends_.fixed?_of found
  obtain ⟨v, isElement, storage, isType⟩ := fixed?_withElement between array.id position
  have grown := (computes_withElement between array.id position).extends_
  have sameType : v.type = array.type.element := by simp [isType, isThere, Variable.fixed]
  have isItem : v.type.IsItem := by
    have typed := sound.typed _ _ found
    rw [sameType]
    cases storage : array.fixed.storage with
    | named name isGlobal isParam place scope =>
        simp only [Variable.Typed, storage] at typed
        have stored : array.type.IsStored := typed.1
        cases whole : array.type with
        | array item length =>
            rw [whole] at stored
            exact stored.1
        | _ => simp [whole, Ty.isArray] at isArray
    | _ => simp [storage, Storage.isNamed] at isNamed
  refine ⟨copies.trans (respects_variable copies.sound grown rfl (by
      simp [withElement, addElement]) isElement ?_ ?_ (by simp [Variable.lines, storage])
      (by simp [withElement, addElement, addVariable] : _ = between.listing.nodes.toList ++ [])
      nofun), v, position, isElement, storage, sameType, isItem⟩
  · simp only [Variable.Typed, storage]
    exact ⟨isItem, array.fixed, grown.fixed?_of isThere, isNamed, sameType⟩
  · simp only [Variable.Anchored, storage]
    exact ⟨array.fixed, i, grown.fixed?_of isThere, grown.fixed?_of isPosition, bound⟩

theorem operation_respects
    {op : ArithOp}
    {left right id : VarId}
    (sound : before.listing.Sound known)
    (here : known line)
    (operated : operation op left right line before = .ok (id, after)) :
    before.Respects known after ∧ after.listing.IsOutcome id := by
  obtain ⟨leftArithmetic, rightArithmetic, leftOperand, rightOperand, middle, between, leftCopied,
    rightCopied, rfl, rfl⟩ := operation_ok operated
  obtain ⟨leftVariable, isLeft, leftType⟩ := exists_of_arithmetic leftArithmetic
  obtain ⟨rightVariable, isRight, rightType⟩ := exists_of_arithmetic rightArithmetic
  obtain ⟨leftCopies, leftCopy, isLeftCopy, leftSame⟩ :=
    materialize_respects sound here isLeft leftCopied
  obtain ⟨rightCopies, rightCopy, isRightCopy, rightSame⟩ :=
    materialize_respects leftCopies.sound here (leftCopies.extends_.fixed?_of isRight) rightCopied
  have stores : between.listing.Stores .int (.literal "0") :=
    Ty.IsItem.spells_zero (.inl rfl) between.listing.strings
  have declares : between.Respects known (between.withTemporary .int (.literal "0") true line) :=
    respects_withTemporary rightCopies.sound stores true here
  have isResult := fixed?_withTemporary between .int (.literal "0") true line
  have computes : (between.withTemporary .int (.literal "0") true line).Respects known
      ((between.withTemporary .int (.literal "0") true line).appended
        (.arith (between.listing.vars.size + 1) leftOperand rightOperand op line)) := by
    refine respects_appended declares.sound ⟨⟨⟨_, isResult, rfl⟩, ?_⟩, by simpa [Node.lines]⟩
    intro operand member
    rcases List.mem_cons.mp member with rfl | isOther
    · exact ⟨leftCopy, declares.extends_.fixed?_of (rightCopies.extends_.fixed?_of isLeftCopy),
        leftSame ▸ leftType⟩
    · cases List.mem_singleton.mp isOther
      exact ⟨rightCopy, declares.extends_.fixed?_of isRightCopy, rightSame ▸ rightType⟩
  have destroys := respects_destroyed computes.sound leftOperand
  have ends := (computes.trans destroys).trans (respects_destroyed destroys.sound rightOperand)
  refine ⟨((leftCopies.trans rightCopies).trans declares).trans ends, _,
    ends.extends_.fixed?_of isResult, .inr ?_⟩
  exact .inl rfl

/-- Arguments are checked against the types of the parameters. -/
theorem requireParameters_takes
    {params given : List VarId}
    {done : Unit}
    (sound : before.listing.Sound known)
    (sameLength : given.length = params.length)
    (passed : ∀ id ∈ given, ∃ v, before.listing.fixed? id = some v ∧ v.storage.isValue)
    (required : requireParameters params given line before = .ok (done, after)) :
    List.Forall₂ (fun param argument => ∃ p, before.listing.fixed? param = some p ∧
      before.listing.Passes p.type argument) params given := by
  induction params generalizing given with
  | nil =>
      cases List.length_eq_zero_iff.mp sameLength
      exact .nil
  | cons param params inductionHypothesis =>
      cases given with
      | nil => cases sameLength
      | cons first rest =>
          unfold requireParameters at required
          simp only [Stateful.bind_ok_iff] at required
          obtain ⟨_, _, typed, _, _, checked, later⟩ := required
          obtain ⟨rfl, rfl⟩ := typeOf_ok_iff.mp typed
          obtain ⟨assigned, same⟩ := requireAssignable_ok checked
          rw [same] at later
          obtain ⟨isGiven, takes⟩ := takes_of_assignable assigned
          obtain ⟨v, found, isValue⟩ := passed first (by simp)
          rw [typeIn_of_found found] at isGiven takes
          have isWanted : typeIn before param ≠ .absent := by
            intro isAbsent
            rw [isAbsent] at takes
            rcases takes with same | ⟨arithmetic, _⟩
            · exact isGiven same.symm
            · cases arithmetic
          obtain ⟨p, isParam, isType⟩ := exists_of_typeIn isWanted
          rw [← isType] at takes
          exact .cons ⟨p, isParam, sound.passes found isValue takes⟩ (inductionHypothesis
            (by simpa using sameLength) (fun id member => passed id (by simp [member])) later)

theorem respects_counted
    (sound : before.listing.Sound known)
    (function : Signature) :
    before.Respects known (before.counted function) :=
  respects_nodes sound (computes_counted before function).extends_ rfl rfl
    (List.append_nil _).symm nofun

theorem respects_marked
    (sound : before.listing.Sound known)
    (ids : List VarId) :
    before.Respects known (before.marked ids) := by
  obtain ⟨grown, frozen, _⟩ := extends_marks before.listing ids
  have nodes : (before.marked ids).listing.nodes = before.listing.nodes :=
    congrArg Listing.Frozen.nodes frozen
  exact respects_nodes sound grown rfl (size_marked ids)
    (by rw [nodes, List.append_nil] : _ = before.listing.nodes.toList ++ []) nofun

variable
    {called : Call}

/-- A call node is sound if the call agrees. -/
theorem respects_called
    (sound : before.listing.Sound known)
    (agrees : called.Agrees before.listing)
    (here : known called.line) :
    before.Respects known (before.appended (.call called)) :=
  respects_appended sound ⟨agrees, by simpa [Node.lines]⟩

variable
    {function : Signature}

/-- The result of a call has the type of the function. -/
theorem respects_withResult
    (sound : before.listing.Sound known)
    (agrees : called.Agrees before.listing)
    (isFunction : called.function = some function)
    (here : known called.line) :
    before.Respects known (before.withResult function called) ∧
      (before.withResult function called).listing.IsOutcome (before.listing.vars.size + 1) := by
  have grown := (computes_withResult before function called).extends_
  have found : (before.withResult function called).listing.fixed? (before.listing.vars.size + 1) =
      some
        { id := before.listing.vars.size + 1, type := function.result, value := .literal "rax",
          preserved := false, lastUse := none, storage := .result function called } := by
    simp [withResult, addResult, Storage.fixed]
  refine ⟨respects_variable sound grown rfl (by simp [withResult, addResult]) found
    ⟨rfl, isFunction, agrees.mono grown⟩ trivial (by simpa [Variable.lines])
    (by simp [withResult, addResult, addVariable] : _ = before.listing.nodes.toList ++ []) (by simp),
    _, found, .inr trivial⟩

variable
    {result : Option VarId}
    {given : List VarId}
    {isStatement : Bool}

theorem invoke_checked
    (invoked : invoke function given line isStatement before = .ok (result, after)) :
    requireParameters function.params given line before = .ok ((), before) := by
  unfold invoke at invoked
  obtain ⟨_, _, checked, _⟩ := Stateful.bind_ok_iff.mp invoked
  cases requireParameters_ok checked
  exact checked

/-- A call to a declared function gives every parameter an argument of its type. -/
theorem invoke_respects
    (sound : before.listing.Sound known)
    (here : known line)
    (sameLength : given.length = function.params.length)
    (passed : ∀ id ∈ given, ∃ v, before.listing.fixed? id = some v ∧ v.storage.isValue)
    (invoked : invoke function given line isStatement before = .ok (result, after)) :
    before.Respects known after ∧ ∀ id, result = some id → after.listing.IsOutcome id := by
  have agrees : (before.nextCall function given line).Agrees before.listing :=
    requireParameters_takes sound sameLength passed (invoke_checked invoked)
  have counts := respects_counted sound function
  have stillAgrees := agrees.mono counts.extends_
  rcases invoke_ok invoked with ⟨_, rfl, rfl⟩ | ⟨_, rfl, rfl⟩
  · have marks := respects_marked counts.sound given
    have calls := respects_called marks.sound (stillAgrees.mono marks.extends_) here
    exact ⟨(counts.trans marks).trans calls, nofun⟩
  · obtain ⟨results, isOutcome⟩ := respects_withResult counts.sound stillAgrees rfl here
    cases isStatement with
    | true =>
        have calls := respects_called results.sound (stillAgrees.mono results.extends_) here
        refine ⟨(counts.trans results).trans calls, fun id same => ?_⟩
        cases same
        exact isOutcome.grown calls.extends_
    | false =>
        refine ⟨counts.trans results, fun id same => ?_⟩
        cases same
        exact isOutcome

/-- A call to a builtin gives it arguments of types that it accepts. -/
theorem invokeBuiltin_respects
    {builtin : Builtin}
    {done : Unit}
    (sound : before.listing.Sound known)
    (here : known line)
    (isBuiltin : Builtin.ofName? name = some builtin)
    (passed : ∀ id ∈ given, ∃ v, before.listing.fixed? id = some v ∧ v.storage.isValue)
    (invoked : invokeBuiltin builtin given line before = .ok (done, after)) :
    before.Respects known after := by
  obtain ⟨accepted, rfl⟩ := invokeBuiltin_ok invoked
  let counted : LoweringState := { before with
    listing := { before.listing with callCount := before.listing.callCount + 1 } }
  have grown : before.listing.Extends counted.listing :=
    { Listing.Extends.refl before.listing with calls := Nat.le_succ _ }
  have counts : before.Respects known counted :=
    respects_nodes sound grown rfl rfl (List.append_nil _).symm nofun
  have sameName : builtin.name = name := by simpa using List.find?_some isBuiltin
  have agrees : (before.nextBuiltinCall builtin given line).Agrees before.listing := by
    refine ⟨builtin, ?_, fun id member => ?_⟩
    · show Builtin.ofName? builtin.name = some builtin
      rw [sameName, isBuiltin]
    · obtain ⟨v, found, isValue⟩ := passed id member
      have accepts := accepted id member
      rw [typeIn_of_found found] at accepts
      exact ⟨v.type, accepts, sound.passes found isValue (Ty.takes_refl _)⟩
  exact counts.trans (respects_called counts.sound (agrees.mono grown) here)

/-- An expression keeps to types, and its value is a constant or may be stored. -/
theorem evaluated_respects
    (known : Nat → Prop) :
    Evaluated
      (fun expr before after result => before.listing.Sound known → expr.IsWritten →
        (∀ line ∈ expr.lines, known line) →
          before.Respects known after ∧ ∀ id, result = some id → after.listing.IsOutcome id)
      fun _ line given before after ids => before.listing.Sound known → known line →
        partsWritten given → (∀ line ∈ linesOfParts given, known line) →
          before.Respects known after ∧ ids.length = given.length ∧
            ∀ id ∈ ids, ∃ v, after.listing.fixed? id = some v ∧ v.storage.isValue where
  name _ resolved sound _ _ := by
    obtain ⟨-, found, isNamed⟩ := resolve_found sound resolved
    refine ⟨.refl sound, fun id same => ?_⟩
    cases same
    exact ⟨_, found, .inr (isSource_of_named isNamed)⟩
  literal _ _ _ sound written _ :=
    (respects_withLiteral sound written.isSpelled).imp_right fun isOutcome _ same =>
      Option.some.inj same ▸ isOutcome
  folded _ _ evaluated sound _ _ :=
    (respects_withLiteral sound (isSpelled_of_evaluate evaluated)).imp_right fun isOutcome _ same =>
      Option.some.inj same ▸ isOutcome
  binary _ _ _ operated left right sound written lines := by
    rw [Expr.lines, List.forall_mem_cons, List.forall_mem_append] at lines
    have lefts := (left sound written.1 lines.2.1).1
    have rights := (right lefts.sound written.2 lines.2.2).1
    obtain ⟨operates, isOutcome⟩ := operation_respects rights.sound lines.1 operated
    exact ⟨(lefts.trans rights).trans operates, fun _ same => Option.some.inj same ▸ isOutcome⟩
  element _ resolved isArray _ accessed index sound written lines := by
    rw [Expr.lines, List.forall_mem_cons] at lines
    obtain ⟨-, found, isNamed⟩ := resolve_found sound resolved
    have indexes := (index sound written lines.2).1
    obtain ⟨accesses, v, _, isElement, storage, _, isItem⟩ := element_respects indexes.sound
      lines.1 isArray (indexes.extends_.fixed?_of found) isNamed accessed
    refine ⟨indexes.trans accesses, fun _ same => ?_⟩
    cases same
    exact ⟨v, isElement, .inr (by simpa [Variable.IsSource, storage])⟩
  builtin isBuiltin _ _ invoked passed sound written lines := by
    rw [Expr.lines, List.forall_mem_cons] at lines
    obtain ⟨passes, _, areValues⟩ := passed sound lines.1 written lines.2
    exact ⟨passes.trans (invokeBuiltin_respects passes.sound lines.1 isBuiltin areValues invoked),
      by simp⟩
  invoke _ arity _ invoked passed sound written lines := by
    rw [Expr.lines, List.forall_mem_cons] at lines
    obtain ⟨passes, sameLength, areValues⟩ := passed sound lines.1 written lines.2
    obtain ⟨invokes, isOutcome⟩ :=
      invoke_respects passes.sound lines.1 (sameLength.trans arity) areValues invoked
    refine ⟨passes.trans invokes, fun id same => ?_⟩
    split at same
    · cases same
    · exact isOutcome id same
  nil _ sound _ _ _ := ⟨.refl sound, rfl, by simp⟩
  cons _ passed _ first rest sound here written lines := by
    rw [linesOfParts, List.forall_mem_append] at lines
    obtain ⟨computes, isOutcome⟩ := first sound written.1 lines.1
    obtain ⟨copies, copied, isCopied, isValue⟩ :=
      argument_respects computes.sound here (isOutcome _ rfl) passed
    obtain ⟨others, sameLength, areValues⟩ := rest copies.sound here written.2 lines.2
    exact ⟨(computes.trans copies).trans others, congrArg Nat.succ sameLength,
      List.forall_mem_cons.mpr ⟨⟨copied, others.extends_.fixed?_of isCopied, isValue⟩, areValues⟩⟩

theorem expression_respects
    {expr : Expr}
    (sound : before.listing.Sound known)
    (written : expr.IsWritten)
    (lines : ∀ line ∈ expr.lines, known line)
    (lowered : expression expr before = .ok (result, after)) :
    before.Respects known after ∧ ∀ id, result = some id → after.listing.IsOutcome id :=
  (evaluated_respects known).expression lowered sound written lines

end Lower

end IlsCompiler
