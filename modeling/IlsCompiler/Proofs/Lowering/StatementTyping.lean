import IlsCompiler.Proofs.Lowering.ExpressionTyping
import IlsCompiler.Proofs.Lowering.StatementCounts

namespace IlsCompiler

/-!
# Statements keep to types

Every statement stores, passes and returns only what is taken, so the nodes and variables that are
added for it keep to types when those that are there do.
-/

variable
    {text : String}

namespace LoweringState

/-- A step of lowering adds only what keeps to types and tells known lines. -/
def Keeps (known : Nat → Prop) (before after : LoweringState) : Prop :=
  before.listing.Sound known → before.Respects known after

namespace Keeps

variable
    {known : Nat → Prop}
    {before between after : LoweringState}

theorem refl
    (state : LoweringState) :
    state.Keeps known state :=
  fun sound => Respects.refl sound

theorem trans
    (earlier : before.Keeps known between)
    (later : between.Keeps known after) :
    before.Keeps known after :=
  fun sound => (earlier sound).trans (later (earlier sound).sound)

/-- A step that adds neither nodes nor variables. -/
theorem of_same
    (grown : before.listing.Extends after.listing)
    (function : after.function = before.function)
    (size : after.listing.vars.size = before.listing.vars.size)
    (nodes : after.listing.nodes = before.listing.nodes) :
    before.Keeps known after :=
  fun sound => respects_nodes sound grown function size
    (by rw [nodes, List.append_nil] : _ = before.listing.nodes.toList ++ []) nofun

/-- A node that stores, passes and returns nothing. -/
theorem appended
    (state : LoweringState)
    {node : Node}
    (plain : node.isPlain) :
    state.Keeps known (state.appended node) :=
  fun sound => respects_appended sound (Node.sound_plain plain)

end Keeps

theorem plainly_keeps
    {known : Nat → Prop} :
    Plainly (Keeps known) where
  refl := .refl
  trans := .trans
  same grown function _ size nodes := .of_same grown function size nodes
  plain state _ plain := .appended state plain

variable
    {known : Nat → Prop}
    {state : LoweringState}
    {type : Ty}
    {line : Nat}

/-- A local variable is declared with a value of its type. -/
theorem respects_withLocal
    (sound : state.listing.Sound known)
    (here : known line)
    (name : String)
    {value : Value}
    (stored : type.IsStored)
    (noArray : type.isArray = false)
    (stores : state.listing.Stores type value) :
    state.Respects known (state.withLocal name type value line) := by
  have grown := (proceeds_withLocal state name type value line).extends_
  obtain ⟨v, found, storage, isValue, isType⟩ := fixed?_withLocal state name type value line
  refine respects_variable sound grown rfl (by
      simp [withLocal, Listing.addNamed, Listing.addVariable]) found ?_
    (by simp [Variable.Anchored, storage]) (by simp [Variable.lines, storage])
    (by rw [nodes_withLocal, Array.toList_push]) ?_
  · simp only [Variable.Typed, storage, isType, isValue, Bool.false_eq_true, ↓reduceIte]
    exact ⟨stored, fun _ => stores.mono grown, noArray⟩
  · intro node member
    cases List.mem_singleton.mp member
    exact ⟨by simp [Node.Typed], by simpa [Node.lines] using here⟩

/-- A global variable is declared with a constant of its type. -/
theorem respects_withGlobal
    (sound : state.listing.Sound known)
    (here : known line)
    (name : String)
    (stored : type.IsStored)
    (spells : type.Spells state.listing.strings text) :
    state.Respects known (state.withGlobal name type (.literal text) line) := by
  have grown := (proceeds_withGlobal state name type (.literal text) line).extends_
  obtain ⟨v, found, storage, isValue, isType⟩ :=
    fixed?_withGlobal state name type (.literal text) line
  have number : v.id = state.listing.vars.size + 1 := grown.numbered sound.numbered _ v found
  have isDeclared : v.Anchored (state.withGlobal name type (.literal text) line).listing := by
    simp only [Variable.Anchored, storage, number, nodes_withGlobal, Array.toList_push]
    exact fun _ => ⟨line, by simp⟩
  refine respects_variable sound grown rfl (by
      simp [withGlobal, Listing.addNamed, Listing.addVariable]) found ?_ isDeclared
    (by simp [Variable.lines, storage]) (by rw [nodes_withGlobal, Array.toList_push]) ?_
  · simp only [Variable.Typed, storage, isType, isValue, ↓reduceIte]
    exact ⟨stored, fun _ => Ty.Spells.mono spells grown.strings, text, rfl⟩
  · intro node member
    cases List.mem_singleton.mp member
    exact ⟨by simp [Node.Typed], by simpa [Node.lines] using here⟩

end LoweringState

namespace Lower

open LoweringState Stateful Listing

variable
    {known : Nat → Prop}
    {before after : LoweringState}
    {line : Nat}
    {done : Unit}
    {type : Ty}

/-- The default of a type is a constant of it. -/
theorem spells_defaultText
    (stored : type.IsStored)
    (state : LoweringState) :
    type.Spells (defaulted state type).listing.strings
      (defaultText state.listing.strings type) := by
  unfold defaulted defaultText
  split
  next isString =>
    subst isString
    exact spells_intern _ _
  next other => exact Ty.spells_default stored other _

/-- A term of a condition that is written, on lines that are known. -/
def TermKept (known : Nat → Prop) (term : Comparison) : Prop :=
  term.IsWritten ∧ ∀ line ∈ term.lines, known line

theorem comparison_keeps
    {term : Comparison}
    {left right : VarId}
    {test : CmpOp}
    (kept : TermKept known term)
    (lowered : comparison term before = .ok ((left, right, test), after)) :
    before.Keeps known (after.appended (.compare left right term.line)) := by
  obtain ⟨written, lines⟩ := kept
  obtain ⟨left, middle, right, between, _, _, _, _, leftLowered, rightLowered, _, _, _, leftCopied,
    rightCopied, _⟩ := comparison_ok lowered
  simp only [Comparison.lines, List.forall_mem_cons, List.forall_mem_append] at lines
  obtain ⟨here, leftLines, rightLines⟩ := lines
  have secondWritten : term.second.IsWritten ∧ ∀ line ∈ term.second.lines, known line := by
    unfold Comparison.second
    cases given : term.right with
    | none =>
        exact ⟨⟨['1'], 1, rfl, by decide, .inl rfl⟩, by simpa [Expr.lines] using here⟩
    | some expr =>
        have written := written.2
        rw [given] at written rightLines
        exact ⟨written, rightLines⟩
  intro sound
  obtain ⟨lefts, leftOutcome⟩ := expression_respects sound written.1 leftLines leftLowered
  obtain ⟨rights, rightOutcome⟩ :=
    expression_respects lefts.sound secondWritten.1 secondWritten.2 rightLowered
  obtain ⟨leftVariable, isLeft, _⟩ := (leftOutcome _ rfl).grown rights.extends_
  obtain ⟨rightVariable, isRight, _⟩ := rightOutcome _ rfl
  obtain ⟨leftCopies, _⟩ := materialize_respects rights.sound here isLeft leftCopied
  obtain ⟨rightCopies, _⟩ := materialize_respects leftCopies.sound here
    (leftCopies.extends_.fixed?_of isRight) rightCopied
  have copied := ((lefts.trans rights).trans leftCopies).trans rightCopies
  exact copied.trans (respects_appended copied.sound
    ⟨by simp [Node.Typed], by simpa [Node.lines]⟩)

variable
    {whenTrue whenFalse : String}

/-- A variable that is declared for the first time has a type. -/
theorem declare_usable
    (isNew : (before.listing.scopes.isModule before.scope &&
      before.listing.scopes.isModuleName name) = false)
    (lowered : declare line name type initial before = .ok (done, after)) :
    type ≠ .void := by
  rintro rfl
  unfold declare at lowered
  simp only [bind_ok_iff, frame_ok_iff, get_ok_iff] at lowered
  obtain ⟨_, _, ⟨rfl, rfl⟩, _, _, ⟨rfl, rfl⟩, later⟩ := lowered
  have sameScope : (before.frames.headD .outermost).scope = before.scope := rfl
  simp only [sameScope, isNew, Bool.false_eq_true, ↓reduceIte, reduceCtorEq, or_true] at later
  obtain ⟨_, _, failed, -⟩ := bind_ok_iff.mp later
  exact (fail_ok_iff.mp failed).elim

/-- A value that is computed is stored as one of its type. -/
theorem boundIn_stores
    {wanted : Ty}
    {id : VarId}
    (sound : after.listing.Sound known)
    (isOutcome : after.listing.IsOutcome id)
    (assigned : assignable wanted (typeIn after id) line = .ok ()) :
    after.listing.Stores wanted (boundIn after id) := by
  obtain ⟨v, found, isValue⟩ := isOutcome
  have takes := (takes_of_assignable assigned).2
  rw [typeIn_of_found found] at takes
  simp only [boundIn, found]
  exact sound.stores ⟨v, found, isValue⟩ found takes

theorem declare_local_keeps
    (isLocal : before.listing.scopes.isModule before.scope = false)
    (stored : type.IsStored)
    (here : known line)
    (written : valueWritten initial)
    (lines : ∀ line ∈ linesOfValue initial, known line)
    (lowered : declare line name type initial before = .ok (done, after)) :
    before.Keeps known after := by
  intro sound
  obtain ⟨noArray, value, between, initialized, _, rfl⟩ := declare_local_ok isLocal lowered
  rcases initializer_ok initialized with ⟨_, rfl, rfl⟩ | ⟨expr, id, rfl, exprLowered, assigned, rfl⟩
  · have defaults := plainly_keeps.defaulted before type sound
    exact defaults.trans (respects_withLocal defaults.sound here name stored noArray
      (spells_defaultText stored before))
  · obtain ⟨computes, isOutcome⟩ := expression_respects sound written lines exprLowered
    exact computes.trans (respects_withLocal computes.sound here name stored noArray
      (boundIn_stores computes.sound (isOutcome _ rfl) assigned))

/-- The text of a constant is one of its type. -/
theorem scalarConstant_spells
    {expr : Expr}
    {given : Ty}
    (written : expr.IsWritten)
    (isConstant : scalarConstant expr = .ok (text, given))
    (strings : StringTable) :
    given.Spells strings text := by
  unfold scalarConstant at isConstant
  split at isConstant
  · cases isConstant
  · cases isConstant
    exact (Literal.IsWritten.isSpelled written).2 strings
  next other notString notScalar =>
    split at isConstant
    next constant =>
      split at isConstant
      · cases isConstant
      next number evaluated =>
        cases isConstant
        cases expr with
        | binary => exact (isSpelled_of_evaluate evaluated).2 strings
        | literal line value => cases value <;> simp_all
        | _ => cases constant
    · cases isConstant

/-- The elements of a constant array are constants of the element type. -/
theorem arrayConstants_spell
    {wanted : Ty}
    {elements : List Expr}
    {texts : List String}
    (written : partsWritten elements)
    (found : arrayConstants wanted elements = .ok texts)
    (strings : StringTable) :
    texts.length = elements.length ∧ ∀ item ∈ texts, wanted.Spells strings item := by
  induction elements generalizing texts with
  | nil =>
      cases found
      exact ⟨rfl, nofun⟩
  | cons first rest inductionHypothesis =>
      rw [arrayConstants] at found
      cases isConstant : scalarConstant first with
      | error failure => simp [isConstant, bind, Except.bind] at found
      | ok constant =>
          rcases constant with ⟨text, given⟩
          cases assigned : assignable wanted given first.line with
          | error failure => simp [isConstant, assigned, bind, Except.bind] at found
          | ok =>
              cases others : arrayConstants wanted rest with
              | error failure => simp [isConstant, assigned, others, bind, Except.bind] at found
              | ok items =>
                  simp only [isConstant, assigned, others, bind, Except.bind, pure, Except.pure,
                    Except.ok.injEq] at found
                  subst found
                  obtain ⟨sameLength, each⟩ := inductionHypothesis written.2 others
                  refine ⟨by simp [sameLength], ?_⟩
                  rw [List.forall_mem_cons]
                  exact ⟨(takes_of_assignable assigned).2.spells
                    (scalarConstant_spells written.1 isConstant strings), each⟩

/-- The constant of a global variable is one of its type. -/
theorem constant_keeps
    {value : Value}
    (stored : type.IsStored)
    (written : valueWritten initial)
    (agrees : ∀ expr ∈ initial, Parser.literalFault? type expr = none)
    (lowered : constant line name type initial before = .ok (value, after)) :
    before.Keeps known after ∧
      ∃ text, value = .literal text ∧ type.Spells after.listing.strings text := by
  rcases constant_ok lowered with ⟨_, rfl, rfl⟩ |
    ⟨_, elements, texts, rfl, isArray, sameLength, found, rfl, rfl⟩ |
    ⟨_, contents, rfl, _, rfl, rfl⟩ |
    ⟨expr, text, given, rfl, _, isConstant, assigned, rfl, rfl⟩
  · exact ⟨plainly_keeps.defaulted before type, _, rfl, spells_defaultText stored before⟩
  · obtain ⟨length, each⟩ := arrayConstants_spell written found before.listing.strings
    refine ⟨fun sound => ?_, _, rfl, ?_⟩
    · have isThere := Listing.fixed?_addVariable before.listing (.array type.element type.length)
        (.literal (", ".intercalate texts)) (fun _ =>
          .array type.element type.length (", ".intercalate texts)) (before.listing.vars.size + 1)
      exact respects_variable sound (constant_proceeds lowered).extends_ rfl (Array.size_push _)
        (isThere.trans (if_pos rfl)) trivial trivial nofun (List.append_nil _).symm nofun
    · cases type with
      | array element size => exact ⟨texts, rfl, by rw [length]; exact sameLength, each⟩
      | _ => cases isArray
  · have isString : type = .str := by
      have fits := agrees _ rfl
      rw [Parser.literalFault?] at fits
      split at fits
      next same => exact same
      next => cases fits
    subst isString
    exact ⟨plainly_keeps.withString before contents, _, rfl, spells_intern _ _⟩
  · exact ⟨.refl _, text, rfl, (takes_of_assignable assigned).2.spells
      (scalarConstant_spells written isConstant _)⟩

theorem declare_keeps
    (here : known line)
    (usable : type.IsStored ∨ type = .void)
    (written : valueWritten initial)
    (agrees : ∀ expr ∈ initial, Parser.literalFault? type expr = none)
    (lines : ∀ line ∈ linesOfValue initial, known line)
    (lowered : declare line name type initial before = .ok (done, after)) :
    before.Keeps known after := by
  cases isModule : before.listing.scopes.isModule before.scope with
  | false =>
      have stored := usable.resolve_right (declare_usable (by simp [isModule]) lowered)
      exact declare_local_keeps isModule stored here written lines lowered
  | true =>
      rcases declare_module_ok isModule lowered with ⟨_, rfl⟩ | ⟨isNew, value, between, found, rfl⟩
      · exact .refl _
      · have stored := usable.resolve_right (declare_usable (by simp [isNew]) lowered)
        obtain ⟨constants, text, rfl, spells⟩ := constant_keeps stored written agrees found
        intro sound
        have finds := constants sound
        exact finds.trans (respects_withGlobal finds.sound here name stored spells)

theorem assign_keeps
    {index : Option Expr}
    {expr : Expr}
    (here : known line)
    (indexWritten : valueWritten index)
    (indexLines : ∀ line ∈ linesOfValue index, known line)
    (written : expr.IsWritten)
    (lines : ∀ line ∈ expr.lines, known line)
    (lowered : assign line name index expr before = .ok (done, after)) :
    before.Keeps known after := by
  intro sound
  obtain ⟨target, wanted, selected, middle, id, between, resolved, indexed, exprLowered, assigned,
    stored⟩ := assign_ok lowered
  obtain ⟨_, found, isNamed⟩ := resolve_found sound resolved
  -- What is stored in: the variable as a whole, or an element that has been accessed.
  obtain ⟨selects, isPlace⟩ : before.Respects known middle ∧
      ((selected = 0 ∧ wanted = target.fixed.type) ∨ (selected ≠ 0 ∧ ∃ place position,
        middle.listing.fixed? selected = some place ∧
          place.storage = .element target.id position ∧ place.type = target.fixed.type.element ∧
          wanted = place.type)) := by
    rcases indexed with ⟨_, _, rfl, rfl, rfl⟩ | ⟨position, rfl, accessed, rfl⟩
    · exact ⟨.refl sound, .inl ⟨rfl, rfl⟩⟩
    · obtain ⟨_, reached, isArray, positionLowered, elementAccessed⟩ := elementOf_ok accessed
      obtain ⟨positions, _⟩ := expression_respects sound indexWritten indexLines positionLowered
      obtain ⟨accesses, place, access, isElement, storage, isType, _⟩ := element_respects
        positions.sound here isArray (positions.extends_.fixed?_of found) isNamed elementAccessed
      have positive := (Listing.le_size_of_fixed? isElement).1
      exact ⟨positions.trans accesses, .inr ⟨Nat.ne_of_gt positive, place, access, isElement,
        storage, isType, typeIn_of_found isElement⟩⟩
  obtain ⟨computes, isOutcome⟩ := expression_respects selects.sound written lines exprLowered
  have isTarget := computes.extends_.fixed?_of (selects.extends_.fixed?_of found)
  obtain ⟨v, isValue, isGood⟩ := isOutcome _ rfl
  rcases stored with ⟨w, isFound, rfl⟩ | ⟨none_, rfl⟩
  · cases isFound.symm.trans isValue
    have takes := (takes_of_assignable assigned).2
    rw [typeIn_of_found isValue] at takes
    have stores := computes.sound.stores ⟨v, isValue, isGood⟩ isValue takes
    refine (selects.trans computes).trans (respects_appended computes.sound
      ⟨⟨target.fixed, isTarget, isNamed, ?_⟩, by simpa [Node.lines]⟩)
    rcases isPlace with ⟨rfl, rfl⟩ | ⟨nonzero, place, position, isElement, storage, isType, rfl⟩
    · rw [if_pos rfl]
      exact stores
    · rw [if_neg nonzero]
      exact ⟨place, position, computes.extends_.fixed?_of isElement, storage, isType, stores⟩
  · cases none_.symm.trans isValue

/-- A return without a value stands in a function that gives none back. -/
theorem leave_void
    {function : Signature}
    (isFunction : before.function = some function)
    (lowered : leave line none before = .ok (done, after)) :
    function.isVoid := by
  unfold leave at lowered
  obtain ⟨_, _, got, later⟩ := bind_ok_iff.mp lowered
  obtain ⟨rfl, rfl⟩ := get_ok_iff.mp got
  cases around : enclosingFrame? .function before.frames with
  | none =>
      simp only [isFunction, around] at later
      exact (fail_ok_iff.mp later).elim
  | some body =>
      cases isVoid : function.isVoid with
      | true => rfl
      | false =>
          simp only [isFunction, around, isVoid, Bool.not_false, ↓reduceIte] at later
          obtain ⟨_, _, failed, -⟩ := bind_ok_iff.mp later
          exact (fail_ok_iff.mp failed).elim

theorem leave_keeps
    {result : Option Expr}
    (here : known line)
    (written : valueWritten result)
    (lines : ∀ line ∈ linesOfValue result, known line)
    (lowered : leave line result before = .ok (done, after)) :
    before.Keeps known after := by
  obtain ⟨function, body, id, between, isFunction, _, given, rfl⟩ := leave_ok lowered
  refine Keeps.trans (fun sound => ?_) (Keeps.appended _ rfl)
  rcases given with ⟨rfl, rfl, rfl⟩ | ⟨expr, rfl, exprLowered, assigned⟩
  · exact respects_appended sound
      ⟨⟨function, isFunction, .inl ⟨rfl, leave_void isFunction lowered⟩⟩, by simpa [Node.lines]⟩
  · obtain ⟨computes, isOutcome⟩ := expression_respects sound written lines exprLowered
    obtain ⟨v, found, isValue⟩ := (isOutcome _ rfl).isValue
    have takes := (takes_of_assignable assigned).2
    rw [typeIn_of_found found] at takes
    exact computes.trans (respects_appended computes.sound
      ⟨⟨function, computes.function.trans isFunction,
        .inr (computes.sound.passes found isValue takes)⟩, by simpa [Node.lines]⟩)

theorem callStatement_keeps
    {builtin : Bool}
    {given : List Expr}
    (here : known line)
    (written : partsWritten given)
    (lines : ∀ line ∈ linesOfParts given, known line)
    (lowered : callStatement line name builtin given before = .ok (done, after)) :
    before.Keeps known after :=
  fun sound => ((evaluated_respects known).callStatement lowered sound written
    (by simpa [Expr.lines] using ⟨here, lines⟩)).1

/-- A test whose terms are written, on lines that are known. -/
def TestKept (known : Nat → Prop) (test : Option Condition) : Prop :=
  testWritten test ∧ ∀ line ∈ linesOfTest test, known line

/-- A statement that is written, on lines that are known. -/
def StmtKept (known : Nat → Prop) (stmt : Stmt) : Prop :=
  stmt.IsWritten ∧ ∀ line ∈ stmt.lines, known line

/-- Statements that are written, on lines that are known. -/
def BodyKept (known : Nat → Prop) (body : List Stmt) : Prop :=
  bodyWritten body ∧ ∀ line ∈ linesOfBody body, known line

theorem inherited_kept :
    Inherited (StmtKept known) (fun arm => arm.IsWritten ∧ ∀ line ∈ arm.lines, known line)
      (BodyKept known) (TestKept known) where
  block := by
    rintro line body ⟨written, lines⟩
    exact ⟨written, (List.forall_mem_cons.mp lines).2⟩
  choose := by
    rintro line test bodyLine body next ⟨⟨testGood, bodyGood, nextGood⟩, lines⟩
    simp only [Stmt.lines, List.forall_mem_cons, List.forall_mem_append] at lines
    exact ⟨⟨testGood, lines.2.1.1⟩, ⟨bodyGood, lines.2.1.2⟩, nextGood, lines.2.2⟩
  loop := by
    rintro line test bodyLine body ⟨⟨testGood, bodyGood⟩, lines⟩
    simp only [Stmt.lines, List.forall_mem_cons, List.forall_mem_append] at lines
    exact ⟨⟨testGood, lines.2.1⟩, bodyGood, lines.2.2⟩
  elif := by
    rintro line test bodyLine body next ⟨⟨testGood, bodyGood, nextGood⟩, lines⟩
    simp only [Branch.lines, List.forall_mem_cons, List.forall_mem_append] at lines
    exact ⟨⟨testGood, lines.2.1.1⟩, ⟨bodyGood, lines.2.1.2⟩, nextGood, lines.2.2⟩
  otherwise := by
    rintro line bodyLine body ⟨written, lines⟩
    exact ⟨written, (List.forall_mem_cons.mp lines).2⟩
  cons := by
    rintro first rest ⟨written, lines⟩
    rw [linesOfBody, List.forall_mem_append] at lines
    exact ⟨⟨written.1, lines.1⟩, written.2, lines.2⟩

/-- Every statement keeps to types. -/
theorem composed_keeps :
    Composed (StmtKept known) (TestKept known) fun _ => Keeps known where
  refl := .refl
  trans := .trans
  numbered := plainly_keeps.numbered
  labelled := plainly_keeps.labelled
  jumped _ _ := plainly_keeps.plain _ rfl
  condition := by
    rintro test _ _ _ before after ⟨written, lines⟩ lowered
    refine plainly_keeps.condition comparison_keeps ?_ lowered
    rintro chain rfl some_ term member
    have isEmpty : chain.terms.isEmpty = false := by simpa using some_
    simp only [linesOfTest, isEmpty, Bool.false_eq_true, ↓reduceIte] at lines
    exact ⟨written term member, fun line inside => lines line (List.mem_flatMap.mpr ⟨term, member, inside⟩)⟩
  declare := by
    rintro line name type initial _ _ ⟨written, lines⟩ lowered
    rw [Stmt.lines, List.forall_mem_cons] at lines
    exact declare_keeps lines.1 written.1 written.2.1 written.2.2 lines.2 lowered
  assign := by
    rintro line name index expr _ _ ⟨written, lines⟩ lowered
    rw [Stmt.lines, List.forall_mem_cons, List.forall_mem_append] at lines
    exact assign_keeps lines.1 written.1 lines.2.1 written.2 lines.2.2 lowered
  call := by
    rintro line callLine name builtin given _ _ ⟨written, lines⟩ lowered
    rw [Stmt.lines, List.forall_mem_cons, List.forall_mem_cons] at lines
    exact callStatement_keeps lines.2.1 written lines.2.2 lowered
  leave := by
    rintro line result _ _ ⟨written, lines⟩ lowered
    rw [Stmt.lines, List.forall_mem_cons] at lines
    exact leave_keeps lines.1 written lines.2 lowered
  inScope := plainly_keeps.inScope

end Lower

end IlsCompiler
