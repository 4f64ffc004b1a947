import Mathlib.Algebra.Group.Nat.Defs
import IlsCompiler.Program.Constant
import IlsCompiler.StringTable
import IlsCompiler.Proofs.Program.Grammar
import IlsCompiler.Proofs.Text.Encoding
import IlsCompiler.Proofs.Text.Numerals
import IlsCompiler.Proofs.Token.Lexemes

namespace IlsCompiler

/-!
# Constants and their types

A constant is a text, and which texts are constants depends on the type. In a tree that is read
from a source text every constant is spelled as one of its type, and what is declared has a type
of variables.
-/

variable
    {text : String}
    {type : Ty}

namespace Ty

/-- Whether a type is that of array elements. -/
def IsItem (type : Ty) : Prop :=
  type = .int ∨ type = .char ∨ type = .bool

/-- Whether a type is that of variables: an array of items with a length, or no array. -/
def IsStored : Ty → Prop
  | .array element length => element.IsItem ∧ 0 < length
  | type => type.IsItem ∨ type = .str

/-- Whether a value of one type may be stored where another is wanted. -/
def Takes (wanted given : Ty) : Prop :=
  wanted = given ∨ wanted.isArithmetic ∧ given.isArithmetic

/--
Whether a text is a constant of a type: a symbol of the string table, a number of 32 bits, a truth
value, or as many constants of the element type as the array is long.
-/
def Spells (strings : StringTable) : Ty → String → Prop
  | .str, text => ∃ contents, (text, contents) ∈ strings.entries
  | .int, text => (Text.integer? 32 text).isSome
  | .char, text => (Text.integer? 32 text).isSome
  | .bool, text => text = "0" ∨ text = "1"
  | .array element length, text =>
      ∃ items : List String,
        text = ", ".intercalate items ∧ (items.length : Int) = length ∧
          ∀ item ∈ items, Spells strings element item
  | _, _ => False

theorem takes_refl
    (type : Ty) :
    type.Takes type :=
  .inl rfl

/-- Constants of one type are constants wherever the type is taken. -/
theorem Takes.spells
    {wanted given : Ty}
    {strings : StringTable}
    (takes : wanted.Takes given)
    (spells : given.Spells strings text) :
    wanted.Spells strings text := by
  rcases takes with rfl | ⟨isWanted, isGiven⟩
  · exact spells
  · simp only [isArithmetic, Bool.or_eq_true, decide_eq_true_eq] at isWanted isGiven
    rcases isWanted with rfl | rfl <;> rcases isGiven with rfl | rfl <;> exact spells

/-- A text that is a constant stays one while the string table grows. -/
theorem Spells.mono
    {earlier later : StringTable}
    (spells : type.Spells earlier text)
    (grown : earlier.contents <+: later.contents) :
    type.Spells later text := by
  induction type generalizing text with
  | str =>
      obtain ⟨contents, member⟩ := spells
      obtain ⟨more, same⟩ := grown
      refine ⟨contents, ?_⟩
      unfold StringTable.entries at member ⊢
      rw [← same, List.mapIdx_append]
      exact List.mem_append_left _ member
  | array element length inductionHypothesis =>
      obtain ⟨items, isText, isLength, each⟩ := spells
      exact ⟨items, isText, isLength, fun item member => inductionHypothesis (each item member)⟩
  | _ => exact spells

/-- Zero is a constant of every type of items. -/
theorem IsItem.spells_zero
    (isItem : type.IsItem)
    (strings : StringTable) :
    type.Spells strings "0" := by
  have isNumber : (Text.integer? 32 "0").isSome := by decide
  rcases isItem with rfl | rfl | rfl
  · exact isNumber
  · exact isNumber
  · exact .inl rfl

/-- A declaration without an initializer gets a constant of its type. -/
theorem spells_default
    {type : Ty}
    (isStored : type.IsStored)
    (other : type ≠ .str)
    (strings : StringTable) :
    type.Spells strings type.defaultText := by
  cases type with
  | array element length =>
      refine ⟨List.replicate length.toNat "0", rfl, ?_, fun item member => ?_⟩
      · rw [List.length_replicate, Int.toNat_of_nonneg (Int.le_of_lt isStored.2)]
      · rw [List.eq_of_mem_replicate member]
        exact isStored.1.spells_zero strings
  | str => exact (other rfl).elim
  | _ =>
      rcases isStored with isItem | isString
      · rcases isItem with same | same | same <;> cases same
        all_goals exact IsItem.spells_zero (by simp [IsItem]) strings
      · cases isString

end Ty

namespace Text

/-- Whether a text is a number of 32 bits that can be written with the opposite sign as well. -/
def IsSigned (text : String) : Prop :=
  ∃ digits value, readNatural? digits = some value ∧ value < 2 ^ 31 ∧
    (text.toList = digits ∨ text.toList = '-' :: digits)

/-- Digits of a number do not start with a sign. -/
theorem readSigned?_of_readNatural?
    {digits : List Char}
    {value : Nat}
    (read : readNatural? digits = some value) :
    readSigned? digits = some (value : Int) := by
  unfold readSigned?
  split
  · cases read
  · cases read
  · simp [read]

theorem IsSigned.integer?
    (signed : IsSigned text) :
    (Text.integer? 32 text).isSome := by
  obtain ⟨digits, value, read, small, same | same⟩ := signed
  · have inRange : fits 32 (value : Int) := by
      simp only [fits, Nat.pow_eq, Bool.and_eq_true, decide_eq_true_eq]
      omega
    simp [Text.integer?, same, readSigned?_of_readNatural? read, inRange]
  · have inRange : fits 32 (-(value : Int)) := by
      simp only [fits, Nat.pow_eq, Bool.and_eq_true, decide_eq_true_eq]
      omega
    simp [Text.integer?, same, readSigned?, read, inRange]

/-- A number of 32 bits that is written without a sign. -/
theorem isSigned_of_digits
    (digits : ∀ digit ∈ text.toList, digit.isDigit)
    (isNumber : (Text.integer? 32 text).isSome) :
    IsSigned text := by
  have unsigned : readSigned? text.toList =
      (readNatural? text.toList).map fun value => (value : Int) := by
    unfold readSigned?
    split
    next same => exact absurd (digits '-' (by rw [same]; simp)) (by decide)
    next same => exact absurd (digits '+' (by rw [same]; simp)) (by decide)
    next => rfl
  unfold Text.integer? at isNumber
  rw [unsigned] at isNumber
  cases read : readNatural? text.toList with
  | none => simp [read] at isNumber
  | some value =>
      refine ⟨text.toList, value, read, ?_, .inl rfl⟩
      by_cases inRange : fits 32 (value : Int)
      · simp only [fits, Nat.pow_eq, Bool.and_eq_true, decide_eq_true_eq] at inRange
        omega
      · simp [read, inRange] at isNumber

theorem IsSigned.negateText
    (signed : IsSigned text) :
    IsSigned (Parser.negateText text) := by
  obtain ⟨digits, value, read, small, same | same⟩ := signed
  · refine ⟨digits, value, read, small, .inr ?_⟩
    unfold Parser.negateText
    split
    next starts =>
      rw [same] at starts
      subst starts
      cases read
    next => simp [same]
  · refine ⟨digits, value, read, small, .inl ?_⟩
    simp [Parser.negateText, same]

end Text

/-- Whether a constant of a tree is spelled as one of its type. -/
def Literal.IsWritten : Literal → Prop
  | .scalar .int text => Text.IsSigned text
  | .scalar .char text => (Text.integer? 32 text).isSome
  | .scalar .bool text => text = "0" ∨ text = "1"
  | .scalar _ _ => False
  | .string _ => True

/-- Whether a constant is one of its type, also one that no token spells. -/
def Literal.IsSpelled : Literal → Prop
  | .scalar type text => type.IsItem ∧ ∀ strings, type.Spells strings text
  | .string _ => True

theorem Literal.IsWritten.isSpelled
    {value : Literal}
    (written : value.IsWritten) :
    value.IsSpelled := by
  cases value with
  | scalar type text =>
      cases type with
      | int => exact ⟨.inl rfl, fun _ => Text.IsSigned.integer? written⟩
      | char => exact ⟨.inr (.inl rfl), fun _ => written⟩
      | bool => exact ⟨.inr (.inr rfl), fun _ => written⟩
      | _ => exact written.elim
  | string contents => trivial

variable
    {line : Nat}
    {left right : Expr}
    {op : ArithOp}

/-- Constant arithmetic gives a number of 32 bits. -/
theorem fits_of_evaluate
    {value : Int}
    (evaluated : (Expr.binary line op left right).evaluate = .ok value) :
    Text.fits 32 value := by
  rw [Expr.evaluate, Expr.constantValue] at evaluated
  unfold Expr.checkedOp at evaluated
  grind

/-- The result of constant arithmetic is a number as it can be written. -/
theorem isSpelled_of_evaluate
    {value : Int}
    (evaluated : (Expr.binary line op left right).evaluate = .ok value) :
    (Literal.scalar .int (toString value)).IsSpelled :=
  ⟨.inl rfl, fun _ =>
    Option.isSome_of_mem (Text.integer?_toString (fits_of_evaluate evaluated))⟩

mutual

/-- Whether the constants of an expression are spelled as those of their types. -/
def Expr.IsWritten : Expr → Prop
  | .missing => True
  | .name _ _ => True
  | .literal _ value => value.IsWritten
  | .binary _ _ left right => left.IsWritten ∧ right.IsWritten
  | .element _ _ index => index.IsWritten
  | .array _ elements => partsWritten elements
  | .call _ _ _ arguments => partsWritten arguments

/-- Whether the constants of expressions are spelled as those of their types. -/
def partsWritten : List Expr → Prop
  | [] => True
  | first :: rest => first.IsWritten ∧ partsWritten rest

end

/-- The same for an expression that may be left out. -/
def valueWritten : Option Expr → Prop
  | none => True
  | some expr => expr.IsWritten

/-- The same for both sides of a term. -/
def Comparison.IsWritten (term : Comparison) : Prop :=
  term.left.IsWritten ∧ valueWritten term.right

/-- The same for the terms of a condition. -/
def testWritten : Option Condition → Prop
  | none => True
  | some chain => ∀ term ∈ chain.terms, term.IsWritten

mutual

/--
Whether the constants of a statement are spelled as those of their types, and everything that is
declared in it has a type of variables or none, with which a constant agrees that is its value.
-/
def Stmt.IsWritten : Stmt → Prop
  | .block _ body => bodyWritten body
  | .declare _ _ type value =>
      (type.IsStored ∨ type = .void) ∧ valueWritten value ∧
        ∀ expr ∈ value, Parser.literalFault? type expr = none
  | .function _ _ params _ _ body =>
      (∀ param ∈ params, param.type.IsStored ∨ param.type = .void) ∧ bodyWritten body
  | .assign _ _ index value => valueWritten index ∧ value.IsWritten
  | .call _ _ _ _ arguments => partsWritten arguments
  | .leave _ value => valueWritten value
  | .choose _ test _ body next => testWritten test ∧ bodyWritten body ∧ next.IsWritten
  | .loop _ test _ body => testWritten test ∧ bodyWritten body
  | .exit _ => True

/-- The same for what follows the first arm of a choice. -/
def Branch.IsWritten : Branch → Prop
  | .none => True
  | .elif _ test _ body next => testWritten test ∧ bodyWritten body ∧ next.IsWritten
  | .otherwise _ _ body => bodyWritten body

/-- The same for statements. -/
def bodyWritten : List Stmt → Prop
  | [] => True
  | first :: rest => first.IsWritten ∧ bodyWritten rest

end

theorem isWritten_of_statement
    {stmts : List Stmt}
    (written : bodyWritten stmts)
    {stmt : Stmt}
    (member : stmt ∈ stmts) :
    stmt.IsWritten := by
  induction stmts with
  | nil => cases member
  | cons first rest inductionHypothesis =>
      rcases List.mem_cons.mp member with rfl | later
      · exact written.1
      · exact inductionHypothesis written.2 later

/-- A token that is a number has only digits. -/
def Token.IsNumeral (token : Token) : Prop :=
  token.kind = .integer → ∀ byte ∈ token.text, Cursor.isDigit byte

theorem Lexeme.isNumeral_of_mem
    {source : Bytes}
    {lexeme : Lexeme}
    (member : lexeme ∈ Lexeme.ofSource source) :
    lexeme.token.IsNumeral :=
  Cursor.lexemes_digits _ lexeme member

namespace Grammar

variable
    {tokens : List Token}

/-- The constant that a token stands for is spelled as one of its type. -/
theorem isWritten_constant
    {token : Token}
    {value : Literal}
    (numeral : token.IsNumeral)
    (isConstant : constant? token = some value) :
    value.IsWritten := by
  unfold constant? at isConstant
  split at isConstant
  next isNumber =>
    obtain ⟨number, read, rfl⟩ := Option.map_eq_some_iff.mp isConstant
    refine Text.isSigned_of_digits ?_ (Option.isSome_of_mem read)
    have digits := numeral isNumber
    intro digit member
    simp only [Token.spelling, Bytes.ascii, String.toList_ofList, List.mem_map] at member
    obtain ⟨byte, isByte, rfl⟩ := member
    have known := digits byte isByte
    simp only [Cursor.isDigit, Bool.and_eq_true, decide_eq_true_eq, UInt8.le_iff_toNat_le] at known
    have code : (Char.ofNat byte.toNat).val.toNat = byte.toNat :=
      Bytes.toNat_char (.inl (Nat.lt_of_le_of_lt known.2 (by decide)))
    simp only [Char.isDigit, Bool.and_eq_true, decide_eq_true_eq, UInt32.le_iff_toNat_le, code]
    exact known
  · cases isConstant
    trivial
  · cases isConstant
    have inRange : ∀ byte : UInt8, Text.fits 32 (byte.toNat : Int) := by
      intro byte
      have small := byte.toNat_lt
      simp only [Text.fits, Nat.pow_eq, Bool.and_eq_true, decide_eq_true_eq]
      omega
    have isNumber : ∀ byte : UInt8, (Text.integer? 32 (toString byte.toNat)).isSome := by
      intro byte
      rw [show toString byte.toNat = toString (byte.toNat : Int) from rfl,
        Text.integer?_toString (inRange byte)]
      rfl
    cases token.text.head? with
    | none => exact isNumber 0
    | some byte => exact isNumber byte
  · cases isConstant
    exact .inr rfl
  · cases isConstant
    exact .inl rfl
  · cases isConstant

theorem isWritten_negate
    {operand : Expr}
    (written : operand.IsWritten) :
    (Parser.negate line operand).IsWritten := by
  unfold Parser.negate
  split
  · simp only [Expr.IsWritten, Literal.IsWritten] at written ⊢
    exact written.negateText
  · exact ⟨⟨['0'], 0, rfl, by decide, .inl rfl⟩, written⟩

/-- Whether the constants of a part of an expression are spelled as those of their types. -/
def Phrase.IsWritten : Phrase → Prop
  | .operation _ expr | .operand expr | .atom expr | .index expr => expr.IsWritten
  | .arguments given | .items given | .moreItems given => partsWritten given

theorem Derives.written
    {phrase : Phrase}
    (derives : Derives phrase tokens)
    (numerals : ∀ token ∈ tokens, token.IsNumeral) :
    phrase.IsWritten := by
  induction derives with
  | operand _ inductionHypothesis | atom _ inductionHypothesis =>
      exact inductionHypothesis numerals
  | operator _ _ _ _ leftHypothesis rightHypothesis =>
      rw [List.forall_mem_append, List.forall_mem_cons] at numerals
      exact ⟨leftHypothesis numerals.1, rightHypothesis numerals.2.2⟩
  | minus _ _ inductionHypothesis =>
      rw [List.forall_mem_cons] at numerals
      exact isWritten_negate (inductionHypothesis numerals.2)
  | constant isConstant => exact isWritten_constant (numerals _ List.mem_cons_self) isConstant
  | name => trivial
  | element _ _ inductionHypothesis | call _ _ inductionHypothesis =>
      rw [List.forall_mem_cons] at numerals
      exact inductionHypothesis numerals.2
  | builtin _ _ _ inductionHypothesis =>
      rw [List.forall_mem_cons, List.forall_mem_cons] at numerals
      exact inductionHypothesis numerals.2.2
  | group _ _ _ inductionHypothesis | index _ _ _ inductionHypothesis
  | arguments _ _ _ inductionHypothesis | array _ _ _ inductionHypothesis =>
      rw [List.forall_mem_cons, List.forall_mem_append] at numerals
      exact inductionHypothesis numerals.2.1
  | noItems | noMoreItems => trivial
  | items _ _ firstHypothesis restHypothesis =>
      rw [List.forall_mem_append] at numerals
      exact ⟨firstHypothesis numerals.1, restHypothesis numerals.2⟩
  | moreItems _ _ _ firstHypothesis restHypothesis =>
      rw [List.forall_mem_cons, List.forall_mem_append] at numerals
      exact ⟨firstHypothesis numerals.2.1, restHypothesis numerals.2.2⟩

/-- A type word names no type of arrays. -/
theorem isStored_of_word
    {word : String}
    (known : Ty.ofWord? word = some type) :
    type.IsStored ∨ type = .void := by
  unfold Ty.ofWord? at known
  split at known <;> cases known <;> simp [Ty.IsStored, Ty.IsItem]

/-- A type that is written is one of variables, or void. -/
theorem DerivesType.stored
    (derives : DerivesType type tokens) :
    type.IsStored ∨ type = .void := by
  cases derives with
  | word _ known => exact isStored_of_word known
  | array _ known _ _ _ positive noVoid noString _ =>
      refine .inl ⟨?_, positive⟩
      unfold Ty.ofWord? at known
      split at known <;> cases known <;> simp_all [Ty.IsItem]

theorem DerivesTerm.written
    {term : Comparison}
    (derives : DerivesTerm term tokens)
    (numerals : ∀ token ∈ tokens, token.IsNumeral) :
    term.IsWritten := by
  cases derives with
  | bare left => exact ⟨left.written numerals, trivial⟩
  | compared left _ right =>
      rw [List.forall_mem_append, List.forall_mem_cons] at numerals
      exact ⟨left.written numerals.1, right.written numerals.2.2⟩

theorem DerivesChain.written
    {terms : List Comparison}
    {joins : List Logic}
    (derives : DerivesChain terms joins tokens)
    (numerals : ∀ token ∈ tokens, token.IsNumeral) :
    ∀ term ∈ terms, term.IsWritten := by
  induction derives with
  | last term => simpa using term.written numerals
  | join term _ _ inductionHypothesis =>
      rw [List.forall_mem_append, List.forall_mem_cons] at numerals
      rw [List.forall_mem_cons]
      exact ⟨term.written numerals.1, inductionHypothesis numerals.2.2⟩

theorem DerivesGuard.written
    {test : Condition}
    (derives : DerivesGuard test tokens)
    (numerals : ∀ token ∈ tokens, token.IsNumeral) :
    testWritten (some test) := by
  cases derives with
  | guard _ chain _ =>
      rw [List.forall_mem_cons, List.forall_mem_append] at numerals
      exact chain.written numerals.2.1

theorem DerivesParam.stored
    {param : Param}
    (derives : DerivesParam param tokens) :
    param.type.IsStored ∨ param.type = .void := by
  cases derives with
  | param _ _ type => exact type.stored

variable
    {params : List Param}

theorem DerivesMoreParams.stored
    (derives : DerivesMoreParams params tokens) :
    ∀ param ∈ params, param.type.IsStored ∨ param.type = .void := by
  induction derives with
  | nil => exact fun _ member => (List.not_mem_nil member).elim
  | cons _ param _ inductionHypothesis =>
      rw [List.forall_mem_cons]
      exact ⟨param.stored, inductionHypothesis⟩

theorem DerivesParams.stored
    (derives : DerivesParams params tokens) :
    ∀ param ∈ params, param.type.IsStored ∨ param.type = .void := by
  cases derives with
  | nil => exact fun _ member => (List.not_mem_nil member).elim
  | cons param more =>
      rw [List.forall_mem_cons]
      exact ⟨param.stored, more.stored⟩

/-- Whether the constants and types of a part of a program are as they have to be. -/
def Clause.IsWritten : Clause → Prop
  | .statement stmt => stmt.IsWritten
  | .block _ stmts => bodyWritten stmts
  | .body stmts => bodyWritten stmts
  | .branch next => next.IsWritten

/-- What tokens stand for has constants that are spelled as those of their types. -/
theorem Yields.written
    {clause : Clause}
    (yields : Yields clause tokens)
    (numerals : ∀ token ∈ tokens, token.IsNumeral) :
    clause.IsWritten := by
  induction yields with
  | declare _ _ type _ => exact ⟨type.stored, trivial, nofun⟩
  | declareWith _ _ type _ value agrees _ =>
      simp only [List.forall_mem_cons, List.forall_mem_append] at numerals
      refine ⟨type.stored, value.written numerals.2.2.2.2.1, fun expr same => ?_⟩
      cases same
      exact agrees
  | assign _ _ value _ =>
      simp only [List.forall_mem_cons, List.forall_mem_append] at numerals
      exact ⟨trivial, value.written numerals.2.2.1⟩
  | store _ position _ value _ =>
      simp only [List.forall_mem_cons, List.forall_mem_append] at numerals
      exact ⟨position.written numerals.2.1, value.written numerals.2.2.2.1⟩
  | call _ given _ =>
      simp only [List.forall_mem_cons, List.forall_mem_append] at numerals
      exact given.written numerals.2.1
  | builtin _ _ given _ =>
      simp only [List.forall_mem_cons, List.forall_mem_append] at numerals
      exact given.written numerals.2.2.1
  | leave | exit | empty | noBranch => trivial
  | leaveWith _ value _ =>
      simp only [List.forall_mem_cons, List.forall_mem_append] at numerals
      exact value.written numerals.2.1
  | nested _ inductionHypothesis => exact inductionHypothesis numerals
  | choose _ test _ _ bodyHypothesis nextHypothesis
  | elif _ test _ _ bodyHypothesis nextHypothesis =>
      simp only [List.forall_mem_cons, List.forall_mem_append] at numerals
      exact ⟨test.written numerals.2.1, bodyHypothesis numerals.2.2.1,
        nextHypothesis numerals.2.2.2⟩
  | loop _ test _ bodyHypothesis =>
      simp only [List.forall_mem_cons, List.forall_mem_append] at numerals
      exact ⟨test.written numerals.2.1, bodyHypothesis numerals.2.2⟩
  | function _ _ _ params _ _ _ bodyHypothesis =>
      simp only [List.forall_mem_cons, List.forall_mem_append] at numerals
      exact ⟨params.stored, bodyHypothesis numerals.2.2.2.2.2.2⟩
  | block _ _ _ bodyHypothesis =>
      simp only [List.forall_mem_cons, List.forall_mem_append] at numerals
      exact bodyHypothesis numerals.2.1
  | next _ _ firstHypothesis restHypothesis =>
      rw [List.forall_mem_append] at numerals
      exact ⟨firstHypothesis numerals.1, restHypothesis numerals.2⟩
  | otherwise _ _ bodyHypothesis =>
      rw [List.forall_mem_cons] at numerals
      exact bodyHypothesis numerals.2

end Grammar

end IlsCompiler
