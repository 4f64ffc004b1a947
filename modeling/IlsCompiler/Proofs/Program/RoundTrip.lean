import IlsCompiler.Proofs.Text.Numerals
import IlsCompiler.Proofs.Program.Printing
import IlsCompiler.Proofs.Program.Readings

namespace IlsCompiler

/-!
# Reading what is printed

The words that a tree is printed as can be spelled, and they derive the tree with every node on
their line. A printed program is therefore read as itself.
-/

namespace Print

open Token Grammar

section Equations

-- The equations of the printers are derived once, here, and not by each proof that opens one.
attribute [local simp] Expr.isReadable Expr.onLine expr Stmt.isReadable Stmt.onLine stmt

end Equations

/-- Words of one line that can be spelled. -/
def Words (tokens : List Token) : Prop :=
  ∀ token ∈ tokens, Spellable token ∧ token.line = 1

@[simp] theorem words_nil : Words [] := by
  simp [Words]

@[simp] theorem words_cons
    (token : Token)
    (tokens : List Token) :
    Words (token :: tokens) ↔ (Spellable token ∧ token.line = 1) ∧ Words tokens :=
  List.forall_mem_cons

@[simp] theorem words_append
    (front back : List Token) :
    Words (front ++ back) ↔ Words front ∧ Words back :=
  List.forall_mem_append

theorem words_fixed
    {kind : Kind}
    (isFixed : kind.isFixed = true) :
    Words [fixed kind] := by
  simp [Spellable.fixed isFixed, fixed]

/-! ## Names and numbers -/

theorem isNameStart_iff
    (char : Char) :
    (char.isAlpha || char == '_') = true ↔
      char.toNat = 95 ∨ (65 ≤ char.toNat ∧ char.toNat ≤ 90) ∨
        (97 ≤ char.toNat ∧ char.toNat ≤ 122) := by
  have score : char = '_' ↔ char.toNat = 95 := by
    rw [← Char.toNat_inj]
    rfl
  have letters : char.isAlpha =
      (decide (65 ≤ char.val ∧ char.val ≤ 90) || (97 ≤ char.val && char.val ≤ 122)) := rfl
  simp [letters, UInt32.le_iff_toNat_le, score]
  omega

theorem isDigit_iff
    (char : Char) :
    char.isDigit = true ↔ 48 ≤ char.toNat ∧ char.toNat ≤ 57 := by
  simp [Char.isDigit, UInt32.le_iff_toNat_le]

variable
    {char : Char}

/-- A character that starts a name has one byte, which starts a name. -/
theorem isNameStart_of_char
    (starts : (char.isAlpha || char == '_') = true) :
    char.toNat < 128 ∧ Cursor.isNameStart char.val.toUInt8 = true := by
  rw [isNameStart_iff] at starts
  have small : char.toNat < 128 := by omega
  rw [Cursor.isNameStart_iff, Bytes.toNat_toUInt8_ascii small]
  exact ⟨small, starts⟩

/-- A digit has one byte, which is a digit. -/
theorem isDigit_of_char
    (digit : char.isDigit = true) :
    char.toNat < 128 ∧ Cursor.isDigit char.val.toUInt8 = true := by
  rw [isDigit_iff] at digit
  have small : char.toNat < 128 := by omega
  rw [Cursor.isDigit_iff, Bytes.toNat_toUInt8_ascii small]
  exact ⟨small, digit⟩

/-- A character that a name can go on with has one byte, which a name can go on with. -/
theorem isNameByte_of_char
    (continues : (char.isAlphanum || char == '_') = true) :
    char.toNat < 128 ∧ Cursor.isNameByte char.val.toUInt8 = true := by
  rw [Char.isAlphanum, Bool.or_right_comm, Bool.or_eq_true] at continues
  rcases continues with starts | digit
  · obtain ⟨small, isStart⟩ := isNameStart_of_char starts
    exact ⟨small, by rw [Cursor.isNameByte, isStart, Bool.true_or]⟩
  · obtain ⟨small, isDigit⟩ := isDigit_of_char digit
    exact ⟨small, by rw [Cursor.isNameByte, isDigit, Bool.or_true]⟩

/-- A name is a word, and it spells the name. -/
theorem word_name
    {known : String}
    (named : isName known = true) :
    Words [name known] ∧ (name known).spelling = known := by
  unfold isName at named
  split at named
  next => cases named
  next first rest isList =>
    simp only [Bool.and_eq_true, List.all_eq_true, Option.isNone_iff_eq_none] at named
    obtain ⟨⟨starts, continues⟩, notReserved⟩ := named
    obtain ⟨smallFirst, isStart⟩ := isNameStart_of_char starts
    have small : ∀ char ∈ known.toList, char.toNat < 128 := by
      rw [isList]
      rintro char (_ | ⟨_, member⟩)
      · exact smallFirst
      · exact (isNameByte_of_char (continues char member)).1
    have isAscii := Bytes.ascii_ofString small
    have isBytes := Bytes.ofString_ascii small
    rw [String.ofList_toList, isList, List.map_cons] at isBytes
    refine ⟨?_, isAscii⟩
    rw [isBytes] at isAscii
    rw [words_cons, name, isBytes]
    refine ⟨⟨.name isStart ?_ (by rw [isAscii, notReserved]), rfl⟩, words_nil⟩
    intro byte member
    obtain ⟨char, isMember, rfl⟩ := List.mem_map.mp member
    exact (isNameByte_of_char (continues char isMember)).2

/-- Digits are a word, and it spells the digits. -/
theorem word_number
    {digits : List Char}
    (nonempty : digits ≠ [])
    (areDigits : ∀ digit ∈ digits, digit.isDigit = true) :
    Words [number digits] ∧ (number digits).spelling = String.ofList digits := by
  have small : ∀ char ∈ (String.ofList digits).toList, char.toNat < 128 := by
    rw [String.toList_ofList]
    exact fun char member => (isDigit_of_char (areDigits char member)).1
  refine ⟨?_, Bytes.ascii_ofString small⟩
  rw [String.toList_ofList] at small
  obtain ⟨first, rest, rfl⟩ := List.exists_cons_of_ne_nil nonempty
  rw [words_cons, number, Bytes.ofString_ascii small, List.map_cons]
  refine ⟨⟨.number (isDigit_of_char (areDigits first List.mem_cons_self)).2 ?_, rfl⟩, words_nil⟩
  intro byte member
  obtain ⟨char, isMember, rfl⟩ := List.mem_map.mp member
  exact (isDigit_of_char (areDigits char (List.mem_cons_of_mem _ isMember))).2

variable
    {digits : List Char}

/-- Digits are no sign. -/
theorem readSigned?_digits
    (nonempty : digits ≠ [])
    (areDigits : ∀ digit ∈ digits, digit.isDigit = true) :
    Text.readSigned? digits = some (Nat.ofDigitChars 10 digits 0 : Int) := by
  have natural : Text.readNatural? digits = some (Nat.ofDigitChars 10 digits 0) := by
    unfold Text.readNatural?
    split
    next => exact (nonempty rfl).elim
    next => exact Text.readDigits?_digits areDigits 0
  unfold Text.readSigned?
  split
  next rest => exact absurd (areDigits '-' List.mem_cons_self) (by decide)
  next rest => exact absurd (areDigits '+' List.mem_cons_self) (by decide)
  next =>
    rw [natural]
    rfl

/-- The digits of a constant are read as a number that fits. -/
theorem constant?_number
    (natural : isNatural digits = true) :
    Words [number digits] ∧
      constant? (number digits) = some (.scalar .int (String.ofList digits)) := by
  simp only [isNatural, Bool.and_eq_true, Bool.not_eq_true', List.isEmpty_eq_false_iff,
    List.all_eq_true, decide_eq_true_eq] at natural
  obtain ⟨⟨nonempty, areDigits⟩, bound⟩ := natural
  obtain ⟨words, isSpelling⟩ := word_number nonempty areDigits
  refine ⟨words, ?_⟩
  have fits : Text.fits 32 (Nat.ofDigitChars 10 digits 0 : Int) = true := by
    have power : ((Nat.pow 2 (32 - 1) : Nat) : Int) = 2147483648 := rfl
    simp only [Text.fits, power, Bool.and_eq_true, decide_eq_true_eq]
    omega
  have read : Text.integer? 32 (String.ofList digits) = some (Nat.ofDigitChars 10 digits 0 : Int) := by
    rw [Text.integer?, String.toList_ofList, readSigned?_digits nonempty areDigits]
    dsimp only
    rw [if_pos fits]
  show (Text.integer? 32 (number digits).spelling).map _ = _
  rw [isSpelling, read]
  rfl

/-- The number of a constant with a minus sign in front of it. -/
theorem negateText_digits
    (areDigits : ∀ digit ∈ digits, digit.isDigit = true) :
    Parser.negateText (String.ofList digits) = String.ofList ('-' :: digits) := by
  unfold Parser.negateText
  split
  next rest isList =>
    rw [String.toList_ofList] at isList
    subst isList
    exact absurd (areDigits '-' List.mem_cons_self) (by decide)
  next => exact String.toList_inj.mp (by simp)

/-! ## Expressions -/

/-- The byte of a character constant is the one that its text is the number of. -/
theorem toString_charByte
    {text : String}
    (readable : (text == toString (charByte text).toNat) = true) :
    toString (charByte text).toNat = text :=
  (eq_of_beq readable).symm

/-- A constant is printed as an operand. -/
theorem derives_literal
    {value : Literal}
    (readable : value.isReadable = true) :
    Derives (.operand (.literal 1 value)) (literal value) ∧ Words (literal value) := by
  have atom : ∀ {token : Token}, constant? token = some value → Words [token] →
      Derives (.operand (.literal 1 value)) [token] ∧ Words [token] := by
    intro token known words
    have isLine : token.line = 1 := (words token List.mem_cons_self).2
    exact ⟨isLine ▸ Derives.atom (.constant known), words⟩
  unfold Literal.isReadable at readable
  split at readable
  next text =>
    unfold isNumber at readable
    unfold literal
    dsimp only
    split at readable
    next digits isText =>
      obtain ⟨words, known⟩ := constant?_number readable
      simp only [isNatural, Bool.and_eq_true, List.all_eq_true] at readable
      have negated := negateText_digits readable.1.2
      rw [← isText, String.ofList_toList] at negated
      have derives := @Derives.minus (fixed .minus) _ _ rfl (.atom (.constant known))
      have isNegated : Parser.negate (fixed Kind.minus).line
          (.literal (number digits).line (.scalar .int (String.ofList digits))) =
          .literal 1 (.scalar .int text) := by
        rw [Parser.negate, negated]
        rfl
      rw [isNegated] at derives
      exact ⟨derives, words_cons _ _ |>.mpr ⟨⟨.fixed rfl, rfl⟩, words⟩⟩
    next digits isText =>
      obtain ⟨words, known⟩ := constant?_number readable
      rw [String.ofList_toList] at known
      exact atom known words
  next text =>
    refine atom ?_ ?_
    · show some (Literal.scalar .char (toString (charByte text).toNat)) = _
      rw [toString_charByte readable]
    · exact words_cons _ _ |>.mpr ⟨⟨.character, rfl⟩, words_nil⟩
  next text =>
    rw [Bool.or_eq_true, beq_iff_eq, beq_iff_eq] at readable
    rcases readable with rfl | rfl
    · exact atom rfl (words_fixed rfl)
    · exact atom rfl (words_fixed rfl)
  next => cases readable
  next contents => exact atom rfl (words_cons _ _ |>.mpr ⟨⟨.string, rfl⟩, words_nil⟩)

variable
    {tokens : List Token}

theorem words_enclosed
    {opens closes : Kind}
    (isOpen : opens.isFixed = true)
    (isClose : closes.isFixed = true)
    (words : Words tokens) :
    Words (fixed opens :: (tokens ++ [fixed closes])) := by
  have first := words_fixed isOpen
  have last := words_fixed isClose
  simp only [words_cons, words_append] at *
  exact ⟨first.1, words, last⟩

/-- An operator is read back from its word, with its strength. -/
theorem arith_reads
    {op : ArithOp}
    (known : op ≠ .unknown) :
    Parser.strength? (arith op) = some (strength op) ∧ Parser.arithOp (arith op) = op ∧
      (arith op).isFixed = true := by
  cases op with
  | unknown => exact (known rfl).elim
  | _ => exact ⟨rfl, rfl, rfl⟩

/-- An expression that can be read starts on the line that it is put on. -/
theorem line_onLine
    {line : Nat}
    {expr : Expr}
    (readable : expr.isReadable = true) :
    (expr.onLine line).line = line := by
  cases expr with
  | missing => cases readable
  | _ => rfl

/-- The words of a part of an expression derive it. -/
def Prints (phrase : Phrase) (tokens : List Token) : Prop :=
  Derives phrase tokens ∧ Words tokens

theorem Prints.atom
    {least : Nat}
    {expr : Expr}
    (derives : Derives (.atom expr) tokens)
    (words : Words tokens) :
    Prints (.operation least expr) tokens :=
  ⟨.operand (.atom derives), words⟩

/-- Items are printed where each of them is. -/
theorem prints_exprs
    {parts : List Expr}
    (readable : exprsReadable parts = true)
    (each : ∀ part ∈ parts, part.isReadable = true → ∀ least,
      Prints (.operation least (part.onLine 1)) (expr least part)) :
    Prints (.items (exprsOnLine 1 parts)) (exprs parts) := by
  have more : ∀ {rest : List Expr}, exprsReadable rest = true →
      (∀ part ∈ rest, part.isReadable = true → ∀ least,
        Prints (.operation least (part.onLine 1)) (expr least part)) →
      Prints (.moreItems (exprsOnLine 1 rest)) (moreExprs rest) := by
    intro rest
    induction rest with
    | nil =>
        intro _ _
        simp only [exprsOnLine, moreExprs]
        exact ⟨.noMoreItems, words_nil⟩
    | cons first rest inductionHypothesis =>
        intro readable each
        simp only [exprsReadable, Bool.and_eq_true] at readable
        have front := each first List.mem_cons_self readable.1 1
        have back := inductionHypothesis readable.2
          fun part member => each part (List.mem_cons_of_mem _ member)
        simp only [exprsOnLine, moreExprs]
        refine ⟨.moreItems rfl front.1 back.1, ?_⟩
        rw [words_cons, words_append]
        exact ⟨⟨.fixed rfl, rfl⟩, front.2, back.2⟩
  cases parts with
  | nil =>
      simp only [exprsOnLine, exprs]
      exact ⟨.noItems, words_nil⟩
  | cons first rest =>
      simp only [exprsReadable, Bool.and_eq_true] at readable
      have front := each first List.mem_cons_self readable.1 1
      have back := more readable.2 fun part member => each part (List.mem_cons_of_mem _ member)
      simp only [exprsOnLine, exprs]
      refine ⟨.items front.1 back.1, ?_⟩
      rw [words_append]
      exact ⟨front.2, back.2⟩

/-- The arguments of a call are printed in parentheses. -/
theorem prints_arguments
    {given : List Expr}
    (prints : Prints (.items given) tokens) :
    Prints (.arguments given) (parenthesized tokens) :=
  ⟨.arguments rfl prints.1 rfl, words_enclosed rfl rfl prints.2⟩

/-- An index is printed in brackets. -/
theorem prints_index
    {position : Expr}
    (prints : Prints (.operation 1 position) tokens) :
    Prints (.index position) (bracketed tokens) :=
  ⟨.index rfl prints.1 rfl, words_enclosed rfl rfl prints.2⟩

/-- An operation is printed with parentheses where its operator is too weak for its place. -/
theorem prints_binary
    {least : Nat}
    {op : ArithOp}
    {left right : Expr}
    {front back : List Token}
    (known : op ≠ .unknown)
    (isLine : left.line = 1)
    (printsLeft : Prints (.operation (strength op) left) front)
    (printsRight : Prints (.operation (strength op + 1) right) back) :
    Prints (.operation least (.binary 1 op left right))
      (if strength op < least then parenthesized (front ++ fixed (arith op) :: back)
        else front ++ fixed (arith op) :: back) := by
  obtain ⟨isStrength, isOp, isFixed⟩ := arith_reads known
  have derives : ∀ {weaker : Nat}, weaker ≤ strength op →
      Derives (.operation weaker (.binary 1 op left right)) (front ++ fixed (arith op) :: back) := by
    intro weaker le
    have whole := @Derives.operator weaker (strength op) (fixed (arith op)) left right front back
      isStrength le printsLeft.1 printsRight.1
    rwa [isLine, show Parser.arithOp (fixed (arith op)).kind = op from isOp] at whole
  have words : Words (front ++ fixed (arith op) :: back) := by
    rw [words_append, words_cons]
    exact ⟨printsLeft.2, ⟨.fixed isFixed, rfl⟩, printsRight.2⟩
  split
  next =>
    have weakest : 1 ≤ strength op := by cases op <;> decide
    exact .atom (.group rfl (derives weakest) rfl) (words_enclosed rfl rfl words)
  next strong => exact ⟨derives (by omega), words⟩

/-- The words of an expression derive it with every node on their line. -/
theorem prints_expr
    (tree : Expr)
    (readable : tree.isReadable = true)
    (least : Nat) :
    Prints (.operation least (tree.onLine 1)) (expr least tree) := by
  induction tree using Expr.inductionOn generalizing least with
  | missing => simp [Expr.isReadable] at readable
  | name line known =>
      simp only [Expr.isReadable] at readable
      simp only [Expr.onLine, expr]
      obtain ⟨words, isSpelling⟩ := word_name readable
      refine .atom ?_ words
      have whole := @Derives.name (name known) rfl
      rwa [isSpelling] at whole
  | literal line value =>
      simp only [Expr.isReadable] at readable
      simp only [Expr.onLine, expr]
      obtain ⟨derives, words⟩ := derives_literal readable
      exact ⟨.operand derives, words⟩
  | binary line op left right leftHypothesis rightHypothesis =>
      simp only [Expr.isReadable, Bool.and_eq_true, bne_iff_ne, ne_eq] at readable
      simp only [Expr.onLine, expr]
      exact prints_binary readable.1.1 (line_onLine readable.1.2)
        (leftHypothesis readable.1.2 _) (rightHypothesis readable.2 _)
  | element line array index inductionHypothesis =>
      simp only [Expr.isReadable, Bool.and_eq_true] at readable
      simp only [Expr.onLine, expr]
      obtain ⟨words, isSpelling⟩ := word_name readable.1
      obtain ⟨derives, wordsIndex⟩ := prints_index (inductionHypothesis readable.2 1)
      refine .atom ?_ (words_append [_] _ |>.mpr ⟨words, wordsIndex⟩)
      have whole := @Derives.element (name array) _ _ rfl derives
      rwa [isSpelling] at whole
  | array line elements each =>
      simp only [Expr.isReadable] at readable
      simp only [Expr.onLine, expr]
      obtain ⟨derives, words⟩ := prints_exprs readable each
      have whole := @Derives.array (fixed .openBracket) (fixed .closeBracket) _ _ rfl derives rfl
      exact .atom whole (words_enclosed rfl rfl words)
  | call line called builtin given each =>
      simp only [Expr.isReadable, Bool.and_eq_true] at readable
      obtain ⟨words, isSpelling⟩ := word_name readable.1
      obtain ⟨derives, wordsGiven⟩ := prints_arguments (prints_exprs readable.2 each)
      have wordsCall := words_append [_] _ |>.mpr ⟨words, wordsGiven⟩
      cases builtin with
      | true =>
          simp only [Expr.onLine, expr]
          refine .atom ?_ (words_cons _ _ |>.mpr ⟨⟨.fixed rfl, rfl⟩, wordsCall⟩)
          have whole := @Derives.builtin (fixed .sigil) (name called) _ _ rfl rfl derives
          rwa [isSpelling] at whole
      | false =>
          simp only [Expr.onLine, expr]
          refine .atom ?_ wordsCall
          have whole := @Derives.call (name called) _ _ rfl derives
          rwa [isSpelling] at whole

/-- The words of a part of a program derive it. -/
def PrintsClause (clause : Clause) (tokens : List Token) : Prop :=
  Yields clause tokens ∧ Words tokens

/-- The words of an expression with a semicolon behind it. -/
theorem words_ended
    (words : Words tokens) :
    Words (tokens ++ [fixed .semicolon]) :=
  words_append _ _ |>.mpr ⟨words, words_fixed rfl⟩

variable
    {line : Nat}

theorem prints_leave
    {value : Option Expr}
    (readable : (Stmt.leave line value).isReadable = true) :
    PrintsClause (.statement ((Stmt.leave line value).onLine 1)) (stmt (.leave line value)) := by
  simp only [Stmt.isReadable] at readable
  cases value with
  | none =>
      simp only [Stmt.onLine, stmt, Option.map_none]
      refine ⟨@Yields.leave (fixed .wordReturn) (fixed .semicolon) rfl rfl, ?_⟩
      exact words_cons _ _ |>.mpr ⟨⟨.fixed rfl, rfl⟩, words_fixed rfl⟩
  | some value =>
      have printed := prints_expr value readable 1
      simp only [Stmt.onLine, stmt, Option.map_some]
      refine ⟨@Yields.leaveWith (fixed .wordReturn) (fixed .semicolon) _ _ rfl printed.1 rfl, ?_⟩
      exact words_cons _ _ |>.mpr ⟨⟨.fixed rfl, rfl⟩, words_ended printed.2⟩

/-! ## Types, conditions and signatures -/

variable
    {declared : Ty}

/-- The words of a type derive it. -/
theorem prints_type
    (readable : declared.isReadable = true) :
    DerivesType declared (type declared) ∧ Words (type declared) := by
  have word : ∀ {known : Ty}, Ty.ofWord? known.name = some known → isName known.name = true →
      DerivesType known [name known.name] ∧ Words [name known.name] := by
    intro known isWord named
    obtain ⟨words, isSpelling⟩ := word_name named
    exact ⟨.word rfl (by rw [isSpelling, isWord]), words⟩
  unfold Ty.isReadable at readable
  split at readable
  next element length =>
    simp only [Bool.and_eq_true, Bool.or_eq_true, beq_iff_eq, decide_eq_true_eq] at readable
    obtain ⟨⟨isElement, positive⟩, bound⟩ := readable
    have isDecimal : (toString length).toList = Nat.toDigits 10 length.toNat := by
      rw [Int.toString_eq_repr, Int.repr_eq_if, if_pos (Int.le_of_lt positive), Nat.toList_repr]
    have fits : Text.fits 64 length = true := by
      have power : ((Nat.pow 2 (64 - 1) : Nat) : Int) = 9223372036854775808 := rfl
      simp only [Text.fits, power, Bool.and_eq_true, decide_eq_true_eq]
      omega
    obtain ⟨wordsNumber, isNumber⟩ := @word_number (toString length).toList
      (by rw [isDecimal]; exact Nat.toDigits_ne_nil)
      (by
        rw [isDecimal]
        exact fun digit member => Nat.isDigit_of_mem_toDigits (by decide) (by decide) member)
    rw [String.ofList_toList] at isNumber
    have isWord : Ty.ofWord? element.name = some element ∧ isName element.name = true ∧
        element ≠ .void ∧ element ≠ .str := by
      rcases isElement with (rfl | rfl) | rfl <;> decide
    obtain ⟨known, named, notVoid, notStr⟩ := isWord
    obtain ⟨wordsName, isSpelling⟩ := word_name named
    refine ⟨.array rfl (by rw [isSpelling, known]) rfl rfl
      (by rw [isNumber, Text.integer?_toString fits]) positive notVoid notStr rfl, ?_⟩
    exact words_append [_] _ |>.mpr ⟨wordsName, words_enclosed rfl rfl wordsNumber⟩
  next notArray =>
    simp only [Bool.or_eq_true, beq_iff_eq] at readable
    rcases readable with (((rfl | rfl) | rfl) | rfl) | rfl <;> exact word rfl (by decide)

/-- The words of a term derive it. -/
theorem prints_term
    {given : Comparison}
    (readable : given.isReadable = true) :
    DerivesTerm (given.mapLines 1 (Expr.onLine 1)) (term given) ∧ Words (term given) := by
  obtain ⟨line, left, op, right⟩ := given
  simp only [Comparison.isReadable, Bool.and_eq_true, beq_iff_eq] at readable
  obtain ⟨⟨readableLeft, same⟩, readableRight⟩ := readable
  have front := prints_expr left readableLeft 1
  have isLine := @line_onLine 1 left readableLeft
  cases op with
  | none =>
      cases right with
      | some right => cases same
      | none =>
          have whole := DerivesTerm.bare front.1
          rw [isLine] at whole
          exact ⟨whole, front.2⟩
  | some op =>
      cases right with
      | none => cases same
      | some right =>
          have back := prints_expr right readableRight 1
          have isTest : Parser.cmpOp? (test op) = some op ∧ (test op).isFixed = true := by
            cases op <;> exact ⟨rfl, rfl⟩
          have whole := @DerivesTerm.compared (fixed (test op)) op _ _ _ _ front.1 isTest.1 back.1
          rw [isLine] at whole
          refine ⟨whole, ?_⟩
          show Words (expr 1 left ++ fixed (test op) :: expr 1 right)
          rw [words_append, words_cons]
          exact ⟨front.2, ⟨.fixed isTest.2, rfl⟩, back.2⟩

/-- The words of joined terms derive them. -/
theorem prints_chain
    {terms : List Comparison}
    {joins : List Logic}
    (readable : ∀ given ∈ terms, given.isReadable = true)
    (oneFewer : terms.length = joins.length + 1) :
    DerivesChain (terms.map (Comparison.mapLines 1 (Expr.onLine 1))) joins (chain terms joins) ∧
      Words (chain terms joins) := by
  induction terms generalizing joins with
  | nil => cases oneFewer
  | cons first rest inductionHypothesis =>
      have front := prints_term (readable first List.mem_cons_self)
      cases joins with
      | nil =>
          have isLast : rest = [] := by
            rw [List.length_cons, List.length_nil] at oneFewer
            exact List.length_eq_zero_iff.mp (Nat.succ.inj oneFewer)
          subst isLast
          rw [chain, chain, List.append_nil]
          exact ⟨.last front.1, front.2⟩
      | cons op joins =>
          have back := @inductionHypothesis joins
            (fun given member => readable given (List.mem_cons_of_mem _ member))
            (Nat.succ.inj oneFewer)
          have isJoin : logic? (join op) = some op ∧ (join op).isFixed = true := by
            cases op <;> exact ⟨rfl, rfl⟩
          rw [chain]
          refine ⟨.join front.1 isJoin.1 back.1, ?_⟩
          rw [words_append, words_cons]
          exact ⟨front.2, ⟨.fixed isJoin.2, rfl⟩, back.2⟩

/-- The words of a condition derive it. -/
theorem prints_guard
    {given : Option Condition}
    (readable : Condition.isReadable given = true) :
    ∃ condition, given.map (Condition.onLine 1) = some condition ∧
      DerivesGuard condition (guard given) ∧ Words (guard given) := by
  cases given with
  | none => cases readable
  | some condition =>
      obtain ⟨line, terms, joins⟩ := condition
      simp only [Condition.isReadable, Bool.and_eq_true, List.all_eq_true, beq_iff_eq] at readable
      obtain ⟨derives, words⟩ := prints_chain readable.1 readable.2
      refine ⟨_, rfl, ?_, words_enclosed rfl rfl words⟩
      obtain ⟨first, rest, isChain, -⟩ := derives.starts
      rw [isChain] at derives words
      have whole := @DerivesGuard.guard (fixed .openParen) first (fixed .closeParen) _ _ _ rfl
        derives rfl
      rw [(words first List.mem_cons_self).2] at whole
      show DerivesGuard _ (parenthesized (chain terms joins))
      rw [isChain]
      exact whole

/-- The words of a parameter derive it. -/
theorem prints_param
    {given : Param}
    (readable : (isName given.name && given.type.isReadable) = true) :
    DerivesParam { given with line := 1 } (param given) ∧ Words (param given) := by
  rw [Bool.and_eq_true] at readable
  obtain ⟨words, isSpelling⟩ := word_name readable.1
  obtain ⟨derives, wordsType⟩ := prints_type readable.2
  have whole := @DerivesParam.param (name given.name) (fixed .colon) _ _ rfl rfl derives
  rw [isSpelling] at whole
  refine ⟨whole, words_append [_] _ |>.mpr ⟨words, ?_⟩⟩
  exact words_cons _ _ |>.mpr ⟨⟨.fixed rfl, rfl⟩, wordsType⟩

variable
    {given : List Param}

/-- The words of parameters derive them. -/
theorem prints_params
    (readable : ∀ each ∈ given, (isName each.name && each.type.isReadable) = true) :
    DerivesParams (given.map fun each => { each with line := 1 }) (params given) ∧
      Words (params given) := by
  have more : ∀ {rest : List Param},
      (∀ each ∈ rest, (isName each.name && each.type.isReadable) = true) →
      DerivesMoreParams (rest.map fun each => { each with line := 1 })
          (rest.flatMap fun next => fixed .comma :: param next) ∧
        Words (rest.flatMap fun next => fixed .comma :: param next) := by
    intro rest readable
    induction rest with
    | nil => exact ⟨.nil, words_nil⟩
    | cons first rest inductionHypothesis =>
        have front := prints_param (readable first List.mem_cons_self)
        have back := inductionHypothesis fun each member =>
          readable each (List.mem_cons_of_mem _ member)
        rw [List.flatMap_cons, List.map_cons, List.cons_append]
        refine ⟨.cons rfl front.1 back.1, ?_⟩
        rw [words_cons, words_append]
        exact ⟨⟨.fixed rfl, rfl⟩, front.2, back.2⟩
  cases given with
  | nil => exact ⟨.nil, words_nil⟩
  | cons first rest =>
      have front := prints_param (readable first List.mem_cons_self)
      have back := more fun each member => readable each (List.mem_cons_of_mem _ member)
      exact ⟨.cons front.1 back.1, words_append _ _ |>.mpr ⟨front.2, back.2⟩⟩

/-- The words of a result type derive it. -/
theorem prints_result
    (readable : declared.isReadable = true) :
    DerivesResult declared (result declared) ∧ Words (result declared) := by
  unfold result
  split
  next => exact ⟨.none, words_nil⟩
  next =>
    obtain ⟨derives, words⟩ := prints_type readable
    exact ⟨.type rfl derives, words_cons _ _ |>.mpr ⟨⟨.fixed rfl, rfl⟩, words⟩⟩

/-! ## Statements -/

mutual

/-- Whether a constant fits a declaration does not depend on its line. -/
theorem literalFault?_onLine
    (declared : Ty)
    (line : Nat)
    (tree : Expr) :
    Parser.literalFault? declared tree = none →
      Parser.literalFault? declared (tree.onLine line) = none := by
  cases tree with
  | literal before value =>
      simp only [Parser.literalFault?, Expr.onLine]
      split
      next => exact id
      next => intro isNone; cases isNone
  | array before elements =>
      simp only [Parser.literalFault?, Expr.onLine]
      split
      next => exact literalFaultIn?_onLine declared.element line elements
      next => intro isNone; cases isNone
  | _ => simp [Parser.literalFault?, Expr.onLine]

theorem literalFaultIn?_onLine
    (declared : Ty)
    (line : Nat)
    (trees : List Expr) :
    Parser.literalFaultIn? declared trees = none →
      Parser.literalFaultIn? declared (exprsOnLine line trees) = none := by
  cases trees with
  | nil => simp [exprsOnLine]
  | cons first rest =>
      simp only [Parser.literalFaultIn?, exprsOnLine]
      cases known : Parser.literalFault? declared first with
      | some fault => intro isNone; cases isNone
      | none =>
          rw [literalFault?_onLine declared line first known]
          exact literalFaultIn?_onLine declared line rest

end

variable
    {body : List Stmt}

/-- The words of a body in braces derive its block. -/
theorem prints_block
    (prints : PrintsClause (.body body) tokens) :
    PrintsClause (.block 1 body) (braced tokens) :=
  ⟨@Yields.block (fixed .openBrace) (fixed .closeBrace) _ _ rfl prints.1 rfl,
    words_enclosed rfl rfl prints.2⟩

variable
    {declared : String}

theorem prints_declare
    {type : Ty}
    {value : Option Expr}
    (readable : (Stmt.declare line declared type value).isReadable = true) :
    PrintsClause (.statement ((Stmt.declare line declared type value).onLine 1))
      (stmt (.declare line declared type value)) := by
  simp only [Stmt.isReadable, Bool.and_eq_true, Option.isNone_iff_eq_none] at readable
  obtain ⟨⟨⟨named, readableType⟩, readableValue⟩, fits⟩ := readable
  obtain ⟨wordsName, isSpelling⟩ := word_name named
  obtain ⟨derivesType, wordsType⟩ := prints_type readableType
  cases value with
  | none =>
      have whole := @Yields.declare (name declared) (fixed .colon) (fixed .semicolon) _ _ rfl rfl
        derivesType rfl
      rw [isSpelling] at whole
      simp only [Stmt.onLine, stmt, Option.map_none]
      refine ⟨whole, words_append [_] _ |>.mpr ⟨wordsName, ?_⟩⟩
      exact words_cons _ _ |>.mpr ⟨⟨.fixed rfl, rfl⟩, words_ended wordsType⟩
  | some value =>
      have printed := prints_expr value readableValue 1
      have whole := @Yields.declareWith (name declared) (fixed .colon) (fixed .assign)
        (fixed .semicolon) _ _ _ _ rfl rfl derivesType rfl printed.1
        (literalFault?_onLine type 1 value fits) rfl
      rw [isSpelling] at whole
      simp only [Stmt.onLine, stmt, Option.map_some]
      refine ⟨whole, words_append [_] _ |>.mpr ⟨wordsName, ?_⟩⟩
      rw [words_cons, words_append, words_cons]
      exact ⟨⟨.fixed rfl, rfl⟩, wordsType, ⟨.fixed rfl, rfl⟩, words_ended printed.2⟩

theorem prints_assign
    {assigned : String}
    {index : Option Expr}
    {value : Expr}
    (readable : (Stmt.assign line assigned index value).isReadable = true) :
    PrintsClause (.statement ((Stmt.assign line assigned index value).onLine 1))
      (stmt (.assign line assigned index value)) := by
  simp only [Stmt.isReadable, Bool.and_eq_true] at readable
  obtain ⟨⟨named, readableIndex⟩, readableValue⟩ := readable
  obtain ⟨wordsName, isSpelling⟩ := word_name named
  have printed := prints_expr value readableValue 1
  cases index with
  | none =>
      have whole := @Yields.assign (name assigned) (fixed .assign) (fixed .semicolon) _ _ rfl rfl
        printed.1 rfl
      rw [isSpelling] at whole
      simp only [Stmt.onLine, stmt, Option.map_none]
      refine ⟨whole, words_append [_] _ |>.mpr ⟨wordsName, ?_⟩⟩
      exact words_cons _ _ |>.mpr ⟨⟨.fixed rfl, rfl⟩, words_ended printed.2⟩
  | some index =>
      obtain ⟨derives, wordsIndex⟩ := prints_index (prints_expr index readableIndex 1)
      have whole := @Yields.store (name assigned) (fixed .assign) (fixed .semicolon) _ _ _ _ rfl
        derives rfl printed.1 rfl
      rw [isSpelling] at whole
      simp only [Stmt.onLine, stmt, Option.map_some]
      refine ⟨whole, words_append [_] _ |>.mpr ⟨wordsName, words_append _ _ |>.mpr ⟨wordsIndex, ?_⟩⟩⟩
      exact words_cons _ _ |>.mpr ⟨⟨.fixed rfl, rfl⟩, words_ended printed.2⟩

theorem prints_call
    {called : String}
    {builtin : Bool}
    {given : List Expr}
    {line callLine : Nat}
    (readable : (Stmt.call line callLine called builtin given).isReadable = true) :
    PrintsClause (.statement ((Stmt.call line callLine called builtin given).onLine 1))
      (stmt (.call line callLine called builtin given)) := by
  simp only [Stmt.isReadable, Bool.and_eq_true] at readable
  obtain ⟨words, isSpelling⟩ := word_name readable.1
  obtain ⟨derives, wordsGiven⟩ := prints_arguments (prints_exprs readable.2
    fun part _ isReadable => prints_expr part isReadable)
  have wordsCall := words_append [_] _ |>.mpr ⟨words, words_ended wordsGiven⟩
  cases builtin with
  | true =>
      have whole := @Yields.builtin (fixed .sigil) (name called) (fixed .semicolon) _ _ rfl rfl
        derives rfl
      rw [isSpelling] at whole
      simp only [Stmt.onLine, stmt]
      exact ⟨whole, words_cons _ _ |>.mpr ⟨⟨.fixed rfl, rfl⟩, wordsCall⟩⟩
  | false =>
      have whole := @Yields.call (name called) (fixed .semicolon) _ _ rfl derives rfl
      rw [isSpelling] at whole
      simp only [Stmt.onLine, stmt]
      exact ⟨whole, wordsCall⟩

theorem prints_function
    {declaredResult : Ty}
    {line bodyLine : Nat}
    (named : isName declared = true)
    (readableParams : ∀ each ∈ given, (isName each.name && each.type.isReadable) = true)
    (readableResult : declaredResult.isReadable = true)
    (prints : PrintsClause (.body (stmtsOnLine 1 body)) (stmts body)) :
    PrintsClause
      (.statement ((Stmt.function line declared given declaredResult bodyLine body).onLine 1))
      (stmt (.function line declared given declaredResult bodyLine body)) := by
  obtain ⟨wordsName, isSpelling⟩ := word_name named
  obtain ⟨derivesParams, wordsParams⟩ := prints_params readableParams
  obtain ⟨derivesResult, wordsResult⟩ := prints_result readableResult
  obtain ⟨yields, wordsBody⟩ := prints_block prints
  have whole := @Yields.function (fixed .wordFn) (name declared) (fixed .openParen)
    (fixed .closeParen) _ _ _ _ _ _ _ rfl rfl rfl derivesParams rfl derivesResult yields
  rw [isSpelling, show (fixed .wordFn).line = 1 from rfl] at whole
  simp only [Stmt.onLine, stmt]
  refine ⟨by simpa [parenthesized] using whole, words_cons _ _ |>.mpr ⟨⟨.fixed rfl, rfl⟩, ?_⟩⟩
  refine words_append [_] _ |>.mpr ⟨wordsName, ?_⟩
  refine words_append (parenthesized (params given)) _ |>.mpr ⟨?_, ?_⟩
  · exact words_enclosed rfl rfl wordsParams
  · exact words_append _ _ |>.mpr ⟨wordsResult, wordsBody⟩

/-- The words of a guarded block and of what follows it. -/
theorem words_guarded
    {tests bodies branches : List Token}
    {kind : Kind}
    (isFixed : kind.isFixed = true)
    (wordsTest : Words tests)
    (wordsBody : Words bodies)
    (wordsNext : Words branches) :
    Words (fixed kind :: (tests ++ (bodies ++ branches))) := by
  rw [words_cons, words_append, words_append]
  exact ⟨⟨.fixed isFixed, rfl⟩, wordsTest, wordsBody, wordsNext⟩

/-- The words of statements, arms and bodies derive them with every node on their line. -/
theorem prints_stmts :
    (∀ tree : Stmt, tree.isReadable = true →
      PrintsClause (.statement (tree.onLine 1)) (stmt tree)) ∧
    (∀ next : Branch, next.isReadable = true →
      PrintsClause (.branch (next.onLine 1)) (branch next)) ∧
    ∀ body : List Stmt, stmtsReadable body = true →
      PrintsClause (.body (stmtsOnLine 1 body)) (stmts body) := by
  apply Stmt.induction
  case block =>
    intro line body bodyHypothesis readable
    simp only [Stmt.isReadable] at readable
    obtain ⟨yields, words⟩ := prints_block (bodyHypothesis readable)
    simp only [Stmt.onLine, stmt]
    exact ⟨.nested yields, words⟩
  case declare => exact fun line declared type value => prints_declare
  case function =>
    intro line declared given declaredResult bodyLine body bodyHypothesis readable
    simp only [Stmt.isReadable, Bool.and_eq_true, List.all_eq_true] at readable
    obtain ⟨⟨⟨named, readableParams⟩, readableResult⟩, readableBody⟩ := readable
    exact prints_function named (fun each member => by simpa using readableParams each member)
      readableResult (bodyHypothesis readableBody)
  case assign => exact fun line assigned index value => prints_assign
  case call => exact fun line callLine called builtin given => prints_call
  case leave => exact fun line value => prints_leave
  case choose =>
    intro line condition bodyLine body next bodyHypothesis nextHypothesis readable
    simp only [Stmt.isReadable, Bool.and_eq_true] at readable
    obtain ⟨⟨readableTest, readableBody⟩, readableNext⟩ := readable
    obtain ⟨test, isTest, derives, wordsTest⟩ := prints_guard readableTest
    obtain ⟨yields, wordsBody⟩ := prints_block (bodyHypothesis readableBody)
    obtain ⟨yieldsNext, wordsNext⟩ := nextHypothesis readableNext
    simp only [Stmt.onLine, stmt, isTest]
    exact ⟨@Yields.choose (fixed .wordIf) _ _ _ _ _ _ _ rfl derives yields yieldsNext,
      words_guarded rfl wordsTest wordsBody wordsNext⟩
  case loop =>
    intro line condition bodyLine body bodyHypothesis readable
    simp only [Stmt.isReadable, Bool.and_eq_true] at readable
    obtain ⟨test, isTest, derives, wordsTest⟩ := prints_guard readable.1
    obtain ⟨yields, wordsBody⟩ := prints_block (bodyHypothesis readable.2)
    simp only [Stmt.onLine, stmt, isTest]
    refine ⟨@Yields.loop (fixed .wordWhile) _ _ _ _ _ rfl derives yields, ?_⟩
    exact words_cons _ _ |>.mpr ⟨⟨.fixed rfl, rfl⟩, words_append _ _ |>.mpr ⟨wordsTest, wordsBody⟩⟩
  case exit =>
    intro line _
    simp only [Stmt.onLine, stmt]
    refine ⟨@Yields.exit (fixed .wordBreak) (fixed .semicolon) rfl rfl, ?_⟩
    exact words_cons _ _ |>.mpr ⟨⟨.fixed rfl, rfl⟩, words_fixed rfl⟩
  case none =>
    intro _
    simp only [Branch.onLine, branch]
    exact ⟨.noBranch, words_nil⟩
  case elif =>
    intro line condition bodyLine body next bodyHypothesis nextHypothesis readable
    simp only [Branch.isReadable, Bool.and_eq_true] at readable
    obtain ⟨⟨readableTest, readableBody⟩, readableNext⟩ := readable
    obtain ⟨test, isTest, derives, wordsTest⟩ := prints_guard readableTest
    obtain ⟨yields, wordsBody⟩ := prints_block (bodyHypothesis readableBody)
    obtain ⟨yieldsNext, wordsNext⟩ := nextHypothesis readableNext
    simp only [Branch.onLine, branch, isTest]
    exact ⟨@Yields.elif (fixed .wordElif) _ _ _ _ _ _ _ rfl derives yields yieldsNext,
      words_guarded rfl wordsTest wordsBody wordsNext⟩
  case otherwise =>
    intro line bodyLine body bodyHypothesis readable
    simp only [Branch.isReadable] at readable
    obtain ⟨yields, words⟩ := prints_block (bodyHypothesis readable)
    simp only [Branch.onLine, branch]
    exact ⟨@Yields.otherwise (fixed .wordElse) _ _ _ rfl yields,
      words_cons _ _ |>.mpr ⟨⟨.fixed rfl, rfl⟩, words⟩⟩
  case nil =>
    intro _
    simp only [stmtsOnLine, stmts]
    exact ⟨.empty, words_nil⟩
  case cons =>
    intro first rest firstHypothesis restHypothesis readable
    simp only [stmtsReadable, Bool.and_eq_true] at readable
    obtain ⟨yieldsFirst, wordsFirst⟩ := firstHypothesis readable.1
    obtain ⟨yieldsRest, wordsRest⟩ := restHypothesis readable.2
    simp only [stmtsOnLine, stmts]
    exact ⟨.next yieldsFirst yieldsRest, words_append _ _ |>.mpr ⟨wordsFirst, wordsRest⟩⟩

end Print

namespace Reading

/--
The text that a program tree is printed as is read without a problem, as the same tree with every
node on the one line of that text.
-/
theorem ofSource_print
    (file : String)
    (body : List Stmt)
    (readable : stmtsReadable body = true) :
    Reading.ofSource file (Print.text body) =
      { program := { file := file, statements := stmtsOnLine 1 body }, problem := none } := by
  obtain ⟨yields, words⟩ := Print.prints_stmts.2.2 body readable
  have isText : Lexeme.ofSource (Print.text body) =
      (Print.stmts body).map (fun token => { token := token, fault := none }) ++
        [{ token := { kind := .endOfInput, line := 1, text := [] }, fault := none }] := by
    refine (Cursor.lexemes_layOut (fun token member => (words token member).1) 1).trans ?_
    congr 1
    refine List.map_congr_left fun token member => ?_
    rw [← (words token member).2]
  refine ofSource_of_whole ⟨_, _, isText, rfl, ?_⟩
  rw [List.map_map]
  exact (List.map_id (Print.stmts body)).symm ▸ yields

/-- A program with a function, a choice, a loop, constants of every type and nested operations. -/
def printedProgram : List Stmt :=
  [.declare 1 "total" .int (some (.literal 1 (.scalar .int "-7"))),
   .declare 2 "table" (.array .char 2)
     (some (.array 2 [.literal 2 (.scalar .char "39"), .literal 2 (.scalar .char "255")])),
   .function 3 "step" [{ line := 3, name := "a", type := .int }] .int 3
     [.choose 4
        (some
          { line := 4
            terms :=
              [{ line := 4, left := .name 4 "a", op := some .less,
                 right := some (.literal 4 (.scalar .int "2147483647")) },
               { line := 4, left := .literal 4 (.scalar .bool "1"), op := none, right := none }]
            joins := [.either] })
        4 [.leave 5 (some (.binary 5 .sub (.name 5 "a") (.binary 5 .sub (.name 5 "a")
          (.binary 5 .mul (.binary 5 .add (.name 5 "a") (.name 5 "total")) (.name 5 "a")))))]
        (.elif 6
          (some
            { line := 6
              terms := [{ line := 6, left := .name 6 "a", op := none, right := none }]
              joins := [] })
          6 [.exit 7] (.otherwise 8 8 [.leave 9 none]))],
   .assign 10 "table" (some (.literal 10 (.scalar .int "0"))) (.element 10 "table" (.name 10 "total")),
   .call 11 11 "println" true [.literal 11 (.string [34, 10, 92, 200]),
     .call 11 "step" false [.name 11 "total"]]]

theorem printedProgram_read :
    stmtsReadable printedProgram = true ∧
      Reading.ofSource "main.ils" (Print.text printedProgram) =
        { program := { file := "main.ils", statements := stmtsOnLine 1 printedProgram },
          problem := none } :=
  ⟨by decide, ofSource_print "main.ils" printedProgram (by decide)⟩

/-- Parentheses stand only where grouping to the left needs them. -/
example :
    Bytes.ascii (Token.layOut (Print.expr 1
      (.binary 1 .sub (.binary 1 .sub (.name 1 "a") (.name 1 "b"))
        (.binary 1 .sub (.name 1 "c") (.binary 1 .mul (.name 1 "d") (.name 1 "e")))))) =
      "a - b - ( c - d * e ) " := by
  decide

end Reading

end IlsCompiler
