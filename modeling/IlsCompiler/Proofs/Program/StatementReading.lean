import IlsCompiler.Proofs.Program.Reading
import IlsCompiler.Proofs.Program.Lines

namespace IlsCompiler

/-!
# Expressions that are read are derived

Whatever the readers of expressions take from the input derives the tree that they give. Each of
them has a bound on the rules that it can begin, sixteen for every token and a few more, so none of
them ends because the nesting is too deep.
-/

namespace Parser

open Grammar

/-- Whether no operator of a strength or a stronger one comes next. -/
def Ends (least : Nat) (input : List Lexeme) : Prop :=
  ∀ strength, strength? (nextToken input).kind = some strength → strength < least

variable
    {kind : Token.Kind}

theorem strength?_le
    {strength : Nat}
    (known : strength? kind = some strength) :
    1 ≤ strength ∧ strength ≤ 2 := by
  unfold strength? at known
  split at known <;> cases known <;> decide

/-- What the readers of expressions do when they may begin a number of rules. -/
structure ReadsExpressions (known : Nat → Prop) (fuel : Nat) : Prop where
  binary : ∀ {least : Nat} {input : List Lexeme}, 16 * input.length + 4 ≤ fuel →
    Reads known (binary fuel least) input fun expr tokens rest =>
      Derives (.operation least expr) tokens ∧ Ends least rest
  binaryTail : ∀ {least level : Nat} {left : Expr} {front : List Token} {input : List Lexeme},
    16 * input.length + 1 ≤ fuel → least ≤ level → Derives (.operation level left) front →
      Ends (level + 1) input →
      Reads known (binaryTail fuel least left) input fun expr tokens rest =>
        Derives (.operation least expr) (front ++ tokens) ∧ Ends least rest
  unary : ∀ {input : List Lexeme}, 16 * input.length + 3 ≤ fuel →
    Reads known (unary fuel) input fun expr tokens _ => Derives (.operand expr) tokens
  primary : ∀ {input : List Lexeme}, 16 * input.length + 2 ≤ fuel →
    Reads known (primary fuel) input fun expr tokens _ => Derives (.atom expr) tokens
  index : ∀ {input : List Lexeme}, 16 * input.length + 1 ≤ fuel →
    (nextToken input).kind = .openBracket →
      Reads known (index fuel) input fun expr tokens _ => Derives (.index expr) tokens
  builtinCall : ∀ {input : List Lexeme}, 16 * input.length + 1 ≤ fuel →
    (nextToken input).kind = .sigil →
      Reads known (builtinCall fuel) input fun found tokens _ =>
        found.1.kind = .identifier ∧ ∃ given,
          tokens = nextToken input :: found.1 :: given ∧ Derives (.arguments found.2) given
  callArguments : ∀ {input : List Lexeme}, 16 * input.length + 1 ≤ fuel →
    (nextToken input).kind = .openParen →
      Reads known (callArguments fuel) input fun given tokens _ => Derives (.arguments given) tokens
  items : ∀ {closing : Token.Kind} {comma : Expected} {done : List Expr} {input : List Lexeme},
    16 * input.length + 5 ≤ fuel → comma.kind = .comma →
      Reads known (items fuel closing comma done) input fun found tokens _ =>
        ∃ more, found = done ++ more ∧
          Derives (if done.isEmpty then .items more else .moreItems more) tokens

variable
    {known : Nat → Prop}
    {fuel : Nat}
    {input : List Lexeme}

theorem reads_binary
    (each : ReadsExpressions known fuel)
    {least : Nat}
    (enough : 16 * input.length + 4 ≤ fuel + 1) :
    Reads known (binary (fuel + 1) least) input fun expr tokens rest =>
      Derives (.operation least expr) tokens ∧ Ends least rest := by
  rw [binary]
  refine (each.unary (by omega)).bind fun left tokens rest length derives => ?_
  have nonempty := derives.length_pos rfl
  refine each.binaryTail (by omega) (Nat.le_max_left least 2) (.operand derives)
    fun strength known => ?_
  have bound := (strength?_le known).2
  omega

theorem reads_binaryTail
    (each : ReadsExpressions known fuel)
    {least level : Nat}
    {left : Expr}
    {front : List Token}
    (enough : 16 * input.length + 1 ≤ fuel + 1)
    (le : least ≤ level)
    (derives : Derives (.operation level left) front)
    (ends : Ends (level + 1) input) :
    Reads known (binaryTail (fuel + 1) least left) input fun expr tokens rest =>
      Derives (.operation least expr) (front ++ tokens) ∧ Ends least rest := by
  rw [binaryTail]
  refine reads_peek ?_
  split
  next none =>
    refine reads_pure ⟨by simpa using derives.weaken le, fun strength isOperator => ?_⟩
    rw [none] at isOperator
    cases isOperator
  next strength isOperator =>
    split
    next weak =>
      refine reads_pure ⟨by simpa using derives.weaken le, fun other isOther => ?_⟩
      rw [isOperator] at isOther
      cases isOther
      exact weak
    next strong =>
      have notEnd : (nextToken input).kind ≠ .endOfInput := by
        intro isEnd
        rw [isEnd] at isOperator
        cases isOperator
      obtain ⟨op, rest, rfl, isOp⟩ := exists_of_nextToken rfl notEnd
      have reach := ends strength isOperator
      refine reads_advance isOp notEnd fun _ =>
        (each.binary ?_).bind fun right back left' length holds => ?_
      · simp only [List.length_cons] at enough
        omega
      obtain ⟨rightDerives, rightEnds⟩ := holds
      have whole := Derives.operator isOperator (Nat.le_refl strength) (derives.weaken (by omega))
        rightDerives
      refine (each.binaryTail ?_ (by omega) whole rightEnds).mono fun expr tokens final _ found => ?_
      · simp only [List.length_cons] at enough
        omega
      · simpa using found

theorem reads_unary
    (each : ReadsExpressions known fuel)
    (enough : 16 * input.length + 3 ≤ fuel + 1) :
    Reads known (unary (fuel + 1)) input fun expr tokens _ => Derives (.operand expr) tokens := by
  rw [unary]
  refine reads_at ?_
  split
  next isMinus =>
    obtain ⟨sign, rest, rfl, isSign⟩ :=
      exists_of_nextToken (of_decide_eq_true isMinus) (by decide)
    simp only [List.length_cons] at enough
    refine reads_advance isSign (by decide) fun _ =>
      (each.unary (by omega)).bind fun operand tokens left _ derives => ?_
    exact reads_pure (by simpa using Derives.minus isSign derives)
  next => exact (each.primary (by omega)).mono fun expr tokens rest _ derives => .atom derives

theorem reads_index
    (each : ReadsExpressions known fuel)
    (enough : 16 * input.length + 1 ≤ fuel + 1)
    (opens : (nextToken input).kind = .openBracket) :
    Reads known (index (fuel + 1)) input fun expr tokens _ => Derives (.index expr) tokens := by
  rw [index]
  obtain ⟨lexeme, rest, rfl, isOpen⟩ := exists_of_nextToken opens (by decide)
  simp only [List.length_cons] at enough
  refine reads_advance isOpen (by decide) fun opened =>
    (each.binary (by omega)).bind fun position tokens left _ holds => ?_
  refine reads_close opened (by decide) fun closes last isLeft isClose => reads_pure ?_
  exact .index isOpen holds.1 isClose

theorem reads_builtinCall
    (each : ReadsExpressions known fuel)
    (enough : 16 * input.length + 1 ≤ fuel + 1)
    (isSigil : (nextToken input).kind = .sigil) :
    Reads known (builtinCall (fuel + 1)) input fun found tokens _ =>
      found.1.kind = .identifier ∧ ∃ given,
        tokens = nextToken input :: found.1 :: given ∧ Derives (.arguments found.2) given := by
  rw [builtinCall]
  obtain ⟨sigil, rest, rfl, isMark⟩ := exists_of_nextToken isSigil (by decide)
  simp only [List.length_cons] at enough
  refine reads_advance isMark (by decide) fun _ =>
    reads_expect (by decide) fun name left isLeft isName _ => reads_at ?_
  split
  next opens =>
    have shorter : rest.length = left.length + 1 := by rw [isLeft, List.length_cons]
    refine (each.callArguments (by omega) (of_decide_eq_true opens)).bind
      fun given tokens last _ derives => reads_pure ⟨isName, tokens, ?_, derives⟩
    simp
  next => exact reads_failHere _

theorem reads_callArguments
    (each : ReadsExpressions known fuel)
    (enough : 16 * input.length + 1 ≤ fuel + 1)
    (opens : (nextToken input).kind = .openParen) :
    Reads known (callArguments (fuel + 1)) input fun given tokens _ =>
      Derives (.arguments given) tokens := by
  rw [callArguments]
  obtain ⟨lexeme, rest, rfl, isOpen⟩ := exists_of_nextToken opens (by decide)
  simp only [List.length_cons] at enough
  refine reads_advance isOpen (by decide) fun opened =>
    (each.items (by omega) rfl).bind fun given tokens left _ holds => ?_
  obtain ⟨more, rfl, derives⟩ := holds
  refine reads_close opened (by decide) fun closes last isLeft isClose => reads_pure ?_
  exact .arguments isOpen derives isClose

theorem reads_items
    (each : ReadsExpressions known fuel)
    {closing : Token.Kind}
    {comma : Expected}
    {done : List Expr}
    (enough : 16 * input.length + 5 ≤ fuel + 1)
    (isComma : comma.kind = .comma) :
    Reads known (items (fuel + 1) closing comma done) input fun found tokens _ =>
      ∃ more, found = done ++ more ∧
        Derives (if done.isEmpty then .items more else .moreItems more) tokens := by
  rw [items]
  refine reads_peek ?_
  split
  next =>
    refine reads_pure ⟨[], by simp, ?_⟩
    split
    · exact .noItems
    · exact .noMoreItems
  next =>
    -- An item and all that follow it; a comma stands in front unless the item is the first.
    have behind : ∀ {left : List Lexeme}, 16 * left.length + 4 ≤ fuel →
        Reads known (do
            let item ← binary fuel 1
            items fuel closing comma (done ++ [item])) left fun found tokens _ =>
          ∃ first rest front back, found = done ++ first :: rest ∧ tokens = front ++ back ∧
            Derives (.operation 1 first) front ∧ Derives (.moreItems rest) back := by
      intro left enough
      refine (each.binary enough).bind fun first front last length holds => ?_
      have nonempty := holds.1.length_pos rfl
      refine (each.items (by omega) isComma).mono fun found back final _ others => ?_
      obtain ⟨rest, rfl, derives⟩ := others
      rw [if_neg (by simp)] at derives
      exact ⟨first, rest, front, back, by simp, rfl, holds.1, derives⟩
    cases done with
    | nil =>
        refine (behind (by omega)).mono fun found tokens left _ holds => ?_
        obtain ⟨first, rest, front, back, rfl, rfl, firstDerives, restDerives⟩ := holds
        exact ⟨_, rfl, .items firstDerives restDerives⟩
    | cons first rest =>
        refine reads_expect (by rw [isComma]; decide) fun lexeme left isLeft isItem _ => ?_
        have shorter : input.length = left.length + 1 := by rw [isLeft, List.length_cons]
        refine (behind (by omega)).mono fun found tokens last _ holds => ?_
        obtain ⟨next, others, front, back, rfl, rfl, firstDerives, restDerives⟩ := holds
        exact ⟨_, rfl, .moreItems (isItem.trans isComma) firstDerives restDerives⟩

/-- A constant is its token. -/
theorem reads_constant
    {next : Token → Parser Expr}
    (isKind : (nextToken input).kind = kind)
    (notEnd : kind ≠ .endOfInput)
    (reads : ∀ rest, known (nextToken input).line →
      Reads known (next (nextToken input)) rest fun expr tokens _ =>
        ∃ value, constant? (nextToken input) = some value ∧
          expr = .literal (nextToken input).line value ∧ tokens = []) :
    Reads known (advance >>= next) input fun expr tokens _ => Derives (.atom expr) tokens := by
  obtain ⟨token, rest, rfl, isToken⟩ := exists_of_nextToken isKind notEnd
  refine reads_advance isToken notEnd fun here =>
    (reads rest here).mono fun expr tokens left _ holds => ?_
  obtain ⟨value, isConstant, rfl, rfl⟩ := holds
  exact .constant isConstant

theorem reads_primary
    (each : ReadsExpressions known fuel)
    (enough : 16 * input.length + 2 ≤ fuel + 1) :
    Reads known (primary (fuel + 1)) input fun expr tokens _ => Derives (.atom expr) tokens := by
  rw [primary]
  refine reads_peek ?_
  split
  next isInteger =>
    refine reads_constant isInteger (by decide) fun rest here => ?_
    split
    next => exact reads_fail here _
    next value isNumber =>
      exact reads_pure ⟨_, by rw [constant?, isInteger]; simp [isNumber], rfl, rfl⟩
  next isString =>
    refine reads_constant isString (by decide) fun rest _ => ?_
    exact reads_pure ⟨_, by rw [constant?, isString], rfl, rfl⟩
  next isCharacter =>
    refine reads_constant isCharacter (by decide) fun rest _ => ?_
    exact reads_pure ⟨_, by rw [constant?, isCharacter], rfl, rfl⟩
  next isTrue =>
    refine reads_constant isTrue (by decide) fun rest _ => ?_
    exact reads_pure ⟨_, by rw [constant?, isTrue], rfl, rfl⟩
  next isFalse =>
    refine reads_constant isFalse (by decide) fun rest _ => ?_
    exact reads_pure ⟨_, by rw [constant?, isFalse], rfl, rfl⟩
  next isSigil =>
    refine (each.builtinCall (by omega) isSigil).bind fun found tokens rest _ holds => ?_
    obtain ⟨isName, given, rfl, derives⟩ := holds
    exact reads_pure (by simpa using Derives.builtin isSigil isName derives)
  next isName =>
    obtain ⟨name, rest, rfl, isIdentifier⟩ := exists_of_nextToken isName (by decide)
    simp only [List.length_cons] at enough
    refine reads_advance isIdentifier (by decide) fun _ => reads_peek ?_
    split
    next opens =>
      refine (each.callArguments (by omega) opens).bind fun given tokens left _ derives => ?_
      exact reads_pure (by simpa using Derives.call isIdentifier derives)
    next opens =>
      refine (each.index (by omega) opens).bind fun position tokens left _ derives => ?_
      exact reads_pure (by simpa using Derives.element isIdentifier derives)
    next => exact reads_pure (.name isIdentifier)
  next isParen =>
    obtain ⟨lexeme, rest, rfl, opens⟩ := exists_of_nextToken isParen (by decide)
    simp only [List.length_cons] at enough
    refine reads_advance opens (by decide) fun opened =>
      (each.binary (by omega)).bind fun inner tokens left _ holds => ?_
    refine reads_close opened (by decide) fun closes last _ isClose => reads_pure ?_
    exact .group opens holds.1 isClose
  next isBracket =>
    obtain ⟨lexeme, rest, rfl, opens⟩ := exists_of_nextToken isBracket (by decide)
    simp only [List.length_cons] at enough
    refine reads_advance opens (by decide) fun opened =>
      (each.items (by omega) rfl).bind fun elements tokens left _ holds => ?_
    obtain ⟨more, rfl, derives⟩ := holds
    refine reads_close opened (by decide) fun closes last _ isClose => reads_pure ?_
    exact .array opens derives isClose
  next => exact reads_failHere _

/-- The readers of expressions derive what they take, however many rules they may begin. -/
theorem readsExpressions
    (known : Nat → Prop)
    (fuel : Nat) :
    ReadsExpressions known fuel := by
  induction fuel with
  | zero => constructor <;> intros <;> omega
  | succ fuel each =>
      exact
        { binary := reads_binary each
          binaryTail := reads_binaryTail each
          unary := reads_unary each
          primary := reads_primary each
          index := reads_index each
          builtinCall := reads_builtinCall each
          callArguments := reads_callArguments each
          items := reads_items each }

end Parser

/-!
## Statements that are read are derived

What the readers of types, conditions, signatures and statements take from the input derives the
tree that they give, and a reading of a whole input stops in front of the first statement that
cannot be read.
-/

namespace Parser

open Grammar

variable
    {known : Nat → Prop}
    {fuel : Nat}
    {input : List Lexeme}

theorem reads_type :
    Reads known type input fun type tokens _ => DerivesType type tokens := by
  unfold type
  refine reads_expect (by decide) fun word rest _ isWord atWord => ?_
  split
  next => exact reads_fail atWord _
  next element isType =>
    refine reads_at ?_
    split
    next isOpen =>
      obtain ⟨opens, rest, rfl, isBracket⟩ :=
        exists_of_nextToken (of_decide_eq_true isOpen) (by decide)
      refine reads_advance isBracket (by decide) fun opened =>
        reads_expect (by decide) fun number left _ isNumber atNumber => ?_
      split
      next => exact reads_fail atNumber _
      next length isLength =>
        split
        next => exact reads_fail atNumber _
        next positive =>
          split
          next => exact reads_fail atWord _
          next scalar =>
            refine reads_close opened (by decide) fun closes last _ isClose => reads_pure ?_
            rw [not_or] at scalar
            exact .array isWord isType isBracket isNumber isLength (by omega) scalar.1 scalar.2
              isClose
    next => exact reads_pure (.word isWord isType)

theorem reads_declaration
    {name : Token}
    (isName : name.kind = .identifier)
    (isColon : (nextToken input).kind = .colon)
    (enough : 16 * input.length ≤ fuel) :
    Reads known (declaration fuel name) input fun stmt tokens _ =>
      Yields (.statement stmt) (name :: tokens) := by
  unfold declaration
  obtain ⟨colon, rest, rfl, isKind⟩ := exists_of_nextToken isColon (by decide)
  simp only [List.length_cons] at enough
  refine reads_advance isKind (by decide) fun _ =>
    reads_type.bind fun declared types left length derives => reads_at ?_
  dsimp only
  split
  next isAssign =>
    obtain ⟨sign, values, rfl, isSign⟩ :=
      exists_of_nextToken (of_decide_eq_true isAssign) (by decide)
    simp only [List.length_cons] at length
    refine reads_advance isSign (by decide) fun _ =>
      ((readsExpressions known fuel).binary (by omega)).withInput.bind
        fun value taken last _ holds => ?_
    obtain ⟨-, inside, isValue, -⟩ := holds
    split
    next line fault isFault =>
      exact reads_fail_bind (isValue.lines inside line (line_of_literalFault isFault)) _
    next fits =>
      refine reads_pure_bind (reads_semicolon fun ends final _ isEnd => reads_pure ?_)
      exact .declareWith isName isKind derives isSign isValue fits isEnd
  next =>
    refine reads_pure_bind (reads_semicolon fun ends final _ isEnd => reads_pure ?_)
    exact .declare isName isKind derives isEnd

theorem reads_nameStatement
    (isName : (nextToken input).kind = .identifier)
    (enough : 16 * input.length + 1 ≤ fuel) :
    Reads known (nameStatement fuel) input fun stmt tokens _ =>
      Yields (.statement stmt) tokens := by
  unfold nameStatement
  obtain ⟨name, rest, rfl, isIdentifier⟩ := exists_of_nextToken isName (by decide)
  simp only [List.length_cons] at enough
  refine reads_advance isIdentifier (by decide) fun _ => reads_peek ?_
  split
  next isColon => exact reads_declaration isIdentifier isColon (by omega)
  next opens =>
    refine ((readsExpressions known fuel).callArguments (by omega) opens).bind
      fun given tokens left _ derives => ?_
    refine reads_semicolon fun ends final _ isEnd => reads_pure ?_
    exact .call isIdentifier derives isEnd
  next =>
    refine reads_expect (by decide) fun sign left isRest isSign _ => ?_
    have shorter : rest.length = left.length + 1 := by rw [isRest, List.length_cons]
    refine ((readsExpressions known fuel).binary (by omega)).bind
      fun value tokens last _ holds => ?_
    refine reads_semicolon fun ends final _ isEnd => reads_pure ?_
    exact .assign isIdentifier isSign holds.1 isEnd
  next opens =>
    refine ((readsExpressions known fuel).index (by omega) opens).bind
      fun position places left length derives => ?_
    refine reads_expect (by decide) fun sign last isLeft isSign _ => ?_
    have shorter : left.length = last.length + 1 := by rw [isLeft, List.length_cons]
    refine ((readsExpressions known fuel).binary (by omega)).bind
      fun value tokens final _ holds => ?_
    refine reads_semicolon fun ends _ _ isEnd => reads_pure ?_
    simpa using Yields.store isIdentifier derives isSign holds.1 isEnd
  next => exact reads_failHere _

theorem reads_leave
    (isReturn : (nextToken input).kind = .wordReturn)
    (enough : 16 * input.length + 1 ≤ fuel) :
    Reads known (leave fuel) input fun stmt tokens _ => Yields (.statement stmt) tokens := by
  unfold leave
  obtain ⟨word, rest, rfl, isWord⟩ := exists_of_nextToken isReturn (by decide)
  simp only [List.length_cons] at enough
  refine reads_advance isWord (by decide) fun _ => reads_at ?_
  dsimp only
  split
  next =>
    refine reads_pure_bind (reads_semicolon fun ends _ _ isEnd => reads_pure ?_)
    exact .leave isWord isEnd
  next =>
    refine ((readsExpressions known fuel).binary (by omega)).bind
      fun value tokens final _ holds => ?_
    refine reads_pure_bind (reads_semicolon fun ends _ _ isEnd => reads_pure ?_)
    exact .leaveWith isWord holds.1 isEnd

theorem reads_comparison
    (enough : 16 * input.length + 4 ≤ fuel) :
    Reads known (comparison fuel) input fun term tokens _ => DerivesTerm term tokens := by
  unfold comparison
  refine ((readsExpressions known fuel).binary enough).bind fun left front rest length holds => ?_
  refine reads_peek ?_
  split
  next => exact reads_pure (by simpa using DerivesTerm.bare holds.1)
  next test isTest =>
    have notEnd : (nextToken rest).kind ≠ .endOfInput := by
      intro isEnd
      rw [isEnd] at isTest
      cases isTest
    obtain ⟨op, others, rfl, isOp⟩ := exists_of_nextToken rfl notEnd
    simp only [List.length_cons] at length
    refine reads_advance isOp notEnd fun _ =>
      ((readsExpressions known fuel).binary (by omega)).bind
        fun right back last _ rightHolds => reads_pure ?_
    simpa using DerivesTerm.compared holds.1 isTest rightHolds.1

theorem reads_conditionTail
    {terms : List Comparison}
    {joins : List Logic}
    (enough : 16 * input.length + 5 ≤ fuel) :
    Reads known (conditionTail fuel terms joins) input fun found tokens _ =>
      ∃ moreTerms moreJoins, found = (terms ++ moreTerms, joins ++ moreJoins) ∧
        DerivesChain moreTerms moreJoins tokens := by
  induction fuel generalizing input terms joins with
  | zero => omega
  | succ fuel inductionHypothesis =>
      rw [conditionTail]
      refine (reads_comparison (by omega)).bind fun term front rest length derives => ?_
      have nonempty := derives.length_pos
      -- What stands behind a logical operator is the rest of the chain.
      have behind : ∀ {kind : Token.Kind} {logic : Logic}, logic? kind = some logic →
          kind ≠ .endOfInput → (nextToken rest).kind = kind →
          Reads known (do
              let _ ← advance
              conditionTail fuel (terms ++ [term]) (joins ++ [logic])) rest fun found tokens _ =>
            ∃ moreTerms moreJoins, found = (terms ++ moreTerms, joins ++ moreJoins) ∧
              DerivesChain moreTerms moreJoins (front ++ tokens) := by
        intro kind logic isLogic notEnd isKind
        obtain ⟨op, others, rfl, isOp⟩ := exists_of_nextToken isKind notEnd
        simp only [List.length_cons] at length
        refine reads_advance isOp notEnd fun _ =>
          (inductionHypothesis (by omega)).mono fun found back left _ holds => ?_
        obtain ⟨moreTerms, moreJoins, rfl, chain⟩ := holds
        exact ⟨term :: moreTerms, logic :: moreJoins, by simp,
          .join derives (isOp ▸ isLogic) chain⟩
      refine reads_peek ?_
      split
      next isBoth => exact behind rfl (by decide) isBoth
      next isEither => exact behind rfl (by decide) isEither
      next =>
        exact reads_pure ⟨[term], [], by simp, by simpa using DerivesChain.last derives⟩

theorem reads_guard
    (enough : 16 * input.length ≤ fuel) :
    Reads known (guard fuel) input fun test tokens _ => DerivesGuard test tokens := by
  unfold guard
  refine reads_expect (by decide) fun opens rest isInput isOpen opened => ?_
  have shorter : input.length = rest.length + 1 := by rw [isInput, List.length_cons]
  have inner : Reads known (condition fuel) rest fun test tokens _ =>
      ∃ first others, tokens = first :: others ∧ test.line = first.line ∧
        DerivesChain test.terms test.joins tokens := by
    unfold condition
    refine reads_peek ((reads_conditionTail (by omega)).withInput.bind
      fun found tokens left _ holds => reads_pure ?_)
    obtain ⟨isRest, -, terms, joins, rfl, derives⟩ := holds
    rw [List.append_nil]
    obtain ⟨first, others, rfl, -⟩ := derives.starts
    refine ⟨first, others, rfl, ?_, derives⟩
    cases rest with
    | nil => simp at isRest
    | cons lexeme rest =>
        rw [List.map_cons, List.cons_append, List.cons.injEq] at isRest
        rw [nextToken_cons, isRest.1]
  refine inner.bind fun test tokens left _ holds => ?_
  obtain ⟨first, others, rfl, isLine, derives⟩ := holds
  refine reads_close opened (by decide) fun closes last _ isClose => reads_pure ?_
  obtain ⟨line, terms, joins⟩ := test
  cases isLine
  exact .guard isOpen derives isClose

theorem reads_parameters
    {done : List Param}
    (enough : 16 * input.length + 1 ≤ fuel) :
    Reads known (parameters fuel done) input fun found tokens _ =>
      ∃ more, found = done ++ more ∧
        if done.isEmpty then DerivesParams more tokens else DerivesMoreParams more tokens := by
  induction fuel generalizing input done with
  | zero => omega
  | succ fuel inductionHypothesis =>
      rw [parameters]
      refine reads_peek ?_
      split
      next =>
        refine reads_pure ⟨[], by simp, ?_⟩
        split
        · exact .nil
        · exact .nil
      next =>
        -- A parameter and all that follow it; a comma stands in front unless it is the first.
        have behind : ∀ {left : List Lexeme}, 16 * left.length ≤ fuel →
            Reads known (do
                let name ← expect .parameterName
                let _ ← expect .parameterColon
                let declared ← type
                parameters fuel
                  (done ++ [{ line := name.line, name := name.spelling, type := declared }])) left
              fun found tokens _ =>
                ∃ first rest front back, found = done ++ first :: rest ∧ tokens = front ++ back ∧
                  DerivesParam first front ∧ DerivesMoreParams rest back := by
          intro left enough
          refine reads_expect (by decide) fun name rest isLeft isName _ => ?_
          have shorter : left.length = rest.length + 1 := by rw [isLeft, List.length_cons]
          refine reads_expect (by decide) fun colon others isRest isColon _ => ?_
          have shorter' : rest.length = others.length + 1 := by rw [isRest, List.length_cons]
          refine reads_type.bind fun declared types last length derives => ?_
          refine (inductionHypothesis (by omega)).mono fun found back final _ holds => ?_
          obtain ⟨rest, rfl, more⟩ := holds
          rw [if_neg (by simp)] at more
          exact ⟨_, rest, _, back, by simp, by simp, .param isName isColon derives, more⟩
        cases done with
        | nil =>
            refine (behind (by omega)).mono fun found tokens left _ holds => ?_
            obtain ⟨first, rest, front, back, rfl, rfl, firstDerives, restDerives⟩ := holds
            exact ⟨_, rfl, .cons firstDerives restDerives⟩
        | cons first rest =>
            refine reads_expect (by decide) fun comma left isInput isComma _ => ?_
            have shorter : input.length = left.length + 1 := by rw [isInput, List.length_cons]
            refine (behind (by omega)).mono fun found tokens last _ holds => ?_
            obtain ⟨next, others, front, back, rfl, rfl, firstDerives, restDerives⟩ := holds
            exact ⟨_, rfl, .cons isComma firstDerives restDerives⟩

theorem reads_signature
    (enough : 16 * input.length ≤ fuel) :
    Reads known (signature fuel) input fun found tokens _ =>
      ∃ name opens given closes results, tokens = name :: opens :: (given ++ closes :: results) ∧
        found.1 = name ∧ name.kind = .identifier ∧ opens.kind = .openParen ∧
        DerivesParams found.2.1 given ∧ closes.kind = .closeParen ∧
        DerivesResult found.2.2 results := by
  unfold signature
  refine reads_expect (by decide) fun name rest isInput isName _ => ?_
  have shorter : input.length = rest.length + 1 := by rw [isInput, List.length_cons]
  refine reads_expect (by decide) fun opens left isRest isOpen opened => ?_
  have shorter' : rest.length = left.length + 1 := by rw [isRest, List.length_cons]
  refine (reads_parameters (by omega)).bind fun params given last _ holds => ?_
  obtain ⟨more, rfl, derives⟩ := holds
  refine reads_close opened (by decide) fun closes final _ isClose => reads_at ?_
  split
  next isArrow =>
    obtain ⟨arrow, others, rfl, isSign⟩ :=
      exists_of_nextToken (of_decide_eq_true isArrow) (by decide)
    refine reads_advance isSign (by decide) fun _ =>
      reads_type.bind fun result types _ _ isResult => reads_pure ?_
    exact ⟨name.token, opens.token, given, closes.token, _, by simp, rfl, isName, isOpen, derives,
      isClose, .type isSign isResult⟩
  next =>
    exact reads_pure ⟨name.token, opens.token, given, closes.token, [], by simp, rfl, isName, isOpen,
      derives, isClose, .none⟩

/-- What the readers of statements do when they may begin a number of rules. -/
structure ReadsStatements (known : Nat → Prop) (fuel : Nat) : Prop where
  block : ∀ {input : List Lexeme}, 16 * input.length + 1 ≤ fuel →
    Reads known (block fuel) input fun found tokens _ => Yields (.block found.1 found.2) tokens
  statements : ∀ {done : List Stmt} {input : List Lexeme}, 16 * input.length + 3 ≤ fuel →
    Reads known (statements fuel done) input fun found tokens _ =>
      ∃ more, found = done ++ more ∧ Yields (.body more) tokens
  statement : ∀ {input : List Lexeme}, 16 * input.length + 2 ≤ fuel →
    Reads known (statement fuel) input fun stmt tokens _ => Yields (.statement stmt) tokens
  branch : ∀ {input : List Lexeme}, 16 * input.length + 1 ≤ fuel →
    Reads known (branch fuel) input fun next tokens _ => Yields (.branch next) tokens

theorem reads_block
    (each : ReadsStatements known fuel)
    (enough : 16 * input.length + 1 ≤ fuel + 1) :
    Reads known (block (fuel + 1)) input fun found tokens _ =>
      Yields (.block found.1 found.2) tokens := by
  rw [block]
  refine reads_expect (by decide) fun opens rest isInput isOpen opened => ?_
  have shorter : input.length = rest.length + 1 := by rw [isInput, List.length_cons]
  refine (each.statements (by omega)).bind fun body tokens left _ holds => ?_
  obtain ⟨more, rfl, yields⟩ := holds
  refine reads_close opened (by decide) fun closes last _ isClose => reads_pure ?_
  exact .block isOpen yields isClose

theorem reads_statements
    (each : ReadsStatements known fuel)
    {done : List Stmt}
    (enough : 16 * input.length + 3 ≤ fuel + 1) :
    Reads known (statements (fuel + 1) done) input fun found tokens _ =>
      ∃ more, found = done ++ more ∧ Yields (.body more) tokens := by
  rw [statements]
  refine reads_peek ?_
  split
  next => exact reads_pure ⟨[], by simp, .empty⟩
  next =>
    refine (each.statement (by omega)).bind fun first front rest length yields => ?_
    have nonempty := yields.length_pos rfl
    refine (each.statements (by omega)).mono fun found back left _ holds => ?_
    obtain ⟨more, rfl, others⟩ := holds
    exact ⟨first :: more, by simp, .next yields others⟩

theorem reads_statement
    (each : ReadsStatements known fuel)
    (enough : 16 * input.length + 2 ≤ fuel + 1) :
    Reads known (statement (fuel + 1)) input fun stmt tokens _ =>
      Yields (.statement stmt) tokens := by
  rw [statement]
  refine reads_peek ?_
  split
  next isFn =>
    obtain ⟨word, rest, rfl, isWord⟩ := exists_of_nextToken isFn (by decide)
    simp only [List.length_cons] at enough
    refine reads_advance isWord (by decide) fun _ =>
      (reads_signature (by omega)).bind fun found tokens left _ holds => ?_
    obtain ⟨name, opens, given, closes, results, rfl, rfl, isName, isOpen, params, isClose,
      result⟩ := holds
    refine (each.block (by omega)).bind fun body bodies last _ yields => reads_pure ?_
    simpa using Yields.function isWord isName isOpen params isClose result yields
  next isReturn => exact reads_leave isReturn (by omega)
  next isIf =>
    obtain ⟨word, rest, rfl, isWord⟩ := exists_of_nextToken isIf (by decide)
    simp only [List.length_cons] at enough
    refine reads_advance isWord (by decide) fun _ =>
      (reads_guard (by omega)).bind fun test tests left _ derives => ?_
    refine (each.block (by omega)).bind fun body bodies last _ yields => ?_
    refine (each.branch (by omega)).bind fun next branches final _ follows => reads_pure ?_
    simpa using Yields.choose isWord derives yields follows
  next isWhile =>
    obtain ⟨word, rest, rfl, isWord⟩ := exists_of_nextToken isWhile (by decide)
    simp only [List.length_cons] at enough
    refine reads_advance isWord (by decide) fun _ =>
      (reads_guard (by omega)).bind fun test tests left _ derives => ?_
    refine (each.block (by omega)).bind fun body bodies last _ yields => reads_pure ?_
    simpa using Yields.loop isWord derives yields
  next isBreak =>
    obtain ⟨word, rest, rfl, isWord⟩ := exists_of_nextToken isBreak (by decide)
    exact reads_advance isWord (by decide) fun _ =>
      reads_semicolon fun ends _ _ isEnd => reads_pure (.exit isWord isEnd)
  next =>
    refine (each.block (by omega)).bind fun body bodies last _ yields => reads_pure ?_
    simpa using Yields.nested yields
  next isSigil =>
    refine ((readsExpressions known fuel).builtinCall (by omega) isSigil).bind
      fun found tokens left _ holds => ?_
    obtain ⟨isName, given, rfl, derives⟩ := holds
    refine reads_semicolon fun ends _ _ isEnd => reads_pure ?_
    exact .builtin isSigil isName derives isEnd
  next isName => exact reads_nameStatement isName (by omega)
  next => exact reads_failHere _

theorem reads_branch
    (each : ReadsStatements known fuel)
    (enough : 16 * input.length + 1 ≤ fuel + 1) :
    Reads known (branch (fuel + 1)) input fun next tokens _ => Yields (.branch next) tokens := by
  rw [branch]
  refine reads_peek ?_
  split
  next isElif =>
    obtain ⟨word, rest, rfl, isWord⟩ := exists_of_nextToken isElif (by decide)
    simp only [List.length_cons] at enough
    refine reads_advance isWord (by decide) fun _ =>
      (reads_guard (by omega)).bind fun test tests left _ derives => ?_
    refine (each.block (by omega)).bind fun body bodies last _ yields => ?_
    refine (each.branch (by omega)).bind fun next branches final _ follows => reads_pure ?_
    simpa using Yields.elif isWord derives yields follows
  next isElse =>
    obtain ⟨word, rest, rfl, isWord⟩ := exists_of_nextToken isElse (by decide)
    simp only [List.length_cons] at enough
    refine reads_advance isWord (by decide) fun _ =>
      (each.block (by omega)).bind fun body bodies last _ yields => reads_pure ?_
    simpa using Yields.otherwise isWord yields
  next => exact reads_pure .noBranch

/-- The readers of statements derive what they take, however many rules they may begin. -/
theorem readsStatements
    (known : Nat → Prop)
    (fuel : Nat) :
    ReadsStatements known fuel := by
  induction fuel with
  | zero => constructor <;> intros <;> omega
  | succ fuel each =>
      exact
        { block := reads_block each
          statements := reads_statements each
          statement := reads_statement each
          branch := reads_branch each }

end Parser

end IlsCompiler
