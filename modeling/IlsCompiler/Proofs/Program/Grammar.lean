import IlsCompiler.Program.Parser

namespace IlsCompiler

/-!
# The surface grammar

Which sequences of tokens stand for which trees. Operators bind in two strengths and group to the
left, minus signs stand in front of an operand, and every list is closed by its own bracket. The
rules give the trees with their lines, so that a sequence derives one tree only.
-/

namespace Grammar

open Parser

/-- The constant that a token stands for by itself. -/
def constant? (token : Token) : Option Literal :=
  match token.kind with
  | .integer =>
      (Text.integer? 32 token.spelling).map fun _ => .scalar .int token.spelling
  | .string => some (.string token.text)
  | .character =>
      some (.scalar .char (toString ((token.text.head?.map UInt8.toNat).getD 0)))
  | .wordTrue => some (.scalar .bool "1")
  | .wordFalse => some (.scalar .bool "0")
  | _ => none

/-- What a part of an expression is, with the tree that it stands for. -/
inductive Phrase where
  | operation (least : Nat) (expr : Expr)
  | operand (expr : Expr)
  | atom (expr : Expr)
  | index (position : Expr)
  | arguments (given : List Expr)
  | items (given : List Expr)
  | moreItems (given : List Expr)

/-- The token sequences of the parts of expressions. -/
inductive Derives : Phrase → List Token → Prop
  | operand {least : Nat} {expr : Expr} {tokens : List Token} :
      Derives (.operand expr) tokens → Derives (.operation least expr) tokens
  | operator {least strength : Nat} {op : Token} {left right : Expr} {front back : List Token} :
      strength? op.kind = some strength → least ≤ strength →
        Derives (.operation strength left) front →
        Derives (.operation (strength + 1) right) back →
        Derives (.operation least (.binary left.line (arithOp op.kind) left right))
          (front ++ op :: back)
  | atom {expr : Expr} {tokens : List Token} :
      Derives (.atom expr) tokens → Derives (.operand expr) tokens
  | minus {sign : Token} {expr : Expr} {tokens : List Token} :
      sign.kind = .minus → Derives (.operand expr) tokens →
        Derives (.operand (negate sign.line expr)) (sign :: tokens)
  | constant {token : Token} {value : Literal} :
      constant? token = some value → Derives (.atom (.literal token.line value)) [token]
  | name {name : Token} :
      name.kind = .identifier → Derives (.atom (.name name.line name.spelling)) [name]
  | element {name : Token} {position : Expr} {tokens : List Token} :
      name.kind = .identifier → Derives (.index position) tokens →
        Derives (.atom (.element name.line name.spelling position)) (name :: tokens)
  | call {name : Token} {given : List Expr} {tokens : List Token} :
      name.kind = .identifier → Derives (.arguments given) tokens →
        Derives (.atom (.call name.line name.spelling false given)) (name :: tokens)
  | builtin {sigil name : Token} {given : List Expr} {tokens : List Token} :
      sigil.kind = .sigil → name.kind = .identifier → Derives (.arguments given) tokens →
        Derives (.atom (.call name.line name.spelling true given)) (sigil :: name :: tokens)
  | group {opens closes : Token} {expr : Expr} {tokens : List Token} :
      opens.kind = .openParen → Derives (.operation 1 expr) tokens →
        closes.kind = .closeParen → Derives (.atom expr) (opens :: (tokens ++ [closes]))
  | array {opens closes : Token} {elements : List Expr} {tokens : List Token} :
      opens.kind = .openBracket → Derives (.items elements) tokens →
        closes.kind = .closeBracket →
        Derives (.atom (.array opens.line elements)) (opens :: (tokens ++ [closes]))
  | index {opens closes : Token} {position : Expr} {tokens : List Token} :
      opens.kind = .openBracket → Derives (.operation 1 position) tokens →
        closes.kind = .closeBracket →
        Derives (.index position) (opens :: (tokens ++ [closes]))
  | arguments {opens closes : Token} {given : List Expr} {tokens : List Token} :
      opens.kind = .openParen → Derives (.items given) tokens → closes.kind = .closeParen →
        Derives (.arguments given) (opens :: (tokens ++ [closes]))
  | noItems : Derives (.items []) []
  | items {first : Expr} {rest : List Expr} {front back : List Token} :
      Derives (.operation 1 first) front → Derives (.moreItems rest) back →
        Derives (.items (first :: rest)) (front ++ back)
  | noMoreItems : Derives (.moreItems []) []
  | moreItems {comma : Token} {first : Expr} {rest : List Expr} {front back : List Token} :
      comma.kind = .comma → Derives (.operation 1 first) front →
        Derives (.moreItems rest) back →
        Derives (.moreItems (first :: rest)) (comma :: (front ++ back))

/-- The token sequences of types. -/
inductive DerivesType : Ty → List Token → Prop
  | word {word : Token} {type : Ty} :
      word.kind = .identifier → Ty.ofWord? word.spelling = some type → DerivesType type [word]
  | array {word opens number closes : Token} {element : Ty} {length : Int} :
      word.kind = .identifier → Ty.ofWord? word.spelling = some element →
        opens.kind = .openBracket → number.kind = .integer →
        Text.integer? 64 number.spelling = some length → 0 < length →
        element ≠ .void → element ≠ .str → closes.kind = .closeBracket →
        DerivesType (.array element length) [word, opens, number, closes]

/-- The token sequences of the terms of conditions. -/
inductive DerivesTerm : Comparison → List Token → Prop
  | bare {left : Expr} {tokens : List Token} :
      Derives (.operation 1 left) tokens →
        DerivesTerm { line := left.line, left := left, op := none, right := none } tokens
  | compared {op : Token} {test : CmpOp} {left right : Expr} {front back : List Token} :
      Derives (.operation 1 left) front → cmpOp? op.kind = some test →
        Derives (.operation 1 right) back →
        DerivesTerm { line := left.line, left := left, op := some test, right := some right }
          (front ++ op :: back)

/-- The logical operator a token spells. -/
def logic? : Token.Kind → Option Logic
  | .both => some .both
  | .either => some .either
  | _ => none

/-- The token sequences of terms with joins between them. -/
inductive DerivesChain : List Comparison → List Logic → List Token → Prop
  | last {term : Comparison} {tokens : List Token} :
      DerivesTerm term tokens → DerivesChain [term] [] tokens
  | join {term : Comparison} {terms : List Comparison} {op : Token} {logic : Logic}
      {joins : List Logic} {front back : List Token} :
      DerivesTerm term front → logic? op.kind = some logic → DerivesChain terms joins back →
        DerivesChain (term :: terms) (logic :: joins) (front ++ op :: back)

/-- The token sequences of conditions in parentheses. -/
inductive DerivesGuard : Condition → List Token → Prop
  | guard {opens first closes : Token} {terms : List Comparison} {joins : List Logic}
      {tokens : List Token} :
      opens.kind = .openParen → DerivesChain terms joins (first :: tokens) →
        closes.kind = .closeParen →
        DerivesGuard { line := first.line, terms := terms, joins := joins }
          (opens :: (first :: tokens ++ [closes]))

/-- The token sequences of single parameters. -/
inductive DerivesParam : Param → List Token → Prop
  | param {name colon : Token} {type : Ty} {tokens : List Token} :
      name.kind = .identifier → colon.kind = .colon → DerivesType type tokens →
        DerivesParam { line := name.line, name := name.spelling, type := type }
          (name :: colon :: tokens)

/-- The token sequences of parameters behind a first one. -/
inductive DerivesMoreParams : List Param → List Token → Prop
  | nil : DerivesMoreParams [] []
  | cons {comma : Token} {param : Param} {rest : List Param} {front back : List Token} :
      comma.kind = .comma → DerivesParam param front → DerivesMoreParams rest back →
        DerivesMoreParams (param :: rest) (comma :: (front ++ back))

/-- The token sequences of parameter lists. -/
inductive DerivesParams : List Param → List Token → Prop
  | nil : DerivesParams [] []
  | cons {param : Param} {rest : List Param} {front back : List Token} :
      DerivesParam param front → DerivesMoreParams rest back →
        DerivesParams (param :: rest) (front ++ back)

/-- The token sequences of result types, which may be left out. -/
inductive DerivesResult : Ty → List Token → Prop
  | none : DerivesResult .void []
  | type {arrow : Token} {type : Ty} {tokens : List Token} :
      arrow.kind = .arrow → DerivesType type tokens → DerivesResult type (arrow :: tokens)

/-- What a part of a program is, with the tree that it stands for. -/
inductive Clause where
  | statement (stmt : Stmt)
  | block (line : Nat) (body : List Stmt)
  | body (stmts : List Stmt)
  | branch (next : Branch)

/-- The token sequences of the parts of programs. -/
inductive Yields : Clause → List Token → Prop
  | declare {name colon ends : Token} {type : Ty} {types : List Token} :
      name.kind = .identifier → colon.kind = .colon → DerivesType type types →
        ends.kind = .semicolon →
        Yields (.statement (.declare name.line name.spelling type none))
          (name :: colon :: (types ++ [ends]))
  | declareWith {name colon sign ends : Token} {type : Ty} {value : Expr}
      {types values : List Token} :
      name.kind = .identifier → colon.kind = .colon → DerivesType type types →
        sign.kind = .assign → Derives (.operation 1 value) values →
        literalFault? type value = none → ends.kind = .semicolon →
        Yields (.statement (.declare name.line name.spelling type (some value)))
          (name :: colon :: (types ++ sign :: (values ++ [ends])))
  | assign {name sign ends : Token} {value : Expr} {values : List Token} :
      name.kind = .identifier → sign.kind = .assign → Derives (.operation 1 value) values →
        ends.kind = .semicolon →
        Yields (.statement (.assign name.line name.spelling none value))
          (name :: sign :: (values ++ [ends]))
  | store {name sign ends : Token} {position value : Expr} {places values : List Token} :
      name.kind = .identifier → Derives (.index position) places → sign.kind = .assign →
        Derives (.operation 1 value) values → ends.kind = .semicolon →
        Yields (.statement (.assign name.line name.spelling (some position) value))
          (name :: (places ++ sign :: (values ++ [ends])))
  | call {name ends : Token} {given : List Expr} {tokens : List Token} :
      name.kind = .identifier → Derives (.arguments given) tokens → ends.kind = .semicolon →
        Yields (.statement (.call name.line name.line name.spelling false given))
          (name :: (tokens ++ [ends]))
  | builtin {sigil name ends : Token} {given : List Expr} {tokens : List Token} :
      sigil.kind = .sigil → name.kind = .identifier → Derives (.arguments given) tokens →
        ends.kind = .semicolon →
        Yields (.statement (.call sigil.line name.line name.spelling true given))
          (sigil :: name :: (tokens ++ [ends]))
  | leave {word ends : Token} :
      word.kind = .wordReturn → ends.kind = .semicolon →
        Yields (.statement (.leave word.line none)) [word, ends]
  | leaveWith {word ends : Token} {value : Expr} {values : List Token} :
      word.kind = .wordReturn → Derives (.operation 1 value) values → ends.kind = .semicolon →
        Yields (.statement (.leave word.line (some value))) (word :: (values ++ [ends]))
  | exit {word ends : Token} :
      word.kind = .wordBreak → ends.kind = .semicolon →
        Yields (.statement (.exit word.line)) [word, ends]
  | nested {line : Nat} {body : List Stmt} {tokens : List Token} :
      Yields (.block line body) tokens → Yields (.statement (.block line body)) tokens
  | choose {word : Token} {test : Condition} {line : Nat} {body : List Stmt} {next : Branch}
      {tests bodies branches : List Token} :
      word.kind = .wordIf → DerivesGuard test tests → Yields (.block line body) bodies →
        Yields (.branch next) branches →
        Yields (.statement (.choose word.line (some test) line body next))
          (word :: (tests ++ (bodies ++ branches)))
  | loop {word : Token} {test : Condition} {line : Nat} {body : List Stmt}
      {tests bodies : List Token} :
      word.kind = .wordWhile → DerivesGuard test tests → Yields (.block line body) bodies →
        Yields (.statement (.loop word.line (some test) line body)) (word :: (tests ++ bodies))
  | function {word name opens closes : Token} {params : List Param} {result : Ty} {line : Nat}
      {body : List Stmt} {given results bodies : List Token} :
      word.kind = .wordFn → name.kind = .identifier → opens.kind = .openParen →
        DerivesParams params given → closes.kind = .closeParen → DerivesResult result results →
        Yields (.block line body) bodies →
        Yields (.statement (.function word.line name.spelling params result line body))
          (word :: name :: opens :: (given ++ closes :: (results ++ bodies)))
  | block {opens closes : Token} {body : List Stmt} {tokens : List Token} :
      opens.kind = .openBrace → Yields (.body body) tokens → closes.kind = .closeBrace →
        Yields (.block opens.line body) (opens :: (tokens ++ [closes]))
  | empty : Yields (.body []) []
  | next {first : Stmt} {rest : List Stmt} {front back : List Token} :
      Yields (.statement first) front → Yields (.body rest) back →
        Yields (.body (first :: rest)) (front ++ back)
  | noBranch : Yields (.branch .none) []
  | elif {word : Token} {test : Condition} {line : Nat} {body : List Stmt} {next : Branch}
      {tests bodies branches : List Token} :
      word.kind = .wordElif → DerivesGuard test tests → Yields (.block line body) bodies →
        Yields (.branch next) branches →
        Yields (.branch (.elif word.line (some test) line body next))
          (word :: (tests ++ (bodies ++ branches)))
  | otherwise {word : Token} {line : Nat} {body : List Stmt} {bodies : List Token} :
      word.kind = .wordElse → Yields (.block line body) bodies →
        Yields (.branch (.otherwise word.line line body)) (word :: bodies)

/-- Whether a token of a category can stand in front of an atom. -/
def startsAtom : Token.Kind → Bool
  | .integer | .string | .character | .wordTrue | .wordFalse | .identifier | .sigil
  | .openParen | .openBracket => true
  | _ => false

/-- Whether a token of a category can stand in front of an expression. -/
def startsExpression (kind : Token.Kind) : Bool :=
  kind = .minus || startsAtom kind

theorem startsAtom_of_constant?
    {token : Token}
    {value : Literal}
    (known : constant? token = some value) :
    startsAtom token.kind := by
  unfold constant? at known
  split at known <;> simp_all [startsAtom]

/-- What the first token of a part of an expression is. -/
def Phrase.Starts : Phrase → Token.Kind → Prop
  | .operation _ _, kind => startsExpression kind
  | .operand _, kind => startsExpression kind
  | .atom _, kind => startsAtom kind
  | .index _, kind => kind = .openBracket
  | .arguments _, kind => kind = .openParen
  | .items _, kind => startsExpression kind
  | .moreItems _, kind => kind = .comma

/-- Whether a part of an expression can be empty. -/
def Phrase.isEmpty : Phrase → Bool
  | .items [] => true
  | .moreItems [] => true
  | _ => false

variable
    {tokens : List Token}
    {phrase : Phrase}

/-- A part of an expression has a first token, unless it is an empty list. -/
theorem Derives.starts
    (derives : Derives phrase tokens) :
    (phrase.isEmpty = true ∧ tokens = []) ∨
      ∃ first rest, tokens = first :: rest ∧ phrase.Starts first.kind := by
  induction derives with
  | operand _ inductionHypothesis => exact inductionHypothesis
  | operator _ _ _ _ leftHypothesis _ =>
      obtain ⟨empty, -⟩ | ⟨first, rest, rfl, starts⟩ := leftHypothesis
      · cases empty
      · exact .inr ⟨first, _, rfl, starts⟩
  | atom _ inductionHypothesis =>
      obtain ⟨empty, -⟩ | ⟨first, rest, rfl, starts⟩ := inductionHypothesis
      · cases empty
      · refine .inr ⟨first, _, rfl, ?_⟩
        simp only [Phrase.Starts, startsExpression, Bool.or_eq_true]
        exact .inr starts
  | minus isMinus _ _ =>
      refine .inr ⟨_, _, rfl, ?_⟩
      simp [Phrase.Starts, startsExpression, isMinus]
  | constant known => exact .inr ⟨_, _, rfl, startsAtom_of_constant? known⟩
  | name isName => exact .inr ⟨_, _, rfl, by simp [Phrase.Starts, startsAtom, isName]⟩
  | element isName _ _ => exact .inr ⟨_, _, rfl, by simp [Phrase.Starts, startsAtom, isName]⟩
  | call isName _ _ => exact .inr ⟨_, _, rfl, by simp [Phrase.Starts, startsAtom, isName]⟩
  | builtin isSigil _ _ _ => exact .inr ⟨_, _, rfl, by simp [Phrase.Starts, startsAtom, isSigil]⟩
  | group opens _ _ _ => exact .inr ⟨_, _, rfl, by simp [Phrase.Starts, startsAtom, opens]⟩
  | array opens _ _ _ => exact .inr ⟨_, _, rfl, by simp [Phrase.Starts, startsAtom, opens]⟩
  | index opens _ _ _ => exact .inr ⟨_, _, rfl, opens⟩
  | arguments opens _ _ _ => exact .inr ⟨_, _, rfl, opens⟩
  | noItems => exact .inl ⟨rfl, rfl⟩
  | items _ _ firstHypothesis _ =>
      obtain ⟨empty, -⟩ | ⟨first, rest, rfl, starts⟩ := firstHypothesis
      · cases empty
      · exact .inr ⟨first, _, rfl, starts⟩
  | noMoreItems => exact .inl ⟨rfl, rfl⟩
  | moreItems isComma _ _ _ _ => exact .inr ⟨_, _, rfl, isComma⟩

/-- A part of an expression that is no empty list has a first token. -/
theorem Derives.first
    (derives : Derives phrase tokens)
    (nonempty : phrase.isEmpty = false) :
    ∃ first rest, tokens = first :: rest ∧ phrase.Starts first.kind := by
  obtain ⟨empty, -⟩ | found := derives.starts
  · rw [empty] at nonempty
    cases nonempty
  · exact found

theorem Derives.length_pos
    (derives : Derives phrase tokens)
    (nonempty : phrase.isEmpty = false) :
    0 < tokens.length := by
  obtain ⟨first, rest, rfl, -⟩ := derives.first nonempty
  exact Nat.succ_pos _

/-- An operation whose operators are strong enough is one for any weaker strength. -/
theorem Derives.weaken
    {least weaker : Nat}
    {expr : Expr}
    (derives : Derives (.operation least expr) tokens)
    (le : weaker ≤ least) :
    Derives (.operation weaker expr) tokens := by
  cases derives with
  | operand inner => exact .operand inner
  | operator strength bound left right =>
      exact .operator strength (Nat.le_trans le bound) left right

variable
    {term : Comparison}

theorem DerivesTerm.length_pos
    (derives : DerivesTerm term tokens) :
    0 < tokens.length := by
  cases derives with
  | bare inner => exact inner.length_pos rfl
  | compared left _ _ =>
      rw [List.length_append]
      exact Nat.lt_of_lt_of_le (left.length_pos rfl) (Nat.le_add_right _ _)

variable
    {terms : List Comparison}
    {joins : List Logic}

/-- The first token of a chain of terms starts an expression. -/
theorem DerivesChain.starts
    (derives : DerivesChain terms joins tokens) :
    ∃ first rest, tokens = first :: rest ∧ startsExpression first.kind := by
  have ofTerm : ∀ {term : Comparison} {tokens : List Token}, DerivesTerm term tokens →
      ∃ first rest, tokens = first :: rest ∧ startsExpression first.kind := by
    intro term tokens derives
    cases derives with
    | bare inner => exact inner.first rfl
    | compared left _ _ =>
        obtain ⟨first, rest, rfl, starts⟩ := left.first rfl
        exact ⟨first, _, rfl, starts⟩
  cases derives with
  | last term => exact ofTerm term
  | join term _ _ =>
      obtain ⟨first, rest, rfl, starts⟩ := ofTerm term
      exact ⟨first, _, rfl, starts⟩

/-- Whether a token of a category can stand in front of a statement. -/
def startsStatement : Token.Kind → Bool
  | .wordFn | .wordReturn | .wordIf | .wordWhile | .wordBreak | .openBrace | .sigil
  | .identifier => true
  | _ => false

/-- What the first token of a part of a program is. -/
def Clause.Starts : Clause → Token.Kind → Prop
  | .statement _, kind => startsStatement kind
  | .block _ _, kind => kind = .openBrace
  | .body _, kind => startsStatement kind
  | .branch _, kind => kind = .wordElif ∨ kind = .wordElse

/-- Whether a part of a program can be empty. -/
def Clause.isEmpty : Clause → Bool
  | .body [] => true
  | .branch .none => true
  | _ => false

variable
    {clause : Clause}

/-- A part of a program has a first token, unless it is an empty body or a missing branch. -/
theorem Yields.starts
    (yields : Yields clause tokens) :
    (clause.isEmpty = true ∧ tokens = []) ∨
      ∃ first rest, tokens = first :: rest ∧ clause.Starts first.kind := by
  induction yields with
  | declare isFirst | declareWith isFirst | assign isFirst | store isFirst | call isFirst
  | builtin isFirst | leave isFirst | leaveWith isFirst | exit isFirst | choose isFirst
  | loop isFirst | function isFirst =>
      exact .inr ⟨_, _, rfl, by simp [Clause.Starts, startsStatement, isFirst]⟩
  | nested _ inductionHypothesis =>
      obtain ⟨empty, -⟩ | ⟨first, rest, rfl, isBrace⟩ := inductionHypothesis
      · cases empty
      · refine .inr ⟨first, rest, rfl, ?_⟩
        rw [show first.kind = .openBrace from isBrace]
        rfl
  | block isBrace _ _ => exact .inr ⟨_, _, rfl, isBrace⟩
  | empty => exact .inl ⟨rfl, rfl⟩
  | next _ _ firstHypothesis _ =>
      obtain ⟨empty, -⟩ | ⟨first, rest, rfl, starts⟩ := firstHypothesis
      · cases empty
      · exact .inr ⟨first, _, rfl, starts⟩
  | noBranch => exact .inl ⟨rfl, rfl⟩
  | elif isElif _ _ _ => exact .inr ⟨_, _, rfl, .inl isElif⟩
  | otherwise isElse _ => exact .inr ⟨_, _, rfl, .inr isElse⟩

/-- A part of a program that cannot be empty has a first token. -/
theorem Yields.first
    (yields : Yields clause tokens)
    (nonempty : clause.isEmpty = false) :
    ∃ first rest, tokens = first :: rest ∧ clause.Starts first.kind := by
  obtain ⟨empty, -⟩ | found := yields.starts
  · rw [empty] at nonempty
    cases nonempty
  · exact found

theorem Yields.length_pos
    (yields : Yields clause tokens)
    (nonempty : clause.isEmpty = false) :
    0 < tokens.length := by
  obtain ⟨first, rest, rfl, -⟩ := yields.first nonempty
  exact Nat.succ_pos _

/-- Tokens in front of the end of the input. -/
def Inner (tokens : List Token) : Prop :=
  ∀ token ∈ tokens, token.kind ≠ .endOfInput

@[simp] theorem inner_nil : Inner [] := by
  simp [Inner]

@[simp] theorem inner_cons
    (token : Token)
    (tokens : List Token) :
    Inner (token :: tokens) ↔ token.kind ≠ .endOfInput ∧ Inner tokens := by
  simp [Inner]

@[simp] theorem inner_append
    (front back : List Token) :
    Inner (front ++ back) ↔ Inner front ∧ Inner back := by
  simp [Inner, or_imp, forall_and]

theorem Derives.inner
    (derives : Derives phrase tokens) :
    Inner tokens := by
  induction derives with
  | constant known =>
      have starts := startsAtom_of_constant? known
      rw [inner_cons]
      refine ⟨fun isEnd => ?_, inner_nil⟩
      rw [isEnd] at starts
      cases starts
  | operator known _ _ _ leftHypothesis rightHypothesis =>
      rw [inner_append, inner_cons]
      refine ⟨leftHypothesis, fun isEnd => ?_, rightHypothesis⟩
      rw [isEnd] at known
      cases known
  | operand _ inductionHypothesis | atom _ inductionHypothesis => exact inductionHypothesis
  | _ => simp_all

theorem DerivesType.inner
    {type : Ty}
    (derives : DerivesType type tokens) :
    Inner tokens := by
  cases derives <;> simp_all

theorem DerivesTerm.inner
    (derives : DerivesTerm term tokens) :
    Inner tokens := by
  cases derives with
  | bare left => exact left.inner
  | compared left known right =>
      rw [inner_append, inner_cons]
      refine ⟨left.inner, fun isEnd => ?_, right.inner⟩
      rw [isEnd] at known
      cases known

theorem DerivesChain.inner
    (derives : DerivesChain terms joins tokens) :
    Inner tokens := by
  induction derives with
  | last term => exact term.inner
  | join term known _ inductionHypothesis =>
      rw [inner_append, inner_cons]
      refine ⟨term.inner, fun isEnd => ?_, inductionHypothesis⟩
      rw [isEnd] at known
      cases known

theorem DerivesGuard.inner
    {test : Condition}
    (derives : DerivesGuard test tokens) :
    Inner tokens := by
  cases derives with
  | guard isOpen chain isClose =>
      have inside := chain.inner
      simp_all

theorem DerivesParam.inner
    {param : Param}
    (derives : DerivesParam param tokens) :
    Inner tokens := by
  cases derives with
  | param isName isColon type =>
      have inside := type.inner
      simp_all

variable
    {params : List Param}

theorem DerivesMoreParams.inner
    (derives : DerivesMoreParams params tokens) :
    Inner tokens := by
  induction derives with
  | nil => exact inner_nil
  | cons isComma param _ inductionHypothesis =>
      have inside := param.inner
      simp_all

theorem DerivesParams.inner
    (derives : DerivesParams params tokens) :
    Inner tokens := by
  cases derives with
  | nil => exact inner_nil
  | cons param more =>
      rw [inner_append]
      exact ⟨param.inner, more.inner⟩

theorem DerivesResult.inner
    {type : Ty}
    (derives : DerivesResult type tokens) :
    Inner tokens := by
  cases derives with
  | none => exact inner_nil
  | type isArrow type =>
      have inside := type.inner
      simp_all

/-- No part of a program reaches over the end of the input. -/
theorem Yields.inner
    (yields : Yields clause tokens) :
    Inner tokens := by
  induction yields with
  | declare isName isColon type isEnd =>
      have inside := type.inner
      simp_all
  | declareWith isName isColon type isSign value fits isEnd =>
      have inside := type.inner
      have behind := value.inner
      simp_all
  | assign isName isSign value isEnd =>
      have inside := value.inner
      simp_all
  | store isName position isSign value isEnd =>
      have inside := position.inner
      have behind := value.inner
      simp_all
  | call isName given isEnd =>
      have inside := given.inner
      simp_all
  | builtin isSigil isName given isEnd =>
      have inside := given.inner
      simp_all
  | leaveWith isWord value isEnd =>
      have inside := value.inner
      simp_all
  | choose isWord test _ _ _ _ =>
      have inside := test.inner
      simp_all
  | loop isWord test _ _ =>
      have inside := test.inner
      simp_all
  | elif isWord test _ _ _ _ =>
      have inside := test.inner
      simp_all
  | function isWord isName isOpen params isClose result _ _ =>
      have inside := params.inner
      have behind := result.inner
      simp_all
  | _ => simp_all

end Grammar

end IlsCompiler
