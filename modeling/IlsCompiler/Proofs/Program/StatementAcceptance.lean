import IlsCompiler.Proofs.Program.ExpressionAcceptance

namespace IlsCompiler

/-!
# Statements that are derived are read

The readers of types, conditions, signatures and statements take every sequence of tokens that
derives a tree, and give that tree.
-/

namespace Parser

open Grammar

variable
    {fuel : Nat}
    {tokens : List Token}

/-- A category that does not go on with a choice. -/
def NoBranch (kind : Token.Kind) : Prop :=
  kind ≠ .wordElif ∧ kind ≠ .wordElse

/-- What the readers of statements do with a part of a program. -/
def Admitted : Clause → List Token → Prop
  | .statement stmt, tokens =>
      ∀ fuel, 16 * tokens.length ≤ fuel → Takes (statement fuel) tokens stmt NoBranch
  | .block line body, tokens =>
      ∀ fuel, 16 * tokens.length ≤ fuel + 1 → Takes (block fuel) tokens (line, body) fun _ => True
  | .body stmts, tokens =>
      ∀ fuel done, 16 * tokens.length + 2 ≤ fuel →
        Takes (statements fuel done) tokens (done ++ stmts) (· = .closeBrace)
  | .branch next, tokens =>
      ∀ fuel, 16 * tokens.length + 1 ≤ fuel → Takes (branch fuel) tokens next NoBranch

variable
    {word ends : Token}

theorem admitted_exit
    (isWord : word.kind = .wordBreak)
    (isEnd : ends.kind = .semicolon) :
    Admitted (.statement (.exit word.line)) [word, ends] := by
  intro fuel enough
  simp only [List.length_cons, List.length_nil] at enough
  obtain ⟨fuel, rfl⟩ : ∃ fewer, fuel = fewer + 1 := ⟨fuel - 1, by omega⟩
  rw [statement]
  refine takes_peek ?_
  rw [isWord]
  exact takes_advance (takes_semicolon isEnd takes_pure)

theorem takes_expression
    {expr : Expr}
    (derives : Derives (.operation 1 expr) tokens)
    (enough : 16 * tokens.length + 1 ≤ fuel) :
    Takes (expression fuel) tokens expr (Stops 1) :=
  Continues.takes (accepted_of_derives derives) enough

variable
    {declared : Ty}

theorem takes_type
    (derives : DerivesType declared tokens) :
    Takes type tokens declared (· ≠ .openBracket) := by
  unfold type
  cases derives with
  | word isWord known =>
      refine takes_expect isWord ?_
      rw [known]
      exact takes_at_behind (fun _ => id) takes_pure
  | array isWord known isOpen isNumber isLength positive notVoid notStr isClose =>
      refine takes_expect isWord ?_
      rw [known]
      refine takes_at ?_
      rw [if_pos (decide_eq_true isOpen)]
      refine takes_advance (takes_expect isNumber ?_)
      rw [isLength]
      dsimp only
      rw [if_neg (by omega), if_neg (by simp [notVoid, notStr])]
      exact takes_close isClose takes_pure

variable
    {kind : Token.Kind}

theorem stops_semicolon
    {least : Nat}
    (isEnd : kind = .semicolon) :
    Stops least kind := by
  subst isEnd
  exact Closes.stops ⟨⟨by decide, by decide⟩, rfl⟩

variable
    {follows : Token.Kind → Prop}
    {stmt : Stmt}

/-- A value behind its sign, up to the semicolon. -/
theorem takes_value
    {value : Expr}
    {next : Expr → Parser Stmt}
    (derives : Derives (.operation 1 value) tokens)
    (isEnd : ends.kind = .semicolon)
    (enough : 16 * tokens.length + 1 ≤ fuel)
    (takes : Takes (next value) [ends] stmt follows) :
    Takes (expression fuel >>= next) (tokens ++ [ends]) stmt follows :=
  (takes_expression derives enough).bind (stops_semicolon isEnd) takes

theorem takes_declaration
    {name colon ends : Token}
    (derives : DerivesType declared tokens)
    (isEnd : ends.kind = .semicolon) :
    Takes (declaration fuel name) (colon :: (tokens ++ [ends]))
      (.declare name.line name.spelling declared none) follows := by
  unfold declaration
  refine takes_advance ((takes_type derives).bind (by simp [Meets, isEnd]) (takes_at ?_))
  dsimp only
  rw [if_neg (by simp [isEnd])]
  exact takes_pure_bind (takes_semicolon isEnd takes_pure)

variable
    {values : List Token}

theorem takes_declarationWith
    {name colon sign ends : Token}
    {value : Expr}
    (derives : DerivesType declared tokens)
    (isSign : sign.kind = .assign)
    (derivesValue : Derives (.operation 1 value) values)
    (fits : literalFault? declared value = none)
    (isEnd : ends.kind = .semicolon)
    (enough : 16 * values.length + 1 ≤ fuel) :
    Takes (declaration fuel name) (colon :: (tokens ++ sign :: (values ++ [ends])))
      (.declare name.line name.spelling declared (some value)) follows := by
  unfold declaration
  refine takes_advance ((takes_type derives).bind (by simp [Meets, isSign]) (takes_at ?_))
  dsimp only
  rw [if_pos (decide_eq_true isSign)]
  refine takes_advance (takes_value derivesValue isEnd enough ?_)
  rw [fits]
  exact takes_pure_bind (takes_semicolon isEnd takes_pure)

/-- A logical operator or the closing bracket behind a term of a condition. -/
def EndsTerm (kind : Token.Kind) : Prop :=
  kind = .both ∨ kind = .either ∨ kind = .closeParen

theorem EndsTerm.closes
    (ends : EndsTerm kind) :
    Closes kind ∧ cmpOp? kind = none := by
  rcases ends with rfl | rfl | rfl <;> exact ⟨⟨⟨by decide, by decide⟩, rfl⟩, rfl⟩

theorem stops_of_cmpOp?
    {test : CmpOp}
    (known : cmpOp? kind = some test) :
    Stops 1 kind := by
  unfold cmpOp? at known
  refine Closes.stops ?_
  split at known <;> first | exact ⟨⟨by decide, by decide⟩, rfl⟩ | cases known

theorem takes_comparison
    {term : Comparison}
    (derives : DerivesTerm term tokens)
    (enough : 16 * tokens.length + 1 ≤ fuel) :
    Takes (comparison fuel) tokens term EndsTerm := by
  unfold comparison
  cases derives with
  | bare inner =>
      refine (takes_expression inner enough).finish (fun _ ends => ends.closes.1.stops) ?_
      refine takes_peek_behind fun token ends => ?_
      rw [ends.closes.2]
      exact takes_pure
  | compared left known right =>
      simp only [List.length_append, List.length_cons] at enough
      refine (takes_expression left (by omega)).bind (stops_of_cmpOp? known) (takes_peek ?_)
      rw [known]
      refine takes_advance ((takes_expression right (by omega)).finish
        (fun _ ends => ends.closes.1.stops) takes_pure)

theorem takes_conditionTail
    {terms : List Comparison}
    {joins : List Logic}
    (derives : DerivesChain terms joins tokens) :
    ∀ (fuel : Nat) (done : List Comparison) (before : List Logic),
      16 * tokens.length + 2 ≤ fuel →
        Takes (conditionTail fuel done before) tokens (done ++ terms, before ++ joins)
          (· = .closeParen) := by
  induction derives with
  | last term =>
      intro fuel done before enough
      obtain ⟨fuel, rfl⟩ : ∃ fewer, fuel = fewer + 1 := ⟨fuel - 1, by omega⟩
      rw [conditionTail, List.append_nil]
      refine (takes_comparison term (by omega)).finish (fun _ isClose => .inr (.inr isClose)) ?_
      refine takes_peek_behind fun token isClose => ?_
      rw [isClose]
      exact takes_pure
  | @join term terms op logic joins front back derivesTerm isLogic _ inductionHypothesis =>
      intro fuel done before enough
      simp only [List.length_append, List.length_cons] at enough
      obtain ⟨fuel, rfl⟩ : ∃ fewer, fuel = fewer + 1 := ⟨fuel - 1, by omega⟩
      rw [conditionTail]
      have more := inductionHypothesis fuel (done ++ [term]) (before ++ [logic]) (by omega)
      simp only [List.append_assoc, List.singleton_append] at more
      have isOp : op.kind = .both ∧ logic = .both ∨ op.kind = .either ∧ logic = .either := by
        unfold logic? at isLogic
        split at isLogic
        next isBoth => exact .inl ⟨isBoth, (Option.some.inj isLogic).symm⟩
        next isEither => exact .inr ⟨isEither, (Option.some.inj isLogic).symm⟩
        next => cases isLogic
      refine (takes_comparison derivesTerm (by omega)).bind ?_ (takes_peek ?_)
      · exact isOp.imp And.left fun either => .inl either.1
      · rcases isOp with ⟨isKind, rfl⟩ | ⟨isKind, rfl⟩
        · rw [isKind]
          exact takes_advance more
        · rw [isKind]
          exact takes_advance more

variable
    {test : Condition}

theorem takes_guard
    (derives : DerivesGuard test tokens)
    (enough : 16 * tokens.length ≤ fuel) :
    Takes (guard fuel) tokens test fun _ => True := by
  cases derives with
  | @guard opens first closes terms joins tokens isOpen chain isClose =>
      simp only [List.length_cons, List.length_append] at enough
      unfold guard
      refine takes_expect isOpen ?_
      have inner : Takes (condition fuel) (first :: tokens)
          { line := first.line, terms := terms, joins := joins } (· = .closeParen) := by
        unfold condition
        have enoughChain : 16 * (first :: tokens).length + 2 ≤ fuel := by
          rw [List.length_cons]
          omega
        exact takes_peek ((takes_conditionTail chain fuel [] [] enoughChain).finish (fun _ => id)
          takes_pure)
      exact inner.bind isClose (takes_close isClose takes_pure)

/-- A parameter is read with all that follow it. -/
theorem takes_param
    {param : Param}
    {rest done : List Param}
    {front back : List Token}
    (derives : DerivesParam param front)
    (others : DerivesMoreParams rest back)
    (takes : Takes (parameters fuel (done ++ [param])) back (done ++ param :: rest)
      (· = .closeParen)) :
    Takes (do
        let name ← expect .parameterName
        let _ ← expect .parameterColon
        let declared ← type
        parameters fuel
          (done ++ [{ line := name.line, name := name.spelling, type := declared }]))
      (front ++ back) (done ++ param :: rest) (· = .closeParen) := by
  cases derives with
  | param isName isColon derivesType =>
      refine takes_expect isName (takes_expect isColon ((takes_type derivesType).bind ?_ takes))
      cases others with
      | nil =>
          rintro kind rfl
          decide
      | cons isComma _ _ =>
          intro isOpen
          rw [isComma] at isOpen
          cases isOpen

theorem takes_moreParameters
    {more : List Param}
    (derives : DerivesMoreParams more tokens) :
    ∀ (fuel : Nat) (done : List Param), tokens.length + 1 ≤ fuel → done.isEmpty = false →
      Takes (parameters fuel done) tokens (done ++ more) (· = .closeParen) := by
  induction derives with
  | nil =>
      intro fuel done enough _
      obtain ⟨fuel, rfl⟩ : ∃ fewer, fuel = fewer + 1 := ⟨fuel - 1, by omega⟩
      rw [parameters, List.append_nil]
      refine takes_peek_behind fun token isClose => ?_
      rw [if_pos (.inl isClose)]
      exact takes_pure
  | @cons comma param rest front back isComma derivesParam others inductionHypothesis =>
      intro fuel done enough nonempty
      simp only [List.length_cons, List.length_append] at enough
      obtain ⟨fuel, rfl⟩ : ∃ fewer, fuel = fewer + 1 := ⟨fuel - 1, by omega⟩
      rw [parameters]
      refine takes_peek ?_
      rw [if_neg (by simp [isComma]), nonempty]
      refine takes_expect isComma (takes_param derivesParam others ?_)
      have run := inductionHypothesis fuel (done ++ [param]) (by omega) (by simp)
      simpa using run

variable
    {params : List Param}

theorem takes_parameters
    (derives : DerivesParams params tokens)
    (enough : tokens.length + 1 ≤ fuel) :
    Takes (parameters fuel []) tokens params (· = .closeParen) := by
  obtain ⟨fuel, rfl⟩ : ∃ fewer, fuel = fewer + 1 := ⟨fuel - 1, by omega⟩
  cases derives with
  | nil =>
      rw [parameters]
      refine takes_peek_behind fun token isClose => ?_
      rw [if_pos (.inl isClose)]
      exact takes_pure
  | @cons param rest front back derivesParam others =>
      rw [List.length_append] at enough
      have nonempty : 0 < front.length := by
        cases derivesParam
        exact Nat.succ_pos _
      have run := @takes_param fuel param rest [] front back derivesParam others
        (takes_moreParameters others fuel [param] (by omega) rfl)
      rw [parameters]
      cases derivesParam with
      | param isName isColon derivesType =>
          refine takes_peek ?_
          rw [if_neg (by simp [isName])]
          exact run

theorem takes_signature
    {name opens closes : Token}
    {params : List Param}
    {result : Ty}
    {given results : List Token}
    (isName : name.kind = .identifier)
    (isOpen : opens.kind = .openParen)
    (derives : DerivesParams params given)
    (isClose : closes.kind = .closeParen)
    (derivesResult : DerivesResult result results)
    (enough : given.length + 1 ≤ fuel) :
    Takes (signature fuel) (name :: opens :: (given ++ closes :: results)) (name, params, result)
      (· = .openBrace) := by
  unfold signature
  refine takes_expect isName (takes_expect isOpen ?_)
  refine (takes_parameters derives enough).bind isClose (takes_close isClose ?_)
  cases derivesResult with
  | none =>
      refine takes_at_behind ?_ takes_pure
      rintro kind rfl
      decide
  | type isArrow derivesType =>
      refine takes_at ?_
      rw [if_pos (decide_eq_true isArrow)]
      refine takes_advance ((takes_type derivesType).finish ?_ takes_pure)
      rintro kind rfl
      decide

/-- A statement that starts with a name is left to the reader of such statements. -/
theorem admitted_of_name
    {name : Token}
    {rest : List Token}
    (isName : name.kind = .identifier)
    (takes : ∀ fuel, 16 * rest.length + 1 ≤ fuel →
      Takes (nameStatement fuel) (name :: rest) stmt fun _ => True) :
    Admitted (.statement stmt) (name :: rest) := by
  intro fuel enough
  rw [List.length_cons] at enough
  obtain ⟨fuel, rfl⟩ : ∃ fewer, fuel = fewer + 1 := ⟨fuel - 1, by omega⟩
  rw [statement]
  refine takes_peek ?_
  rw [isName]
  exact (takes fuel (by omega)).mono fun _ _ => trivial

theorem admitted_declare
    {name colon ends : Token}
    (isName : name.kind = .identifier)
    (isColon : colon.kind = .colon)
    (derives : DerivesType declared tokens)
    (isEnd : ends.kind = .semicolon) :
    Admitted (.statement (.declare name.line name.spelling declared none))
      (name :: colon :: (tokens ++ [ends])) := by
  refine admitted_of_name isName fun fuel _ => ?_
  unfold nameStatement
  refine takes_advance (takes_peek ?_)
  rw [isColon]
  exact takes_declaration derives isEnd

theorem admitted_declareWith
    {name colon sign ends : Token}
    {value : Expr}
    (isName : name.kind = .identifier)
    (isColon : colon.kind = .colon)
    (derives : DerivesType declared tokens)
    (isSign : sign.kind = .assign)
    (derivesValue : Derives (.operation 1 value) values)
    (fits : literalFault? declared value = none)
    (isEnd : ends.kind = .semicolon) :
    Admitted (.statement (.declare name.line name.spelling declared (some value)))
      (name :: colon :: (tokens ++ sign :: (values ++ [ends]))) := by
  refine admitted_of_name isName fun fuel enough => ?_
  simp only [List.length_cons, List.length_append, List.length_nil] at enough
  unfold nameStatement
  refine takes_advance (takes_peek ?_)
  rw [isColon]
  exact takes_declarationWith derives isSign derivesValue fits isEnd (by omega)

theorem admitted_assign
    {name sign ends : Token}
    {value : Expr}
    (isName : name.kind = .identifier)
    (isSign : sign.kind = .assign)
    (derives : Derives (.operation 1 value) values)
    (isEnd : ends.kind = .semicolon) :
    Admitted (.statement (.assign name.line name.spelling none value))
      (name :: sign :: (values ++ [ends])) := by
  refine admitted_of_name isName fun fuel enough => ?_
  simp only [List.length_cons, List.length_append, List.length_nil] at enough
  unfold nameStatement
  refine takes_advance (takes_peek ?_)
  rw [isSign]
  refine takes_expect isSign (takes_value derives isEnd (by omega) ?_)
  exact takes_semicolon isEnd takes_pure

theorem admitted_store
    {name sign ends : Token}
    {position value : Expr}
    {places values : List Token}
    (isName : name.kind = .identifier)
    (derivesIndex : Derives (.index position) places)
    (isSign : sign.kind = .assign)
    (derives : Derives (.operation 1 value) values)
    (isEnd : ends.kind = .semicolon) :
    Admitted (.statement (.assign name.line name.spelling (some position) value))
      (name :: (places ++ sign :: (values ++ [ends]))) := by
  refine admitted_of_name isName fun fuel enough => ?_
  simp only [List.length_cons, List.length_append, List.length_nil] at enough
  unfold nameStatement
  refine takes_advance ?_
  have reads := accepted_of_derives derivesIndex fuel (by omega)
  obtain ⟨opened, others, rfl, opens⟩ := derivesIndex.first rfl
  refine takes_peek ?_
  rw [show opened.kind = .openBracket from opens]
  refine reads.bind trivial (takes_expect isSign (takes_value derives isEnd (by omega) ?_))
  exact takes_semicolon isEnd takes_pure

variable
    {given : List Expr}

theorem admitted_call
    {name ends : Token}
    (isName : name.kind = .identifier)
    (derives : Derives (.arguments given) tokens)
    (isEnd : ends.kind = .semicolon) :
    Admitted (.statement (.call name.line name.line name.spelling false given))
      (name :: (tokens ++ [ends])) := by
  refine admitted_of_name isName fun fuel enough => ?_
  simp only [List.length_append, List.length_cons, List.length_nil] at enough
  unfold nameStatement
  refine takes_advance ?_
  have reads := accepted_of_derives derives fuel (by omega)
  obtain ⟨opened, others, rfl, opens⟩ := derives.first rfl
  refine takes_peek ?_
  rw [show opened.kind = .openParen from opens]
  exact reads.bind trivial (takes_semicolon isEnd takes_pure)

theorem admitted_builtin
    {sigil name ends : Token}
    (isSigil : sigil.kind = .sigil)
    (isName : name.kind = .identifier)
    (derives : Derives (.arguments given) tokens)
    (isEnd : ends.kind = .semicolon) :
    Admitted (.statement (.call sigil.line name.line name.spelling true given))
      (sigil :: name :: (tokens ++ [ends])) := by
  intro fuel enough
  simp only [List.length_cons, List.length_append, List.length_nil] at enough
  obtain ⟨fuel, rfl⟩ : ∃ fewer, fuel = fewer + 1 := ⟨fuel - 1, by omega⟩
  rw [statement]
  refine takes_peek ?_
  rw [isSigil]
  have reads := @takes_builtinCall fuel sigil name given tokens isName derives
    (accepted_of_derives derives) (by omega)
  exact reads.bind trivial (takes_semicolon isEnd takes_pure)

theorem admitted_leave
    (isWord : word.kind = .wordReturn)
    (isEnd : ends.kind = .semicolon) :
    Admitted (.statement (.leave word.line none)) [word, ends] := by
  intro fuel enough
  simp only [List.length_cons, List.length_nil] at enough
  obtain ⟨fuel, rfl⟩ : ∃ fewer, fuel = fewer + 1 := ⟨fuel - 1, by omega⟩
  rw [statement]
  refine takes_peek ?_
  rw [isWord]
  refine takes_advance (takes_at ?_)
  dsimp only
  rw [if_pos (decide_eq_true isEnd)]
  exact takes_pure_bind (takes_semicolon isEnd takes_pure)

theorem admitted_leaveWith
    {value : Expr}
    (isWord : word.kind = .wordReturn)
    (derives : Derives (.operation 1 value) values)
    (isEnd : ends.kind = .semicolon) :
    Admitted (.statement (.leave word.line (some value))) (word :: (values ++ [ends])) := by
  intro fuel enough
  simp only [List.length_cons, List.length_append, List.length_nil] at enough
  obtain ⟨fuel, rfl⟩ : ∃ fewer, fuel = fewer + 1 := ⟨fuel - 1, by omega⟩
  rw [statement]
  refine takes_peek ?_
  rw [isWord]
  refine takes_advance ?_
  have reads : Takes (expression fuel >>= fun value => do
      let value ← pure (some value)
      semicolon
      return Stmt.leave word.line value) (values ++ [ends]) (.leave word.line (some value))
      NoBranch :=
    takes_value derives isEnd (by omega) (takes_pure_bind (takes_semicolon isEnd takes_pure))
  obtain ⟨first, others, rfl, starts⟩ := derives.first rfl
  refine takes_at ?_
  dsimp only
  rw [if_neg]
  · exact reads
  · intro isSemicolon
    rw [Phrase.Starts, of_decide_eq_true isSemicolon] at starts
    cases starts

variable
    {body : List Stmt}
    {line : Nat}

theorem admitted_nested
    (yields : Yields (.block line body) tokens)
    (admitted : Admitted (.block line body) tokens) :
    Admitted (.statement (.block line body)) tokens := by
  intro fuel enough
  have nonempty := yields.length_pos rfl
  obtain ⟨fuel, rfl⟩ : ∃ fewer, fuel = fewer + 1 := ⟨fuel - 1, by omega⟩
  have reads := admitted fuel (by omega)
  obtain ⟨opened, others, rfl, opens⟩ := yields.first rfl
  rw [statement]
  refine takes_peek ?_
  rw [show opened.kind = .openBrace from opens]
  exact reads.finish (fun _ _ => trivial) takes_pure

/-- What stands behind a block, or the end of what is taken. -/
theorem meets_block
    {follows : Token.Kind → Prop} :
    Meets tokens follows fun _ => True := by
  cases tokens <;> simp [Meets]

variable
    {word : Token}
    {next : Branch}

theorem admitted_choose
    {tests bodies branches : List Token}
    (isWord : word.kind = .wordIf)
    (derives : DerivesGuard test tests)
    (admitted : Admitted (.block line body) bodies)
    (follows : Admitted (.branch next) branches) :
    Admitted (.statement (.choose word.line (some test) line body next))
      (word :: (tests ++ (bodies ++ branches))) := by
  intro fuel enough
  simp only [List.length_cons, List.length_append] at enough
  obtain ⟨fuel, rfl⟩ : ∃ fewer, fuel = fewer + 1 := ⟨fuel - 1, by omega⟩
  rw [statement]
  refine takes_peek ?_
  rw [isWord]
  refine takes_advance ((takes_guard derives (by omega)).bind meets_block ?_)
  refine (admitted fuel (by omega)).bind meets_block ?_
  exact (follows fuel (by omega)).finish (fun _ => id) takes_pure

theorem admitted_loop
    {tests bodies : List Token}
    (isWord : word.kind = .wordWhile)
    (derives : DerivesGuard test tests)
    (admitted : Admitted (.block line body) bodies) :
    Admitted (.statement (.loop word.line (some test) line body)) (word :: (tests ++ bodies)) := by
  intro fuel enough
  simp only [List.length_cons, List.length_append] at enough
  obtain ⟨fuel, rfl⟩ : ∃ fewer, fuel = fewer + 1 := ⟨fuel - 1, by omega⟩
  rw [statement]
  refine takes_peek ?_
  rw [isWord]
  refine takes_advance ((takes_guard derives (by omega)).bind meets_block ?_)
  exact (admitted fuel (by omega)).finish (fun _ _ => trivial) takes_pure

theorem admitted_function
    {word name opens closes : Token}
    {result : Ty}
    {given results bodies : List Token}
    (isWord : word.kind = .wordFn)
    (isName : name.kind = .identifier)
    (isOpen : opens.kind = .openParen)
    (derives : DerivesParams params given)
    (isClose : closes.kind = .closeParen)
    (derivesResult : DerivesResult result results)
    (yields : Yields (.block line body) bodies)
    (admitted : Admitted (.block line body) bodies) :
    Admitted (.statement (.function word.line name.spelling params result line body))
      (word :: name :: opens :: (given ++ closes :: (results ++ bodies))) := by
  intro fuel enough
  simp only [List.length_cons, List.length_append] at enough
  obtain ⟨fuel, rfl⟩ : ∃ fewer, fuel = fewer + 1 := ⟨fuel - 1, by omega⟩
  have reads := admitted fuel (by omega)
  have heads := @takes_signature fuel name opens closes params result given results isName isOpen
    derives isClose derivesResult (by omega)
  obtain ⟨first, others, rfl, opensBody⟩ := yields.first rfl
  rw [show name :: opens :: (given ++ closes :: (results ++ first :: others)) =
    (name :: opens :: (given ++ closes :: results)) ++ first :: others by simp]
  rw [statement]
  refine takes_peek ?_
  rw [isWord]
  refine takes_advance (heads.bind opensBody ?_)
  exact reads.finish (fun _ _ => trivial) takes_pure

theorem admitted_block
    {opens closes : Token}
    (isOpen : opens.kind = .openBrace)
    (admitted : Admitted (.body body) tokens)
    (isClose : closes.kind = .closeBrace) :
    Admitted (.block opens.line body) (opens :: (tokens ++ [closes])) := by
  intro fuel enough
  simp only [List.length_cons, List.length_append, List.length_nil] at enough
  obtain ⟨fuel, rfl⟩ : ∃ fewer, fuel = fewer + 1 := ⟨fuel - 1, by omega⟩
  rw [block]
  refine takes_expect isOpen ((admitted fuel [] (by omega)).bind isClose ?_)
  exact takes_close isClose takes_pure

theorem admitted_empty : Admitted (.body []) [] := by
  intro fuel done enough
  obtain ⟨fuel, rfl⟩ : ∃ fewer, fuel = fewer + 1 := ⟨fuel - 1, by omega⟩
  rw [statements, List.append_nil]
  refine takes_peek_behind fun token isClose => ?_
  rw [if_pos (.inl isClose)]
  exact takes_pure

/-- A statement does not go on with the choice in front of it. -/
theorem noBranch_of_starts
    (starts : startsStatement kind = true) :
    NoBranch kind := by
  refine ⟨?_, ?_⟩
  · rintro rfl
    cases starts
  · rintro rfl
    cases starts

theorem meets_body
    {stmts : List Stmt}
    {last : Token.Kind → Prop}
    (yields : Yields (.body stmts) tokens)
    (implies : ∀ kind, last kind → NoBranch kind) :
    Meets tokens last NoBranch := by
  obtain ⟨-, rfl⟩ | ⟨first, rest, rfl, starts⟩ := yields.starts
  · exact implies
  · exact noBranch_of_starts starts

theorem admitted_next
    {first : Stmt}
    {rest : List Stmt}
    {front back : List Token}
    (yieldsFirst : Yields (.statement first) front)
    (admittedFirst : Admitted (.statement first) front)
    (yields : Yields (.body rest) back)
    (admitted : Admitted (.body rest) back) :
    Admitted (.body (first :: rest)) (front ++ back) := by
  intro fuel done enough
  rw [List.length_append] at enough
  have nonempty := yieldsFirst.length_pos rfl
  obtain ⟨fuel, rfl⟩ : ∃ fewer, fuel = fewer + 1 := ⟨fuel - 1, by omega⟩
  have closes : ∀ kind, kind = .closeBrace → NoBranch kind := by
    rintro kind rfl
    exact ⟨by decide, by decide⟩
  have reads := admittedFirst fuel (by omega)
  have more := admitted fuel (done ++ [first]) (by omega)
  rw [List.append_assoc, List.singleton_append] at more
  have both : Takes (statement fuel >>= fun next => statements fuel (done ++ [next]))
      (front ++ back) (done ++ first :: rest) (· = .closeBrace) :=
    reads.bind (meets_body yields closes) more
  obtain ⟨token, others, rfl, starts⟩ := yieldsFirst.first rfl
  rw [statements]
  refine takes_peek ?_
  rw [if_neg]
  · exact both
  · rintro (isClose | isEnd)
    · rw [Clause.Starts, isClose] at starts
      cases starts
    · rw [Clause.Starts, isEnd] at starts
      cases starts

theorem admitted_noBranch : Admitted (.branch .none) [] := by
  intro fuel enough
  obtain ⟨fuel, rfl⟩ : ∃ fewer, fuel = fewer + 1 := ⟨fuel - 1, by omega⟩
  rw [branch]
  refine takes_peek_behind fun token none => ?_
  split
  next isElif => exact (none.1 isElif).elim
  next isElse => exact (none.2 isElse).elim
  next => exact takes_pure

theorem admitted_elif
    {tests bodies branches : List Token}
    (isWord : word.kind = .wordElif)
    (derives : DerivesGuard test tests)
    (admitted : Admitted (.block line body) bodies)
    (follows : Admitted (.branch next) branches) :
    Admitted (.branch (.elif word.line (some test) line body next))
      (word :: (tests ++ (bodies ++ branches))) := by
  intro fuel enough
  simp only [List.length_cons, List.length_append] at enough
  obtain ⟨fuel, rfl⟩ : ∃ fewer, fuel = fewer + 1 := ⟨fuel - 1, by omega⟩
  rw [branch]
  refine takes_peek ?_
  rw [isWord]
  refine takes_advance ((takes_guard derives (by omega)).bind meets_block ?_)
  refine (admitted fuel (by omega)).bind meets_block ?_
  exact (follows fuel (by omega)).finish (fun _ => id) takes_pure

theorem admitted_otherwise
    {bodies : List Token}
    (isWord : word.kind = .wordElse)
    (admitted : Admitted (.block line body) bodies) :
    Admitted (.branch (.otherwise word.line line body)) (word :: bodies) := by
  intro fuel enough
  rw [List.length_cons] at enough
  obtain ⟨fuel, rfl⟩ : ∃ fewer, fuel = fewer + 1 := ⟨fuel - 1, by omega⟩
  rw [branch]
  refine takes_peek ?_
  rw [isWord]
  refine takes_advance ((admitted fuel (by omega)).finish (fun _ _ => trivial) takes_pure)

/-- Every derivation of a part of a program is accepted by the reader of that part. -/
theorem admitted_of_yields
    {clause : Clause}
    (yields : Yields clause tokens) :
    Admitted clause tokens := by
  induction yields with
  | declare isName isColon derives isEnd => exact admitted_declare isName isColon derives isEnd
  | declareWith isName isColon derives isSign value fits isEnd =>
      exact admitted_declareWith isName isColon derives isSign value fits isEnd
  | assign isName isSign derives isEnd => exact admitted_assign isName isSign derives isEnd
  | store isName position isSign derives isEnd =>
      exact admitted_store isName position isSign derives isEnd
  | call isName derives isEnd => exact admitted_call isName derives isEnd
  | builtin isSigil isName derives isEnd => exact admitted_builtin isSigil isName derives isEnd
  | leave isWord isEnd => exact admitted_leave isWord isEnd
  | leaveWith isWord derives isEnd => exact admitted_leaveWith isWord derives isEnd
  | exit isWord isEnd => exact admitted_exit isWord isEnd
  | nested inner inductionHypothesis => exact admitted_nested inner inductionHypothesis
  | choose isWord derives _ _ bodyHypothesis branchHypothesis =>
      exact admitted_choose isWord derives bodyHypothesis branchHypothesis
  | loop isWord derives _ bodyHypothesis => exact admitted_loop isWord derives bodyHypothesis
  | function isWord isName isOpen derives isClose result inner bodyHypothesis =>
      exact admitted_function isWord isName isOpen derives isClose result inner bodyHypothesis
  | block isOpen _ isClose inductionHypothesis =>
      exact admitted_block isOpen inductionHypothesis isClose
  | empty => exact admitted_empty
  | next first rest firstHypothesis restHypothesis =>
      exact admitted_next first firstHypothesis rest restHypothesis
  | noBranch => exact admitted_noBranch
  | elif isWord derives _ _ bodyHypothesis branchHypothesis =>
      exact admitted_elif isWord derives bodyHypothesis branchHypothesis
  | otherwise isWord _ bodyHypothesis => exact admitted_otherwise isWord bodyHypothesis

end Parser

end IlsCompiler
