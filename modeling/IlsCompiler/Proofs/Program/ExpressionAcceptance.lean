import IlsCompiler.Proofs.Program.Grammar
import IlsCompiler.Proofs.Program.Reading

namespace IlsCompiler

/-!
# Expressions that are derived are read

The readers of expressions take every sequence of tokens that derives a tree, and give that tree.
An operation ends where no operator binds as tightly as it asks for, so what is read does not
depend on how a sequence was derived.
-/

namespace Parser

open Grammar

section Equations

-- The equations of the readers are derived once, here, and not by each proof that opens one.
attribute [local simp] primary binary binaryTail unary items index callArguments builtinCall

end Equations

/-- A category that does not open the arguments or the index of the name before it. -/
def Plain (kind : Token.Kind) : Prop :=
  kind ≠ .openParen ∧ kind ≠ .openBracket

/-- A category that neither goes on with a name nor binds as tightly as a strength. -/
def Stops (least : Nat) (kind : Token.Kind) : Prop :=
  Plain kind ∧ ∀ strength, strength? kind = some strength → strength < least

/-- A category that can stand behind any expression. -/
def Closes (kind : Token.Kind) : Prop :=
  Plain kind ∧ strength? kind = none

variable
    {kind : Token.Kind}

theorem Stops.mono
    {least more : Nat}
    (stops : Stops least kind)
    (le : least ≤ more) :
    Stops more kind :=
  ⟨stops.1, fun strength known => Nat.lt_of_lt_of_le (stops.2 strength known) le⟩

theorem Closes.stops
    {least : Nat}
    {kind : Token.Kind}
    (closes : Closes kind) :
    Stops least kind :=
  ⟨closes.1, fun strength known => by rw [closes.2] at known; cases known⟩

/-- An operator stops every operation that binds more tightly. -/
theorem stops_of_strength?
    {strength : Nat}
    (known : strength? kind = some strength) :
    Stops (strength + 1) kind := by
  refine ⟨⟨?_, ?_⟩, fun other isOther => ?_⟩
  · rintro rfl
    cases known
  · rintro rfl
    cases known
  · rw [known] at isOther
    cases isOther
    exact Nat.lt_succ_self _

theorem closes_of_close
    (isClose : kind = .closeParen ∨ kind = .closeBracket) :
    Closes kind := by
  rcases isClose with rfl | rfl
  · exact ⟨⟨by decide, by decide⟩, rfl⟩
  · exact ⟨⟨by decide, by decide⟩, rfl⟩

theorem closes_comma : Closes .comma :=
  ⟨⟨by decide, by decide⟩, rfl⟩

/--
An operation is read up to its end, and what is left to do there is to look for further operators.
The bound on the rules that can begin shrinks by no more than the tokens account for.
-/
def Continues (level : Nat) (expr : Expr) (tokens : List Token) : Prop :=
  ∀ fuel least used rest, 16 * tokens.length + 1 ≤ fuel → least ≤ level →
    used.map Lexeme.token = tokens → Stops (level + 1) (nextToken rest).kind →
      ∃ more, fuel ≤ more + 16 * tokens.length ∧
        binary fuel least (used ++ rest) = binaryTail more least expr rest

/-- What the readers of expressions do with a part of an expression. -/
def Accepted : Phrase → List Token → Prop
  | .operation level expr, tokens => Continues level expr tokens
  | .operand expr, tokens =>
      ∀ fuel, 16 * tokens.length ≤ fuel → Takes (unary fuel) tokens expr Plain
  | .atom expr, tokens =>
      ∀ fuel, 16 * tokens.length ≤ fuel + 1 → Takes (primary fuel) tokens expr Plain
  | .index position, tokens =>
      ∀ fuel, 16 * tokens.length ≤ fuel + 15 → Takes (index fuel) tokens position fun _ => True
  | .arguments given, tokens =>
      ∀ fuel, 16 * tokens.length ≤ fuel + 15 →
        Takes (callArguments fuel) tokens given fun _ => True
  | .items given, tokens =>
      ∀ fuel closing comma, 16 * tokens.length + 2 ≤ fuel → comma.kind = .comma →
        closing = .closeParen ∨ closing = .closeBracket →
          Takes (items fuel closing comma []) tokens given (· = closing)
  | .moreItems given, tokens =>
      ∀ fuel closing comma done, 16 * tokens.length + 2 ≤ fuel → comma.kind = .comma →
        closing = .closeParen ∨ closing = .closeBracket → done.isEmpty = false →
          Takes (items fuel closing comma done) tokens (done ++ given) (· = closing)

variable
    {name : Token}

theorem accepted_name
    (isName : name.kind = .identifier) :
    Accepted (.atom (.name name.line name.spelling)) [name] := by
  intro fuel enough
  obtain ⟨fuel, rfl⟩ : ∃ fewer, fuel = fewer + 1 := ⟨fuel - 1, by simp at enough; omega⟩
  rw [primary]
  refine takes_peek ?_
  rw [isName]
  refine takes_advance (takes_peek_behind fun token plain => ?_)
  split
  next opens => exact (plain.1 opens).elim
  next opens => exact (plain.2 opens).elim
  next => exact takes_pure

variable
    {expr : Expr}

/-- Where an operation stops there is no further operator to look for. -/
theorem binaryTail_of_stops
    {fuel least : Nat}
    {rest : List Lexeme}
    (enough : 1 ≤ fuel)
    (stops : Stops least (nextToken rest).kind) :
    binaryTail fuel least expr rest = .ok (expr, rest) := by
  cases fuel with
  | zero => omega
  | succ fuel =>
      have takes : Takes (binaryTail (fuel + 1) least expr) [] expr (Stops least) := by
        rw [binaryTail]
        refine takes_peek_behind fun token isLast => ?_
        cases known : strength? token.kind with
        | none => exact takes_pure
        | some strength =>
            dsimp only
            rw [if_pos (isLast.2 strength known)]
            exact takes_pure
      exact takes [] rest rfl stops

variable
    {tokens : List Token}

theorem Continues.takes
    {level fuel : Nat}
    (continues : Continues level expr tokens)
    (enough : 16 * tokens.length + 1 ≤ fuel) :
    Takes (binary fuel level) tokens expr (Stops level) := by
  intro used rest isTokens stops
  obtain ⟨more, bound, run⟩ := continues fuel level used rest enough (Nat.le_refl level) isTokens
    (stops.mono (Nat.le_succ level))
  rw [run]
  exact binaryTail_of_stops (by omega) stops

theorem continues_operand
    {least : Nat}
    (derives : Derives (.operand expr) tokens)
    (accepted : Accepted (.operand expr) tokens) :
    Continues least expr tokens := by
  intro fuel weaker used rest enough _ isTokens stops
  have nonempty := derives.length_pos rfl
  obtain ⟨more, rfl⟩ : ∃ more, fuel = more + 1 := ⟨fuel - 1, by omega⟩
  have run := accepted more (by omega) used rest isTokens stops.1
  refine ⟨more, by omega, ?_⟩
  rw [binary]
  show (unary more (used ++ rest) >>= fun pair => binaryTail more weaker pair.1 pair.2) = _
  rw [run]
  rfl

variable
    {front back : List Token}

theorem continues_operator
    {least strength : Nat}
    {op : Token}
    {left right : Expr}
    (known : strength? op.kind = some strength)
    (le : least ≤ strength)
    (leftContinues : Continues strength left front)
    (rightContinues : Continues (strength + 1) right back) :
    Continues least (.binary left.line (arithOp op.kind) left right) (front ++ op :: back) := by
  intro fuel weaker used rest enough weak isTokens stops
  obtain ⟨start, others, rfl, isFront, isOthers⟩ := List.map_eq_append_iff.mp isTokens
  obtain ⟨sign, behind, rfl, rfl, isBack⟩ := List.map_eq_cons_iff.mp isOthers
  simp only [List.length_append, List.length_cons] at enough ⊢
  obtain ⟨more, bound, run⟩ := leftContinues fuel weaker start (sign :: behind ++ rest) (by omega)
    (Nat.le_trans weak le) isFront (stops_of_strength? known)
  obtain ⟨fewer, rfl⟩ : ∃ fewer, more = fewer + 1 := ⟨more - 1, by omega⟩
  refine ⟨fewer, by omega, ?_⟩
  have enoughRight : 16 * back.length + 1 ≤ fewer := by omega
  have takesRight := rightContinues.takes enoughRight behind rest isBack (stops.mono (by omega))
  rw [List.append_assoc, run, binaryTail]
  have peeks : ∀ next : Token → Parser Expr,
      (peek >>= next) (sign :: behind ++ rest) = next sign.token (sign :: behind ++ rest) :=
    fun _ => rfl
  rw [peeks]
  simp only [known]
  rw [if_neg (by omega)]
  show (binary fewer (strength + 1) (behind ++ rest) >>= fun pair =>
    binaryTail fewer weaker (.binary left.line (arithOp sign.token.kind) left pair.1) pair.2) = _
  rw [takesRight]
  rfl

theorem accepted_atom
    (derives : Derives (.atom expr) tokens)
    (accepted : Accepted (.atom expr) tokens) :
    Accepted (.operand expr) tokens := by
  intro fuel enough
  have nonempty := derives.length_pos rfl
  obtain ⟨fuel, rfl⟩ : ∃ fewer, fuel = fewer + 1 := ⟨fuel - 1, by omega⟩
  rw [unary]
  obtain ⟨empty, -⟩ | ⟨first, rest, rfl, starts⟩ := derives.starts
  · cases empty
  refine takes_at ?_
  rw [if_neg]
  · exact accepted fuel (by omega)
  · intro isMinus
    rw [Phrase.Starts, of_decide_eq_true isMinus] at starts
    cases starts

theorem accepted_minus
    {sign : Token}
    (isMinus : sign.kind = .minus)
    (accepted : Accepted (.operand expr) tokens) :
    Accepted (.operand (negate sign.line expr)) (sign :: tokens) := by
  intro fuel enough
  rw [List.length_cons] at enough
  obtain ⟨fuel, rfl⟩ : ∃ fewer, fuel = fewer + 1 := ⟨fuel - 1, by omega⟩
  rw [unary]
  refine takes_at ?_
  rw [if_pos (decide_eq_true isMinus)]
  refine takes_advance ?_
  exact (accepted fuel (by omega)).finish (fun _ => id) takes_pure

theorem accepted_constant
    {token : Token}
    {value : Literal}
    (known : constant? token = some value) :
    Accepted (.atom (.literal token.line value)) [token] := by
  intro fuel enough
  obtain ⟨fuel, rfl⟩ : ∃ fewer, fuel = fewer + 1 := ⟨fuel - 1, by simp at enough; omega⟩
  rw [primary]
  refine takes_peek ?_
  unfold constant? at known
  split at known
  next isInteger =>
    obtain ⟨number, isNumber, rfl⟩ := Option.map_eq_some_iff.mp known
    rw [isInteger]
    refine takes_advance ?_
    rw [isNumber]
    exact takes_pure
  next isString =>
    cases known
    rw [isString]
    exact takes_advance takes_pure
  next isCharacter =>
    cases known
    rw [isCharacter]
    exact takes_advance takes_pure
  next isTrue =>
    cases known
    rw [isTrue]
    exact takes_advance takes_pure
  next isFalse =>
    cases known
    rw [isFalse]
    exact takes_advance takes_pure
  next => cases known

variable
    {position : Expr}

theorem accepted_element
    (isName : name.kind = .identifier)
    (derives : Derives (.index position) tokens)
    (accepted : Accepted (.index position) tokens) :
    Accepted (.atom (.element name.line name.spelling position)) (name :: tokens) := by
  intro fuel enough
  rw [List.length_cons] at enough
  obtain ⟨fuel, rfl⟩ : ∃ fewer, fuel = fewer + 1 := ⟨fuel - 1, by omega⟩
  rw [primary]
  refine takes_peek ?_
  rw [isName]
  refine takes_advance ?_
  have reads := accepted fuel (by omega)
  obtain ⟨opened, others, rfl, opens⟩ := derives.first rfl
  refine takes_peek ?_
  rw [show opened.kind = .openBracket from opens]
  exact reads.finish (fun _ _ => trivial) takes_pure

variable
    {given : List Expr}

theorem accepted_call
    (isName : name.kind = .identifier)
    (derives : Derives (.arguments given) tokens)
    (accepted : Accepted (.arguments given) tokens) :
    Accepted (.atom (.call name.line name.spelling false given)) (name :: tokens) := by
  intro fuel enough
  rw [List.length_cons] at enough
  obtain ⟨fuel, rfl⟩ : ∃ fewer, fuel = fewer + 1 := ⟨fuel - 1, by omega⟩
  rw [primary]
  refine takes_peek ?_
  rw [isName]
  refine takes_advance ?_
  have reads := accepted fuel (by omega)
  obtain ⟨opened, others, rfl, opens⟩ := derives.first rfl
  refine takes_peek ?_
  rw [show opened.kind = .openParen from opens]
  exact reads.finish (fun _ _ => trivial) takes_pure

theorem takes_builtinCall
    {fuel : Nat}
    {sigil name : Token}
    {given : List Expr}
    {tokens : List Token}
    (isName : name.kind = .identifier)
    (derives : Derives (.arguments given) tokens)
    (accepted : Accepted (.arguments given) tokens)
    (enough : 16 * tokens.length ≤ fuel) :
    Takes (builtinCall fuel) (sigil :: name :: tokens) (name, given) fun _ => True := by
  have nonempty := derives.length_pos rfl
  obtain ⟨fuel, rfl⟩ : ∃ fewer, fuel = fewer + 1 := ⟨fuel - 1, by omega⟩
  rw [builtinCall]
  refine takes_advance (takes_expect isName ?_)
  have reads := accepted fuel (by omega)
  obtain ⟨opened, others, rfl, opens⟩ := derives.first rfl
  refine takes_at ?_
  rw [if_pos (decide_eq_true (show opened.kind = .openParen from opens))]
  exact reads.finish (fun _ _ => trivial) takes_pure

theorem accepted_builtin
    {sigil name : Token}
    (isSigil : sigil.kind = .sigil)
    (isName : name.kind = .identifier)
    (derives : Derives (.arguments given) tokens)
    (accepted : Accepted (.arguments given) tokens) :
    Accepted (.atom (.call name.line name.spelling true given)) (sigil :: name :: tokens) := by
  intro fuel enough
  simp only [List.length_cons] at enough
  obtain ⟨fuel, rfl⟩ : ∃ fewer, fuel = fewer + 1 := ⟨fuel - 1, by omega⟩
  rw [primary]
  refine takes_peek ?_
  rw [isSigil]
  exact (takes_builtinCall isName derives accepted (by omega)).finish (fun _ _ => trivial) takes_pure

variable
    {opens closes : Token}

theorem accepted_group
    (isOpen : opens.kind = .openParen)
    (accepted : Accepted (.operation 1 expr) tokens)
    (isClose : closes.kind = .closeParen) :
    Accepted (.atom expr) (opens :: (tokens ++ [closes])) := by
  intro fuel enough
  simp only [List.length_cons, List.length_append, List.length_nil] at enough
  obtain ⟨fuel, rfl⟩ : ∃ fewer, fuel = fewer + 1 := ⟨fuel - 1, by omega⟩
  rw [primary]
  refine takes_peek ?_
  rw [isOpen]
  refine takes_advance ((Continues.takes accepted (by omega)).bind ?_ ?_)
  · exact (closes_of_close (.inl isClose)).stops
  · exact takes_close isClose takes_pure

theorem accepted_array
    {elements : List Expr}
    (isOpen : opens.kind = .openBracket)
    (accepted : Accepted (.items elements) tokens)
    (isClose : closes.kind = .closeBracket) :
    Accepted (.atom (.array opens.line elements)) (opens :: (tokens ++ [closes])) := by
  intro fuel enough
  simp only [List.length_cons, List.length_append, List.length_nil] at enough
  obtain ⟨fuel, rfl⟩ : ∃ fewer, fuel = fewer + 1 := ⟨fuel - 1, by omega⟩
  rw [primary]
  refine takes_peek ?_
  rw [isOpen]
  refine takes_advance
    ((accepted fuel .closeBracket .elementComma (by omega) rfl (.inr rfl)).bind isClose ?_)
  exact takes_close isClose takes_pure

theorem accepted_index
    (accepted : Accepted (.operation 1 position) tokens)
    (isClose : closes.kind = .closeBracket) :
    Accepted (.index position) (opens :: (tokens ++ [closes])) := by
  intro fuel enough
  simp only [List.length_cons, List.length_append, List.length_nil] at enough
  obtain ⟨fuel, rfl⟩ : ∃ fewer, fuel = fewer + 1 := ⟨fuel - 1, by omega⟩
  rw [index]
  refine takes_advance ((Continues.takes accepted (by omega)).bind ?_ ?_)
  · exact (closes_of_close (.inr isClose)).stops
  · exact takes_close isClose takes_pure

theorem accepted_arguments
    (accepted : Accepted (.items given) tokens)
    (isClose : closes.kind = .closeParen) :
    Accepted (.arguments given) (opens :: (tokens ++ [closes])) := by
  intro fuel enough
  simp only [List.length_cons, List.length_append, List.length_nil] at enough
  obtain ⟨fuel, rfl⟩ : ∃ fewer, fuel = fewer + 1 := ⟨fuel - 1, by omega⟩
  rw [callArguments]
  refine takes_advance
    ((accepted fuel .closeParen .argumentComma (by omega) rfl (.inl rfl)).bind isClose ?_)
  exact takes_close isClose takes_pure

/-- Items end where their closing bracket comes. -/
theorem takes_items_end
    {fuel : Nat}
    {closing : Token.Kind}
    {comma : Expected}
    {done : List Expr}
    (enough : 1 ≤ fuel) :
    Takes (items fuel closing comma done) [] done (· = closing) := by
  obtain ⟨fuel, rfl⟩ : ∃ fewer, fuel = fewer + 1 := ⟨fuel - 1, by omega⟩
  rw [items]
  refine takes_peek_behind fun token isClosing => ?_
  rw [if_pos (.inl isClosing)]
  exact takes_pure

/-- An item is read with all that follow it. -/
theorem takes_item
    {fuel : Nat}
    {closing : Token.Kind}
    {comma : Expected}
    {done rest : List Expr}
    {first : Expr}
    {front back : List Token}
    (accepted : Accepted (.operation 1 first) front)
    (derives : Derives (.moreItems rest) back)
    (others : Accepted (.moreItems rest) back)
    (isComma : comma.kind = .comma)
    (isClosing : closing = .closeParen ∨ closing = .closeBracket)
    (enough : 16 * front.length + 1 ≤ fuel)
    (enoughBack : 16 * back.length + 2 ≤ fuel) :
    Takes (do
        let item ← binary fuel 1
        items fuel closing comma (done ++ [item])) (front ++ back) (done ++ first :: rest)
      (· = closing) := by
  refine (Continues.takes accepted enough).bind ?_ ?_
  · obtain ⟨-, rfl⟩ | ⟨next, more, rfl, isNext⟩ := derives.starts
    · rintro kind rfl
      exact (closes_of_close isClosing).stops
    · show Stops 1 next.kind
      rw [show next.kind = .comma from isNext]
      exact closes_comma.stops
  · have run := others fuel closing comma (done ++ [first]) enoughBack isComma isClosing (by simp)
    simpa using run

/-- A list goes on unless its closing bracket or the end of the input comes next. -/
theorem goes_on_of_starts
    {closing kind : Token.Kind}
    (isClosing : closing = .closeParen ∨ closing = .closeBracket)
    (starts : startsExpression kind = true ∨ kind = .comma) :
    ¬(kind = closing ∨ kind = .endOfInput) := by
  rcases starts with starts | rfl
  · rintro (rfl | rfl)
    · rcases isClosing with rfl | rfl <;> cases starts
    · cases starts
  · rcases isClosing with rfl | rfl <;> decide

variable
    {rest : List Expr}
    {first : Expr}

theorem accepted_items
    (derivesFirst : Derives (.operation 1 first) front)
    (accepted : Accepted (.operation 1 first) front)
    (derives : Derives (.moreItems rest) back)
    (others : Accepted (.moreItems rest) back) :
    Accepted (.items (first :: rest)) (front ++ back) := by
  intro fuel closing comma enough isComma isClosing
  have nonempty := derivesFirst.length_pos rfl
  rw [List.length_append] at enough
  obtain ⟨fuel, rfl⟩ : ∃ fewer, fuel = fewer + 1 := ⟨fuel - 1, by omega⟩
  have enoughFront : 16 * front.length + 1 ≤ fuel := by omega
  have run := @takes_item fuel closing comma [] rest first front back accepted derives others isComma
    isClosing enoughFront (by omega)
  rw [items]
  obtain ⟨token, more, rfl, starts⟩ := derivesFirst.first rfl
  refine takes_peek ?_
  rw [if_neg (goes_on_of_starts isClosing (.inl starts))]
  exact run

theorem accepted_moreItems
    {sign : Token}
    (isSign : sign.kind = .comma)
    (accepted : Accepted (.operation 1 first) front)
    (derives : Derives (.moreItems rest) back)
    (others : Accepted (.moreItems rest) back) :
    Accepted (.moreItems (first :: rest)) (sign :: (front ++ back)) := by
  intro fuel closing comma done enough isComma isClosing nonempty
  simp only [List.length_cons, List.length_append] at enough
  obtain ⟨fuel, rfl⟩ : ∃ fewer, fuel = fewer + 1 := ⟨fuel - 1, by omega⟩
  rw [items]
  refine takes_peek ?_
  rw [if_neg (goes_on_of_starts isClosing (.inr isSign))]
  rw [nonempty]
  refine takes_expect (isSign.trans isComma.symm) ?_
  exact takes_item accepted derives others isComma isClosing (by omega) (by omega)

/-- Every derivation of a part of an expression is accepted by the reader of that part. -/
theorem accepted_of_derives
    {phrase : Phrase}
    (derives : Derives phrase tokens) :
    Accepted phrase tokens := by
  induction derives with
  | operand inner inductionHypothesis => exact continues_operand inner inductionHypothesis
  | operator known le _ _ leftHypothesis rightHypothesis =>
      exact continues_operator known le leftHypothesis rightHypothesis
  | atom inner inductionHypothesis => exact accepted_atom inner inductionHypothesis
  | minus isMinus _ inductionHypothesis => exact accepted_minus isMinus inductionHypothesis
  | constant known => exact accepted_constant known
  | name isName => exact accepted_name isName
  | element isName inner inductionHypothesis =>
      exact accepted_element isName inner inductionHypothesis
  | call isName inner inductionHypothesis => exact accepted_call isName inner inductionHypothesis
  | builtin isSigil isName inner inductionHypothesis =>
      exact accepted_builtin isSigil isName inner inductionHypothesis
  | group isOpen _ isClose inductionHypothesis =>
      exact accepted_group isOpen inductionHypothesis isClose
  | array isOpen _ isClose inductionHypothesis =>
      exact accepted_array isOpen inductionHypothesis isClose
  | index _ _ isClose inductionHypothesis => exact accepted_index inductionHypothesis isClose
  | arguments _ _ isClose inductionHypothesis =>
      exact accepted_arguments inductionHypothesis isClose
  | noItems => exact fun fuel closing comma enough _ _ => takes_items_end (by omega)
  | items inner others firstHypothesis othersHypothesis =>
      exact accepted_items inner firstHypothesis others othersHypothesis
  | noMoreItems =>
      intro fuel closing comma done enough _ _ _
      rw [List.append_nil]
      exact takes_items_end (by omega)
  | moreItems isComma _ others firstHypothesis othersHypothesis =>
      exact accepted_moreItems isComma firstHypothesis others othersHypothesis

end Parser

end IlsCompiler
