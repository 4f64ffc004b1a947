import IlsCompiler.Proofs.Program.Grammar

namespace IlsCompiler

/-!
# The lines of program trees

Every node of a tree records a line. A part that is missing has none; it counts as line zero, which
is the line that is told for it. No part is missing in a tree that is derived from tokens, and its
lines are lines of these.
-/

mutual

/-- The lines in an expression. -/
def Expr.lines : Expr → List Nat
  | .missing => [0]
  | .name line _ => [line]
  | .literal line _ => [line]
  | .binary line _ left right => line :: (left.lines ++ right.lines)
  | .element line _ index => line :: index.lines
  | .array line elements => line :: linesOfParts elements
  | .call line _ _ arguments => line :: linesOfParts arguments

/-- The lines in expressions. -/
def linesOfParts : List Expr → List Nat
  | [] => []
  | first :: rest => first.lines ++ linesOfParts rest

end

/-- The lines in an expression that may be left out. -/
def linesOfValue : Option Expr → List Nat
  | none => []
  | some expr => expr.lines

/-- The lines in a term of a condition. -/
def Comparison.lines (term : Comparison) : List Nat :=
  term.line :: (term.left.lines ++ linesOfValue term.right)

/-- The lines in a condition. -/
def linesOfTest : Option Condition → List Nat
  | none => [0]
  | some chain => if chain.terms.isEmpty then [0] else chain.terms.flatMap Comparison.lines

mutual

/-- The lines in a statement. -/
def Stmt.lines : Stmt → List Nat
  | .block line body => line :: linesOfBody body
  | .declare line _ _ value => line :: linesOfValue value
  | .function line _ params _ _ body => line :: (params.map Param.line ++ linesOfBody body)
  | .assign line _ index value => line :: (linesOfValue index ++ value.lines)
  | .call line callLine _ _ arguments => line :: callLine :: linesOfParts arguments
  | .leave line value => line :: linesOfValue value
  | .choose line test _ body next => line :: (linesOfTest test ++ linesOfBody body ++ next.lines)
  | .loop line test _ body => line :: (linesOfTest test ++ linesOfBody body)
  | .exit line => [line]

/-- The lines in what follows the first arm of a choice. -/
def Branch.lines : Branch → List Nat
  | .none => []
  | .elif line test _ body next => line :: (linesOfTest test ++ linesOfBody body ++ next.lines)
  | .otherwise line _ body => line :: linesOfBody body

/-- The lines in a list of statements. -/
def linesOfBody : List Stmt → List Nat
  | [] => []
  | first :: rest => first.lines ++ linesOfBody rest

end

theorem Expr.line_mem_lines
    (expr : Expr) :
    expr.line ∈ expr.lines := by
  cases expr <;> simp [line, lines]

theorem Stmt.line_mem_lines
    (stmt : Stmt) :
    stmt.line ∈ stmt.lines := by
  cases stmt <;> simp [line, lines]

variable
    {line : Nat}

theorem lines_of_part
    {parts : List Expr}
    {part : Expr}
    (member : part ∈ parts)
    (inside : line ∈ part.lines) :
    line ∈ linesOfParts parts := by
  induction parts with
  | nil => cases member
  | cons first rest inductionHypothesis =>
      rw [linesOfParts, List.mem_append]
      rcases List.mem_cons.mp member with rfl | later
      · exact .inl inside
      · exact .inr (inductionHypothesis later)

theorem lines_of_statement
    {stmts : List Stmt}
    {stmt : Stmt}
    (member : stmt ∈ stmts)
    (inside : line ∈ stmt.lines) :
    line ∈ linesOfBody stmts := by
  induction stmts with
  | nil => cases member
  | cons first rest inductionHypothesis =>
      rw [linesOfBody, List.mem_append]
      rcases List.mem_cons.mp member with rfl | later
      · exact .inl inside
      · exact .inr (inductionHypothesis later)

namespace Parser

/-- An initializer is refused for one of its lines. -/
theorem line_of_literalFault
    {expr : Expr}
    {expected : Ty}
    {fault : GrammarFault}
    (refused : literalFault? expected expr = some (line, fault)) :
    line ∈ expr.lines := by
  induction expr using Expr.inductionOn generalizing expected with
  | literal here value =>
      rw [literalFault?] at refused
      split at refused
      · cases refused
      · cases refused
        exact List.mem_singleton_self line
  | array here elements inductionHypothesis =>
      have inElements : ∀ wanted, literalFaultIn? wanted elements = some (line, fault) →
          line ∈ linesOfParts elements := by
        intro wanted found
        clear refused
        induction elements with
        | nil =>
            rw [literalFaultIn?] at found
            cases found
        | cons first rest restHypothesis =>
            rw [literalFaultIn?] at found
            rw [linesOfParts, List.mem_append]
            split at found
            next other isFirst =>
              cases found
              exact .inl (inductionHypothesis first List.mem_cons_self isFirst)
            next =>
              exact .inr (restHypothesis
                (fun part member => inductionHypothesis part (List.mem_cons_of_mem _ member)) found)
      rw [literalFault?] at refused
      split at refused
      · exact List.mem_cons_of_mem _ (inElements _ refused)
      · cases refused
        exact List.mem_cons_self
  | missing | name | binary | element | call =>
      rw [literalFault?] at refused <;> cases refused

end Parser

namespace Grammar

open Parser

variable
    {known : Nat → Prop}
    {tokens : List Token}

/-- The lines in a part of an expression. -/
def Phrase.lines : Phrase → List Nat
  | .operation _ expr | .operand expr | .atom expr | .index expr => expr.lines
  | .arguments given | .items given | .moreItems given => linesOfParts given

theorem lines_negate
    {operand : Expr}
    (here : known line)
    (inside : ∀ other ∈ operand.lines, known other) :
    ∀ other ∈ (negate line operand).lines, known other := by
  unfold negate
  split
  · simpa [Expr.lines] using here
  · simpa [Expr.lines, here] using inside

/-- What is derived from tokens on known lines has known lines only. -/
theorem Derives.lines
    {phrase : Phrase}
    (derives : Derives phrase tokens)
    (inside : ∀ token ∈ tokens, known token.line) :
    ∀ line ∈ phrase.lines, known line := by
  induction derives with
  | operand _ inductionHypothesis | atom _ inductionHypothesis => exact inductionHypothesis inside
  | @operator _ _ _ left right _ _ _ _ _ _ leftHypothesis rightHypothesis =>
      rw [List.forall_mem_append, List.forall_mem_cons] at inside
      have leftKnown := leftHypothesis inside.1
      simp only [Phrase.lines, Expr.lines, List.forall_mem_cons, List.forall_mem_append]
      exact ⟨leftKnown _ left.line_mem_lines, leftKnown, rightHypothesis inside.2.2⟩
  | minus _ _ inductionHypothesis =>
      rw [List.forall_mem_cons] at inside
      exact lines_negate inside.1 (inductionHypothesis inside.2)
  | constant | name =>
      rw [List.forall_mem_cons] at inside
      simpa [Phrase.lines, Expr.lines] using inside.1
  | element _ _ inductionHypothesis | call _ _ inductionHypothesis =>
      rw [List.forall_mem_cons] at inside
      simp only [Phrase.lines, Expr.lines, List.forall_mem_cons]
      exact ⟨inside.1, inductionHypothesis inside.2⟩
  | builtin _ _ _ inductionHypothesis =>
      rw [List.forall_mem_cons, List.forall_mem_cons] at inside
      simp only [Phrase.lines, Expr.lines, List.forall_mem_cons]
      exact ⟨inside.2.1, inductionHypothesis inside.2.2⟩
  | group _ _ _ inductionHypothesis | index _ _ _ inductionHypothesis
  | arguments _ _ _ inductionHypothesis =>
      rw [List.forall_mem_cons, List.forall_mem_append] at inside
      exact inductionHypothesis inside.2.1
  | array _ _ _ inductionHypothesis =>
      rw [List.forall_mem_cons, List.forall_mem_append] at inside
      simp only [Phrase.lines, Expr.lines, List.forall_mem_cons]
      exact ⟨inside.1, inductionHypothesis inside.2.1⟩
  | noItems | noMoreItems => exact fun _ member => (List.not_mem_nil member).elim
  | items _ _ firstHypothesis restHypothesis =>
      rw [List.forall_mem_append] at inside
      simp only [Phrase.lines, linesOfParts, List.forall_mem_append]
      exact ⟨firstHypothesis inside.1, restHypothesis inside.2⟩
  | moreItems _ _ _ firstHypothesis restHypothesis =>
      rw [List.forall_mem_cons, List.forall_mem_append] at inside
      simp only [Phrase.lines, linesOfParts, List.forall_mem_append]
      exact ⟨firstHypothesis inside.2.1, restHypothesis inside.2.2⟩

theorem DerivesTerm.lines
    {term : Comparison}
    (derives : DerivesTerm term tokens)
    (inside : ∀ token ∈ tokens, known token.line) :
    ∀ line ∈ term.lines, known line := by
  cases derives with
  | @bare left _ derives =>
      have leftKnown : ∀ line ∈ left.lines, known line := derives.lines inside
      simp only [Comparison.lines, linesOfValue, List.forall_mem_cons, List.append_nil]
      exact ⟨leftKnown _ left.line_mem_lines, leftKnown⟩
  | @compared _ _ left right _ _ leftDerives _ rightDerives =>
      rw [List.forall_mem_append, List.forall_mem_cons] at inside
      have leftKnown : ∀ line ∈ left.lines, known line := leftDerives.lines inside.1
      simp only [Comparison.lines, linesOfValue, List.forall_mem_cons, List.forall_mem_append]
      exact ⟨leftKnown _ left.line_mem_lines, leftKnown, rightDerives.lines inside.2.2⟩

theorem DerivesChain.lines
    {terms : List Comparison}
    {joins : List Logic}
    (derives : DerivesChain terms joins tokens)
    (inside : ∀ token ∈ tokens, known token.line) :
    terms ≠ [] ∧ ∀ line ∈ terms.flatMap Comparison.lines, known line := by
  induction derives with
  | last term => simpa using term.lines inside
  | join term _ _ inductionHypothesis =>
      rw [List.forall_mem_append, List.forall_mem_cons] at inside
      rw [List.flatMap_cons, List.forall_mem_append]
      exact ⟨List.cons_ne_nil _ _, term.lines inside.1, (inductionHypothesis inside.2.2).2⟩

theorem DerivesGuard.lines
    {test : Condition}
    (derives : DerivesGuard test tokens)
    (inside : ∀ token ∈ tokens, known token.line) :
    ∀ line ∈ linesOfTest (some test), known line := by
  cases derives with
  | @guard _ _ _ terms _ _ _ chain _ =>
      rw [List.forall_mem_cons, List.forall_mem_append] at inside
      obtain ⟨nonempty, termsKnown⟩ := chain.lines inside.2.1
      simpa [linesOfTest, nonempty] using termsKnown

theorem DerivesParam.lines
    {param : Param}
    (derives : DerivesParam param tokens)
    (inside : ∀ token ∈ tokens, known token.line) :
    known param.line := by
  cases derives with
  | param => exact inside _ List.mem_cons_self

variable
    {params : List Param}

theorem DerivesMoreParams.lines
    (derives : DerivesMoreParams params tokens)
    (inside : ∀ token ∈ tokens, known token.line) :
    ∀ line ∈ params.map Param.line, known line := by
  induction derives with
  | nil => exact fun _ member => (List.not_mem_nil member).elim
  | cons _ param _ inductionHypothesis =>
      rw [List.forall_mem_cons, List.forall_mem_append] at inside
      rw [List.map_cons, List.forall_mem_cons]
      exact ⟨param.lines inside.2.1, inductionHypothesis inside.2.2⟩

theorem DerivesParams.lines
    (derives : DerivesParams params tokens)
    (inside : ∀ token ∈ tokens, known token.line) :
    ∀ line ∈ params.map Param.line, known line := by
  cases derives with
  | nil => exact fun _ member => (List.not_mem_nil member).elim
  | cons param more =>
      rw [List.forall_mem_append] at inside
      rw [List.map_cons, List.forall_mem_cons]
      exact ⟨param.lines inside.1, more.lines inside.2⟩

/-- The lines in a part of a program. -/
def Clause.lines : Clause → List Nat
  | .statement stmt => stmt.lines
  | .block line stmts => line :: linesOfBody stmts
  | .body stmts => linesOfBody stmts
  | .branch next => next.lines

/-- What tokens on known lines stand for has known lines only. -/
theorem Yields.lines
    {clause : Clause}
    (yields : Yields clause tokens)
    (inside : ∀ token ∈ tokens, known token.line) :
    ∀ line ∈ clause.lines, known line := by
  induction yields with
  | declare | leave | exit =>
      rw [List.forall_mem_cons] at inside
      simpa [Clause.lines, Stmt.lines, linesOfValue] using inside.1
  | declareWith _ _ _ _ value _ _ =>
      simp only [List.forall_mem_cons, List.forall_mem_append] at inside
      simp only [Clause.lines, Stmt.lines, linesOfValue, List.forall_mem_cons]
      exact ⟨inside.1, value.lines inside.2.2.2.2.1⟩
  | assign _ _ value _ =>
      simp only [List.forall_mem_cons, List.forall_mem_append] at inside
      simp only [Clause.lines, Stmt.lines, linesOfValue, List.forall_mem_cons, List.nil_append]
      exact ⟨inside.1, value.lines inside.2.2.1⟩
  | store _ position _ value _ =>
      simp only [List.forall_mem_cons, List.forall_mem_append] at inside
      simp only [Clause.lines, Stmt.lines, linesOfValue, List.forall_mem_cons,
        List.forall_mem_append]
      exact ⟨inside.1, position.lines inside.2.1, value.lines inside.2.2.2.1⟩
  | call _ given _ =>
      simp only [List.forall_mem_cons, List.forall_mem_append] at inside
      simp only [Clause.lines, Stmt.lines, List.forall_mem_cons]
      exact ⟨inside.1, inside.1, given.lines inside.2.1⟩
  | builtin _ _ given _ =>
      simp only [List.forall_mem_cons, List.forall_mem_append] at inside
      simp only [Clause.lines, Stmt.lines, List.forall_mem_cons]
      exact ⟨inside.1, inside.2.1, given.lines inside.2.2.1⟩
  | leaveWith _ value _ =>
      simp only [List.forall_mem_cons, List.forall_mem_append] at inside
      simp only [Clause.lines, Stmt.lines, linesOfValue, List.forall_mem_cons]
      exact ⟨inside.1, value.lines inside.2.1⟩
  | nested _ inductionHypothesis => exact inductionHypothesis inside
  | choose _ test _ _ bodyHypothesis nextHypothesis =>
      simp only [List.forall_mem_cons, List.forall_mem_append] at inside
      have body := bodyHypothesis inside.2.2.1
      simp only [Clause.lines, List.forall_mem_cons] at body
      simp only [Clause.lines, Stmt.lines, List.forall_mem_cons, List.forall_mem_append]
      exact ⟨inside.1, ⟨test.lines inside.2.1, body.2⟩, nextHypothesis inside.2.2.2⟩
  | loop _ test _ bodyHypothesis =>
      simp only [List.forall_mem_cons, List.forall_mem_append] at inside
      have body := bodyHypothesis inside.2.2
      simp only [Clause.lines, List.forall_mem_cons] at body
      simp only [Clause.lines, Stmt.lines, List.forall_mem_cons, List.forall_mem_append]
      exact ⟨inside.1, test.lines inside.2.1, body.2⟩
  | function _ _ _ params _ _ _ bodyHypothesis =>
      simp only [List.forall_mem_cons, List.forall_mem_append] at inside
      have body := bodyHypothesis inside.2.2.2.2.2.2
      simp only [Clause.lines, List.forall_mem_cons] at body
      simp only [Clause.lines, Stmt.lines, List.forall_mem_cons, List.forall_mem_append]
      exact ⟨inside.1, params.lines inside.2.2.2.1, body.2⟩
  | block _ _ _ bodyHypothesis =>
      simp only [List.forall_mem_cons, List.forall_mem_append] at inside
      simp only [Clause.lines, List.forall_mem_cons]
      exact ⟨inside.1, bodyHypothesis inside.2.1⟩
  | empty | noBranch => exact fun _ member => (List.not_mem_nil member).elim
  | next _ _ firstHypothesis restHypothesis =>
      rw [List.forall_mem_append] at inside
      simp only [Clause.lines, linesOfBody, List.forall_mem_append]
      exact ⟨firstHypothesis inside.1, restHypothesis inside.2⟩
  | elif _ test _ _ bodyHypothesis nextHypothesis =>
      simp only [List.forall_mem_cons, List.forall_mem_append] at inside
      have body := bodyHypothesis inside.2.2.1
      simp only [Clause.lines, List.forall_mem_cons] at body
      simp only [Clause.lines, Branch.lines, List.forall_mem_cons, List.forall_mem_append]
      exact ⟨inside.1, ⟨test.lines inside.2.1, body.2⟩, nextHypothesis inside.2.2.2⟩
  | otherwise _ _ bodyHypothesis =>
      rw [List.forall_mem_cons] at inside
      have body := bodyHypothesis inside.2
      simp only [Clause.lines, List.forall_mem_cons] at body
      simp only [Clause.lines, Branch.lines, List.forall_mem_cons]
      exact ⟨inside.1, body.2⟩

end Grammar

end IlsCompiler
