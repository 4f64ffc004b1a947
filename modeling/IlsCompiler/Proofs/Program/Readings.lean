import Mathlib.Logic.Basic
import IlsCompiler.Diagnostic.Bag
import IlsCompiler.Proofs.Token.Lines
import IlsCompiler.Proofs.Program.StatementReading
import IlsCompiler.Proofs.Program.StatementAcceptance

namespace IlsCompiler

/-!
# Readings of whole texts

A text is read to its end, and then its tokens derive the statements that are given, or reading
stops in front of the first statement that cannot be read and reports one problem, for a line of
the text.
-/

open Grammar

namespace Parser

/-- No statement can be read here: what may look like one is cut short in a branch of a choice. -/
def Stuck (tokens : List Token) : Prop :=
  ∀ stmt front back, tokens = front ++ back → Yields (.statement stmt) front →
    ∃ token rest, back = token :: rest ∧ (token.kind = .wordElif ∨ token.kind = .wordElse)

variable
    {input : List Lexeme}
    {fuel : Nat}
    {report : Report}

/-- Where the reader of statements fails no statement is derived. -/
theorem stuck_of_error
    (enough : 16 * input.length ≤ fuel)
    (failed : statement fuel input = .error report) :
    Stuck (input.map Lexeme.token) := by
  intro stmt front back isInput yields
  obtain ⟨used, rest, rfl, isFront, isBack⟩ := List.map_eq_append_iff.mp isInput
  have bounded : 16 * front.length ≤ fuel := by
    rw [List.length_append] at enough
    rw [← isFront, List.length_map]
    omega
  refine Classical.byContradiction fun noBranch => ?_
  have ends : NoBranch (nextToken rest).kind := by
    cases rest with
    | nil => exact ⟨by decide, by decide⟩
    | cons lexeme rest =>
        rw [← isBack] at noBranch
        exact ⟨fun isElif => noBranch ⟨_, _, rfl, .inl isElif⟩,
          fun isElse => noBranch ⟨_, _, rfl, .inr isElse⟩⟩
  have reads := admitted_of_yields yields fuel bounded used rest isFront ends
  rw [failed] at reads
  cases reads

/-- What is known where the reading of a program stops. -/
def StopsAt (known : Nat → Prop) (rest : List Lexeme) : Option Report → Prop
  | none => (nextToken rest).kind = .endOfInput
  | some report => (nextToken rest).kind ≠ .endOfInput ∧ Stuck (rest.map Lexeme.token) ∧
      Blames rest report ∧ known report.line

theorem program_of_end
    (fuel : Nat)
    (isEnd : (nextToken input).kind = .endOfInput) :
    program (fuel + 1) input = ([], none) := by
  cases input with
  | nil => rfl
  | cons lexeme rest => exact if_pos isEnd

theorem program_of_error
    (notEnd : (nextToken input).kind ≠ .endOfInput)
    (failed : statement fuel input = .error report) :
    program (fuel + 1) input = ([], some report) := by
  cases input with
  | nil => exact (notEnd rfl).elim
  | cons lexeme rest =>
      rw [nextToken_cons] at notEnd
      rw [program]
      dsimp only
      rw [if_neg notEnd, failed]

theorem program_of_statement
    {input rest : List Lexeme}
    {first : Stmt}
    (notEnd : (nextToken input).kind ≠ .endOfInput)
    (reads : statement fuel input = .ok (first, rest)) :
    program (fuel + 1) input = (first :: (program fuel rest).1, (program fuel rest).2) := by
  cases input with
  | nil => exact (notEnd rfl).elim
  | cons lexeme others =>
      rw [nextToken_cons] at notEnd
      rw [program]
      dsimp only
      rw [if_neg notEnd, reads]

/-- The statements of a program derive the tokens up to the place where its reading stops. -/
theorem reads_program
    {known : Nat → Prop}
    (fuel : Nat)
    (input : List Lexeme)
    (enough : 16 * input.length + 3 ≤ fuel)
    (located : Located known input) :
    ∃ used rest, input = used ++ rest ∧
      Yields (.body (program fuel input).1) (used.map Lexeme.token) ∧
      StopsAt known rest (program fuel input).2 := by
  induction fuel generalizing input with
  | zero => omega
  | succ fuel inductionHypothesis =>
      by_cases isEnd : (nextToken input).kind = .endOfInput
      · rw [program_of_end fuel isEnd]
        exact ⟨[], input, rfl, .empty, isEnd⟩
      have reads := (readsStatements known fuel).statement (by omega) located
      split at reads
      next first rest found =>
        obtain ⟨used, rfl, notEnd, yields⟩ := reads
        have nonempty := yields.length_pos rfl
        rw [List.length_map] at nonempty
        rw [List.length_append] at enough
        obtain ⟨more, behind, rfl, yieldsMore, stops⟩ :=
          inductionHypothesis rest (by omega) (located.behind notEnd)
        rw [program_of_statement isEnd found]
        refine ⟨used ++ more, behind, (List.append_assoc _ _ _).symm, ?_, stops⟩
        rw [List.map_append]
        exact .next yields yieldsMore
      next report failed =>
        rw [program_of_error isEnd failed]
        exact ⟨[], input, rfl, .empty, isEnd, stuck_of_error (by omega) failed, reads⟩

/-- The statements that the tokens up to the end derive are the ones that are read. -/
theorem program_of_yields
    {stmts : List Stmt}
    {rest : List Lexeme}
    (fuel : Nat)
    (used : List Lexeme)
    (enough : 16 * used.length + 1 ≤ fuel)
    (yields : Yields (.body stmts) (used.map Lexeme.token))
    (isEnd : (nextToken rest).kind = .endOfInput) :
    program fuel (used ++ rest) = (stmts, none) := by
  obtain ⟨fuel, rfl⟩ : ∃ fewer, fuel = fewer + 1 := ⟨fuel - 1, by omega⟩
  induction stmts generalizing fuel used with
  | nil =>
      generalize isTokens : used.map Lexeme.token = tokens at yields
      cases yields
      rw [List.map_eq_nil_iff] at isTokens
      subst isTokens
      exact program_of_end fuel isEnd
  | cons first stmts inductionHypothesis =>
      generalize isTokens : used.map Lexeme.token = tokens at yields
      cases yields with
      | next yieldsFirst yieldsRest =>
          obtain ⟨start, behind, rfl, rfl, rfl⟩ := List.map_eq_append_iff.mp isTokens
          have nonempty := yieldsFirst.length_pos rfl
          rw [List.length_map] at nonempty
          rw [List.length_append] at enough
          -- A statement follows or the end, and neither goes on with a choice.
          have follows : NoBranch (nextToken (behind ++ rest)).kind := by
            have meets : Meets (behind.map Lexeme.token) (· = .endOfInput) NoBranch := by
              refine meets_body yieldsRest ?_
              rintro kind rfl
              exact ⟨by decide, by decide⟩
            exact meets.next rfl isEnd
          have reads := admitted_of_yields yieldsFirst fuel (by rw [List.length_map]; omega) start
            (behind ++ rest) rfl follows
          have notEnd : (nextToken (start ++ (behind ++ rest))).kind ≠ .endOfInput := by
            cases start with
            | nil => cases nonempty
            | cons lexeme others => exact yieldsFirst.inner _ List.mem_cons_self
          obtain ⟨fuel, rfl⟩ : ∃ fewer, fuel = fewer + 1 := ⟨fuel - 1, by omega⟩
          have later := inductionHypothesis behind yieldsRest fuel (by omega)
          rw [List.append_assoc, program_of_statement notEnd reads, later]

variable
    {last : Lexeme}

/-- Giving the end token its line leaves everything else as it is. -/
theorem placeEnd_append
    {front : List Lexeme}
    (inner : Inner (front.map Lexeme.token))
    (isEnd : last.token.kind = .endOfInput) :
    ∃ placed, placeEnd (front ++ [last]) = front ++ [placed] ∧ placed.token.kind = .endOfInput ∧
      placed.fault = last.fault ∧
      ∃ lexeme ∈ front ++ [last], placed.token.line = lexeme.token.line := by
  induction front with
  | nil => exact ⟨last, rfl, isEnd, rfl, last, List.mem_singleton_self last, rfl⟩
  | cons lexeme front inductionHypothesis =>
      rw [List.map_cons, inner_cons] at inner
      obtain ⟨placed, isPlaced, isLast, isFault, other, member, sameLine⟩ :=
        inductionHypothesis inner.2
      cases front with
      | nil => exact ⟨_, if_pos isEnd, isEnd, rfl, lexeme, List.mem_cons_self, rfl⟩
      | cons next front =>
          rw [List.map_cons, inner_cons] at inner
          refine ⟨placed, ?_, isLast, isFault, other, List.mem_cons_of_mem _ member, sameLine⟩
          have step : placeEnd (lexeme :: next :: (front ++ [last])) =
              lexeme :: placeEnd (next :: (front ++ [last])) := if_neg inner.2.1
          exact step.trans (congrArg (lexeme :: ·) isPlaced)

/-- Tokens that end in front of the end token are a part of what stands in front of it. -/
theorem inner_prefix
    {used rest front : List Lexeme}
    (isInput : front ++ [last] = used ++ rest)
    (inner : Inner (used.map Lexeme.token))
    (isEnd : last.token.kind = .endOfInput) :
    ∃ behind, front = used ++ behind ∧ rest = behind ++ [last] := by
  obtain ⟨behind, isUsed, isLast⟩ | ⟨behind, isFront, isRest⟩ := List.append_eq_append_iff.mp isInput
  · cases behind with
    | nil => exact ⟨[], by rw [isUsed, List.append_nil, List.append_nil], isLast.symm⟩
    | cons lexeme behind =>
        rw [List.cons_append, List.cons.injEq] at isLast
        rw [isUsed, ← isLast.1, List.map_append, inner_append, List.map_cons, inner_cons] at inner
        exact (inner.2.1 isEnd).elim
  · exact ⟨behind, isFront, isRest⟩

end Parser

namespace Bag

/-- A bag in which nothing is yet and that has room. -/
structure IsFresh (bag : Bag) : Prop where
  items : bag.items = []
  room : 0 < bag.limit

theorem isFresh_empty
    (limit : Int) :
    (empty limit).IsFresh where
  items := rfl
  room := by
    unfold empty
    dsimp only
    split
    · decide
    · omega

theorem IsFresh.items_add
    {bag : Bag}
    (fresh : bag.IsFresh)
    (diagnostic : Diagnostic) :
    (bag.add diagnostic).1.items = [diagnostic] := by
  have notFull : ¬bag.limit ≤ bag.items.length := by
    rw [fresh.items]
    exact Nat.not_le_of_lt fresh.room
  rw [add, if_neg notFull, fresh.items]
  rfl

end Bag

namespace Reading

/-- The tokens of a whole text, up to the end token, derive some statements. -/
def Whole (source : Bytes) (statements : List Stmt) : Prop :=
  ∃ front last, Lexeme.ofSource source = front ++ [last] ∧ last.token.kind = .endOfInput ∧
    Yields (.body statements) (front.map Lexeme.token)

/--
Some statements are all that stand in front of a place before the end of the text, no statement can
be read there, and a report blames what stands there.
-/
def Cut (source : Bytes) (statements : List Stmt) (report : Report) : Prop :=
  ∃ used rest last, Lexeme.ofSource source = used ++ rest ++ [last] ∧
    last.token.kind = .endOfInput ∧ rest ≠ [] ∧
    Yields (.body statements) (used.map Lexeme.token) ∧ Parser.Stuck (rest.map Lexeme.token) ∧
    Parser.Blames rest report

/-- A text that derives statements is read as those. -/
theorem ofSource_of_whole
    {file : String}
    {source : Bytes}
    {statements : List Stmt}
    (whole : Whole source statements) :
    Reading.ofSource file source =
      { program := { file := file, statements := statements }, problem := none } := by
  obtain ⟨front, last, isSource, isEnd, yields⟩ := whole
  obtain ⟨placed, isPlaced, isLast, -, -⟩ := Parser.placeEnd_append yields.inner isEnd
  have enough : 16 * front.length + 1 ≤ Parser.bound (front ++ [placed]) := by
    simp only [Parser.bound, List.length_append, List.length_cons, List.length_nil]
    omega
  have run := @Parser.program_of_yields statements [placed] _ front enough yields isLast
  unfold ofSource
  rw [isSource, isPlaced]
  dsimp only
  rw [run]

/--
A reading without a problem is one of the whole text, and one with a problem is cut there and tells
a line of the text.
-/
theorem ofSource_outcome
    (file : String)
    (source : Bytes) :
    match (Reading.ofSource file source).problem with
    | none => Whole source (Reading.ofSource file source).program.statements
    | some report =>
        Cut source (Reading.ofSource file source).program.statements report ∧
          source.IsLine report.line := by
  obtain ⟨front, last, isSource, isEnd, isGood, others⟩ := (Cursor.start source).lexemes_end
  have inner : Inner (front.map Lexeme.token) := by
    intro token member
    obtain ⟨lexeme, isMember, rfl⟩ := List.mem_map.mp member
    exact others lexeme isMember
  obtain ⟨placed, isPlaced, isLast, isFault, other, isOther, sameLine⟩ :=
    Parser.placeEnd_append inner isEnd
  have isLine : ∀ lexeme ∈ front ++ [last], source.IsLine lexeme.token.line := by
    rw [← isSource]
    exact fun lexeme => Lexeme.isLine_of_mem
  have located : Parser.Located source.IsLine (front ++ [placed]) := by
    refine ⟨?_, placed, by simp, isLast⟩
    rw [List.forall_mem_append, List.forall_mem_singleton]
    exact ⟨fun lexeme member => isLine lexeme (List.mem_append_left _ member),
      sameLine ▸ isLine other isOther⟩
  have enough : 16 * (front ++ [placed]).length + 3 ≤ Parser.bound (front ++ [placed]) := by
    rw [Parser.bound]
    omega
  obtain ⟨used, rest, isInput, yields, stops⟩ :=
    Parser.reads_program _ (front ++ [placed]) enough located
  obtain ⟨behind, rfl, rfl⟩ := Parser.inner_prefix isInput yields.inner isLast
  have isOutcome : Reading.ofSource file source =
      { program := { file := file, statements :=
          (Parser.program (Parser.bound (used ++ behind ++ [placed])) (used ++ behind ++ [placed])).1 }
        problem :=
          (Parser.program (Parser.bound (used ++ behind ++ [placed])) (used ++ behind ++ [placed])).2
      } := by
    unfold ofSource
    rw [Lexeme.ofSource, isSource, isPlaced]
  rw [isOutcome]
  dsimp only
  cases problem :
      (Parser.program (Parser.bound (used ++ behind ++ [placed])) (used ++ behind ++ [placed])).2 with
  | none =>
      rw [problem] at stops
      cases behind with
      | nil =>
          rw [List.append_nil] at isSource yields ⊢
          exact ⟨used, last, isSource, isEnd, yields⟩
      | cons lexeme behind => exact (others lexeme (by simp) stops).elim
  | some report =>
      rw [problem] at stops
      obtain ⟨notEnd, stuck, blames, here⟩ := stops
      refine ⟨⟨used, behind, last, isSource, isEnd, ?_, yields, ?_, ?_⟩, here⟩
      · rintro rfl
        exact notEnd isLast
      · intro stmt front back isBehind yieldsFront
        obtain ⟨token, more, isBack, branches⟩ := stuck stmt front (back ++ [placed.token])
          (by rw [List.map_append, isBehind, List.append_assoc]; rfl) yieldsFront
        cases back with
        | nil =>
            rw [List.nil_append, List.cons.injEq] at isBack
            rw [← isBack.1, isLast] at branches
            rcases branches with isBranch | isBranch <;> cases isBranch
        | cons first back =>
            rw [List.cons_append, List.cons.injEq] at isBack
            exact ⟨first, back, rfl, isBack.1 ▸ branches⟩
      · refine blames.imp_left ?_
        rintro ⟨lexeme, member, isReport⟩
        rw [List.mem_append, List.mem_singleton] at member
        rcases member with member | rfl
        · exact ⟨lexeme, member, isReport⟩
        · rw [Lexeme.report?, isFault, isGood] at isReport
          cases isReport

end Reading

end IlsCompiler
