import IlsCompiler.Token.Lexer

namespace IlsCompiler

/-!
# The tokens of a text

Every token takes at least one byte, so a text has finitely many, and the end token comes last and
only there.
-/

namespace Cursor

/--
One cursor stands behind another: some bytes lie between them, and the lines count the newlines among
these.
-/
structure Passes (earlier : Cursor) (taken : Bytes) (later : Cursor) : Prop where
  rest : earlier.rest = taken ++ later.rest
  line : later.line = earlier.line + taken.count newline

section Passing

variable
    {earlier middle later : Cursor}
    {taken more rest : Bytes}
    {byte : UInt8}
    {line : Nat}

theorem Passes.refl
    (cursor : Cursor) :
    Passes cursor [] cursor :=
  ⟨rfl, rfl⟩

theorem Passes.trans
    (first : Passes earlier taken middle)
    (second : Passes middle more later) :
    Passes earlier (taken ++ more) later where
  rest := by rw [first.rest, second.rest, List.append_assoc]
  line := by rw [second.line, first.line, List.count_append, Nat.add_assoc]

theorem Passes.length
    (passes : Passes earlier taken later) :
    later.rest.length ≤ earlier.rest.length := by
  rw [passes.rest, List.length_append]
  exact Nat.le_add_left _ _

theorem passes_lineAfter
    (byte : UInt8)
    (rest : Bytes)
    (line : Nat) :
    Passes ⟨byte :: rest, line⟩ [byte] ⟨rest, lineAfter byte line⟩ where
  rest := rfl
  line := by
    unfold lineAfter
    by_cases isNewline : byte = newline
    · simp [isNewline]
    · simp [isNewline]

theorem passes_byte
    (solid : byte ≠ newline) :
    Passes ⟨byte :: rest, line⟩ [byte] ⟨rest, line⟩ := by
  have passes := passes_lineAfter byte rest line
  rwa [lineAfter, if_neg (by simpa using solid)] at passes

/-- Bytes that pass a test no newline passes are all on one line. -/
theorem passes_dropWhile
    (test : UInt8 → Bool)
    (solid : test newline = false)
    (bytes : Bytes)
    (line : Nat) :
    Passes ⟨bytes, line⟩ (bytes.takeWhile test) ⟨bytes.dropWhile test, line⟩ where
  rest := List.takeWhile_append_dropWhile.symm
  line := by
    have absent : newline ∉ bytes.takeWhile test := by
      intro member
      have passed := List.all_eq_true.mp List.all_takeWhile newline member
      rw [solid] at passed
      cases passed
    rw [List.count_eq_zero.mpr absent, Nat.add_zero]

end Passing

/-- Whether a category is one of well-formed words that are no numbers. -/
def isPlainWord (kind : Token.Kind) : Bool :=
  kind ≠ .endOfInput && kind ≠ .integer && kind ≠ .invalid

/--
What has been read from a cursor on: it reaches behind the bytes it takes, it is no end token, it is
invalid just where it has a fault, and a number has only digits.
-/
structure Scanned.Reads (start : Cursor) (scanned : Scanned) : Prop where
  passes : ∃ taken, Passes start taken scanned.next
  notEnd : scanned.kind ≠ .endOfInput
  marked : scanned.kind = .invalid ↔ scanned.fault.isSome
  digits : scanned.kind = .integer → ∀ byte ∈ scanned.text, isDigit byte

section Scanning

variable
    {start earlier : Cursor}
    {taken text rest : Bytes}
    {line : Nat}

theorem Scanned.Reads.bad
    {fault : LexicalFault}
    (passes : Passes start taken ⟨rest, line⟩) :
    Scanned.Reads start (.bad fault text rest line) where
  passes := ⟨taken, passes⟩
  notEnd := nofun
  marked := ⟨fun _ => rfl, fun _ => rfl⟩
  digits := nofun

theorem Scanned.Reads.good
    {kind : Token.Kind}
    (isPlain : isPlainWord kind)
    (passes : Passes start taken ⟨rest, line⟩) :
    Scanned.Reads start (.good kind text rest line) where
  passes := ⟨taken, passes⟩
  notEnd := by
    rintro rfl
    cases isPlain
  marked := by
    constructor
    · rintro rfl
      cases isPlain
    · exact nofun
  digits := by
    rintro rfl
    cases isPlain

/-- What has been read behind some bytes has been read from in front of them. -/
theorem Scanned.Reads.after
    {scanned : Scanned}
    (reads : scanned.Reads start)
    (passes : Passes earlier taken start) :
    scanned.Reads earlier :=
  { reads with
    passes :=
      let ⟨_, behind⟩ := reads.passes
      ⟨_, passes.trans behind⟩ }

theorem isPlainWord_ofWord
    (word : String) :
    isPlainWord ((Token.Kind.ofWord? word).getD .identifier) := by
  cases known : Token.Kind.ofWord? word with
  | none => decide
  | some kind =>
      have isKeyword := List.find?_some known
      cases kind <;> first | rfl | cases isKeyword

theorem scanName_reads
    {byte : UInt8}
    (rest : Bytes)
    (line : Nat)
    (starts : isNameStart byte = true) :
    (scanName (byte :: rest) line).Reads ⟨rest, line⟩ := by
  have continues : isNameByte byte = true := by rw [isNameByte, starts, Bool.true_or]
  have passes := passes_dropWhile isNameByte (by decide) rest line
  rw [← List.dropWhile_cons_of_pos continues] at passes
  exact .good (isPlainWord_ofWord _) passes

theorem scanNumber_reads
    {byte : UInt8}
    (rest : Bytes)
    (line : Nat)
    (digit : isDigit byte = true) :
    (scanNumber (byte :: rest) line).Reads ⟨rest, line⟩ := by
  have passes := passes_dropWhile isDigit (by decide) rest line
  rw [← List.dropWhile_cons_of_pos digit] at passes
  unfold scanNumber
  dsimp only
  split
  next => exact .bad (passes.trans (passes_dropWhile isNameByte (by decide) _ line))
  next =>
    refine ⟨⟨_, passes⟩, nofun, ⟨nofun, nofun⟩, fun _ byte member => ?_⟩
    exact List.all_eq_true.mp List.all_takeWhile byte member

theorem scanString_reads
    (line : Nat)
    (contents bytes : Bytes) :
    (scanString line contents bytes).Reads ⟨bytes, line⟩ := by
  fun_induction scanString line contents bytes with
  | case1 contents => exact .bad (.refl _)
  | case2 contents byte isQuote =>
      rw [beq_iff_eq] at isQuote
      exact .good rfl (passes_byte (isQuote ▸ by decide))
  | case3 contents byte _ isBackslash =>
      rw [beq_iff_eq] at isBackslash
      exact .bad (passes_byte (isBackslash ▸ by decide))
  | case4 => exact .bad (.refl _)
  | case5 contents byte _ _ solid => exact .bad (passes_byte (by simpa using solid))
  | case6 contents byte second rest isQuote =>
      rw [beq_iff_eq] at isQuote
      exact .good rfl (passes_byte (isQuote ▸ by decide))
  | case7 contents byte second rest _ isBackslash value known inductionHypothesis =>
      rw [beq_iff_eq] at isBackslash
      have solid : second ≠ newline := by
        rintro rfl
        cases known
      exact (inductionHypothesis.after (passes_byte solid)).after
        (passes_byte (isBackslash ▸ by decide))
  | case8 contents byte second rest _ isBackslash =>
      rw [beq_iff_eq] at isBackslash
      exact .bad ((passes_byte (isBackslash ▸ by decide)).trans (passes_lineAfter second rest line))
  | case9 => exact .bad (.refl _)
  | case10 contents byte second rest _ _ solid inductionHypothesis =>
      exact inductionHypothesis.after (passes_byte (by simpa using solid))

theorem closeChar_reads
    (value : UInt8)
    (bytes : Bytes)
    (line : Nat) :
    (closeChar value bytes line).Reads ⟨bytes, line⟩ := by
  unfold closeChar
  split
  next => exact .bad (.refl _)
  next byte rest =>
    split
    next isQuote =>
      rw [beq_iff_eq] at isQuote
      exact .good rfl (passes_byte (isQuote ▸ by decide))
    next =>
      have skipped := passes_dropWhile
        (fun other => other != singleQuote && other != newline) (by decide) (byte :: rest) line
      dsimp only
      split
      next isQuote =>
        rw [beq_iff_eq] at isQuote
        obtain ⟨behind, isBehind⟩ := List.head?_eq_some_iff.mp isQuote
        rw [isBehind] at skipped ⊢
        exact .bad (skipped.trans (passes_byte (by decide)))
      next => exact .bad skipped

theorem scanChar_reads
    (bytes : Bytes)
    (line : Nat) :
    (scanChar bytes line).Reads ⟨bytes, line⟩ := by
  unfold scanChar
  split
  next => exact .bad (.refl _)
  next byte rest =>
    split
    next isBackslash =>
      rw [beq_iff_eq] at isBackslash
      have first : Passes ⟨byte :: rest, line⟩ [byte] ⟨rest, line⟩ :=
        passes_byte (isBackslash ▸ by decide)
      split
      next => exact .bad first
      next letter others =>
        split
        next value known =>
          have solid : letter ≠ newline := by
            rintro rfl
            cases known
          exact ((closeChar_reads value others line).after (passes_byte solid)).after first
        next => exact .bad (first.trans (passes_lineAfter letter others line))
    next =>
      split
      next => exact .bad (.refl _)
      next plain =>
        simp only [Bool.or_eq_true, beq_iff_eq, not_or] at plain
        exact (closeChar_reads byte rest line).after (passes_byte plain.1.2)

theorem scanSingle_reads
    (byte : UInt8)
    (rest : Bytes)
    (line : Nat) :
    (scanSingle byte rest line).Reads ⟨rest, line⟩ := by
  unfold scanSingle
  split
  next kind known =>
    refine .good ?_ (.refl _)
    unfold single? at known
    split at known <;> cases known <;> rfl
  next => exact .bad (.refl _)

theorem scanOperator_reads
    (byte : UInt8)
    (rest : Bytes)
    (line : Nat) :
    (scanOperator byte rest line).Reads ⟨rest, line⟩ := by
  unfold scanOperator
  split
  next => exact scanSingle_reads byte [] line
  next second others =>
    split
    next kind known =>
      have isPlain : isPlainWord kind ∧ second ≠ newline := by
        unfold pair? at known
        split at known <;> cases known <;> decide
      exact .good isPlain.1 (passes_byte isPlain.2)
    next => exact scanSingle_reads byte (second :: others) line

/-- A word takes its first byte, and what it takes behind it is counted. -/
theorem scanWord_reads
    (byte : UInt8)
    (rest : Bytes)
    (line : Nat) :
    (scanWord byte rest line).Reads ⟨rest, line⟩ := by
  unfold scanWord
  split
  next starts => exact scanName_reads rest line starts
  next =>
    split
    next digit => exact scanNumber_reads rest line digit
    next =>
      split
      next => exact scanString_reads line [] rest
      next =>
        split
        next => exact scanChar_reads rest line
        next => exact scanOperator_reads byte rest line

end Scanning

/-- Blanks and comments are passed, and where something is left it begins with no newline. -/
theorem skipTriviaFrom_passes
    (comment : Bool)
    (bytes : Bytes)
    (line : Nat) :
    (∃ taken, Passes ⟨bytes, line⟩ taken (skipTriviaFrom comment bytes line)) ∧
      (skipTriviaFrom comment bytes line).rest.head? ≠ some newline := by
  fun_induction skipTriviaFrom comment bytes line with
  | case1 => exact ⟨⟨_, .refl _⟩, nofun⟩
  | case2 byte rest line isNewline inductionHypothesis
  | case4 byte rest line isNewline inductionHypothesis =>
      obtain ⟨⟨taken, passes⟩, stops⟩ := inductionHypothesis
      have first := passes_lineAfter byte rest line
      rw [lineAfter, if_pos isNewline] at first
      exact ⟨⟨_, first.trans passes⟩, stops⟩
  | case3 byte rest line solid inductionHypothesis
  | case5 byte rest line solid _ inductionHypothesis
  | case6 byte rest line solid _ _ inductionHypothesis =>
      obtain ⟨⟨taken, passes⟩, stops⟩ := inductionHypothesis
      exact ⟨⟨_, (passes_byte (by simpa using solid)).trans passes⟩, stops⟩
  | case7 byte rest line solid =>
      exact ⟨⟨_, .refl _⟩, by simpa using solid⟩

variable
    {cursor : Cursor}

/--
A token is the end token where nothing but blanks and comments is left; else it is the word that begins
behind them.
-/
theorem next_cases
    (cursor : Cursor) :
    cursor.skipTrivia.rest = [] ∧
        cursor.next = (⟨⟨.endOfInput, cursor.skipTrivia.line, []⟩, none⟩, cursor.skipTrivia) ∨
      ∃ (byte : UInt8) (rest : Bytes) (scanned : Scanned),
        cursor.skipTrivia.rest = byte :: rest ∧ byte ≠ newline ∧
          scanned.Reads ⟨rest, cursor.skipTrivia.line⟩ ∧
          cursor.next =
            (⟨⟨scanned.kind, cursor.skipTrivia.line, scanned.text⟩, scanned.fault⟩, scanned.next) := by
  have stops := (skipTriviaFrom_passes false cursor.rest cursor.line).2
  have here : cursor.skipTrivia = skipTriviaFrom false cursor.rest cursor.line := rfl
  rw [← here] at stops
  unfold next
  dsimp only
  split
  next isEmpty => exact .inl ⟨isEmpty, rfl⟩
  next byte rest isRest =>
    rw [isRest] at stops
    exact .inr ⟨byte, rest, scanWord byte rest cursor.skipTrivia.line, isRest, by simpa using stops,
      scanWord_reads byte rest cursor.skipTrivia.line, rfl⟩

/-- The end token stands where nothing but blanks and comments is left, and it is well-formed. -/
theorem next_of_end
    (isEnd : cursor.next.1.token.kind = .endOfInput) :
    cursor.skipTrivia.rest = [] ∧
      cursor.next = (⟨⟨.endOfInput, cursor.skipTrivia.line, []⟩, none⟩, cursor.skipTrivia) := by
  rcases next_cases cursor with atEnd | ⟨_, _, scanned, _, _, reads, isNext⟩
  · exact atEnd
  · rw [isNext] at isEnd
    exact (reads.notEnd isEnd).elim

theorem next_digits
    (isNumber : cursor.next.1.token.kind = .integer) :
    ∀ byte ∈ cursor.next.1.token.text, isDigit byte := by
  rcases next_cases cursor with ⟨_, isNext⟩ | ⟨_, _, scanned, _, _, reads, isNext⟩
  · rw [isNext] at isNumber
    cases isNumber
  · rw [isNext] at isNumber ⊢
    exact reads.digits isNumber

/-- A word begins behind the blanks and comments in front of it and takes at least a byte. -/
theorem next_passes
    (notEnd : cursor.next.1.token.kind ≠ .endOfInput) :
    cursor.next.1.token.line = cursor.skipTrivia.line ∧
      ∃ written, written ≠ [] ∧ Passes cursor.skipTrivia written cursor.next.2 := by
  rcases next_cases cursor with ⟨_, isNext⟩ | ⟨byte, rest, scanned, isRest, solid, reads, isNext⟩
  · rw [isNext] at notEnd
    exact (notEnd rfl).elim
  · rw [isNext]
    obtain ⟨taken, passes⟩ := reads.passes
    have first : Passes cursor.skipTrivia [byte] ⟨rest, cursor.skipTrivia.line⟩ :=
      ⟨isRest, (@passes_byte rest byte cursor.skipTrivia.line solid).line⟩
    exact ⟨rfl, [byte] ++ taken, by simp, first.trans passes⟩

/-- Behind every token but the end token there is less left to read. -/
theorem next_shorter
    (notEnd : cursor.next.1.token.kind ≠ .endOfInput) :
    cursor.next.2.rest.length < cursor.rest.length := by
  obtain ⟨_, trivia⟩ := (skipTriviaFrom_passes false cursor.rest cursor.line).1
  obtain ⟨-, written, isWritten, passes⟩ := next_passes notEnd
  have positive := List.length_pos_iff.mpr isWritten
  have here : cursor.skipTrivia.rest.length ≤ cursor.rest.length := trivia.length
  rw [passes.rest, List.length_append] at here
  omega

theorem lexemesWithin_succ
    (count : Nat)
    (cursor : Cursor) :
    lexemesWithin (count + 1) cursor =
      if cursor.next.1.token.kind = .endOfInput then
        [cursor.next.1]
      else
        cursor.next.1 :: lexemesWithin count cursor.next.2 :=
  rfl

/-- A bound on the number of tokens that is large enough does not matter. -/
theorem lexemesWithin_of_enough
    {count more : Nat}
    (enough : cursor.rest.length < count)
    (enoughMore : cursor.rest.length < more) :
    lexemesWithin count cursor = lexemesWithin more cursor := by
  induction count generalizing more cursor with
  | zero => omega
  | succ count inductionHypothesis =>
      obtain ⟨more, rfl⟩ : ∃ fewer, more = fewer + 1 := ⟨more - 1, by omega⟩
      rw [lexemesWithin_succ, lexemesWithin_succ]
      split
      next => rfl
      next notEnd =>
        have shorter := next_shorter notEnd
        rw [@inductionHypothesis _ more (by omega) (by omega)]

/-- The end token is the only one of a text with nothing in it. -/
theorem lexemes_of_end
    (isEnd : cursor.next.1.token.kind = .endOfInput) :
    cursor.lexemes = [cursor.next.1] := by
  rw [lexemes, lexemesWithin_succ, if_pos isEnd]

/-- Any other token stands in front of those that are read behind it. -/
theorem lexemes_of_next
    (notEnd : cursor.next.1.token.kind ≠ .endOfInput) :
    cursor.lexemes = cursor.next.1 :: cursor.next.2.lexemes := by
  have shorter := next_shorter notEnd
  rw [lexemes, lexemesWithin_succ, if_neg notEnd, lexemes,
    lexemesWithin_of_enough shorter (Nat.lt_succ_self _)]

/-- The end token comes last, and only there. -/
theorem lexemes_end
    (cursor : Cursor) :
    ∃ front last, cursor.lexemes = front ++ [last] ∧ last.token.kind = .endOfInput ∧
      last.fault = none ∧ ∀ lexeme ∈ front, lexeme.token.kind ≠ .endOfInput := by
  induction size : cursor.rest.length using Nat.strongRecOn generalizing cursor with
  | ind size inductionHypothesis =>
      by_cases isEnd : cursor.next.1.token.kind = .endOfInput
      · exact ⟨[], cursor.next.1, lexemes_of_end isEnd, isEnd, by rw [(next_of_end isEnd).2], by simp⟩
      · have shorter := next_shorter isEnd
        obtain ⟨front, last, isBehind, isLast, isGood, others⟩ :=
          inductionHypothesis _ (size ▸ shorter) cursor.next.2 rfl
        refine ⟨cursor.next.1 :: front, last, ?_, isLast, isGood, ?_⟩
        · rw [lexemes_of_next isEnd, isBehind, List.cons_append]
        · rintro lexeme (_ | ⟨_, member⟩)
          · exact isEnd
          · exact others lexeme member

/-- What the next token of any cursor is like, all tokens are like. -/
theorem lexemes_induction
    {wanted : Lexeme → Prop}
    (each : ∀ cursor : Cursor, wanted cursor.next.1)
    (cursor : Cursor) :
    ∀ lexeme ∈ cursor.lexemes, wanted lexeme := by
  induction size : cursor.rest.length using Nat.strongRecOn generalizing cursor with
  | ind size inductionHypothesis =>
      by_cases isEnd : cursor.next.1.token.kind = .endOfInput
      · rw [lexemes_of_end isEnd]
        intro lexeme member
        cases List.mem_singleton.mp member
        exact each cursor
      · rw [lexemes_of_next isEnd]
        rintro lexeme (_ | ⟨_, member⟩)
        · exact each cursor
        · exact inductionHypothesis _ (size ▸ next_shorter isEnd) _ rfl lexeme member

theorem lexemes_digits
    (cursor : Cursor) :
    ∀ lexeme ∈ cursor.lexemes, lexeme.token.kind = .integer →
      ∀ byte ∈ lexeme.token.text, isDigit byte :=
  lexemes_induction (fun _ => next_digits) cursor

end Cursor

end IlsCompiler
