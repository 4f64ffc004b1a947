import Mathlib.Data.List.Basic
import IlsCompiler.Proofs.Token.Spelling

namespace IlsCompiler

/-!
# Where tokens stand

A text is white space, comments and words. Each word is read as a token that stands on the line of
its first byte, and the end token stands on the line where the text ends. The malformed words are
reported in their order, each on its line.
-/

/-- The lines of a text, counted from one. -/
def Bytes.IsLine (source : Bytes) (line : Nat) : Prop :=
  1 ≤ line ∧ line ≤ 1 + source.count Cursor.newline

namespace Token

open Cursor

/-- What stands in front of some bytes: trivia, and at the end of a text a comment that ends there. -/
inductive Gap (rest : Bytes) : Bytes → Prop
  | trivia {gap : Bytes} :
      Trivia gap → Gap rest gap
  | unended {gap words : Bytes} :
      rest = [] → Trivia gap → newline ∉ words → Gap rest (gap ++ slash :: slash :: words)

/--
The tokens of some bytes with other bytes before them. The word of a token stands behind trivia and is
what is read from its first byte on; the line of the token counts the newlines in front of that byte.
-/
inductive Placed : Bytes → Bytes → List Token → Prop
  | last {before gap : Bytes} :
      Gap [] gap →
        Placed before gap [⟨.endOfInput, 1 + (before ++ gap).count newline, []⟩]
  | word {before gap written rest : Bytes} {token : Token} {tokens : List Token} :
      Trivia gap → written ≠ [] →
      skipTrivia ⟨written ++ rest, token.line⟩ = ⟨written ++ rest, token.line⟩ →
      (Cursor.next ⟨written ++ rest, token.line⟩).1.token = token →
      (Cursor.next ⟨written ++ rest, token.line⟩).2.rest = rest →
      token.line = 1 + (before ++ gap).count newline →
      Placed (before ++ gap ++ written) rest tokens →
        Placed before (gap ++ (written ++ rest)) (token :: tokens)

theorem Gap.space
    {byte : UInt8}
    {rest gap : Bytes}
    (space : isSpace byte = true)
    (isGap : Gap rest gap) :
    Gap rest (byte :: gap) := by
  cases isGap with
  | trivia isTrivia => exact .trivia (.space space isTrivia)
  | unended atEnd isTrivia solid =>
      exact @Gap.unended _ (byte :: _) _ atEnd (.space space isTrivia) solid

theorem Gap.comment
    {words rest gap : Bytes}
    (solid : newline ∉ words)
    (isGap : Gap rest gap) :
    Gap rest (slash :: slash :: (words ++ newline :: gap)) := by
  cases isGap with
  | trivia isTrivia => exact .trivia (.comment solid isTrivia)
  | @unended gap others atEnd isTrivia solidOthers =>
      have isWhole := @Gap.unended rest (slash :: slash :: (words ++ newline :: gap)) others atEnd
        (.comment solid isTrivia) solidOthers
      simpa using isWhole

end Token

namespace Cursor

open Token

/-- A comment goes to the end of its line, or to the end of a text without one. -/
theorem skipTriviaFrom_open
    (bytes : Bytes)
    (line : Nat) :
    (newline ∉ bytes ∧ skipTriviaFrom true bytes line = ⟨[], line⟩) ∨
      ∃ words rest, newline ∉ words ∧ bytes = words ++ newline :: rest ∧
        skipTriviaFrom true bytes line = skipTrivia ⟨rest, line + 1⟩ := by
  by_cases ends : newline ∈ bytes
  · obtain ⟨words, rest, isSplit, solid⟩ := List.eq_append_cons_of_mem ends
    exact .inr ⟨words, rest, solid, isSplit, isSplit ▸ skipTriviaFrom_comment solid rest line⟩
  · refine .inl ⟨ends, ?_⟩
    induction bytes with
    | nil => rfl
    | cons byte bytes inductionHypothesis =>
        simp only [List.mem_cons, not_or] at ends
        rw [skipTriviaFrom, if_neg (by simpa using Ne.symm ends.1)]
        exact inductionHypothesis ends.2

/-- Nothing is skipped in front of what is left. -/
def Cleared (cursor : Cursor) : Prop :=
  ∀ line, skipTrivia ⟨cursor.rest, line⟩ = ⟨cursor.rest, line⟩

/-- White space is skipped, and so are two slashes and the comment they open; nothing else is. -/
theorem skipTrivia_cases
    (bytes : Bytes)
    (line : Nat) :
    (∃ byte rest, bytes = byte :: rest ∧ isSpace byte = true ∧
        skipTrivia ⟨bytes, line⟩ = skipTrivia ⟨rest, lineAfter byte line⟩) ∨
      (∃ words, bytes = slash :: slash :: words ∧
        skipTrivia ⟨bytes, line⟩ = skipTriviaFrom true words line) ∨
      (∀ line, skipTrivia ⟨bytes, line⟩ = ⟨bytes, line⟩) := by
  cases bytes with
  | nil => exact .inr (.inr fun _ => rfl)
  | cons byte rest =>
      by_cases space : isSpace byte = true
      · refine .inl ⟨byte, rest, rfl, space, ?_⟩
        rcases (isSpace_iff byte).mp space with rfl | rfl | rfl | rfl <;> rfl
      · by_cases opens : byte = slash ∧ rest.head? = some slash
        · obtain ⟨rfl, isSecond⟩ := opens
          obtain ⟨words, rfl⟩ := List.head?_eq_some_iff.mp isSecond
          exact .inr (.inl ⟨words, rfl, rfl⟩)
        · refine .inr (.inr fun line => ?_)
          rw [isSpace, Bool.or_eq_true, not_or] at space
          rw [skipTrivia, skipTriviaFrom, if_neg space.2, if_neg space.1,
            if_neg (by simpa using opens)]

/-- What is skipped is a gap, and nothing more is skipped behind it. -/
theorem skipTrivia_gap
    (bytes : Bytes)
    (line : Nat) :
    ∃ gap, Gap (skipTrivia ⟨bytes, line⟩).rest gap ∧
      Passes ⟨bytes, line⟩ gap (skipTrivia ⟨bytes, line⟩) ∧ (skipTrivia ⟨bytes, line⟩).Cleared := by
  induction size : bytes.length using Nat.strongRecOn generalizing bytes line with
  | ind size inductionHypothesis =>
      subst size
      rcases skipTrivia_cases bytes line with
        ⟨byte, rest, rfl, space, isHere⟩ | ⟨words, rfl, isHere⟩ | isHere
      · rw [isHere]
        obtain ⟨gap, isGap, passes, cleared⟩ :=
          inductionHypothesis rest.length (by simp) rest (lineAfter byte line) rfl
        exact ⟨byte :: gap, isGap.space space, (passes_lineAfter byte rest line).trans passes,
          cleared⟩
      · rw [isHere]
        have slashes : Passes ⟨slash :: slash :: words, line⟩ [slash, slash] ⟨words, line⟩ :=
          (passes_byte (by decide)).trans (passes_byte (by decide))
        rcases skipTriviaFrom_open words line with
          ⟨solid, isEnd⟩ | ⟨words, behind, solid, rfl, isBehind⟩
        · rw [isEnd]
          have passes : Passes ⟨words, line⟩ words ⟨[], line⟩ :=
            ⟨(List.append_nil words).symm, by rw [List.count_eq_zero.mpr solid]; rfl⟩
          exact ⟨_, @Gap.unended [] [] words rfl .none solid, slashes.trans passes, fun _ => rfl⟩
        · rw [isBehind]
          obtain ⟨gap, isGap, passes, cleared⟩ :=
            inductionHypothesis behind.length (by simp; omega) behind (line + 1) rfl
          have ends : Passes ⟨words ++ newline :: behind, line⟩ (words ++ [newline])
              ⟨behind, line + 1⟩ :=
            ⟨by simp, by simp [List.count_eq_zero.mpr solid]⟩
          refine ⟨slash :: slash :: (words ++ newline :: gap), isGap.comment solid, ?_, cleared⟩
          have whole := (slashes.trans ends).trans passes
          simpa only [List.append_assoc, List.cons_append, List.nil_append] using whole
      · rw [isHere]
        exact ⟨[], .trivia .none, .refl _, isHere⟩

variable
    {cursor : Cursor}

/-- Reading on behind what is skipped reads the same token. -/
theorem next_of_cleared
    (cleared : cursor.skipTrivia.Cleared) :
    cursor.skipTrivia.next = cursor.next := by
  have here : cursor.skipTrivia.skipTrivia = cursor.skipTrivia := cleared cursor.skipTrivia.line
  unfold next
  rw [here]

/-- The tokens from a cursor on are placed behind the bytes before it, if its line counts these. -/
theorem lexemes_placed
    (cursor : Cursor)
    {before : Bytes}
    (counts : cursor.line = 1 + before.count newline) :
    Placed before cursor.rest (cursor.lexemes.map Lexeme.token) := by
  induction size : cursor.rest.length using Nat.strongRecOn generalizing cursor before with
  | ind size inductionHypothesis =>
      obtain ⟨gap, isGap, skipped, cleared⟩ := skipTrivia_gap cursor.rest cursor.line
      have isLine : cursor.skipTrivia.line = 1 + (before ++ gap).count newline := by
        rw [skipped.line, List.count_append, ← Nat.add_assoc, ← counts]
      by_cases isEnd : cursor.next.1.token.kind = .endOfInput
      · obtain ⟨isEmpty, isNext⟩ := next_of_end isEnd
        have isRest : cursor.rest = gap := by
          rw [skipped.rest, show (skipTrivia ⟨cursor.rest, cursor.line⟩).rest = [] from isEmpty,
            List.append_nil]
        rw [lexemes_of_end isEnd, isNext, isRest, isLine]
        exact .last (isEmpty ▸ isGap)
      · obtain ⟨onLine, written, isWritten, passes⟩ := next_passes isEnd
        have isTrivia : Trivia gap := by
          cases isGap with
          | trivia isTrivia => exact isTrivia
          | unended atEnd =>
              have nothing : written ++ cursor.next.2.rest = [] := passes.rest.symm.trans atEnd
              exact (isWritten (List.append_eq_nil_iff.mp nothing).1).elim
        have isHere : (⟨written ++ cursor.next.2.rest, cursor.next.1.token.line⟩ : Cursor) =
            cursor.skipTrivia := by
          rw [← passes.rest, onLine]
        have behind : cursor.next.2.line = 1 + (before ++ gap ++ written).count newline := by
          rw [passes.line, isLine, @List.count_append _ _ newline (before ++ gap), Nat.add_assoc]
        have isRest : cursor.rest = gap ++ (written ++ cursor.next.2.rest) := by
          rw [← passes.rest]
          exact skipped.rest
        rw [lexemes_of_next isEnd, isRest, List.map_cons]
        refine .word isTrivia isWritten ?_ ?_ ?_ (onLine.trans isLine)
          (inductionHypothesis _ (size ▸ next_shorter isEnd) _ behind rfl)
        · rw [isHere]
          exact cleared _
        · rw [isHere, next_of_cleared cleared]
        · rw [isHere, next_of_cleared cleared]

end Cursor

namespace Token

/-- A token stands on a line of the text it is placed in. -/
theorem Placed.isLine
    {before rest : Bytes}
    {tokens : List Token}
    (placed : Placed before rest tokens) :
    ∀ token ∈ tokens, Bytes.IsLine (before ++ rest) token.line := by
  induction placed with
  | @last before gap _ =>
      intro token member
      rw [List.mem_singleton.mp member]
      exact ⟨Nat.le_add_right _ _, Nat.le_refl _⟩
  | @word before gap written rest token tokens _ _ _ _ _ isLine _ inductionHypothesis =>
      have isText : before ++ (gap ++ (written ++ rest)) = before ++ gap ++ written ++ rest := by
        simp
      rw [isText]
      rintro other (_ | ⟨_, member⟩)
      · refine ⟨isLine ▸ Nat.le_add_right _ _, isLine ▸ Nat.add_le_add_left ?_ 1⟩
        rw [List.append_assoc (before ++ gap)]
        exact (List.sublist_append_left _ _).count_le _
      · exact inductionHypothesis other member

end Token

/-- Every token of a text stands on one of its lines. -/
theorem Lexeme.isLine_of_mem
    {source : Bytes}
    {lexeme : Lexeme}
    (member : lexeme ∈ Lexeme.ofSource source) :
    source.IsLine lexeme.token.line :=
  (@Cursor.lexemes_placed (.start source) [] rfl).isLine lexeme.token (List.mem_map_of_mem member)

namespace Cursor

end Cursor

namespace Lexer

end Lexer

/-!
## Looking ahead

A reader may look at the next token before it takes it. Whatever is looked at on the way, the tokens
that are taken are the tokens of the text, and each report is made once.
-/

namespace Cursor

variable
    {cursor : Cursor}

/-- Behind the end of a text the end token is read again. -/
theorem next_behind_end
    (isEnd : cursor.next.1.token.kind = .endOfInput) :
    cursor.next.2.next = cursor.next := by
  obtain ⟨isEmpty, isNext⟩ := next_of_end isEnd
  rw [isNext]
  have here : cursor.skipTrivia.skipTrivia = cursor.skipTrivia := by
    rw [skipTrivia, isEmpty]
    cases rest : cursor.skipTrivia with
    | mk bytes line => simp_all [skipTriviaFrom]
  unfold next
  rw [here]
  dsimp only
  rw [isEmpty]

end Cursor

namespace Lexer

/-- What can be asked of a reader: to show the next token, or to hand it out. -/
inductive Request where
  | peek
  | next
deriving DecidableEq, Repr

/-- Do what is asked once. -/
def answer (lexer : Lexer) : Request → Token × Lexer
  | .peek => lexer.peek
  | .next => lexer.next

/-- Do what is asked in order; each request is kept with the token it was answered with. -/
def answers : Lexer → List Request → List (Request × Token) × Lexer
  | lexer, [] => ([], lexer)
  | lexer, request :: rest =>
      let (token, after) := lexer.answer request
      let (later, final) := after.answers rest
      ((request, token) :: later, final)

/-- The tokens that were handed out. -/
def taken (answered : List (Request × Token)) : List Token :=
  answered.filterMap fun (request, token) => if request = .next then some token else none

/--
A reader stands at a cursor and has made some reports, not counting that on a token it has looked at
but not handed out.
-/
inductive StandsAt (cursor : Cursor) (reports : List Report) : Lexer → Prop
  | plain : StandsAt cursor reports ⟨cursor, none, reports⟩
  | looked :
      StandsAt cursor reports
        ⟨cursor.next.2, some cursor.next.1.token, reports ++ cursor.next.1.report?.toList⟩

variable
    {cursor : Cursor}
    {reports : List Report}
    {lexer : Lexer}

/-- The token handed out is the one at the cursor, and the reader goes on behind it. -/
theorem StandsAt.next
    (stands : StandsAt cursor reports lexer) :
    lexer.next.1 = cursor.next.1.token ∧
      StandsAt cursor.next.2 (reports ++ cursor.next.1.report?.toList) lexer.next.2 := by
  cases stands with
  | plain => exact ⟨rfl, .plain⟩
  | looked => exact ⟨rfl, .plain⟩

/-- The token shown is the one at the cursor, and the reader stays there. -/
theorem StandsAt.peek
    (stands : StandsAt cursor reports lexer) :
    lexer.peek.1 = cursor.next.1.token ∧ StandsAt cursor reports lexer.peek.2 := by
  cases stands with
  | plain => exact ⟨rfl, .looked⟩
  | looked => exact ⟨rfl, .looked⟩

/-- A reader goes on as one that has not looked ahead. -/
theorem StandsAt.next_eq
    (stands : StandsAt cursor reports lexer) :
    lexer.next = (⟨cursor, none, reports⟩ : Lexer).next := by
  cases stands with
  | plain => rfl
  | looked => rfl

theorem allWithin_congr
    {other : Lexer}
    (same : lexer.next = other.next)
    (count : Nat) :
    allWithin (count + 1) lexer = allWithin (count + 1) other := by
  rw [allWithin, allWithin, same]

/-- However far the reader has looked, what is left of the text bounds the tokens that are left. -/
theorem StandsAt.enough
    (stands : StandsAt cursor reports lexer) :
    Cursor.lexemesWithin (lexer.cursor.rest.length + 2) cursor = cursor.lexemes := by
  cases stands with
  | plain => exact Cursor.lexemesWithin_of_enough (by dsimp only; omega) (Nat.lt_succ_self _)
  | looked =>
      rw [Cursor.lexemesWithin_succ]
      split
      next isEnd => exact (Cursor.lexemes_of_end isEnd).symm
      next notEnd => exact (Cursor.lexemes_of_next notEnd).symm

/-- All remaining tokens are those from the cursor on, and the missing reports are made. -/
theorem StandsAt.all
    (stands : StandsAt cursor reports lexer) :
    lexer.all.1 = cursor.lexemes.map Lexeme.token ∧
      lexer.all.2.reports = reports ++ cursor.lexemes.filterMap Lexeme.report? := by
  rw [Lexer.all, allWithin_congr stands.next_eq, ← stands.enough]
  exact allWithin_eq_lexemesWithin _ cursor reports

theorem taken_next
    (token : Token)
    (answered : List (Request × Token)) :
    taken ((.next, token) :: answered) = token :: taken answered :=
  rfl

/--
What is handed out and then read to the end is all tokens from the cursor on, the end token once more
for each token asked for behind it, and the reports on these tokens are made once.
-/
theorem StandsAt.answers
    (stands : StandsAt cursor reports lexer)
    (requests : List Request) :
    (∃ front last, cursor.lexemes.map Lexeme.token = front ++ [last] ∧
        taken (lexer.answers requests).1 ++ (lexer.answers requests).2.all.1 =
          front ++ [last] ++ List.replicate (requests.count .next - front.length) last) ∧
      (lexer.answers requests).2.all.2.reports =
        reports ++ cursor.lexemes.filterMap Lexeme.report? := by
  induction requests generalizing cursor reports lexer with
  | nil =>
      obtain ⟨tokens, isReports⟩ := stands.all
      obtain ⟨front, last, isFront, _⟩ := cursor.lexemes_end
      refine ⟨⟨front.map Lexeme.token, last.token, by simp [isFront], ?_⟩, isReports⟩
      rw [List.count_nil, Nat.zero_sub, List.replicate_zero, List.append_nil]
      exact tokens.trans (by simp [isFront])
  | cons request requests inductionHypothesis =>
      cases request with
      | peek => exact inductionHypothesis stands.peek.2
      | next =>
          obtain ⟨isToken, behind⟩ := stands.next
          obtain ⟨⟨front, last, isFront, tokens⟩, isReports⟩ := inductionHypothesis behind
          simp only [Lexer.answers, answer, taken_next, List.cons_append, tokens, isReports, isToken,
            List.count_cons_self]
          by_cases isEnd : cursor.next.1.token.kind = .endOfInput
          · have again : cursor.next.2.lexemes = [cursor.next.1] := by
              have same := Cursor.next_behind_end isEnd
              rw [Cursor.lexemes_of_end (by rw [same]; exact isEnd), same]
            have noReport : cursor.next.1.report? = none := by
              rw [(Cursor.next_of_end isEnd).2]
              rfl
            rw [again] at isFront ⊢
            rw [Cursor.lexemes_of_end isEnd]
            refine ⟨⟨[], cursor.next.1.token, rfl, ?_⟩, by simp [noReport]⟩
            obtain ⟨rfl, isLast⟩ : front = [] ∧ cursor.next.1.token = last := by
              simpa [List.append_eq_singleton_iff, eq_comm] using isFront
            rw [isLast]
            simp [List.replicate_succ]
          · rw [Cursor.lexemes_of_next isEnd, List.map_cons, isFront]
            refine ⟨⟨cursor.next.1.token :: front, last, rfl, by simp⟩, ?_⟩
            rw [List.filterMap_cons]
            cases cursor.next.1.report? <;> simp

/-- The token that is shown is the first one that is handed out or read behind it. -/
theorem StandsAt.answers_peek
    (stands : StandsAt cursor reports lexer)
    {requests : List Request}
    {earlier later : List (Request × Token)}
    {token : Token}
    (shown : (lexer.answers requests).1 = earlier ++ (.peek, token) :: later) :
    (taken later ++ (lexer.answers requests).2.all.1).head? = some token := by
  induction requests generalizing cursor reports lexer earlier with
  | nil => simp [Lexer.answers] at shown
  | cons request requests inductionHypothesis =>
      obtain ⟨nextCursor, nextReports, behind⟩ :
          ∃ nextCursor nextReports, StandsAt nextCursor nextReports (lexer.answer request).2 := by
        cases request with
        | peek => exact ⟨_, _, stands.peek.2⟩
        | next => exact ⟨_, _, stands.next.2⟩
      simp only [Lexer.answers] at shown ⊢
      cases earlier with
      | nil =>
          rw [List.nil_append, List.cons.injEq, Prod.mk.injEq] at shown
          obtain ⟨⟨rfl, isShown⟩, rfl⟩ := shown
          obtain ⟨isToken, behind⟩ := stands.peek
          obtain ⟨⟨front, last, isFront, tokens⟩, _⟩ := behind.answers requests
          have isFirst : (cursor.lexemes.map Lexeme.token).head? = some cursor.next.1.token := by
            by_cases isEnd : cursor.next.1.token.kind = .endOfInput
            · rw [Cursor.lexemes_of_end isEnd]
              rfl
            · rw [Cursor.lexemes_of_next isEnd]
              rfl
          rw [isFront] at isFirst
          rw [← isShown, answer, isToken, ← isFirst]
          exact (congrArg List.head? tokens).trans (by cases front <;> rfl)
      | cons first earlier =>
          rw [List.cons_append, List.cons.injEq] at shown
          exact inductionHypothesis behind shown.2

/--
Looking ahead cannot be seen. Whatever is asked of a reader before it reads to the end, the tokens it
hands out and reads are the tokens of the text, the end token once more for each one asked for
behind it; a token that is shown is the next one handed out or read; and the reports are those of
reading the text at once.
-/
theorem peeking_invisible
    (source : Bytes)
    (requests : List Request) :
    let asked := (ofSource source).answers requests
    (∃ front last, (ofSource source).all.1 = front ++ [last] ∧ last.kind = .endOfInput ∧
        taken asked.1 ++ asked.2.all.1 =
          (ofSource source).all.1 ++ List.replicate (requests.count .next - front.length) last) ∧
      (∀ earlier token later, asked.1 = earlier ++ (.peek, token) :: later →
        (taken later ++ asked.2.all.1).head? = some token) ∧
      asked.2.all.2.reports = (ofSource source).all.2.reports := by
  have stands : StandsAt (.start source) [] (ofSource source) := .plain
  obtain ⟨⟨front, last, isFront, tokens⟩, isReports⟩ := stands.answers requests
  obtain ⟨isTokens, wasReported⟩ := all_ofSource source
  have isSource : (ofSource source).all.1 = front ++ [last] := isTokens.trans isFront
  refine ⟨⟨front, last, isSource, ?_, isSource ▸ tokens⟩,
    fun _ _ _ shown => stands.answers_peek shown, isReports.trans wasReported.symm⟩
  obtain ⟨others, final, isFinal, isEnd, _⟩ := (Cursor.start source).lexemes_end
  rw [isFinal, List.map_append, List.map_singleton] at isFront
  obtain ⟨-, same⟩ := List.append_inj' isFront rfl
  rw [← List.singleton_inj.mp same]
  exact isEnd

/-- Tokens are shown at the start, behind the first one and behind the end. -/
example :
    taken ((ofSource (Bytes.ofString "x y")).answers
        [.peek, .next, .peek, .peek, .next, .next, .peek]).1 =
      [⟨.identifier, 1, [120]⟩, ⟨.identifier, 1, [121]⟩, ⟨.endOfInput, 1, []⟩] := by
  decide

end Lexer

end IlsCompiler
