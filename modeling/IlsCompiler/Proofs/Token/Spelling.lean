import IlsCompiler.Proofs.Token.Lexemes

namespace IlsCompiler

/-!
# The spelling of tokens

Literals may be spelled with escapes, and some bytes need one. A spelled token is read as that token
where white space or the end of the text follows. A text of spelled tokens with a blank behind each
is read as those tokens.
-/

variable
    {token : Token}

namespace Token

/-- Whether a category stands for one spelling only. -/
def Kind.isFixed : Kind → Bool
  | .invalid | .endOfInput | .identifier | .integer | .string | .character => false
  | _ => true

/-- A byte of a string or a character literal, behind a backslash where it needs one. -/
def escape (byte : UInt8) : Bytes :=
  match byte with
  | 10 => [Cursor.backslash, 110]
  | 9 => [Cursor.backslash, 116]
  | 13 => [Cursor.backslash, 114]
  | 0 => [Cursor.backslash, 48]
  | 92 => [Cursor.backslash, 92]
  | 34 => [Cursor.backslash, 34]
  | 39 => [Cursor.backslash, 39]
  | other => [other]

/-- The spelling of a token. -/
def spell (token : Token) : Bytes :=
  match token.kind with
  | .string =>
      Cursor.doubleQuote :: (token.text.flatMap escape ++ [Cursor.doubleQuote])
  | .character =>
      Cursor.singleQuote :: (token.text.flatMap escape ++ [Cursor.singleQuote])
  | _ => token.text

def blank : UInt8 := 32

/-- The text of spelled tokens, with a blank behind each. -/
def layOut (tokens : List Token) : Bytes :=
  tokens.flatMap fun token => token.spell ++ [blank]

/-- The tokens that a spelling can be read as. -/
inductive Spellable : Token → Prop
  | fixed {kind : Kind} {line : Nat} :
      kind.isFixed = true →
        Spellable { kind := kind, line := line, text := Bytes.ofString kind.name }
  | name {first : UInt8} {rest : Bytes} {line : Nat} :
      Cursor.isNameStart first = true → (∀ byte ∈ rest, Cursor.isNameByte byte = true) →
        Kind.ofWord? (Bytes.ascii (first :: rest)) = none →
        Spellable { kind := .identifier, line := line, text := first :: rest }
  | number {first : UInt8} {rest : Bytes} {line : Nat} :
      Cursor.isDigit first = true → (∀ byte ∈ rest, Cursor.isDigit byte = true) →
        Spellable { kind := .integer, line := line, text := first :: rest }
  | string {contents : Bytes} {line : Nat} :
      Spellable { kind := .string, line := line, text := contents }
  | character {byte : UInt8} {line : Nat} :
      Spellable { kind := .character, line := line, text := [byte] }

/-- Whether a byte of a string can stand for itself. -/
def isPlainInString (byte : UInt8) : Bool :=
  byte != Cursor.doubleQuote && byte != Cursor.backslash && byte != Cursor.newline

/-- Whether the byte of a character literal can stand for itself. -/
def isPlainInChar (byte : UInt8) : Bool :=
  byte != Cursor.singleQuote && byte != Cursor.backslash && byte != Cursor.newline && byte != 0

/-- Contents of a literal and how they can be written: bytes that stand for themselves and escapes. -/
inductive Contents (isPlain : UInt8 → Bool) : Bytes → Bytes → Prop
  | nil : Contents isPlain [] []
  | plain {byte : UInt8} {contents written : Bytes} :
      isPlain byte = true → Contents isPlain contents written →
        Contents isPlain (byte :: contents) (byte :: written)
  | escaped {letter value : UInt8} {contents written : Bytes} :
      Cursor.unescape? letter = some value → Contents isPlain contents written →
        Contents isPlain (value :: contents) (Cursor.backslash :: letter :: written)

/-- The ways a token can be written. -/
inductive Written : Token → Bytes → Prop
  | fixed {kind : Kind} {line : Nat} :
      kind.isFixed = true →
        Written { kind := kind, line := line, text := Bytes.ofString kind.name }
          (Bytes.ofString kind.name)
  | name {first : UInt8} {rest : Bytes} {line : Nat} :
      Cursor.isNameStart first = true → (∀ byte ∈ rest, Cursor.isNameByte byte = true) →
        Kind.ofWord? (Bytes.ascii (first :: rest)) = none →
        Written { kind := .identifier, line := line, text := first :: rest } (first :: rest)
  | number {first : UInt8} {rest : Bytes} {line : Nat} :
      Cursor.isDigit first = true → (∀ byte ∈ rest, Cursor.isDigit byte = true) →
        Written { kind := .integer, line := line, text := first :: rest } (first :: rest)
  | string {contents written : Bytes} {line : Nat} :
      Contents isPlainInString contents written →
        Written { kind := .string, line := line, text := contents }
          (Cursor.doubleQuote :: (written ++ [Cursor.doubleQuote]))
  | character {byte : UInt8} {written : Bytes} {line : Nat} :
      Contents isPlainInChar [byte] written →
        Written { kind := .character, line := line, text := [byte] }
          (Cursor.singleQuote :: (written ++ [Cursor.singleQuote]))

theorem contents_escape
    {isPlain : UInt8 → Bool}
    (others : ∀ byte, byte ∉ [10, 9, 13, 0, 92, 34, 39] → isPlain byte = true)
    (contents : Bytes) :
    Contents isPlain contents (contents.flatMap escape) := by
  induction contents with
  | nil => exact .nil
  | cons byte contents inductionHypothesis =>
      rw [List.flatMap_cons]
      unfold escape
      split
      next => exact .escaped rfl inductionHypothesis
      next => exact .escaped rfl inductionHypothesis
      next => exact .escaped rfl inductionHypothesis
      next => exact .escaped rfl inductionHypothesis
      next => exact .escaped rfl inductionHypothesis
      next => exact .escaped rfl inductionHypothesis
      next => exact .escaped rfl inductionHypothesis
      next => exact .plain (others byte (by simp_all)) inductionHypothesis

/-- The spelling of a token is one way to write it. -/
theorem Spellable.written
    (spellable : Spellable token) :
    Written token token.spell := by
  cases spellable with
  | @fixed kind line isFixed =>
      have isText : spell { kind := kind, line := line, text := Bytes.ofString kind.name } =
          Bytes.ofString kind.name := by
        cases kind <;> cases isFixed <;> rfl
      rw [isText]
      exact .fixed isFixed
  | name starts continues notReserved => exact .name starts continues notReserved
  | number starts continues => exact .number starts continues
  | string =>
      refine .string (contents_escape (fun byte other => ?_) _)
      simp only [List.mem_cons, not_or] at other
      simp [isPlainInString, Cursor.doubleQuote, Cursor.backslash, Cursor.newline, other]
  | @character byte _ =>
      have contents : Contents isPlainInChar [byte] ([byte].flatMap escape) := by
        refine contents_escape (fun byte other => ?_) _
        simp only [List.mem_cons, not_or] at other
        simp [isPlainInChar, Cursor.singleQuote, Cursor.backslash, Cursor.newline, other]
      exact .character contents

end Token

variable
    {tokens : List Token}

namespace Cursor

open Token

/-- Whether a byte is white space. -/
def isSpace (byte : UInt8) : Bool :=
  isBlank byte || byte == newline

/-- White space or the end of the text. -/
def Parted (rest : Bytes) : Prop :=
  ∀ byte ∈ rest.head?, isSpace byte

theorem Parted.nil : Parted [] := by
  simp [Parted]

theorem Parted.space
    {byte : UInt8}
    (space : isSpace byte)
    (rest : Bytes) :
    Parted (byte :: rest) := by
  rintro other ⟨⟩
  exact space

theorem isSpace_iff
    (byte : UInt8) :
    isSpace byte = true ↔ byte = 32 ∨ byte = 9 ∨ byte = 13 ∨ byte = 10 := by
  simp [isSpace, isBlank, newline, or_assoc]

/-- No word goes on in white space. -/
theorem Parted.stops
    {rest : Bytes}
    (parted : Parted rest)
    {isPart : UInt8 → Bool}
    (solid : ∀ byte, isSpace byte = true → isPart byte = false) :
    rest.takeWhile isPart = [] ∧ rest.dropWhile isPart = rest := by
  cases rest with
  | nil => exact ⟨rfl, rfl⟩
  | cons byte rest =>
      have other : isPart byte = false := solid byte (parted byte rfl)
      simp [other]

variable
    {byte : UInt8}

/-- A word stands where a byte is no blank, ends no line and starts no comment. -/
theorem skipTriviaFrom_of_word
    (rest : Bytes)
    (line : Nat)
    (notNewline : byte ≠ newline)
    (notBlank : isBlank byte = false)
    (notSlash : byte ≠ slash) :
    skipTriviaFrom false (byte :: rest) line = ⟨byte :: rest, line⟩ := by
  rw [skipTriviaFrom, if_neg (by simpa using notNewline), if_neg (by simp [notBlank]),
    if_neg (by simp [notSlash])]

/-- The next token of a text that starts with a well-formed word. -/
theorem next_of_word
    {rest text others : Bytes}
    {line : Nat}
    {kind : Kind}
    (notNewline : byte ≠ newline)
    (notBlank : isBlank byte = false)
    (notSlash : byte ≠ slash)
    (scanned : scanWord byte rest line = .good kind text others line) :
    next ⟨byte :: rest, line⟩ =
      ({ token := { kind := kind, line := line, text := text }, fault := none },
        ⟨others, line⟩) := by
  have here : skipTrivia ⟨byte :: rest, line⟩ = ⟨byte :: rest, line⟩ :=
    skipTriviaFrom_of_word rest line notNewline notBlank notSlash
  unfold next
  rw [here]
  dsimp only
  rw [scanned]
  rfl

theorem isNameByte_of_isSpace
    (space : isSpace byte = true) :
    isNameByte byte = false := by
  rw [isSpace_iff] at space
  rcases space with rfl | rfl | rfl | rfl <;> rfl

theorem scanName_word
    {word rest : Bytes}
    (parted : Parted rest)
    (line : Nat)
    (isWord : ∀ byte ∈ word, isNameByte byte = true)
    (notReserved : Kind.ofWord? (Bytes.ascii word) = none) :
    scanName (word ++ rest) line = .good .identifier word rest line := by
  obtain ⟨none_, all_⟩ := parted.stops fun byte space => isNameByte_of_isSpace space
  unfold scanName
  rw [List.takeWhile_append_of_pos isWord, List.dropWhile_append_of_pos isWord, none_, all_,
    List.append_nil]
  dsimp only
  rw [notReserved]
  rfl

theorem scanNumber_word
    {word rest : Bytes}
    (parted : Parted rest)
    (line : Nat)
    (isWord : ∀ byte ∈ word, isDigit byte = true) :
    scanNumber (word ++ rest) line = .good .integer word rest line := by
  obtain ⟨none_, all_⟩ := @Parted.stops rest parted isDigit fun byte space =>
    (Bool.or_eq_false_iff.mp (isNameByte_of_isSpace space)).2
  have noName : (rest.head?.map isNameStart).getD false = false := by
    cases rest with
    | nil => rfl
    | cons byte rest =>
        exact (Bool.or_eq_false_iff.mp (isNameByte_of_isSpace (parted byte rfl))).1
  unfold scanNumber
  rw [List.takeWhile_append_of_pos isWord, List.dropWhile_append_of_pos isWord, none_, all_,
    List.append_nil]
  dsimp only
  rw [noName]
  rfl

theorem scanString_written
    {text written : Bytes}
    (spelled : Contents isPlainInString text written)
    (line : Nat)
    (contents rest : Bytes) :
    scanString line contents (written ++ doubleQuote :: rest) =
      .good .string (contents ++ text) rest line := by
  induction spelled generalizing contents with
  | nil =>
      rw [List.append_nil, List.nil_append]
      cases rest <;> rfl
  | @plain byte text written isPlain _ inductionHypothesis =>
      simp only [isPlainInString, Bool.and_eq_true, bne_iff_ne, ne_eq] at isPlain
      obtain ⟨⟨notQuote, notBackslash⟩, notNewline⟩ := isPlain
      obtain ⟨second, others, known⟩ : ∃ second others,
          written ++ doubleQuote :: rest = second :: others :=
        List.exists_cons_of_ne_nil (by simp)
      rw [List.cons_append, known, scanString, if_neg (by simpa using notQuote),
        if_neg (by simpa using notBackslash), if_neg (by simpa using notNewline), ← known,
        inductionHypothesis, List.append_assoc, List.singleton_append]
  | @escaped letter value text written known _ inductionHypothesis =>
      rw [List.cons_append, List.cons_append, scanString, if_neg (by decide), if_pos (by decide),
        known]
      dsimp only
      rw [inductionHypothesis, List.append_assoc, List.singleton_append]

theorem scanChar_written
    {written : Bytes}
    (spelled : Contents isPlainInChar [byte] written)
    (line : Nat)
    (rest : Bytes) :
    scanChar (written ++ singleQuote :: rest) line = .good .character [byte] rest line := by
  cases spelled with
  | plain isPlain nothing =>
      cases nothing
      simp only [isPlainInChar, Bool.and_eq_true, bne_iff_ne, ne_eq] at isPlain
      obtain ⟨⟨⟨notQuote, notBackslash⟩, notNewline⟩, notZero⟩ := isPlain
      rw [List.singleton_append, scanChar, if_neg (by simpa using notBackslash),
        if_neg (by simp [notQuote, notNewline, notZero])]
      rfl
  | @escaped letter value contents written known nothing =>
      cases nothing
      show scanChar (backslash :: letter :: singleQuote :: rest) line = _
      rw [scanChar, if_pos (by decide)]
      rw [known]
      rfl

theorem isBlank_of_isNameByte
    (isName : isNameByte byte = true) :
    byte ≠ newline ∧ isBlank byte = false ∧ byte ≠ slash := by
  refine ⟨?_, ?_, ?_⟩
  · rintro rfl
    cases isName
  · cases isBlank : isBlank byte with
    | false => rfl
    | true =>
        simp only [Cursor.isBlank, Bool.or_eq_true, beq_iff_eq] at isBlank
        rcases isBlank with (rfl | rfl) | rfl <;> cases isName
  · rintro rfl
    cases isName

theorem isNameStart_iff
    (byte : UInt8) :
    isNameStart byte = true ↔
      byte.toNat = 95 ∨ (65 ≤ byte.toNat ∧ byte.toNat ≤ 90) ∨
        (97 ≤ byte.toNat ∧ byte.toNat ≤ 122) := by
  simp [isNameStart, UInt8.le_iff_toNat_le, ← UInt8.toNat_inj, or_assoc]

theorem isDigit_iff
    (byte : UInt8) :
    isDigit byte = true ↔ 48 ≤ byte.toNat ∧ byte.toNat ≤ 57 := by
  simp [isDigit, UInt8.le_iff_toNat_le]

theorem isNameStart_of_isDigit
    (digit : isDigit byte = true) :
    isNameStart byte = false := by
  rw [isDigit_iff] at digit
  rw [← Bool.not_eq_true, isNameStart_iff]
  omega

variable
    {rest : Bytes}

theorem next_of_fixed
    {kind : Kind}
    (isFixed : kind.isFixed = true)
    (parted : Parted rest)
    (line : Nat) :
    next ⟨Bytes.ofString kind.name ++ rest, line⟩ =
      ({ token := { kind := kind, line := line, text := Bytes.ofString kind.name },
         fault := none }, ⟨rest, line⟩) := by
  cases rest with
  | nil => cases kind <;> cases isFixed <;> rfl
  | cons byte rest =>
      have space := (isSpace_iff byte).mp (parted byte rfl)
      rcases space with rfl | rfl | rfl | rfl <;> cases kind <;> cases isFixed <;> rfl

variable
    {others : Bytes}
    {first : UInt8}

theorem next_of_name
    (starts : isNameStart first = true)
    (continues : ∀ byte ∈ others, isNameByte byte = true)
    (notReserved : Kind.ofWord? (Bytes.ascii (first :: others)) = none)
    (parted : Parted rest)
    (line : Nat) :
    next ⟨first :: (others ++ rest), line⟩ =
      ({ token := { kind := .identifier, line := line, text := first :: others },
         fault := none }, ⟨rest, line⟩) := by
  have isFirst : isNameByte first = true := by rw [isNameByte, starts, Bool.true_or]
  obtain ⟨notNewline, notBlank, notSlash⟩ := isBlank_of_isNameByte isFirst
  refine next_of_word notNewline notBlank notSlash ?_
  rw [scanWord, if_pos starts]
  refine @scanName_word (first :: others) rest parted line ?_ notReserved
  rintro byte (_ | ⟨_, member⟩)
  · exact isFirst
  · exact continues byte member

theorem next_of_number
    (starts : isDigit first = true)
    (continues : ∀ byte ∈ others, isDigit byte = true)
    (parted : Parted rest)
    (line : Nat) :
    next ⟨first :: (others ++ rest), line⟩ =
      ({ token := { kind := .integer, line := line, text := first :: others },
         fault := none }, ⟨rest, line⟩) := by
  have isFirst : isNameByte first = true := by rw [isNameByte, starts, Bool.or_true]
  obtain ⟨notNewline, notBlank, notSlash⟩ := isBlank_of_isNameByte isFirst
  refine next_of_word notNewline notBlank notSlash ?_
  rw [scanWord, if_neg (by simp [isNameStart_of_isDigit starts]), if_pos starts]
  refine @scanNumber_word (first :: others) rest parted line ?_
  rintro byte (_ | ⟨_, member⟩)
  · exact starts
  · exact continues byte member

/-- A token in front of white space or the end is read as that token, however it is written. -/
theorem next_of_written
    {written rest : Bytes}
    (isWritten : Written token written)
    (parted : Parted rest)
    (line : Nat) :
    next ⟨written ++ rest, line⟩ =
      ({ token := { token with line := line }, fault := none }, ⟨rest, line⟩) := by
  cases isWritten with
  | fixed isFixed => exact next_of_fixed isFixed parted line
  | name starts continues notReserved => exact next_of_name starts continues notReserved parted line
  | number starts continues => exact next_of_number starts continues parted line
  | @string contents written _ spelled =>
      have scanned : scanWord doubleQuote (written ++ doubleQuote :: rest) line =
          .good .string contents rest line :=
        scanString_written spelled line [] rest
      have read := next_of_word (by decide) rfl (by decide) scanned
      simpa using read
  | @character byte written _ spelled =>
      have scanned : scanWord singleQuote (written ++ singleQuote :: rest) line =
          .good .character [byte] rest line :=
        scanChar_written spelled line rest
      have read := next_of_word (by decide) rfl (by decide) scanned
      simpa using read

/-- What is read depends on what is left behind blanks and comments only. -/
theorem lexemes_congr
    {first second : Cursor}
    (same : first.skipTrivia = second.skipTrivia) :
    first.lexemes = second.lexemes := by
  have sameNext : first.next = second.next := by
    unfold next
    rw [same]
  by_cases isEnd : second.next.1.token.kind = .endOfInput
  · rw [lexemes_of_end isEnd, lexemes_of_end (sameNext ▸ isEnd), sameNext]
  · rw [lexemes_of_next isEnd, lexemes_of_next (sameNext ▸ isEnd), sameNext]

/-- A token is the first one where it is written in front of white space or the end. -/
theorem lexemes_of_written
    {written rest : Bytes}
    (isWritten : Written token written)
    (parted : Parted rest)
    (line : Nat) :
    lexemes ⟨written ++ rest, line⟩ =
      { token := { token with line := line }, fault := none } :: lexemes ⟨rest, line⟩ := by
  have isNext := next_of_written isWritten parted line
  have notEnd : token.kind ≠ .endOfInput := by
    cases isWritten with
    | fixed isFixed =>
        rintro rfl
        cases isFixed
    | _ => exact Token.Kind.noConfusion
  rw [lexemes_of_next (by rw [isNext]; exact notEnd), isNext]

/-- A text of spelled tokens is read as those tokens, all on one line, and the end token. -/
theorem lexemes_layOut
    (spellable : ∀ token ∈ tokens, Spellable token)
    (line : Nat) :
    lexemes ⟨layOut tokens, line⟩ =
      tokens.map (fun token => { token := { token with line := line }, fault := none }) ++
        [{ token := { kind := .endOfInput, line := line, text := [] }, fault := none }] := by
  induction tokens with
  | nil => rfl
  | cons token tokens inductionHypothesis =>
      have isFirst := (spellable token List.mem_cons_self).written
      have isText : layOut (token :: tokens) = token.spell ++ blank :: layOut tokens := by
        simp [layOut]
      have behind : lexemes ⟨blank :: layOut tokens, line⟩ = lexemes ⟨layOut tokens, line⟩ :=
        lexemes_congr rfl
      rw [isText, lexemes_of_written isFirst (.space (by decide) _), behind,
        inductionHypothesis fun other member => spellable other (List.mem_cons_of_mem _ member)]
      rfl

end Cursor

/-!
## Texts of tokens

However the tokens of a text are written, and whatever white space and comments stand between them,
all tokens of the text are those tokens, and nothing is reported.
-/

namespace Token

open Cursor

/-- White space and comments, each of which ends with its line. -/
inductive Trivia : Bytes → Prop
  | none : Trivia []
  | space {byte : UInt8} {rest : Bytes} :
      isSpace byte = true → Trivia rest → Trivia (byte :: rest)
  | comment {words rest : Bytes} :
      newline ∉ words → Trivia rest → Trivia (slash :: slash :: (words ++ newline :: rest))

/--
The texts of some tokens. Between two tokens there are trivia that begin with white space; behind
the last one there may be.
-/
inductive Rendered : List Token → Bytes → Prop
  | none : Rendered [] []
  | last {token : Token} {written : Bytes} :
      Written token written → Rendered [token] written
  | more {token : Token} {tokens : List Token} {written trivia text : Bytes} {byte : UInt8} :
      Written token written → isSpace byte = true → Trivia trivia → Rendered tokens text →
        Rendered (token :: tokens) (written ++ byte :: (trivia ++ text))

end Token

namespace Cursor

open Token

theorem skipTriviaFrom_comment
    {words : Bytes}
    (solid : newline ∉ words)
    (rest : Bytes)
    (line : Nat) :
    skipTriviaFrom true (words ++ newline :: rest) line = skipTriviaFrom false rest (line + 1) := by
  induction words with
  | nil => rfl
  | cons byte words inductionHypothesis =>
      simp only [List.mem_cons, not_or] at solid
      rw [List.cons_append, skipTriviaFrom, if_neg (by simpa using Ne.symm solid.1)]
      exact inductionHypothesis solid.2

variable
    {trivia : Bytes}

/-- Trivia are skipped whole; only the line changes. -/
theorem skipTriviaFrom_of_trivia
    (isTrivia : Trivia trivia)
    (rest : Bytes)
    (line : Nat) :
    ∃ later, skipTriviaFrom false (trivia ++ rest) line = skipTriviaFrom false rest later := by
  induction isTrivia generalizing line with
  | none => exact ⟨line, rfl⟩
  | @space byte trivia space _ inductionHypothesis =>
      rw [isSpace_iff] at space
      rcases space with rfl | rfl | rfl | rfl
      · exact inductionHypothesis line
      · exact inductionHypothesis line
      · exact inductionHypothesis line
      · exact inductionHypothesis (line + 1)
  | @comment words trivia solid _ inductionHypothesis =>
      have opens : skipTriviaFrom false
          ((slash :: slash :: (words ++ newline :: trivia)) ++ rest) line =
            skipTriviaFrom true (words ++ newline :: (trivia ++ rest)) line := by
        rw [List.cons_append, List.cons_append, List.append_assoc, List.cons_append]
        rfl
      rw [opens, skipTriviaFrom_comment solid]
      exact inductionHypothesis (line + 1)

theorem lexemes_of_trivia
    (isTrivia : Trivia trivia)
    (rest : Bytes)
    (line : Nat) :
    ∃ later, lexemes ⟨trivia ++ rest, line⟩ = lexemes ⟨rest, later⟩ := by
  obtain ⟨later, same⟩ := skipTriviaFrom_of_trivia isTrivia rest line
  exact ⟨later, lexemes_congr same⟩

/-- A text of tokens is read as the tokens and the end token, and all of them are well-formed. -/
theorem lexemes_of_rendered
    {text : Bytes}
    (rendered : Rendered tokens text)
    (line : Nat) :
    (lexemes ⟨text, line⟩).map (fun lexeme =>
        (lexeme.token.kind, lexeme.token.text, lexeme.fault)) =
      tokens.map (fun token => (token.kind, token.text, none)) ++ [(.endOfInput, [], none)] := by
  induction rendered generalizing line with
  | none => rfl
  | @last token written isWritten =>
      have read := lexemes_of_written isWritten .nil line
      rw [List.append_nil] at read
      rw [read]
      rfl
  | @more token tokens written trivia text byte isWritten space isTrivia _ inductionHypothesis =>
      obtain ⟨later, behind⟩ := lexemes_of_trivia (.space space isTrivia) text line
      rw [List.cons_append] at behind
      rw [lexemes_of_written isWritten (.space space _), behind, List.map_cons,
        inductionHypothesis later, List.map_cons, List.cons_append]

end Cursor

namespace Lexer

open Cursor Token

theorem allWithin_eq_lexemesWithin
    (count : Nat)
    (cursor : Cursor)
    (reports : List Report) :
    (allWithin count ⟨cursor, none, reports⟩).1 =
        (lexemesWithin count cursor).map Lexeme.token ∧
      (allWithin count ⟨cursor, none, reports⟩).2.reports =
        reports ++ (lexemesWithin count cursor).filterMap Lexeme.report? := by
  induction count generalizing cursor reports with
  | zero => simp [allWithin, lexemesWithin]
  | succ count inductionHypothesis =>
      obtain ⟨tokens, later⟩ := inductionHypothesis cursor.next.2
        (reports ++ cursor.next.1.report?.toList)
      rw [lexemesWithin_succ]
      by_cases isEnd : cursor.next.1.token.kind = .endOfInput
      · have noReport : cursor.next.1.report? = none := by
          rw [Lexeme.report?, (next_of_end isEnd).2, Option.map_none]
        simp [allWithin, next, isEnd, noReport]
      · rw [if_neg isEnd, List.map_cons, List.filterMap_cons]
        simp only [allWithin, next, if_neg isEnd, tokens, later, true_and]
        cases cursor.next.1.report? <;> simp

/-- All tokens of a source text, and the reports on those that are malformed. -/
theorem all_ofSource
    (source : Bytes) :
    (ofSource source).all.1 = (Lexeme.ofSource source).map Lexeme.token ∧
      (ofSource source).all.2.reports = (Lexeme.ofSource source).filterMap Lexeme.report? := by
  have enough : lexemesWithin (source.length + 2) (Cursor.start source) = Lexeme.ofSource source :=
    lexemesWithin_of_enough (by simp [Cursor.start]) (by simp [Cursor.start])
  obtain ⟨tokens, reports⟩ := allWithin_eq_lexemesWithin (source.length + 2) (.start source) []
  rw [enough] at tokens reports
  exact ⟨tokens, reports⟩

/--
All tokens of a text of tokens have their categories and texts and stand in their order, the end
token comes last, and nothing is reported.
-/
theorem all_of_rendered
    {tokens : List Token}
    {leading text : Bytes}
    (trivia : Trivia leading)
    (rendered : Rendered tokens text) :
    (ofSource (leading ++ text)).all.1.map (fun token => (token.kind, token.text)) =
        tokens.map (fun token => (token.kind, token.text)) ++ [(.endOfInput, [])] ∧
      (ofSource (leading ++ text)).all.2.reports = [] := by
  obtain ⟨line, isBehind⟩ := lexemes_of_trivia trivia text 1
  have read := lexemes_of_rendered rendered line
  rw [← isBehind] at read
  obtain ⟨isTokens, isReports⟩ := all_ofSource (leading ++ text)
  constructor
  · rw [isTokens]
    have parts := congrArg (List.map fun part => (part.1, part.2.1)) read
    simpa [Lexeme.ofSource, Cursor.start, Function.comp_def] using parts
  · rw [isReports, List.filterMap_eq_nil_iff]
    intro lexeme member
    have listed := List.mem_map_of_mem
      (f := fun lexeme : Lexeme => (lexeme.token.kind, lexeme.token.text, lexeme.fault)) member
    have sameSource : Lexeme.ofSource (leading ++ text) = lexemes ⟨leading ++ text, 1⟩ := rfl
    rw [sameSource, read] at listed
    have noFault : lexeme.fault = none := by
      rcases List.mem_append.mp listed with known | known
      · obtain ⟨token, _, same⟩ := List.mem_map.mp known
        exact (congrArg (fun part => part.2.2) same).symm
      · exact congrArg (fun part => part.2.2) (List.mem_singleton.mp known)
    rw [Lexeme.report?, noFault, Option.map_none]

/-- Tokens of all sorts, among them literals with a zero byte and with bytes that are no text. -/
def mixedTokens : List Token := [
  { kind := .identifier, line := 1, text := [120, 49] },
  { kind := .slash, line := 1, text := [47] },
  { kind := .character, line := 1, text := [0] },
  { kind := .string, line := 1, text := [255, 34, 47, 47, 0] },
  { kind := .wordIf, line := 1, text := [105, 102] },
  { kind := .integer, line := 1, text := [48, 55] },
  { kind := .lessEqual, line := 1, text := [60, 61] },
  { kind := .assign, line := 1, text := [61] }]

/-- A text of these tokens, with comments in it. -/
def mixedText : Bytes :=
  [120, 49] ++ 32 :: (Bytes.ofString "//'\n" ++ ([47] ++ 9 :: ([] ++
    ([39, 92, 48, 39] ++ 10 :: ([13] ++ ([34, 255, 92, 34, 47, 47, 0, 34] ++ 32 :: ([] ++
    ([105, 102] ++ 10 :: ([] ++ ([48, 55] ++ 32 :: ([] ++ ([60, 61] ++ 32 ::
    (Bytes.ofString "//=\n" ++ [61])))))))))))))

theorem mixedTokens_read :
    (ofSource (Bytes.ofString "// \"\n" ++ mixedText)).all.1.map
        (fun token => (token.kind, token.text)) =
      mixedTokens.map (fun token => (token.kind, token.text)) ++ [(.endOfInput, [])] ∧
      (ofSource (Bytes.ofString "// \"\n" ++ mixedText)).all.2.reports = [] := by
  refine all_of_rendered ?_ ?_
  · exact @Trivia.comment [32, 34] [] (by decide) .none
  · refine .more (.name (by decide) (List.all_eq_true.mp (by decide)) (by decide)) (by decide)
      (@Trivia.comment [39] [] (by decide) .none) ?_
    refine .more (.fixed (by decide)) (by decide) .none ?_
    refine .more (@Written.character 0 [92, 48] 1 (.escaped rfl .nil)) (by decide)
      (.space (by decide) .none) ?_
    refine .more (@Written.string _ [255, 92, 34, 47, 47, 0] 1 (.plain (by decide)
      (.escaped rfl (.plain (by decide) (.plain (by decide) (.plain (by decide) .nil))))))
      (by decide) .none ?_
    refine .more (.fixed (by decide)) (by decide) .none ?_
    refine .more (.number (by decide) (List.all_eq_true.mp (by decide))) (by decide) .none ?_
    refine .more (.fixed (by decide)) (by decide) (@Trivia.comment [61] [] (by decide) .none) ?_
    exact .last (.fixed (by decide))

end Lexer

end IlsCompiler
