import Mathlib.Data.List.Chain
import IlsCompiler.Assembly.Data
import IlsCompiler.Proofs.Text.Encoding
import IlsCompiler.Text.Normal

namespace IlsCompiler.Backquoted

/-!
# Strings with escapes, read back

An assembler reads a string between backquotes byte by byte: a backslash with a letter behind it,
or with up to three octal digits, stands for one byte, and every other byte for itself. A string of
the data section is read back as what it was written for if it is well-formed and no zero byte
stands in front of an octal digit, and in no other case: the replacement character is written for a
stray byte, and the escape of a zero byte runs on into the digit.
-/

/-- The byte that opens an escape. -/
def backslash : UInt8 := 92

/-- The byte that a letter behind a backslash stands for. -/
def letter? (letter : UInt8) : Option UInt8 :=
  match letter with
  | 92 => some 92
  | 96 => some 96
  | 110 => some 10
  | 116 => some 9
  | 114 => some 13
  | _ => none

/-- Whether a byte is an octal digit. -/
def isOctal (byte : UInt8) : Bool :=
  48 ≤ byte && byte ≤ 55

/-- The octal digits at the front of a text, at most the given number of them. -/
def octalDigits (most : Nat) (text : Bytes) : Bytes :=
  (text.take most).takeWhile isOctal

/-- The number that octal digits spell. -/
def octalValue (digits : Bytes) : Nat :=
  digits.foldl (fun value digit => 8 * value + (digit.toNat - 48)) 0

/-- What a byte stands for together with what follows it, and how many bytes behind it it uses up. -/
def readFront (byte : UInt8) (rest : Bytes) : UInt8 × Nat :=
  if byte = backslash then
    match rest.head?.bind letter? with
    | some value => (value, 1)
    | none =>
        let digits := octalDigits 3 rest
        if digits.isEmpty then
          (byte, 0)
        else
          ((octalValue digits).toUInt8, digits.length)
  else
    (byte, 0)

/-- Read a text with escapes, skipping the given number of bytes already accounted for. -/
def readAfter : Nat → Bytes → Bytes
  | _, [] => []
  | skip + 1, _ :: rest => readAfter skip rest
  | 0, byte :: rest =>
      let (value, used) := readFront byte rest
      value :: readAfter used rest

/-- The bytes that a text with escapes stands for. -/
def read (text : Bytes) : Bytes :=
  readAfter 0 text

/-- How a byte is written in a text with escapes. -/
def escapeByte (byte : UInt8) : Bytes :=
  match byte with
  | 92 => [backslash, 92]
  | 96 => [backslash, 96]
  | 10 => [backslash, 110]
  | 9 => [backslash, 116]
  | 13 => [backslash, 114]
  | 0 => [backslash, 48]
  | other => [other]

/-- Whether no zero byte stands in front of an octal digit. -/
def KeepsDigits (bytes : Bytes) : Prop :=
  bytes.IsChain fun byte next => byte = 0 → isOctal next = false

/-! ## Writing byte by byte -/

variable
    {byte : UInt8}

theorem escapeByte_of_high
    (high : Bytes.isHigh byte = true) :
    escapeByte byte = [byte] := by
  unfold escapeByte
  split
  all_goals first | cases high | rfl

variable
    {bytes : Bytes}

theorem flatMap_escapeByte_of_high
    (high : ∀ byte ∈ bytes, Bytes.isHigh byte = true) :
    bytes.flatMap escapeByte = bytes := by
  induction bytes with
  | nil => rfl
  | cons byte rest inductionHypothesis =>
      rw [List.flatMap_cons, escapeByte_of_high (high byte (by simp)),
        inductionHypothesis fun other member => high other (by simp [member])]
      rfl

/-- An ASCII character is one byte, and the bytes of any other are outside ASCII. -/
theorem encode_ascii_or_high
    (value : Char) :
    (value.toNat < 0x80 ∧ String.utf8EncodeChar value = [UInt8.ofNat value.toNat]) ∨
      ∀ byte ∈ String.utf8EncodeChar value, Bytes.isHigh byte = true := by
  by_cases small : value.val.toNat ≤ 127
  · refine .inl ⟨Nat.lt_succ_of_le small, ?_⟩
    rw [String.utf8EncodeChar, if_pos small]
    rfl
  · refine .inr ?_
    have highByte : ∀ code, 0x80 ≤ code → code < 0x100 →
        Bytes.isHigh (UInt8.ofNat code) = true := by
      intro code low high
      rw [Bytes.isHigh, decide_eq_true_eq, UInt8.le_iff_toNat_le, UInt8.toNat_ofNat_of_lt' high]
      exact low
    rw [String.utf8EncodeChar, if_neg small]
    intro byte member
    split at member
    all_goals
      try split at member
      all_goals
        simp only [List.mem_cons, List.not_mem_nil, or_false] at member
        rcases member with rfl | rfl | rfl | rfl
        all_goals exact highByte _ (by omega) (by omega)

theorem flatMap_escapeChar
    (value : Char) :
    (escapeChar value).flatMap String.utf8EncodeChar =
      (String.utf8EncodeChar value).flatMap escapeByte := by
  unfold escapeChar
  split
  next same => subst same; rfl
  split
  next same => subst same; rfl
  split
  next same => subst same; rfl
  split
  next same => subst same; rfl
  split
  next same => subst same; rfl
  split
  next isZero =>
    have same : value = Char.ofNat 0 := by rw [← isZero, Char.ofNat_toNat]
    subst same
    rfl
  next notBackslash notQuote notNewline notTab notReturn notZero =>
    rw [List.flatMap_singleton]
    rcases encode_ascii_or_high value with ⟨ascii, encoded⟩ | high
    · -- Each byte that is escaped is the code of a character treated above.
      have differs : ∀ {code : Nat} {other : Char}, value ≠ other → other.toNat = code →
          code < 0x80 → UInt8.ofNat value.toNat ≠ UInt8.ofNat code := by
        rintro code other notOther rfl small same
        have codes := congrArg UInt8.toNat same
        rw [UInt8.toNat_ofNat_of_lt' (Nat.lt_trans ascii (by decide)),
          UInt8.toNat_ofNat_of_lt' (Nat.lt_trans small (by decide))] at codes
        exact notOther (Char.toNat_inj.mp codes)
      rw [encoded, List.flatMap_singleton]
      unfold escapeByte
      split
      next same => exact absurd same (differs notBackslash rfl (by decide))
      next same => exact absurd same (differs notQuote rfl (by decide))
      next same => exact absurd same (differs notNewline rfl (by decide))
      next same => exact absurd same (differs notTab rfl (by decide))
      next same => exact absurd same (differs notReturn rfl (by decide))
      next same =>
        have isOther : value ≠ Char.ofNat 0 := by
          rintro rfl
          exact notZero rfl
        exact absurd same (differs isOther rfl (by decide))
      next => rfl
    · rw [flatMap_escapeByte_of_high high]

/-- The bytes of a text that shows another with escapes: those of the other, each escaped. -/
theorem ofString_escape
    (contents : Bytes) :
    Bytes.ofString (escape contents) =
      (Bytes.ofString (Bytes.display contents)).flatMap escapeByte := by
  rw [escape, Bytes.display, Bytes.ofString_ofList, Bytes.ofString_ofList]
  induction Bytes.toChars contents with
  | nil => rfl
  | cons value rest inductionHypothesis =>
      rw [List.flatMap_cons, List.flatMap_append, inductionHypothesis, flatMap_escapeChar,
        List.flatMap_cons, List.flatMap_append]

/-! ## Reading byte by byte -/

theorem read_escapeByte
    (notZero : byte ≠ 0)
    (rest : Bytes) :
    read (escapeByte byte ++ rest) = byte :: read rest := by
  unfold escapeByte
  split
  next => rfl
  next => rfl
  next => rfl
  next => rfl
  next => rfl
  next => exact absurd rfl notZero
  next notBackslash _ _ _ _ _ =>
    have plain : readFront byte rest = (byte, 0) := if_neg notBackslash
    rw [List.singleton_append, read, readAfter, plain]
    rfl

theorem escapeByte_of_octal
    (octal : isOctal byte = true) :
    escapeByte byte = [byte] := by
  unfold escapeByte
  split
  all_goals first | cases octal | rfl

theorem octalDigits_escaped
    (most : Nat)
    (bytes : Bytes) :
    octalDigits most (bytes.flatMap escapeByte) = octalDigits most bytes := by
  induction bytes generalizing most with
  | nil => rfl
  | cons byte rest inductionHypothesis =>
      cases most with
      | zero => rfl
      | succ most =>
          cases octal : isOctal byte with
          | true =>
              have others := inductionHypothesis most
              rw [List.flatMap_cons, escapeByte_of_octal octal]
              simpa [octalDigits, octal] using others
          | false =>
              have isFirst : ∃ front back, escapeByte byte = front :: back ∧
                  isOctal front = false := by
                unfold escapeByte
                split
                all_goals first | exact ⟨_, _, rfl, rfl⟩ | exact ⟨_, _, rfl, octal⟩
              obtain ⟨front, back, same, notOctal⟩ := isFirst
              simp [octalDigits, same, octal, notOctal]

theorem octal_of_mem
    {most : Nat}
    (member : byte ∈ octalDigits most bytes) :
    isOctal byte = true :=
  List.all_eq_true.mp List.all_takeWhile byte member

/-- The octal digits at the front of a text are written as they are. -/
theorem split_octal
    (most : Nat)
    (bytes : Bytes) :
    ∃ back, bytes = octalDigits most bytes ++ back ∧
      bytes.flatMap escapeByte = octalDigits most bytes ++ back.flatMap escapeByte := by
  have isFront : octalDigits most bytes <+: bytes :=
    (List.takeWhile_prefix isOctal).trans (List.take_prefix most bytes)
  obtain ⟨back, same⟩ := isFront
  have octal : ∀ byte ∈ octalDigits most bytes, escapeByte byte = [byte] := fun byte member =>
    escapeByte_of_octal (octal_of_mem member)
  have digits : (octalDigits most bytes).flatMap escapeByte = octalDigits most bytes := by
    rw [List.flatMap_def, List.map_congr_left octal, ← List.flatMap_def, List.flatMap_singleton']
  refine ⟨back, same.symm, ?_⟩
  conv_lhs => rw [← same, List.flatMap_append, digits]

theorem readAfter_append
    (front rest : Bytes) :
    readAfter front.length (front ++ rest) = read rest := by
  induction front with
  | nil => rfl
  | cons byte front inductionHypothesis => exact inductionHypothesis

/-- The escape of a zero byte is read together with the octal digits behind it, two at most. -/
theorem read_zero
    (rest : Bytes) :
    ∃ back, rest = octalDigits 2 rest ++ back ∧
      read ((0 :: rest).flatMap escapeByte) =
        (octalValue (octalDigits 2 rest)).toUInt8 :: read (back.flatMap escapeByte) := by
  obtain ⟨back, same, written⟩ := split_octal 2 rest
  refine ⟨back, same, ?_⟩
  have digits : octalDigits 3 (48 :: rest.flatMap escapeByte) = 48 :: octalDigits 2 rest := by
    rw [← octalDigits_escaped 2 rest]
    rfl
  have front : readFront backslash (48 :: rest.flatMap escapeByte) =
      ((octalValue (octalDigits 2 rest)).toUInt8, (octalDigits 2 rest).length + 1) := by
    rw [readFront, if_pos rfl]
    dsimp only [List.head?_cons, Option.bind_some, letter?]
    rw [digits]
    rfl
  have text : (0 :: rest).flatMap escapeByte = backslash :: 48 :: rest.flatMap escapeByte := rfl
  rw [text, read, readAfter, front, written]
  exact congrArg _ (readAfter_append (48 :: octalDigits 2 rest) (back.flatMap escapeByte))

/-- Two octal digits spell an ASCII code. -/
theorem octalValue_ascii
    (bytes : Bytes) :
    Bytes.isHigh (octalValue (octalDigits 2 bytes)).toUInt8 = false := by
  have few : (octalDigits 2 bytes).length ≤ 2 :=
    Nat.le_trans (List.takeWhile_prefix isOctal).length_le (List.length_take_le 2 bytes)
  have bound : ∀ digit ∈ octalDigits 2 bytes, digit.toNat ≤ 55 := by
    intro digit member
    have octal := octal_of_mem member
    simp only [isOctal, Bool.and_eq_true, decide_eq_true_eq, UInt8.le_iff_toNat_le] at octal
    exact octal.2
  have small : octalValue (octalDigits 2 bytes) < 0x80 := by
    generalize octalDigits 2 bytes = digits at few bound
    match digits with
    | [] => decide
    | [first] =>
        have isFirst := bound first (by simp)
        simp only [octalValue, List.foldl_cons, List.foldl_nil]
        omega
    | [first, second] =>
        have isFirst := bound first (by simp)
        have isSecond := bound second (by simp)
        simp only [octalValue, List.foldl_cons, List.foldl_nil]
        omega
  rw [Bytes.isHigh, decide_eq_false_iff_not, UInt8.not_le, UInt8.lt_iff_toNat_lt]
  exact Nat.lt_of_le_of_lt (Nat.mod_le _ _) small

/-! ## Reading what was written -/

/--
Induction over written bytes with what is read: any byte but zero comes back by itself, and a zero
byte together with the octal digits behind it as one byte.
-/
theorem escaped_induction
    {motive : Bytes → Prop}
    (empty : motive [])
    (plain : ∀ byte rest, byte ≠ 0 →
      read ((byte :: rest).flatMap escapeByte) = byte :: read (rest.flatMap escapeByte) →
        motive rest → motive (byte :: rest))
    (zero : ∀ rest back, rest = octalDigits 2 rest ++ back →
      read ((0 :: rest).flatMap escapeByte) =
        (octalValue (octalDigits 2 rest)).toUInt8 :: read (back.flatMap escapeByte) →
        motive back → motive (0 :: rest))
    (bytes : Bytes) :
    motive bytes := by
  induction isSize : bytes.length using Nat.strongRecOn generalizing bytes with
  | ind size inductionHypothesis =>
      subst isSize
      cases bytes with
      | nil => exact empty
      | cons byte rest =>
          by_cases isZero : byte = 0
          · subst isZero
            obtain ⟨back, same, isRead⟩ := read_zero rest
            have shorter : back.length < (0 :: rest).length := by
              have sizes := congrArg List.length same
              rw [List.length_append] at sizes
              rw [List.length_cons]
              omega
            exact zero rest back same isRead (inductionHypothesis _ shorter back rfl)
          · refine plain byte rest isZero ?_ (inductionHypothesis rest.length (by simp) rest rfl)
            rw [List.flatMap_cons, read_escapeByte isZero]

/-- A text read back has as many bytes outside ASCII as were written. -/
theorem countP_isHigh_read
    (bytes : Bytes) :
    (read (bytes.flatMap escapeByte)).countP Bytes.isHigh = bytes.countP Bytes.isHigh := by
  induction bytes using escaped_induction with
  | empty => rfl
  | plain byte rest _ isRead inductionHypothesis =>
      rw [isRead, List.countP_cons, List.countP_cons, inductionHypothesis]
  | zero rest back same isRead inductionHypothesis =>
      have digits : (octalDigits 2 rest).countP Bytes.isHigh = 0 := by
        refine List.countP_eq_zero.mpr fun digit member high => ?_
        have octal := octal_of_mem member
        simp only [isOctal, Bytes.isHigh, Bool.and_eq_true, decide_eq_true_eq,
          UInt8.le_iff_toNat_le] at octal high
        exact absurd (Nat.le_trans high octal.2) (by decide)
      rw [isRead, List.countP_cons_of_neg (by simp [octalValue_ascii]), inductionHypothesis,
        List.countP_cons_of_neg (by decide)]
      conv_rhs => rw [same, List.countP_append, digits, Nat.zero_add]

/-- A text read back is not longer than what was written. -/
theorem length_read_le
    (bytes : Bytes) :
    (read (bytes.flatMap escapeByte)).length ≤ bytes.length := by
  induction bytes using escaped_induction with
  | empty => exact Nat.le_refl _
  | plain byte rest _ isRead inductionHypothesis =>
      rw [isRead]
      exact Nat.succ_le_succ inductionHypothesis
  | zero rest back same isRead inductionHypothesis =>
      have sizes := congrArg List.length same
      rw [List.length_append] at sizes
      rw [isRead, List.length_cons, List.length_cons]
      omega

theorem octalDigits_eq_nil_iff
    (bytes : Bytes) :
    octalDigits 2 bytes = [] ↔ ∀ next ∈ bytes.head?, isOctal next = false := by
  cases bytes with
  | nil => simp [octalDigits]
  | cons first rest => cases octal : isOctal first <;> simp [octalDigits, octal]

/-- A text read back is as long as what was written only if no zero byte took in a digit. -/
theorem keepsDigits_of_length
    (same : (read (bytes.flatMap escapeByte)).length = bytes.length) :
    KeepsDigits bytes := by
  induction bytes using escaped_induction with
  | empty => exact List.IsChain.nil
  | plain byte rest notZero isRead inductionHypothesis =>
      rw [isRead] at same
      refine List.isChain_cons.mpr ⟨fun next _ isZero => absurd isZero notZero, ?_⟩
      exact inductionHypothesis (Nat.succ.inj same)
  | zero rest back isSplit isRead inductionHypothesis =>
      have sizes := congrArg List.length isSplit
      have notLonger := length_read_le back
      rw [List.length_append] at sizes
      rw [isRead, List.length_cons, List.length_cons] at same
      have none : octalDigits 2 rest = [] := List.length_eq_zero_iff.mp (by omega)
      rw [none, List.nil_append] at isSplit
      subst isSplit
      refine List.isChain_cons.mpr ⟨fun next isNext _ => ?_, inductionHypothesis (by omega)⟩
      exact (octalDigits_eq_nil_iff rest).mp none next isNext

/-- Bytes are read back from their escapes if no zero byte stands in front of a digit. -/
theorem read_escaped
    (keeps : KeepsDigits bytes) :
    read (bytes.flatMap escapeByte) = bytes := by
  induction bytes using escaped_induction with
  | empty => rfl
  | plain byte rest _ isRead inductionHypothesis =>
      rw [isRead, inductionHypothesis (List.isChain_cons.mp keeps).2]
  | zero rest back isSplit isRead inductionHypothesis =>
      obtain ⟨isNext, others⟩ := List.isChain_cons.mp keeps
      have none : octalDigits 2 rest = [] :=
        (octalDigits_eq_nil_iff rest).mpr fun next member => isNext next member rfl
      rw [isRead, none]
      rw [none, List.nil_append] at isSplit
      subst isSplit
      rw [inductionHypothesis others]
      rfl

theorem read_escaped_iff
    (bytes : Bytes) :
    read (bytes.flatMap escapeByte) = bytes ↔ KeepsDigits bytes :=
  ⟨fun same => keepsDigits_of_length (congrArg List.length same), read_escaped⟩

/-- A string is read back as itself exactly if it is well-formed and its zero bytes keep digits. -/
theorem read_escape_iff
    (contents : Bytes) :
    read (Bytes.ofString (escape contents)) = contents ↔
      Bytes.IsWellFormed contents ∧ KeepsDigits contents := by
  rw [ofString_escape]
  constructor
  · intro same
    have wellFormed : Bytes.IsWellFormed contents := by
      refine Bytes.wellFormed_of_countP ?_
      rw [← countP_isHigh_read, same]
    rw [Bytes.ofString_display_of_wellFormed wellFormed] at same
    exact ⟨wellFormed, (read_escaped_iff contents).mp same⟩
  · rintro ⟨wellFormed, keeps⟩
    rw [Bytes.ofString_display_of_wellFormed wellFormed]
    exact read_escaped keeps

/--
The data of a string literal is read back as its normal form exactly if the normal form is
well-formed and none of its zero bytes stands in front of an octal digit.
-/
theorem normalized_read_back_iff
    (literal : Bytes) :
    read (Bytes.ofString (escape (Text.normalize literal))) = Text.normalize literal ↔
      Bytes.IsWellFormed (Text.normalize literal) ∧ KeepsDigits (Text.normalize literal) :=
  read_escape_iff (Text.normalize literal)

/-- A zero byte in front of the digit one is read as the byte one. -/
example : read (Bytes.ofString (escape (Text.normalize [0, 49]))) = [1] := by
  decide

/-- A stray byte is read as the replacement character. -/
example : read (Bytes.ofString (escape [97, 255])) = [97, 0xEF, 0xBF, 0xBD] := by
  decide

end IlsCompiler.Backquoted
