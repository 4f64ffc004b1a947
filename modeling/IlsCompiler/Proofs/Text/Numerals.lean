import IlsCompiler.Text.Bytes
import IlsCompiler.Text.Decimal

namespace IlsCompiler

/-!
# Numbers that are written and read back

A number that is written in decimal is read back as itself, and a text that can be read as
a number survives being turned into bytes and shown again.
-/

variable
    {text : String}

namespace Text

variable
    {digits : List Char}

/-- Digits are read as the number that they spell. -/
theorem readDigits?_digits
    (allDigits : ∀ digit ∈ digits, digit.isDigit)
    (value : Nat) :
    readDigits? value digits = some (Nat.ofDigitChars 10 digits value) := by
  induction digits generalizing value with
  | nil => rfl
  | cons digit rest inductionHypothesis =>
      have isDigit : digitValue? digit = some (digit.toNat - 48) := by
        have known := allDigits digit (by simp)
        simp only [Char.isDigit, Bool.and_eq_true, decide_eq_true_eq] at known
        unfold digitValue?
        rw [if_pos]
        simpa [Char.le_def] using known
      rw [readDigits?, isDigit]
      simp only [Option.bind_eq_bind, Option.bind_some]
      rw [inductionHypothesis fun other member => allDigits other (by simp [member]),
        Nat.ofDigitChars_cons, Nat.mul_comm]
      rfl

theorem readNatural?_toDigits
    (value : Nat) :
    readNatural? (Nat.toDigits 10 value) = some value := by
  have allDigits : ∀ digit ∈ Nat.toDigits 10 value, digit.isDigit :=
    fun digit member => Nat.isDigit_of_mem_toDigits (by decide) (by decide) member
  unfold readNatural?
  split
  next empty => exact (Nat.toDigits_ne_nil empty).elim
  · rw [readDigits?_digits allDigits, Nat.ofDigitChars_toDigits (by decide) (by decide)]

/-- A number that is written is read back. -/
theorem readSigned?_toString
    (value : Int) :
    readSigned? (toString value).toList = some value := by
  rw [Int.toString_eq_repr, Int.repr_eq_if]
  split
  next positive =>
    have allDigits : ∀ digit ∈ value.toNat.repr.toList, digit.isDigit := by
      rw [Nat.toList_repr]
      exact fun digit member => Nat.isDigit_of_mem_toDigits (by decide) (by decide) member
    unfold readSigned?
    split
    next same => exact absurd (allDigits '-' (by rw [same]; simp)) (by decide)
    next same => exact absurd (allDigits '+' (by rw [same]; simp)) (by decide)
    next =>
      rw [Nat.toList_repr, readNatural?_toDigits]
      simp only [Option.bind_eq_bind, Option.bind_some, Option.pure_def, Option.map_some,
        Int.toNat_of_nonneg positive]
  next negative =>
    have signed : ("-" ++ (-value).toNat.repr).toList =
        '-' :: Nat.toDigits 10 (-value).toNat := by
      simp [String.toList_append]
    rw [signed, readSigned?, readNatural?_toDigits]
    simp only [Option.bind_eq_bind, Option.bind_some, Option.pure_def, Option.map_some,
      Option.some.injEq]
    omega

theorem integer?_toString
    {bits : Nat}
    {value : Int}
    (inRange : fits bits value) :
    integer? bits (toString value) = some value := by
  unfold integer?
  rw [readSigned?_toString]
  simp [inRange]

theorem ascii_of_readDigits?
    {start value : Nat}
    (read : readDigits? start digits = some value) :
    ∀ digit ∈ digits, digit.toNat < 128 := by
  induction digits generalizing start with
  | nil => simp
  | cons first rest inductionHypothesis =>
      rw [readDigits?] at read
      cases known : digitValue? first with
      | none => simp [known] at read
      | some number =>
          simp only [known, Option.bind_eq_bind, Option.bind_some] at read
          have small : first.toNat < 128 := by
            unfold digitValue? at known
            split at known
            next isDigit =>
              simp only [Bool.and_eq_true, decide_eq_true_eq] at isDigit
              have last : first.toNat ≤ '9'.toNat := isDigit.2
              have nine : '9'.toNat = 57 := by decide
              omega
            · cases known
          intro digit member
          rcases List.mem_cons.mp member with rfl | inRest
          · exact small
          · exact inductionHypothesis read digit inRest

/-- A text that is read as a number has only characters of one byte. -/
theorem ascii_of_integer?
    {bits : Nat}
    {value : Int}
    (read : integer? bits text = some value) :
    ∀ char ∈ text.toList, char.toNat < 128 := by
  have natural : ∀ {digits : List Char} {number : Nat},
      readNatural? digits = some number → ∀ char ∈ digits, char.toNat < 128 := by
    intro digits number readNumber
    unfold readNatural? at readNumber
    split at readNumber
    · cases readNumber
    · exact ascii_of_readDigits? readNumber
  have signed : ∃ number, readSigned? text.toList = some number := by
    unfold integer? at read
    cases known : readSigned? text.toList with
    | none => simp [known] at read
    | some number => exact ⟨number, rfl⟩
  obtain ⟨number, readNumber⟩ := signed
  have read : ∀ {digits : List Char} {finish : Int → Int},
      ((do let value ← readNatural? digits; pure (value : Int)) : Option Int).map finish =
        some number → ∀ char ∈ digits, char.toNat < 128 := by
    intro digits finish known
    cases readDigits : readNatural? digits with
    | none => simp [readDigits] at known
    | some value => exact natural readDigits
  unfold readSigned? at readNumber
  split at readNumber
  next same =>
    rw [same]
    simpa using read readNumber
  next same =>
    rw [same]
    simpa using read readNumber
  next => exact read readNumber

end Text

namespace Bytes

/-- Characters of one byte each are their own bytes. -/
theorem ofString_ascii
    {chars : List Char}
    (ascii : ∀ char ∈ chars, char.toNat < 128) :
    ofString (String.ofList chars) = chars.map fun char => char.val.toUInt8 := by
  have flat : chars.flatMap String.utf8EncodeChar = chars.map fun char => char.val.toUInt8 := by
    induction chars with
    | nil => rfl
    | cons first rest inductionHypothesis =>
        have small : first.utf8Size = 1 := by
          have known := ascii first (by simp)
          rw [Char.utf8Size_eq_one_iff, UInt32.le_iff_toNat_le]
          exact Nat.le_of_lt_succ known
        rw [List.flatMap_cons, String.utf8EncodeChar_eq_singleton small,
          inductionHypothesis fun char member => ascii char (by simp [member])]
        rfl
  simp [ofString, List.utf8Encode, flat]

/-- The byte of a one-byte character is its code. -/
theorem toNat_toUInt8_ascii
    {char : Char}
    (ascii : char.toNat < 128) :
    char.val.toUInt8.toNat = char.toNat := by
  rw [UInt32.toNat_toUInt8]
  exact Nat.mod_eq_of_lt (Nat.lt_trans ascii (by decide))

/-- A text of one-byte characters is read back from its bytes. -/
theorem ascii_ofString
    (small : ∀ char ∈ text.toList, char.toNat < 128) :
    ascii (ofString text) = text := by
  have same : ∀ {chars : List Char}, (∀ char ∈ chars, char.toNat < 128) →
      (chars.map fun char => char.val.toUInt8).map (fun byte => Char.ofNat byte.toNat) = chars := by
    intro chars small
    induction chars with
    | nil => rfl
    | cons first rest inductionHypothesis =>
        have known := toNat_toUInt8_ascii (small first (by simp))
        have others := inductionHypothesis fun char member => small char (by simp [member])
        rw [List.map_cons, List.map_cons, known, Char.ofNat_toNat, others]
  have bytes := ofString_ascii small
  rw [String.ofList_toList] at bytes
  rw [bytes, ascii, same small, String.ofList_toList]

/-- A text of one-byte characters is shown as itself. -/
theorem display_ofString
    (ascii : ∀ char ∈ text.toList, char.toNat < 128) :
    display (ofString text) = text := by
  have shown : ∀ {chars : List Char}, (∀ char ∈ chars, char.toNat < 128) →
      toChars (chars.map fun char => char.val.toUInt8) = chars := by
    intro chars small
    induction chars with
    | nil => rfl
    | cons first rest inductionHypothesis =>
        have known := small first (by simp)
        have code := toNat_toUInt8_ascii known
        have single : first.val.toUInt8 < 0x80 := by
          rw [UInt8.lt_iff_toNat_lt, code]
          exact known
        have others := inductionHypothesis fun char member => small char (by simp [member])
        simp only [toChars, pieces, List.map_cons, piecesAfter, leading, single, ↓reduceIte, code,
          Nat.sub_self, Piece.char?, Option.getD_some, Char.ofNat_toNat] at others ⊢
        rw [others]
  have bytes := ofString_ascii ascii
  rw [String.ofList_toList] at bytes
  rw [bytes, display, shown ascii, String.ofList_toList]

end Bytes

end IlsCompiler
