import Mathlib.Data.List.Count
import IlsCompiler.Text.Bytes

namespace IlsCompiler.Bytes

/-!
# Characters and their bytes

A byte string falls apart into characters and stray bytes, and the bytes of these pieces make up
the string again. Showing the string as characters puts the replacement character in the place of
each stray byte, so that a well-formed string is the encoding of what it shows and any other string
has fewer bytes outside ASCII than that.
-/

/-- The bytes that a piece of decoded text stands for. -/
def Piece.bytes : Piece → Bytes
  | .char value => String.utf8EncodeChar value
  | .byte value => [value]

/-- Whether a byte string is well-formed UTF-8. -/
def IsWellFormed (bytes : Bytes) : Prop :=
  (toString? bytes).isSome

/-- Whether a byte lies outside ASCII. -/
def isHigh (byte : UInt8) : Bool :=
  0x80 ≤ byte

theorem ofString_ofList
    (chars : List Char) :
    ofString (String.ofList chars) = chars.flatMap String.utf8EncodeChar := by
  simp [ofString, List.utf8Encode]

/-- A code outside the surrogates is the code of its character. -/
theorem toNat_char
    {code : Nat}
    (valid : code < 0xD800 ∨ (0xDFFF < code ∧ code < 0x110000)) :
    (Char.ofNat code).val.toNat = code := by
  have isValid : code.isValidChar := valid
  rw [Char.ofNat, dif_pos isValid]
  rfl

theorem encode_one
    {code : Nat}
    (small : code < 0x80) :
    String.utf8EncodeChar (Char.ofNat code) = [UInt8.ofNat code] := by
  have same : (Char.ofNat code).val.toNat = code := toNat_char (by omega)
  rw [String.utf8EncodeChar, same, if_pos (by omega)]

theorem encode_two
    {first second : Nat}
    (isFirst : 0xC2 ≤ first ∧ first ≤ 0xDF)
    (isSecond : 0x80 ≤ second ∧ second ≤ 0xBF) :
    String.utf8EncodeChar (Char.ofNat ((first - 0xC0) * 64 + second % 64)) =
      [UInt8.ofNat first, UInt8.ofNat second] := by
  have valid : (first - 0xC0) * 64 + second % 64 < 0xD800 := by omega
  have same := toNat_char (Or.inl valid)
  rw [String.utf8EncodeChar, same, if_neg (by omega), if_pos (by omega)]
  congr 3 <;> omega

theorem encode_three
    {first second third : Nat}
    (isFirst : 0xE0 ≤ first ∧ first ≤ 0xEF)
    (isSecond : 0x80 ≤ second ∧ second ≤ 0xBF)
    (notShort : first = 0xE0 → 0xA0 ≤ second)
    (notSurrogate : first = 0xED → second ≤ 0x9F)
    (isThird : 0x80 ≤ third ∧ third ≤ 0xBF) :
    String.utf8EncodeChar
        (Char.ofNat ((first - 0xE0) * 4096 + second % 64 * 64 + third % 64)) =
      [UInt8.ofNat first, UInt8.ofNat second, UInt8.ofNat third] := by
  have valid : (first - 0xE0) * 4096 + second % 64 * 64 + third % 64 < 0xD800 ∨
      (0xDFFF < (first - 0xE0) * 4096 + second % 64 * 64 + third % 64 ∧
        (first - 0xE0) * 4096 + second % 64 * 64 + third % 64 < 0x110000) := by omega
  have same := toNat_char valid
  rw [String.utf8EncodeChar, same, if_neg (by omega), if_neg (by omega), if_pos (by omega)]
  congr 4 <;> omega

theorem encode_four
    {first second third fourth : Nat}
    (isFirst : 0xF0 ≤ first ∧ first ≤ 0xF4)
    (isSecond : 0x80 ≤ second ∧ second ≤ 0xBF)
    (notShort : first = 0xF0 → 0x90 ≤ second)
    (notLong : first = 0xF4 → second ≤ 0x8F)
    (isThird : 0x80 ≤ third ∧ third ≤ 0xBF)
    (isFourth : 0x80 ≤ fourth ∧ fourth ≤ 0xBF) :
    String.utf8EncodeChar (Char.ofNat
        ((first - 0xF0) * 262144 + second % 64 * 4096 + third % 64 * 64 + fourth % 64)) =
      [UInt8.ofNat first, UInt8.ofNat second, UInt8.ofNat third, UInt8.ofNat fourth] := by
  have valid : 0xDFFF <
        (first - 0xF0) * 262144 + second % 64 * 4096 + third % 64 * 64 + fourth % 64 ∧
      (first - 0xF0) * 262144 + second % 64 * 4096 + third % 64 * 64 + fourth % 64 <
        0x110000 := by omega
  have same := toNat_char (Or.inr valid)
  rw [String.utf8EncodeChar, same, if_neg (by omega), if_neg (by omega), if_neg (by omega)]
  congr 5 <;> omega

/-- The lowest byte that may follow: higher than usual behind one first byte. -/
theorem bounds_of_least
    {first second odd least : UInt8}
    (high : 0x80 ≤ least)
    (follows : (if (first == odd) = true then least else 0x80) ≤ second) :
    0x80 ≤ second.toNat ∧ (first.toNat = odd.toNat → least.toNat ≤ second.toNat) := by
  rw [UInt8.le_iff_toNat_le] at high follows
  split at follows
  next => exact ⟨Nat.le_trans high follows, fun _ => follows⟩
  next other =>
    refine ⟨follows, fun same => absurd (UInt8.toNat_inj.mp same) ?_⟩
    simpa using other

/-- The highest byte that may follow: lower than usual behind one first byte. -/
theorem bounds_of_greatest
    {first second odd greatest : UInt8}
    (low : greatest ≤ 0xBF)
    (follows : second ≤ (if (first == odd) = true then greatest else 0xBF)) :
    second.toNat ≤ 0xBF ∧ (first.toNat = odd.toNat → second.toNat ≤ greatest.toNat) := by
  rw [UInt8.le_iff_toNat_le] at low follows
  split at follows
  next => exact ⟨Nat.le_trans follows low, fun _ => follows⟩
  next other =>
    refine ⟨follows, fun same => absurd (UInt8.toNat_inj.mp same) ?_⟩
    simpa using other

theorem bounds_of_continuation
    {byte : UInt8}
    (continues : isContinuation byte = true) :
    0x80 ≤ byte.toNat ∧ byte.toNat ≤ 0xBF := by
  simpa [isContinuation, UInt8.le_iff_toNat_le] using continues

variable
    {width : Nat}

theorem found_of_leading
    {fits : Bool}
    {found : Option Char × Nat}
    {value : Char}
    (isLeading : (if fits = true then found else (none, 1)) = (some value, width)) :
    fits = true ∧ found = (some value, width) := by
  cases fits with
  | true => exact ⟨rfl, isLeading⟩
  | false => cases isLeading

/-- The character at the front of a byte string is encoded by the bytes that it took. -/
theorem leading_encoded
    {bytes : Bytes}
    {value : Char}
    (isLeading : leading bytes = (some value, width)) :
    ∃ byte others rest, bytes = byte :: (others ++ rest) ∧ width = others.length + 1 ∧
      String.utf8EncodeChar value = byte :: others := by
  unfold leading at isLeading
  split at isLeading
  next => cases isLeading
  next first rest =>
    split at isLeading
    next small =>
      cases isLeading
      refine ⟨first, [], rest, rfl, rfl, ?_⟩
      rw [encode_one (by simpa [UInt8.lt_iff_toNat_lt] using small), UInt8.ofNat_toNat]
    -- How many bytes follow depends on the first one; each has bounds of its own.
    split at isLeading
    next isFirst =>
      simp only [Bool.and_eq_true, decide_eq_true_eq, UInt8.le_iff_toNat_le] at isFirst
      split at isLeading
      next second others =>
        obtain ⟨isSecond, found⟩ := found_of_leading isLeading
        cases found
        refine ⟨first, [second], others, rfl, rfl, ?_⟩
        have encoded := encode_two isFirst (bounds_of_continuation isSecond)
        simpa only [UInt8.ofNat_toNat, payload] using encoded
      next => cases isLeading
    split at isLeading
    next isFirst =>
      simp only [Bool.and_eq_true, decide_eq_true_eq, UInt8.le_iff_toNat_le] at isFirst
      split at isLeading
      next second third others =>
        obtain ⟨follow, found⟩ := found_of_leading isLeading
        cases found
        simp only [Bool.and_eq_true, decide_eq_true_eq] at follow
        obtain ⟨⟨isLeast, isGreatest⟩, isThird⟩ := follow
        obtain ⟨low, notShort⟩ := bounds_of_least (by decide) isLeast
        obtain ⟨high, notSurrogate⟩ := bounds_of_greatest (by decide) isGreatest
        refine ⟨first, [second, third], others, rfl, rfl, ?_⟩
        have encoded := encode_three isFirst ⟨low, high⟩ notShort notSurrogate
          (bounds_of_continuation isThird)
        simpa only [UInt8.ofNat_toNat, payload] using encoded
      next => cases isLeading
    split at isLeading
    next isFirst =>
      simp only [Bool.and_eq_true, decide_eq_true_eq, UInt8.le_iff_toNat_le] at isFirst
      split at isLeading
      next second third fourth others =>
        obtain ⟨follow, found⟩ := found_of_leading isLeading
        cases found
        simp only [Bool.and_eq_true, decide_eq_true_eq] at follow
        obtain ⟨⟨⟨isLeast, isGreatest⟩, isThird⟩, isFourth⟩ := follow
        obtain ⟨low, notShort⟩ := bounds_of_least (by decide) isLeast
        obtain ⟨high, notLong⟩ := bounds_of_greatest (by decide) isGreatest
        refine ⟨first, [second, third, fourth], others, rfl, rfl, ?_⟩
        have encoded := encode_four isFirst ⟨low, high⟩ notShort notLong
          (bounds_of_continuation isThird) (bounds_of_continuation isFourth)
        simpa only [UInt8.ofNat_toNat, payload] using encoded
      next => cases isLeading
    next => cases isLeading

/-- A byte that belongs to no character is no ASCII byte. -/
theorem high_of_stray
    {byte : UInt8}
    {rest : Bytes}
    (isStray : leading (byte :: rest) = (none, width)) :
    isHigh byte = true := by
  rw [isHigh, decide_eq_true_eq]
  by_contra small
  have single : byte < 0x80 := UInt8.not_le.mp small
  simp only [leading, if_pos single] at isStray
  cases isStray

theorem piecesAfter_append
    (front rest : Bytes) :
    piecesAfter front.length (front ++ rest) = pieces rest := by
  induction front with
  | nil => rfl
  | cons byte front inductionHypothesis => exact inductionHypothesis

/--
Induction over the pieces of a byte string: it is empty, or it starts with the bytes of a character
or with a stray byte.
-/
theorem pieces_induction
    {motive : Bytes → Prop}
    (empty : motive [])
    (char : ∀ value back,
      pieces (String.utf8EncodeChar value ++ back) = .char value :: pieces back →
        motive back → motive (String.utf8EncodeChar value ++ back))
    (stray : ∀ byte back, isHigh byte = true →
      pieces (byte :: back) = .byte byte :: pieces back → motive back → motive (byte :: back))
    (bytes : Bytes) :
    motive bytes := by
  induction isSize : bytes.length using Nat.strongRecOn generalizing bytes with
  | ind size inductionHypothesis =>
      subst isSize
      cases bytes with
      | nil => exact empty
      | cons byte rest =>
          cases isLeading : leading (byte :: rest) with
          | mk value? width =>
              cases value? with
              | none =>
                  refine stray byte rest (high_of_stray isLeading) ?_
                    (inductionHypothesis rest.length (by simp) rest rfl)
                  rw [pieces, piecesAfter, isLeading]
                  rfl
              | some value =>
                  obtain ⟨first, others, back, same, isWidth, encoded⟩ :=
                    leading_encoded isLeading
                  obtain ⟨rfl, rfl⟩ := List.cons.inj same
                  have isFront : byte :: (others ++ back) =
                      String.utf8EncodeChar value ++ back := by rw [encoded, List.cons_append]
                  rw [isFront]
                  refine char value back ?_
                    (inductionHypothesis back.length (by grind) back rfl)
                  rw [← isFront, pieces, piecesAfter, isLeading]
                  simp only [isWidth, Nat.add_sub_cancel, piecesAfter_append]

/-- The pieces of a byte string make it up. -/
theorem flatMap_pieces
    (bytes : Bytes) :
    (pieces bytes).flatMap Piece.bytes = bytes := by
  induction bytes using pieces_induction with
  | empty => rfl
  | char value back isPieces inductionHypothesis =>
      rw [isPieces, List.flatMap_cons, inductionHypothesis]
      rfl
  | stray byte back _ isPieces inductionHypothesis =>
      rw [isPieces, List.flatMap_cons, inductionHypothesis]
      rfl

/-- What stands for a piece when it is shown. -/
def Piece.shown (piece : Piece) : Bytes :=
  String.utf8EncodeChar (piece.char?.getD replacement)

theorem ofString_display
    (bytes : Bytes) :
    ofString (display bytes) = (pieces bytes).flatMap Piece.shown := by
  rw [display, ofString_ofList, toChars, List.flatMap_map]
  rfl

/-- A well-formed string consists of characters. -/
theorem isWellFormed_iff
    (bytes : Bytes) :
    IsWellFormed bytes ↔ ∀ piece ∈ pieces bytes, piece.char?.isSome := by
  rw [IsWellFormed, toString?, Option.isSome_map]
  induction pieces bytes with
  | nil => simp
  | cons piece rest inductionHypothesis =>
      rw [List.mapM_cons, List.forall_mem_cons, ← inductionHypothesis]
      cases piece.char? <;> cases rest.mapM Piece.char? <;> simp

/-- A well-formed string is the encoding of the characters that it shows. -/
theorem ofString_display_of_wellFormed
    {bytes : Bytes}
    (wellFormed : IsWellFormed bytes) :
    ofString (display bytes) = bytes := by
  have same : (pieces bytes).map Piece.shown = (pieces bytes).map Piece.bytes := by
    refine List.map_congr_left fun piece member => ?_
    have isChar := (isWellFormed_iff bytes).mp wellFormed piece member
    cases piece with
    | char value => rfl
    | byte value => cases isChar
  rw [ofString_display, List.flatMap_def, same, ← List.flatMap_def, flatMap_pieces]

/-- Three bytes outside ASCII stand for each stray byte, which is one itself. -/
theorem countP_isHigh_display
    (bytes : Bytes) :
    (ofString (display bytes)).countP isHigh =
      bytes.countP isHigh + 2 * (pieces bytes).countP fun piece => !piece.char?.isSome := by
  rw [ofString_display]
  induction bytes using pieces_induction with
  | empty => rfl
  | char value back isPieces inductionHypothesis =>
      rw [isPieces, List.flatMap_cons, List.countP_append, inductionHypothesis,
        List.countP_append, List.countP_cons_of_neg (by simp [Piece.char?])]
      simp only [Piece.shown, Piece.char?, Option.getD_some]
      omega
  | stray byte back high isPieces inductionHypothesis =>
      have three : (String.utf8EncodeChar replacement).countP isHigh = 3 := by decide
      have shown : (Piece.byte byte).shown.countP isHigh = 3 := three
      rw [isPieces, List.flatMap_cons, List.countP_append, inductionHypothesis, shown,
        List.countP_cons_of_pos high, List.countP_cons_of_pos (by simp [Piece.char?])]
      omega

/-- A string with as many bytes outside ASCII as what it shows is well-formed. -/
theorem wellFormed_of_countP
    {bytes : Bytes}
    (same : (ofString (display bytes)).countP isHigh = bytes.countP isHigh) :
    IsWellFormed bytes := by
  rw [countP_isHigh_display] at same
  have noStray : (pieces bytes).countP (fun piece => !piece.char?.isSome) = 0 := by omega
  rw [isWellFormed_iff]
  intro piece member
  simpa only [Bool.not_eq_true', Bool.not_eq_false] using
    List.countP_eq_zero.mp noStray piece member

end IlsCompiler.Bytes
