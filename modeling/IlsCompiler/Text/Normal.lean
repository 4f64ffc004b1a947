import IlsCompiler.Text.Bytes
import IlsCompiler.Text.Canonical

namespace IlsCompiler.Text

/-!
# The composed normal form

Canonically equivalent texts have one composed form: characters are taken apart,
marks on one base are put in the order of their classes, and bases are joined
with their marks again. Bytes that belong to no character are kept and join with
nothing. A run of more than thirty marks is broken by a joiner, and a character
cut off by the end of the text stops the process.
-/

/-- The class of a mark; characters that start a group have class zero. -/
def markClass (code : Nat) : Nat :=
  match markClasses.find? fun entry => entry.1 ≤ code && code ≤ entry.2.1 with
  | some entry => entry.2.2
  | none => 0

/-- The first and last Hangul syllable, and the numbers of its parts. -/
def syllableBase : Nat := 0xAC00
def leadBase : Nat := 0x1100
def vowelBase : Nat := 0x1161
def tailBase : Nat := 0x11A7
def leadCount : Nat := 19
def vowelCount : Nat := 21
def tailCount : Nat := 28

/-- How many syllables there are. -/
def syllableCount : Nat := leadCount * vowelCount * tailCount

/-- Whether a code is a Hangul syllable. -/
def isSyllable (code : Nat) : Bool :=
  syllableBase ≤ code && code < syllableBase + syllableCount

/-- The letters of a Hangul syllable. -/
def syllableLetters (code : Nat) : List Nat :=
  let position := code - syllableBase
  let lead := leadBase + position / (vowelCount * tailCount)
  let vowel := vowelBase + position % (vowelCount * tailCount) / tailCount
  let tail := position % tailCount
  if tail = 0 then
    [lead, vowel]
  else
    [lead, vowel, tailBase + tail]

/-- Take a character apart once: what it stands for, if anything. -/
def splitOnce? (code : Nat) : Option (List Nat) :=
  match composedPairs.find? (fun entry => entry.1 == code) with
  | some entry => some [entry.2.1, entry.2.2]
  | none =>
      match splitPairs.find? (fun entry => entry.1 == code) with
      | some entry => some [entry.2.1, entry.2.2]
      | none =>
          match singletons.find? (fun entry => entry.1 == code) with
          | some entry => some [entry.2]
          | none => none

/-- Take a character apart, at most the given number of times in a row. -/
def split : Nat → Nat → List Nat
  | 0, code => [code]
  | depth + 1, code =>
      if code < 0xC0 then
        [code]
      else if isSyllable code then
        syllableLetters code
      else
        match splitOnce? code with
        | some parts => parts.flatMap (split depth)
        | none => [code]

/-- The composed form of two characters that stand next to each other. -/
def joinPair? (first second : Nat) : Option Nat :=
  if leadBase ≤ first && first < leadBase + leadCount &&
      vowelBase ≤ second && second < vowelBase + vowelCount then
    some (syllableBase +
      ((first - leadBase) * vowelCount + (second - vowelBase)) * tailCount)
  else if isSyllable first && (first - syllableBase) % tailCount == 0 &&
      tailBase < second && second < tailBase + tailCount then
    some (first + (second - tailBase))
  else
    (composedPairs.find? fun entry =>
      entry.2.1 == first && entry.2.2 == second).map fun entry => entry.1

/-- Whether a character can join one in front of it or be a mark on it. -/
def attaches (code : Nat) : Bool :=
  markClass code != 0 ||
    (vowelBase ≤ code && code < vowelBase + vowelCount) ||
    (tailBase < code && code < tailBase + tailCount) ||
    composedPairs.any fun entry => entry.2.2 == code

/-- A unit of text while it is normalized: a character's code or a byte on its own. -/
inductive Glyph where
  | code (value : Nat)
  | byte (value : UInt8)
deriving DecidableEq, Repr

/-- The class of a glyph; a byte on its own starts a group. -/
def Glyph.markClass : Glyph → Nat
  | .code value => Text.markClass value
  | .byte _ => 0

/-- How many glyphs at the start of a list attach to what stands before them. -/
def attachedCount (codes : List Nat) : Nat :=
  (codes.takeWhile attaches).length

/-- The joiner that breaks a run of marks. -/
def markBreak : Glyph := .code 0x34F

/-- The longest run of marks that is left in one piece. -/
def longestRun : Nat := 30

/-- Take characters apart, breaking runs of marks; the number is the length of the run so far. -/
def takeApart : Nat → List Glyph → List Glyph
  | _, [] => []
  | _, .byte value :: rest => .byte value :: takeApart 0 rest
  | run, .code value :: rest =>
      let parts := split 4 value
      let leading := attachedCount parts
      let glyphs := parts.map Glyph.code
      if longestRun < run + leading then
        markBreak :: glyphs ++ takeApart leading rest
      else if leading = 0 then
        glyphs ++ takeApart (attachedCount parts.reverse) rest
      else
        glyphs ++ takeApart (run + leading) rest

/-- Put a mark in front of the marks behind it that have a lower class. -/
def insertMark (mark : Glyph) : List Glyph → List Glyph
  | [] => [mark]
  | next :: rest =>
      if next.markClass != 0 && next.markClass < mark.markClass then
        next :: insertMark mark rest
      else
        mark :: next :: rest

/-- Marks on each base in the order of their classes. -/
def orderMarks : List Glyph → List Glyph
  | [] => []
  | glyph :: rest =>
      if glyph.markClass = 0 then
        glyph :: orderMarks rest
      else
        insertMark glyph (orderMarks rest)

/--
Join a base with what follows it: the glyphs kept so far behind the base come in
reverse, and one joins the base if none of them stands in its way.
-/
def joinFrom (base : Glyph) : List Glyph → List Glyph → List Glyph
  | kept, [] => base :: kept.reverse
  | kept, glyph :: rest =>
      let blocked :=
        match kept with
        | [] => false
        | last :: _ => last.markClass = 0 || glyph.markClass ≤ last.markClass
      let joined? :=
        match base, glyph with
        | .code first, .code second => if blocked then none else joinPair? first second
        | _, _ => none
      match joined? with
      | some joined => joinFrom (.code joined) kept rest
      | none =>
          if glyph.markClass = 0 then
            base :: kept.reverse ++ joinFrom glyph [] rest
          else
            joinFrom base (glyph :: kept) rest

/-- Join bases with their marks. Marks in front of the first base stay as they are. -/
def joinAll : List Glyph → List Glyph
  | [] => []
  | glyph :: rest =>
      if glyph.markClass = 0 then
        joinFrom glyph [] rest
      else
        glyph :: joinAll rest

/-- How many bytes the first byte of a character announces. -/
def announced (byte : UInt8) : Nat :=
  if byte < 0xC2 then 1
  else if byte < 0xE0 then 2
  else if byte < 0xF0 then 3
  else if byte < 0xF8 then 4
  else 1

/-- The part of a text in front of a character that its end cuts off, and the rest. -/
def beforeCut : Nat → Bytes → Bytes × Bytes
  | _, [] => ([], [])
  | skip + 1, byte :: rest =>
      let (front, back) := beforeCut skip rest
      (byte :: front, back)
  | 0, byte :: rest =>
      if (byte :: rest).length < announced byte then
        ([], byte :: rest)
      else
        let (front, back) := beforeCut ((Bytes.leading (byte :: rest)).2 - 1) rest
        (byte :: front, back)

/-- A decoded piece as a glyph. -/
def Glyph.ofPiece : Bytes.Piece → Glyph
  | .char value => .code value.toNat
  | .byte value => .byte value

/-- The bytes of a glyph. -/
def Glyph.bytes : Glyph → Bytes
  | .code value => Bytes.ofString (String.singleton (Char.ofNat value))
  | .byte value => [value]

/-- The composed normal form of a text. -/
def normalize (text : Bytes) : Bytes :=
  if text.all (· < 0x80) then
    text
  else
    let (front, back) := beforeCut 0 text
    let glyphs := (Bytes.pieces front).map Glyph.ofPiece
    (joinAll (orderMarks (takeApart 0 glyphs))).flatMap Glyph.bytes ++ back

end IlsCompiler.Text
