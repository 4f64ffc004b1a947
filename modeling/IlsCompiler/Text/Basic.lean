namespace IlsCompiler.Text

/-!
# Text

What text is trimmed, compared, padded and styled with.

## White space

The characters that count as white space, and text without them at its ends.
-/

/-- Whether a character is white space. -/
def isSpace (value : Char) : Bool :=
  let code := value.toNat
  (9 ≤ code && code ≤ 13) || code == 0x20 || code == 0x85 || code == 0xA0 ||
    code == 0x1680 || (0x2000 ≤ code && code ≤ 0x200A) || code == 0x2028 ||
    code == 0x2029 || code == 0x202F || code == 0x205F || code == 0x3000

/-- Characters without white space at either end. -/
def trimChars (characters : List Char) : List Char :=
  ((characters.dropWhile isSpace).reverse.dropWhile isSpace).reverse

/-- A text without white space at either end. -/
def trim (text : String) : String :=
  String.ofList (trimChars text.toList)

/-!
## Small letters

Words of ASCII letters are compared without regard to case.
-/

/--
The small form of a letter, as far as it is ASCII. Two letters outside ASCII have an
ASCII small form: the dotted capital I and the Kelvin sign.
-/
def smallLetter (value : Char) : Char :=
  match value.toNat with
  | 0x130 => 'i'
  | 0x212A => 'k'
  | _ => value.toLower

/-- A text in small letters. -/
def lower (text : String) : String :=
  String.ofList (text.toList.map smallLetter)

/-!
## Padding

Text in columns of a least width, counted in characters.
-/

/-- A text with blanks behind it up to a width. -/
def padRight (width : Nat) (text : String) : String :=
  text ++ String.ofList (List.replicate (width - text.length) ' ')

/-- A text with blanks in front of it up to a width. -/
def padLeft (width : Nat) (text : String) : String :=
  String.ofList (List.replicate (width - text.length) ' ') ++ text

/-- A number with zeros in front of it up to a width. -/
def zeroPadded (width value : Nat) : String :=
  let digits := toString value
  String.ofList (List.replicate (width - digits.length) '0') ++ digits

/-!
## Terminal styles

A style wraps text in the escape sequences that switch it on and off again.
-/

/-- The parameters that switch a style on and off. -/
structure Style where
  on : String
  off : String
deriving DecidableEq, Repr

namespace Style

def boldRed : Style := ⟨"31;1", "0;22"⟩
def boldGreen : Style := ⟨"32;1", "0;22"⟩
def boldYellow : Style := ⟨"33;1", "0;22"⟩
def boldBlue : Style := ⟨"34;1", "0;22"⟩
def cyan : Style := ⟨"36", "0"⟩
def bold : Style := ⟨"1", "22"⟩
def faint : Style := ⟨"2", "22"⟩

/-- The escape sequence with the given parameters. -/
def sequence (parameters : String) : String :=
  "\x1b[" ++ parameters ++ "m"

/-- Text in a style, or as it is when styles are switched off. -/
def apply (style : Style) (enabled : Bool) (text : String) : String :=
  if enabled then
    sequence style.on ++ text ++ sequence style.off
  else
    text

end Style

end IlsCompiler.Text
