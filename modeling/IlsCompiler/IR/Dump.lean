import IlsCompiler.IR.Listing
import IlsCompiler.Text.Decimal
import IlsCompiler.Text.Basic

namespace IlsCompiler

/-!
# Printed listings

One node a line, each as a tuple of a mnemonic and its operands. Variables are
shown by name, constants by their text and characters between quotes.
-/

namespace Listing

/-- Skip white space; a line end is not skipped but makes the text no number. -/
def skipSpace? : List Char → Option (List Char)
  | [] => some []
  | '\r' :: '\n' :: _ => none
  | value :: rest =>
      if value == '\n' then
        none
      else if Text.isSpace value then
        skipSpace? rest
      else
        some (value :: rest)

/-- The 32-bit number at the front of a text; what follows it does not matter. -/
def leadingNumber? (text : String) : Option Int := do
  let characters ← skipSpace? text.toList
  let (sign, digits) :=
    match characters with
    | '-' :: rest => ((-1 : Int), rest)
    | '+' :: rest => (1, rest)
    | rest => (1, rest)
  let value ← Text.readNatural? (digits.takeWhile Char.isDigit)
  let number := sign * value
  if Text.fits 32 number then
    some number
  else
    none

/-- The character with a code; a number that is no code stands for the replacement character. -/
def charOfCode (code : Int) : Char :=
  if 0 ≤ code && Nat.isValidChar code.toNat then
    Char.ofNat code.toNat
  else
    Bytes.replacement

/-- A character constant as it is shown between quotes. -/
def charText (text : String) : String :=
  match leadingNumber? text with
  | none => text
  | some 10 => "\\n"
  | some 9 => "\\t"
  | some 0 => "\\0"
  | some code => String.singleton (charOfCode code)

/-- The short form of a variable, following at most the given number of indices. -/
def describeWithin (listing : Listing) : Nat → VarId → String
  | 0, _ => "?"
  | depth + 1, id =>
      match listing.lookup? id with
      | none => "<none>"
      | some v =>
          match v.storage with
          | .named name _ _ _ _ => name
          | .temporary name _ => name
          | .literal =>
              if v.type = .char then
                "'" ++ charText v.value.text ++ "'"
              else
                v.value.text
          | .element array index =>
              describeWithin listing depth array ++ "[" ++
                describeWithin listing depth index ++ "]"
          | .array _ _ init => "[" ++ init ++ "]"
          | .result function _ => function.name ++ "()"

/-- The short form of a variable. -/
def describe (listing : Listing) (id : VarId) : String :=
  listing.describeWithin (listing.vars.size + 1) id

/-- The short form of a value. -/
def describeValue (listing : Listing) (value : Value) : String :=
  match value with
  | .literal text => text
  | .reference id => listing.describe id

/-- A mnemonic and its operands in parentheses. -/
def tuple (mnemonic : String) (parts : List String) : String :=
  "(" ++ ", ".intercalate (mnemonic :: parts) ++ ")"

/-- The line of a declaration. -/
def declarationText (listing : Listing) (id : VarId) : String :=
  match listing.lookup? id with
  | none => tuple "VAR" [listing.describe id]
  | some v =>
      match v.storage with
      | .named name _ _ _ _ =>
          tuple "NAMED_VAR" [name, v.type.name, listing.describeValue v.value]
      | .temporary name _ => tuple "TEMP_VAR" [name, listing.describeValue v.value]
      | .literal => tuple "LIT_VAR" [v.value.text]
      | .array _ _ init => tuple "ARRAY_VAR" [init]
      | .result _ _ => tuple "FUNC_RETURN_VAR" [listing.describe id]
      | .element _ _ => tuple "VAR" [listing.describe id]

/-- The line of a node. -/
def nodeText (listing : Listing) (node : Node) : String :=
  match node with
  | .label name => tuple "LABEL" [name]
  | .entry function =>
      tuple "FUNC" (function.name :: function.result.name ::
        function.params.map listing.describe)
  | .prologue _ locals => tuple "PROLOGUE" [toString locals]
  | .epilogue _ => tuple "EPILOGUE" []
  | .openScope _ kind => tuple "START_SCOPE" [kind.name]
  | .closeScope _ kind _ => tuple "END_SCOPE" [kind.name]
  | .declare id _ => listing.declarationText id
  | .assign target value _ element _ =>
      let stored := if element = 0 then target else element
      tuple "ASSIGN" [listing.describe stored, listing.describeValue value]
  | .arith result left right op _ =>
      tuple op.mnemonic
        [listing.describe result ++ " = " ++ listing.describe left, listing.describe right]
  | .compare left right _ => tuple "COMPARE" [listing.describe left, listing.describe right]
  | .jump label none => tuple "JUMP" [label]
  | .jump label (some op) => tuple ("JUMP_" ++ op.mnemonic) [label]
  | .call call =>
      let name := if call.builtin then Builtin.sigil ++ call.name else call.name
      tuple "FUNC_CALL" (name :: call.arguments.map listing.describe)
  | .leave value _ => tuple "RETURN" [listing.describe value]
  | .destroy id => tuple "DESTROY_TEMP" [listing.describe id]

/-- The line of a node with its indentation; labels stand at the margin. -/
def nodeLine (listing : Listing) (node : Node) : String :=
  match node with
  | .label _ => listing.nodeText node ++ "\n"
  | _ => "    " ++ listing.nodeText node ++ "\n"

/-- Nodes one a line. -/
def dump (listing : Listing) (nodes : List Node) : String :=
  String.join (nodes.map listing.nodeLine)

end Listing

end IlsCompiler
