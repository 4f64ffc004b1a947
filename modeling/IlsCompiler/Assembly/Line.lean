import IlsCompiler.Assembly.Instruction
import IlsCompiler.Text.Basic

namespace IlsCompiler

/-!
# Lines of code

The lines of a function body. An instruction that makes the move right before it
useless takes its place: both are plain moves to one destination, and the second
does not read it.
-/

/-- A line of a function body; a blank line is one to be filled in later. -/
inductive Line where
  | instruction (written : Instruction)
  | label (name : String)
  | raw (text : String)
  | blank
deriving DecidableEq, Repr, Inhabited

namespace Line

/-- A line as it is written. -/
def text : Line → String
  | .instruction written => "\t" ++ written.text
  | .label name => "." ++ name ++ ":"
  | .raw text => text
  | .blank => ""

end Line

namespace Move

/-- The characters behind a given start, if a text has it. -/
def afterStart? : List Char → List Char → Option (List Char)
  | [], rest => some rest
  | _ :: _, [] => none
  | wanted :: start, value :: rest =>
      if wanted = value then
        afterStart? start rest
      else
        none

/-- The characters in front of and behind the first comma that a blank follows. -/
def cutComma? : List Char → Option (List Char × List Char)
  | [] => none
  | ',' :: ' ' :: rest => some ([], rest)
  | value :: rest =>
      match cutComma? rest with
      | some (front, back) => some (value :: front, back)
      | none => none

/-- The destination and source of a plain move. -/
def parse? (line : String) : Option (String × String) := do
  let operands ← afterStart? "mov ".toList line.toList
  let (target, source) ← cutComma? operands
  return (String.ofList (Text.trimChars target), String.ofList (Text.trimChars source))

/-- Whether a character can be part of a register's name. -/
def isNameChar (value : Char) : Bool :=
  ('a' ≤ value && value ≤ 'z') || ('0' ≤ value && value ≤ '9')

/-- The maximal runs of name characters in a text, behind a run already begun. -/
def words : List Char → List Char → List String
  | run, [] => if run.isEmpty then [] else [String.ofList run]
  | run, value :: rest =>
      if isNameChar value then
        words (run ++ [value]) rest
      else if run.isEmpty then
        words [] rest
      else
        String.ofList run :: words [] rest

/-- Whether an operand names a register at any width. -/
def mentions (operand : String) (reg : Reg) : Bool :=
  (words [] operand.toList).any fun word => Reg.ofSpelling? word == some reg

/-- A line without the tab in front of it. -/
def withoutTab (line : String) : String :=
  match line.toList with
  | '\t' :: rest => String.ofList rest
  | _ => line

/-- Whether an instruction makes the line before it useless. -/
def isRedundant (previous next : String) : Bool :=
  match parse? (withoutTab previous), parse? next with
  | some (firstTarget, _), some (target, source) =>
      if firstTarget = target then
        match Reg.ofSpelling? target with
        | some reg => !mentions source reg
        | none => !source.toList.contains '['
      else
        false
  | _, _ => false

end Move

/-- The lines of a function body so far. -/
structure Body where
  lines : Array Line
deriving DecidableEq, Repr, Inhabited

namespace Body

/-- A body without lines. -/
def empty : Body := ⟨#[]⟩

/-- Append an instruction, in place of the move before it if it makes that useless. -/
def add (body : Body) (instruction : Instruction) : Body :=
  match body.lines.back? with
  | some last =>
      if Move.isRedundant last.text instruction.text then
        ⟨body.lines.pop.push (.instruction instruction)⟩
      else
        ⟨body.lines.push (.instruction instruction)⟩
  | none => ⟨body.lines.push (.instruction instruction)⟩

/-- Append a label. -/
def label (body : Body) (name : String) : Body :=
  ⟨body.lines.push (.label name)⟩

/-- Append a line as it is. -/
def raw (body : Body) (text : String) : Body :=
  ⟨body.lines.push (.raw text)⟩

/-- Append a line to be filled in later and give its position. -/
def reserve (body : Body) : Body × Nat :=
  (⟨body.lines.push .blank⟩, body.lines.size)

/-- Put lines in the place of the line at a position. -/
def fill (body : Body) (position : Nat) (lines : List Line) : Body :=
  ⟨body.lines.take position ++ lines.toArray ++ body.lines.drop (position + 1)⟩

/-- The lines as they are written. -/
def texts (body : Body) : List String :=
  body.lines.toList.map Line.text

end Body

end IlsCompiler
