import IlsCompiler.CommandLine.Command

namespace IlsCompiler.CommandLine

/-!
# Wrong use of the command line

What can be wrong with the words of a command line, and how it is told.
-/

/-- The edit distances of a word from the starts of another: the next row of the table. -/
def nextDistances (letter : UInt8) : Bytes → Nat → List Nat → List Nat
  | other :: others, left, diagonal :: above :: rest =>
      let distance :=
        if letter = other then diagonal else min (min above left) diagonal + 1
      distance :: nextDistances letter others distance (above :: rest)
  | _, _, _ => []

/-- The rows of the table of edit distances behind a given one. -/
def distancesFrom (target : Bytes) : Nat → List Nat → Bytes → List Nat
  | _, row, [] => row
  | count, row, letter :: rest =>
      distancesFrom target (count + 1)
        ((count + 1) :: nextDistances letter target (count + 1) row) rest

/-- How many letters have to be put in, taken out or changed to get from one word to another. -/
def editDistance (word target : String) : Nat :=
  let goal := Bytes.ofString target
  ((distancesFrom goal 0 (List.range (goal.length + 1)) (Bytes.ofString word)).getLast?).getD 0

/-- The greatest distance at which a command still suggests itself. -/
def suggestionDistance : Nat := 2

/-- Whether a command may have been meant by a word. -/
def isSuggested (word : String) (command : Command) : Bool :=
  let typed := Text.lower word
  command ≠ .help &&
    (editDistance typed command.name ≤ suggestionDistance ||
      typed.toList.isPrefixOf command.name.toList)

/-- The commands that may have been meant by a word. -/
def suggestions (word : String) : List Command :=
  Command.root.children.filter (isSuggested word)

/-- What is wrong with a command line. -/
inductive UsageFault where
  | unknownCommand (word : String) (suggested : List Command)
  | unexpectedArgument (word : String) (command : Command)
  | wrongCount (expected received : Nat)
  | unknownFlag (name : String)
  | unknownLetter (letter : Char) (letters : String)
  | missingValue (name : String)
  | missingLetterValue (letter : Char) (letters : String)
  | malformedFlag (text : String)
  | wrongValue (flag : Flag) (value : String) (reason : String)
deriving DecidableEq, Repr

namespace UsageFault

/-- A letter between single quotes. -/
def quotedLetter (letter : Char) : String :=
  let inner :=
    if letter = '\'' then
      ['\\', '\'']
    else if letter = '"' then
      ['"']
    else
      Text.quoteChar letter
  String.ofList (['\''] ++ inner ++ ['\''])

/-- The question after commands that may have been meant. -/
def suggestionText (suggested : List Command) : String :=
  if suggested.isEmpty then
    ""
  else
    "\n\nDid you mean this?\n" ++
      String.join (suggested.map fun command => "\t" ++ command.name ++ "\n")

/-- How a fault is told. -/
def message : UsageFault → String
  | .unknownCommand word suggested =>
      "unknown command " ++ Text.quote word ++ " for " ++ Text.quote Command.root.path ++
        suggestionText suggested
  | .unexpectedArgument word command =>
      "unknown command " ++ Text.quote word ++ " for " ++ Text.quote command.path
  | .wrongCount expected received =>
      "accepts " ++ toString expected ++ " arg(s), received " ++ toString received
  | .unknownFlag name => "unknown flag: --" ++ name
  | .unknownLetter letter letters =>
      "unknown shorthand flag: " ++ quotedLetter letter ++ " in -" ++ letters
  | .missingValue name => "flag needs an argument: --" ++ name
  | .missingLetterValue letter letters =>
      "flag needs an argument: " ++ quotedLetter letter ++ " in -" ++ letters
  | .malformedFlag text => "bad flag syntax: " ++ text
  | .wrongValue flag value reason =>
      "invalid argument " ++ Text.quote value ++ " for " ++ Text.quote flag.display ++ " flag: " ++
        reason

end UsageFault

/-!
## Requests

A command line is read in two steps. First the words that are neither flags nor their
values lead to a command; then the flags of that command are read, and what remains
are its arguments.
-/

/-- Whether a word has the form of a flag. -/
def isFlagWord (word : String) : Bool :=
  word.toList.head? = some '-'

/-- Whether a word is a flag whose value is the next word. -/
def takesNext (flags : List Flag) (word : String) : Bool :=
  match word.toList with
  | '-' :: '-' :: name =>
      !name.contains '=' && !((Flag.named? flags (String.ofList name)).any Flag.isOptional)
  | ['-', letter] =>
      letter.toNat < 0x80 && letter ≠ '=' && !((Flag.lettered? flags letter).any Flag.isOptional)
  | _ => false

/-- The words that are neither flags nor values of flags, as far as this can be told. -/
def plainWords (flags : List Flag) : List String → List String
  | [] => []
  | word :: rest =>
      if word = "--" then
        []
      else if takesNext flags word then
        match rest with
        | [] => []
        | [_] => []
        | _ :: more => plainWords flags more
      else if word ≠ "" && !isFlagWord word then
        word :: plainWords flags rest
      else
        plainWords flags rest

/-- The words without the first that is a given one and no value of a flag. -/
def withoutWord (flags : List Flag) (dropped : String) : List String → List String
  | [] => []
  | word :: rest =>
      if word = "--" then
        word :: rest
      else if takesNext flags word then
        match rest with
        | [] => [word]
        | value :: more => word :: value :: withoutWord flags dropped more
      else if !isFlagWord word && word = dropped then
        rest
      else
        word :: withoutWord flags dropped rest

/-- The depth of the tree of commands. -/
def treeDepth : Nat := 2

/-- Go down the tree of commands as far as words lead. -/
def descend : Nat → Command → List String → Command × List String
  | 0, command, words => (command, words)
  | depth + 1, command, words =>
      match plainWords command.workFlags words with
      | [] => (command, words)
      | word :: _ =>
          match command.children.find? fun child => child.name == word with
          | none => (command, words)
          | some child => descend depth child (withoutWord command.workFlags word words)

/-- The command that words lead to, and the other words. -/
def locate (words : List String) : Except UsageFault (Command × List String) :=
  let (command, rest) := descend treeDepth .root words
  if command = .root then
    match plainWords command.workFlags rest with
    | [] => .ok (command, rest)
    | word :: _ => .error (.unknownCommand word (suggestions word))
  else
    .ok (command, rest)

/-- What a command line asks for: flags that were given, the last first, and arguments. -/
structure Request where
  command : Command
  given : List (String × FlagValue) := []
  arguments : List String := []
deriving DecidableEq, Repr, Inhabited

namespace Request

/-- Set a flag. -/
def set (request : Request) (flag : Flag) (text : String) : Except UsageFault Request :=
  match flag.read text with
  | .ok value => .ok { request with given := (flag.name, value) :: request.given }
  | .error reason => .error (.wrongValue flag text reason)

/-- The text in front of and behind the first equals sign. -/
def splitValue : List Char → List Char × Option (List Char)
  | [] => ([], none)
  | '=' :: rest => ([], some rest)
  | value :: rest =>
      let (front, back) := splitValue rest
      (value :: front, back)

/-- The value that a truth flag has when it is given without one. -/
def impliedValue : String := "true"

/-- Read a flag with its long name; it may take the next word. -/
def readLong (request : Request) (word : String) (name : List Char) (rest : List String) :
    Except UsageFault (Request × List String) :=
  match name with
  | [] => .error (.malformedFlag word)
  | '-' :: _ => .error (.malformedFlag word)
  | '=' :: _ => .error (.malformedFlag word)
  | _ =>
      let (front, value?) := splitValue name
      let flagName := String.ofList front
      match Flag.named? request.command.flags flagName with
      | none => .error (.unknownFlag flagName)
      | some flag =>
          match value? with
          | some value => (request.set flag (String.ofList value)).map fun after => (after, rest)
          | none =>
              if flag.isOptional then
                (request.set flag impliedValue).map fun after => (after, rest)
              else
                match rest with
                | [] => .error (.missingValue flagName)
                | value :: more => (request.set flag value).map fun after => (after, more)

/-- The letter that a message shows for the start of some letters. -/
def shownLetter (letter : Char) : Char :=
  if letter.toNat < 0x80 then
    letter
  else
    Char.ofNat 0xC3

/-- How letters start that are meant for a test runner. -/
def testRunnerMark : List Char := "test.".toList

/--
Read flags with their letters; the last of them may take the next word. Letters for a
test runner are passed over.
-/
def readLetters (request : Request) (rest : List String) :
    List Char → Except UsageFault (Request × List String)
  | [] => .ok (request, rest)
  | letter :: more =>
      let letters := String.ofList (letter :: more)
      match Flag.lettered? request.command.flags letter with
      | none =>
          if testRunnerMark.isPrefixOf (letter :: more) then
            .ok (request, rest)
          else
            .error (.unknownLetter (shownLetter letter) letters)
      | some flag =>
          match more with
          | '=' :: first :: value =>
              (request.set flag (String.ofList (first :: value))).map fun after => (after, rest)
          | _ =>
              if flag.isOptional then
                match request.set flag impliedValue with
                | .error fault => .error fault
                | .ok after => after.readLetters rest more
              else if !more.isEmpty then
                (request.set flag (String.ofList more)).map fun after => (after, rest)
              else
                match rest with
                | [] => .error (.missingLetterValue letter letters)
                | value :: others => (request.set flag value).map fun after => (after, others)

/-- Add arguments behind those there are. -/
def take (request : Request) (words : List String) : Request :=
  { request with arguments := request.arguments ++ words }

/-- Read at most a number of words. -/
def readWithin : Nat → Request → List String → Except UsageFault Request
  | 0, request, _ => .ok request
  | _ + 1, request, [] => .ok request
  | fuel + 1, request, word :: rest =>
      match word.toList with
      | ['-', '-'] => .ok (request.take rest)
      | '-' :: '-' :: name =>
          match request.readLong word name rest with
          | .error fault => .error fault
          | .ok (after, others) => readWithin fuel after others
      | '-' :: letter :: letters =>
          match request.readLetters rest (letter :: letters) with
          | .error fault => .error fault
          | .ok (after, others) => readWithin fuel after others
      | _ => readWithin fuel (request.take [word]) rest

/-- Read the words behind a command. -/
def read (command : Command) (words : List String) : Except UsageFault Request :=
  readWithin words.length { command := command } words

/-- The value that a flag was given, if it was. -/
def given? (request : Request) (name : String) : Option FlagValue :=
  request.given.lookup name

/-- The value of a flag. -/
def value (request : Request) (name : String) : FlagValue :=
  match request.given? name with
  | some value => value
  | none => ((Flag.named? request.command.flags name).map Flag.default).getD (.text "")

/-- The value of a text flag. -/
def text (request : Request) (name : String) : String :=
  match request.value name with
  | .text value => value
  | _ => ""

/-- The value of a truth flag. -/
def truth (request : Request) (name : String) : Bool :=
  match request.value name with
  | .truth value => value
  | _ => false

/-- The value of a number flag. -/
def integer (request : Request) (name : String) : Int :=
  match request.value name with
  | .integer value => value
  | _ => 0

/-- What is wrong with the number of arguments. -/
def countFault? (request : Request) : Option UsageFault :=
  match request.command.arity with
  | .any => none
  | .none => request.arguments.head?.map fun word => .unexpectedArgument word request.command
  | .exactly count =>
      if request.arguments.length = count then
        none
      else
        some (.wrongCount count request.arguments.length)

end Request

/-- What a command line asks for: to run a command, or to tell about it. -/
inductive Reading where
  | run (request : Request)
  | showHelp (command : Command)
  | showVersion
deriving DecidableEq, Repr

/-- Read a command line. -/
def read (words : List String) : Except UsageFault Reading :=
  match locate words with
  | .error fault => .error fault
  | .ok (command, rest) =>
      match Request.read command rest with
      | .error fault => .error fault
      | .ok request =>
          if request.truth "help" then
            .ok (.showHelp command)
          else if command = .root && request.truth "version" then
            .ok .showVersion
          else if !command.isRunnable then
            .ok (.showHelp command)
          else
            match request.countFault? with
            | some fault => .error fault
            | none => .ok (.run request)

end IlsCompiler.CommandLine
