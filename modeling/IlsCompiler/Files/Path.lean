namespace IlsCompiler

/-!
# Paths

A path leads from the root or from the working directory through names. Paths are
kept in their cleaned form: without empty steps, without steps that stay where they
are, and with steps to the parent only at the front of a path that does not start at
the root.
-/

/-- A cleaned path. -/
structure Path where
  isAbsolute : Bool
  names : List String
deriving DecidableEq, Repr, Inhabited

namespace Path

/-- The step that stays where it is. -/
def here : String := "."

/-- The step to the parent. -/
def up : String := ".."

/-- Characters split at every slash. -/
def splitSlashes : List Char → List (List Char)
  | [] => [[]]
  | value :: rest =>
      if value = '/' then
        [] :: splitSlashes rest
      else
        match splitSlashes rest with
        | [] => [[value]]
        | part :: others => (value :: part) :: others

/-- The steps of a text, some of which may be empty. -/
def steps (text : String) : List String :=
  (splitSlashes text.toList).map String.ofList

/-- Whether a text starts at the root. -/
def startsAtRoot (text : String) : Bool :=
  text.toList.head? = some '/'

/-- Take one step behind cleaned names. -/
def step (isAbsolute : Bool) (names : List String) (name : String) : List String :=
  if name = "" || name = here then
    names
  else if name = up then
    match names.getLast? with
    | none => if isAbsolute then [] else [up]
    | some last => if last = up then names ++ [up] else names.dropLast
  else
    names ++ [name]

/-- The path that a text leads along. -/
def parse (text : String) : Path :=
  { isAbsolute := startsAtRoot text,
    names := (steps text).foldl (step (startsAtRoot text)) [] }

/-- Follow a text from a path on, wherever the text starts. -/
def extend (path : Path) (text : String) : Path :=
  { path with names := (steps text).foldl (step path.isAbsolute) path.names }

/-- Two texts as one path; an empty first text is left out. -/
def join (first second : String) : Path :=
  if first = "" then
    parse second
  else
    (parse first).extend second

/-- The text of a path. -/
def text (path : Path) : String :=
  if path.isAbsolute then
    "/" ++ "/".intercalate path.names
  else if path.names.isEmpty then
    here
  else
    "/".intercalate path.names

/-- The path without its last name. -/
def parent (path : Path) : Path :=
  { path with names := path.names.dropLast }

/-- A text with the working directory in front of it, unless it starts at the root. -/
def absolute (directory text : String) : Path :=
  if startsAtRoot text then
    parse text
  else
    join directory text

/-- The name at the end of a text; slashes behind it do not count. -/
def lastName (text : String) : String :=
  if text = "" then
    here
  else
    match (text.toList.reverse.dropWhile (· == '/')).takeWhile (· != '/') with
    | [] => "/"
    | name => String.ofList name.reverse

/-- The characters from the last dot on, if one stands in the last name; taken in reverse. -/
def reversedExtension : List Char → Option (List Char)
  | [] => none
  | value :: rest =>
      if value = '/' then
        none
      else if value = '.' then
        some ['.']
      else
        (reversedExtension rest).map fun extension => value :: extension

/-- The extension of a text with its dot; a name without a dot has none. -/
def extension (text : String) : String :=
  String.ofList ((reversedExtension text.toList.reverse).getD []).reverse

/-- A text without its extension. -/
def withoutExtension (text : String) : String :=
  String.ofList (text.toList.take (text.length - (extension text).length))

/-- The steps for a way from a directory; the directory itself is one step. -/
def targetSteps (path : Path) : List String :=
  if path.isAbsolute || !path.names.isEmpty then
    path.names
  else
    [here]

/-- The steps behind those that two paths share. -/
def behindCommon : List String → List String → List String × List String
  | name :: names, other :: others =>
      if name = other then
        behindCommon names others
      else
        (name :: names, other :: others)
  | names, others => (names, others)

/--
The way from a directory to a path, if it can be told from the texts alone. It cannot
if only one of the two starts at the root, or if it would lead down from a parent that
has no name.
-/
def relative? (directory target : Path) : Option String :=
  if directory = target then
    some here
  else if directory.isAbsolute != target.isAbsolute then
    none
  else
    let (left, right) := behindCommon directory.names target.targetSteps
    if left.head? = some up && !right.isEmpty then
      none
    else
      some ("/".intercalate (left.map (fun _ => up) ++ right))

end Path

end IlsCompiler
