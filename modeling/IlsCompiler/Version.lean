import IlsCompiler.Text.Quoted
import IlsCompiler.Text.Basic

namespace IlsCompiler

/-!
# Versions of the compiler

What a build of the compiler is called, and how it presents itself.
-/

/-- A build: its version, and where it comes from if that is known. -/
structure Version where
  number : String
  commit : String := ""
  date : String := ""
deriving DecidableEq, Repr, Inhabited

namespace Version

/-- This build. -/
def current : Version := { number := "0.3.0-dev" }

/-- The name of the program. -/
def tool : String := "ilsc"

/-- What the compiler makes code for. -/
def target : String := "x86_64-linux nasm"

/-- The characters in front of and behind the first occurrence of a character. -/
def cut? (mark : Char) : List Char → Option (List Char × List Char)
  | [] => none
  | value :: rest =>
      if value = mark then
        some ([], rest)
      else
        (cut? mark rest).map fun (front, back) => (value :: front, back)

/-- Major, minor and patch number of a version without its suffix. -/
def parts? (core : List Char) : Option (List Char × List Char × List Char) := do
  let (major, rest) ← cut? '.' core
  let (minor, patch) ← cut? '.' rest
  return (major, minor, patch)

/-- The version with each of its three numbers in a style of its own. -/
def colored (version : Version) (enabled : Bool) : String :=
  let (core, suffix) :=
    match cut? '-' version.number.toList with
    | some (front, back) => (front, "-" ++ String.ofList back)
    | none => (version.number.toList, "")
  match parts? core with
  | none => version.number
  | some (major, minor, patch) =>
      Text.Style.boldYellow.apply enabled (String.ofList major) ++ "." ++
        Text.Style.boldGreen.apply enabled (String.ofList minor) ++ "." ++
        Text.Style.boldBlue.apply enabled (String.ofList patch) ++ suffix

/-- What tells builds apart: a cached outcome of another build is never used. -/
def fingerprint (version : Version) : String :=
  if version.commit = "" then
    version.number
  else
    version.number ++ "+" ++ version.commit

/-- A value that may not be known. -/
def known (text : String) : String :=
  let trimmed := Text.trim text
  if trimmed = "" then
    "unknown"
  else
    trimmed

/-- The version for people. -/
def pretty (version : Version) (withCommit withDate enabled : Bool) : String :=
  tool ++ " " ++ version.colored enabled ++ " (" ++ target ++ ")\n" ++
    (if withCommit then "commit: " ++ known version.commit ++ "\n" else "") ++
    (if withDate then "built:  " ++ known version.date ++ "\n" else "")

/-- The version in JSON. -/
def json (version : Version) (withCommit withDate : Bool) : String :=
  let fields :=
    [("tool", tool), ("version", version.number), ("target", target)] ++
      (if withCommit then [("git_commit", known version.commit)] else []) ++
      (if withDate then [("build_date", known version.date)] else [])
  "\x7b\n" ++
    ",\n".intercalate (fields.map fun field =>
      "  " ++ Text.jsonString field.1 ++ ": " ++ Text.jsonString field.2) ++
    "\n\x7d\n"

end Version

end IlsCompiler
