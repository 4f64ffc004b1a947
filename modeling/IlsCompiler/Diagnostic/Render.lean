import IlsCompiler.Diagnostic.Basic
import IlsCompiler.Text.Basic

namespace IlsCompiler.Diagnostic

open IlsCompiler.Text

/-!
# Printed diagnostics

One line for each diagnostic and one for each of its notes.
-/

/-- The style of a severity's word. -/
def severityStyle (severity : Severity) : Style :=
  match severity.rank with
  | 2 => .boldRed
  | 1 => .boldYellow
  | _ => .cyan

/-- The line of a note. -/
def noteLine (note : Note) : Bytes :=
  let lead :=
    if 0 < note.line then
      "  note (line " ++ toString note.line ++ "): "
    else
      "  note: "
  Bytes.ofString lead ++ note.message ++ Bytes.ofString "\n"

/-- A diagnostic and its notes, one line each. -/
def renderOne (styled : Bool) (diagnostic : Diagnostic) : Bytes :=
  let severity := (severityStyle diagnostic.severity).apply styled diagnostic.severity.name
  let code := Style.faint.apply styled diagnostic.code.id
  let place := diagnostic.location
  let lead := if place = "" then "" else Style.bold.apply styled place ++ ": "
  Bytes.ofString (lead ++ severity ++ " " ++ code ++ ": ") ++ diagnostic.message ++
    Bytes.ofString "\n" ++ diagnostic.notes.flatMap noteLine

/-- Diagnostics in order, with styles if they are switched on. -/
def render (styled : Bool) (diagnostics : List Diagnostic) : Bytes :=
  diagnostics.flatMap (renderOne styled)

end IlsCompiler.Diagnostic
