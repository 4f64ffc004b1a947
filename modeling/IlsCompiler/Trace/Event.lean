import IlsCompiler.Text.Fixed
import IlsCompiler.Trace.Level

namespace IlsCompiler.Trace

/-!
# Trace events

An event and the two forms in which it is written: a line for people, and a line
of JSON.
-/

/-- Whether an event opens a span, closes one, or stands alone. -/
inductive Kind where
  | opening
  | closing
  | point
  | other
deriving DecidableEq, Repr, Inhabited

namespace Kind

/-- The kind with a number. -/
def ofNumber : Nat → Kind
  | 1 => .opening
  | 2 => .closing
  | 3 => .point
  | _ => .other

/-- The word for a kind. -/
def name : Kind → String
  | .opening => "begin"
  | .closing => "end"
  | .point => "point"
  | .other => "unknown"

/-- The mark of a kind in a line for people. -/
def mark : Kind → String
  | .opening => "→ "
  | .closing => "← "
  | .point => "• "
  | .other => "• "

end Kind

/-- A moment, in microseconds from the start of 1970. -/
structure Instant where
  microseconds : Int
deriving DecidableEq, Repr, Inhabited

namespace Instant

/-- The microseconds of a day. -/
def day : Nat := 86400000000

/-- Year, month and day of a day counted from the start of 1970, with years that begin in March. -/
def date (days : Int) : Int × Nat × Nat :=
  let shifted := days + 719468
  let era := shifted / 146097
  let dayOfEra := (shifted % 146097).toNat
  let yearOfEra :=
    (dayOfEra - dayOfEra / 1460 + dayOfEra / 36524 - dayOfEra / 146096) / 365
  let dayOfYear := dayOfEra - (365 * yearOfEra + yearOfEra / 4 - yearOfEra / 100)
  let monthFromMarch := (5 * dayOfYear + 2) / 153
  let dayOfMonth := dayOfYear - (153 * monthFromMarch + 2) / 5 + 1
  let month := if monthFromMarch < 10 then monthFromMarch + 3 else monthFromMarch - 9
  let year := (yearOfEra : Int) + era * 400
  (if month ≤ 2 then year + 1 else year, month, dayOfMonth)

/-- A moment as date and time of day with six decimals, in universal time. -/
def text (instant : Instant) : String :=
  let (year, month, dayOfMonth) := date (instant.microseconds / day)
  let inDay := (instant.microseconds % day).toNat
  let seconds := inDay / 1000000
  let sign := if year < 0 then "-" else ""
  sign ++ Text.zeroPadded 4 year.natAbs ++ "-" ++ Text.zeroPadded 2 month ++ "-" ++
    Text.zeroPadded 2 dayOfMonth ++ "T" ++ Text.zeroPadded 2 (seconds / 3600) ++ ":" ++
    Text.zeroPadded 2 (seconds / 60 % 60) ++ ":" ++ Text.zeroPadded 2 (seconds % 60) ++ "." ++
    Text.zeroPadded 6 (inDay % 1000000) ++ "Z"

end Instant

/-- One record of a trace; a span number of zero means none. -/
structure Event where
  time : Instant := ⟨0⟩
  sequence : Nat
  kind : Kind
  granularity : Granularity
  span : Nat
  parent : Nat
  name : String
  detail : String
  /-- How long the span was open, in nanoseconds. -/
  elapsed : Int := 0
  extras : List (String × String) := []
deriving DecidableEq, Repr, Inhabited

namespace Event

/-- Whole microseconds that a span was open. -/
def microseconds (event : Event) : Int :=
  event.elapsed.tdiv 1000

/-- The extras by key. -/
def sortedExtras (event : Event) : List (String × String) :=
  event.extras.mergeSort fun left right => !(right.1 < left.1)

/-- The line of an event for people. -/
def line (event : Event) : String :=
  let extras :=
    if event.extras.isEmpty then
      ""
    else
      " \x7b" ++ ", ".intercalate (event.sortedExtras.map fun pair => pair.1 ++ "=" ++ pair.2) ++
        "\x7d"
  "#" ++ Text.padRight 5 (toString event.sequence) ++ " " ++
    Text.padRight 6 event.granularity.name ++ " " ++
    (if 0 < event.parent then "  " else "") ++ event.kind.mark ++ event.name ++
    (if event.detail = "" then "" else " (" ++ event.detail ++ ")") ++
    (if event.kind = .closing then
      " " ++ Text.fixedQuotient 3 event.microseconds 1000 ++ "ms"
    else
      "") ++
    extras ++ "\n"

/-- The fields of an event in JSON; those that say nothing are left out. -/
def jsonFields (event : Event) : List (String × String) :=
  [("time", Text.jsonString event.time.text), ("seq", toString event.sequence),
    ("kind", Text.jsonString event.kind.name),
    ("scope", Text.jsonString event.granularity.name)] ++
    (if event.span = 0 then [] else [("span_id", toString event.span)]) ++
    (if event.parent = 0 then [] else [("parent_id", toString event.parent)]) ++
    [("name", Text.jsonString event.name)] ++
    (if event.detail = "" then [] else [("detail", Text.jsonString event.detail)]) ++
    (if event.microseconds = 0 then
      []
    else
      [("elapsed_ms", Text.thousandths event.microseconds)]) ++
    (if event.extras.isEmpty then
      []
    else
      [("extra", Text.jsonObject
        (event.sortedExtras.map fun pair => (pair.1, Text.jsonString pair.2)))])

/-- The line of an event in JSON. -/
def jsonLine (event : Event) : String :=
  Text.jsonObject event.jsonFields ++ "\n"

end Event

/-- The form in which events are written; `automatic` leaves the choice to the file name. -/
inductive Format where
  | automatic
  | plain
  | json
deriving DecidableEq, Repr, Inhabited

namespace Format

/-- The number of a format. -/
def number : Format → Nat
  | .automatic => 0
  | .plain => 1
  | .json => 2

/-- The format that a word names, in any case. -/
def parse (text : String) : Except Failure Format :=
  match Text.lower text with
  | "" => .ok .automatic
  | "auto" => .ok .automatic
  | "text" => .ok .plain
  | "ndjson" => .ok .json
  | "json" => .ok .json
  | _ =>
      .error (.plain ("invalid trace format: " ++ Text.quote text ++
        " (expected: auto|text|ndjson)" : String))

/-- The format for a file, by the end of its name where the choice is left to it. -/
def forFile (format : Format) (path : String) : Format :=
  match format with
  | .automatic => if path.endsWith ".ndjson" || path.endsWith ".jsonl" then .json else .plain
  | chosen => chosen

/-- An event in a format. -/
def write (format : Format) (event : Event) : String :=
  match format with
  | .json => event.jsonLine
  | _ => event.line

end Format

end IlsCompiler.Trace
