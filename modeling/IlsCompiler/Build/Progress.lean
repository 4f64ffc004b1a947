import IlsCompiler.Build.Stage
import IlsCompiler.Text.Basic
import IlsCompiler.Text.Width

namespace IlsCompiler

/-!
# Progress of a build

What is shown of a running build: every file with the stage it is in, a bar, and how
many files are finished. An error is final for its file; no later event changes it.
-/

/-- How far a file is. -/
structure FileProgress where
  path : String
  stage : Stage := .other ""
  status : Status := .queued
deriving DecidableEq, Repr, Inhabited

namespace FileProgress

/-- Whether nothing more happens to a file. -/
def isFinished (file : FileProgress) : Bool :=
  match file.status with
  | .error => true
  | .cached => true
  | .done => file.stage == .write
  | _ => false

/-- The word for work in a stage. -/
def workLabel? : Stage → Option String
  | .parse => some "parsing"
  | .lower => some "lowering"
  | .prune => some "pruning"
  | .emit => some "emitting"
  | .write => some "writing"
  | .other _ => none

/-- The word for work that is done. -/
def doneLabel : Stage → String
  | .parse => "parsed"
  | .lower => "lowered"
  | .prune => "pruned"
  | .emit => "emitted"
  | .write => "done"
  | .other _ => "done"

/-- The word for how far a file is. -/
def label (file : FileProgress) : String :=
  match file.status with
  | .working => (workLabel? file.stage).getD file.status.name
  | .done => doneLabel file.stage
  | status => status.name

/-- The stages that a file has behind it, by the stage and status it is in. -/
def stagesBehind (stage : Stage) (status : Status) : Nat :=
  if status = .queued then
    0
  else
    match Stage.all.idxOf? stage with
    | none => 0
    | some number => if status = .done then number + 1 else number

/-- The share of a file that is done, in parts of the number of stages. -/
def share (file : FileProgress) : Nat :=
  if file.isFinished then
    Stage.all.length
  else
    stagesBehind file.stage file.status

/-- Take an event in, unless an error came before it. -/
def apply (event : BuildEvent) (file : FileProgress) : FileProgress :=
  if file.status = .error then
    file
  else
    { file with stage := event.stage, status := event.status }

end FileProgress

/-- What is shown of a build. -/
structure Progress where
  title : String
  files : List FileProgress
  width : Nat := 80
  barWidth : Nat := 60
  isDone : Bool := false
deriving DecidableEq, Repr, Inhabited

namespace Progress

/-- A build that has not begun. -/
def start (title : String) (paths : List String) : Progress :=
  { title := title, files := paths.map fun path => { path := path } }

/-- The place of the last file with a path. -/
def place? (files : List FileProgress) (path : String) : Option Nat :=
  match files with
  | [] => none
  | file :: rest =>
      match place? rest path with
      | some number => some (number + 1)
      | none => if file.path = path then some 0 else none

/-- Take an event in; one about an unknown file changes nothing. -/
def apply (progress : Progress) (event : BuildEvent) : Progress :=
  match place? progress.files event.file with
  | none => progress
  | some number =>
      { progress with files := progress.files.modify number (FileProgress.apply event) }

/-- Fit the view into a terminal; a width that is not positive is not known. -/
def resize (progress : Progress) (width : Int) : Progress :=
  if 0 < width then
    { progress with width := width.toNat, barWidth := max (width.toNat - 4) 10 }
  else
    progress

/-- The build has ended. -/
def finish (progress : Progress) : Progress :=
  { progress with isDone := true }

/-- The shares of all files together. -/
def share (progress : Progress) : Nat :=
  progress.files.foldl (fun total file => total + file.share) 0

/-- A quotient rounded to the nearest number, a half upwards. -/
def nearest (numerator denominator : Nat) : Nat :=
  (2 * numerator + denominator) / (2 * denominator)

/-- The part of the build that is done in millionths; a build without files has none. -/
def millionths? (progress : Progress) : Option Nat :=
  if progress.files.isEmpty then
    none
  else
    some (nearest (progress.share * 1000000) (Stage.all.length * progress.files.length))

/-- How many files are finished with a status. -/
def count (progress : Progress) (status : Status) : Nat :=
  (progress.files.filter fun file => file.isFinished && file.status == status).length

/-- How many files are finished. -/
def finished (progress : Progress) : Nat :=
  (progress.files.filter FileProgress.isFinished).length

/-- The files in numbers. -/
def summary (progress : Progress) : String :=
  let cached := progress.count .cached
  let failed := progress.count .error
  toString progress.finished ++ "/" ++ toString progress.files.length ++ " files" ++
    (if 0 < cached then ", " ++ toString cached ++ " cached" else "") ++
    (if 0 < failed then ", " ++ toString failed ++ " failed" else "")

/-- The columns for the word of a file, and those around it and its path. -/
def labelWidth : Nat := 10

/-- The columns of a line that neither the word nor the path takes. -/
def marginWidth : Nat := 4

/-- The least number of columns for a path. -/
def leastPathWidth : Nat := 20

/-- The line of a file. -/
def fileLine (progress : Progress) (file : FileProgress) : String :=
  let width := max (progress.width - labelWidth - marginWidth) leastPathWidth
  "  " ++ Text.evenLines (Text.padLeft labelWidth file.label) ++ " " ++
    Text.shorten width file.path ++ "\n"

/-- The sign of a build that goes on. -/
def sign : String := "⠋"

/-- The line above the files. -/
def header (progress : Progress) : String :=
  if progress.isDone then
    "done: " ++ progress.title
  else
    sign ++ " " ++ progress.title

/-- The bar, which fills when the build has ended. -/
def bar (progress : Progress) : String :=
  String.ofList (List.replicate progress.barWidth (if progress.isDone then '█' else '░'))

/-- The whole view; a build without files shows nothing. -/
def view (progress : Progress) : String :=
  if progress.files.isEmpty then
    ""
  else
    Text.evenLines progress.header ++ "\n\n" ++
      String.join (progress.files.map progress.fileLine) ++ "\n" ++ progress.bar ++ "\n" ++
      progress.summary ++ "\n"

end Progress

end IlsCompiler
