import IlsCompiler.Diagnostic.Failure

namespace IlsCompiler

/-!
# Bags of diagnostics

A bag collects diagnostics in the order they are reported, up to a limit.
Sorting is stable: diagnostics that agree on file, line, severity and code keep
their order.
-/

/-- Diagnostics in order of arrival, and how many there may be. -/
structure Bag where
  items : List Diagnostic
  limit : Nat
deriving DecidableEq, Repr, Inhabited

namespace Bag

/-- The limit of a bag that was asked for without one. -/
def defaultLimit : Nat := 100

/-- An empty bag; a limit that is not positive stands for the default. -/
def empty (limit : Int) : Bag :=
  { items := [], limit := if limit ≤ 0 then defaultLimit else limit.toNat }

/-- Add a diagnostic, or say that the bag is full. -/
def add (bag : Bag) (diagnostic : Diagnostic) : Bag × Bool :=
  if bag.limit ≤ bag.items.length then
    (bag, false)
  else
    ({ bag with items := bag.items ++ [diagnostic] }, true)

/-- Add diagnostics one after the other. -/
def addAll (bag : Bag) (diagnostics : List Diagnostic) : Bag :=
  diagnostics.foldl (fun current diagnostic => (current.add diagnostic).1) bag

/-- Whether some diagnostic stops the build. -/
def hasErrors (bag : Bag) : Bool :=
  bag.items.any fun diagnostic => diagnostic.severity.isError

/-- The first diagnostic that stops the build. -/
def firstError? (bag : Bag) : Option Diagnostic :=
  bag.items.find? fun diagnostic => diagnostic.severity.isError

/-- Whether one diagnostic is listed before another: by file, line, severity from worst, code. -/
def precedes (left right : Diagnostic) : Bool :=
  if left.file ≠ right.file then
    left.file < right.file
  else if left.line ≠ right.line then
    left.line < right.line
  else if left.severity ≠ right.severity then
    right.severity.rank < left.severity.rank
  else
    left.code.number < right.code.number

/-- The bag in listing order. -/
def sort (bag : Bag) : Bag :=
  { bag with items := bag.items.mergeSort fun left right => !precedes right left }

/-- What two diagnostics share when one repeats the other. -/
def repeatKey (diagnostic : Diagnostic) : String :=
  diagnostic.code.id ++ ":" ++ diagnostic.file ++ ":" ++ toString diagnostic.line

/-- Keep the first of the diagnostics that share a key. -/
def withoutRepeats (seen : List String) : List Diagnostic → List Diagnostic
  | [] => []
  | diagnostic :: rest =>
      if repeatKey diagnostic ∈ seen then
        withoutRepeats seen rest
      else
        diagnostic :: withoutRepeats (repeatKey diagnostic :: seen) rest

/-- The bag without repeated diagnostics. -/
def dedup (bag : Bag) : Bag :=
  { bag with items := withoutRepeats [] bag.items }

end Bag

end IlsCompiler
