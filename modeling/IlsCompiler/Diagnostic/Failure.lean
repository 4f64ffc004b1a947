import IlsCompiler.Diagnostic.Basic

namespace IlsCompiler

/-!
# Failures

A failure is what ends a step early: a diagnostic, a cancellation or a plain
message. A failure can be wrapped in a context, whose text is fixed at that
moment, or joined with a message that goes in front of it; in both cases the
diagnostic inside stays reachable.
-/

/-- Why a step ended without a result. -/
inductive Failure where
  | diagnosed (diagnostic : Diagnostic)
  | cancelled
  | plain (message : Bytes)
  | wrapped (text : Bytes) (cause : Failure)
  | joined (lead : Bytes) (cause : Failure)
deriving DecidableEq, Repr, Inhabited

namespace Failure

/-- The full text of a failure, contexts included. -/
def text : Failure → Bytes
  | .diagnosed diagnostic => diagnostic.text
  | .cancelled => Bytes.ofString "context canceled"
  | .plain message => message
  | .wrapped fixedText _ => fixedText
  | .joined lead cause => lead ++ Bytes.ofString "\n" ++ cause.text

/-- The diagnostic a failure carries, if any. -/
def diagnostic? : Failure → Option Diagnostic
  | .diagnosed diagnostic => some diagnostic
  | .cancelled => none
  | .plain _ => none
  | .wrapped _ cause => cause.diagnostic?
  | .joined _ cause => cause.diagnostic?

/-- Whether a failure comes from a cancellation. -/
def isCancelled : Failure → Bool
  | .diagnosed _ => false
  | .cancelled => true
  | .plain _ => false
  | .wrapped _ cause => cause.isCancelled
  | .joined _ cause => cause.isCancelled

/-- The code of the diagnostic a failure carries. -/
def code (failure : Failure) : Code :=
  match failure.diagnostic? with
  | some diagnostic => diagnostic.code
  | none => .unknown

/-- Change the diagnostic a failure carries; fixed texts stay as they are. -/
def mapDiagnostic (change : Diagnostic → Diagnostic) : Failure → Failure
  | .diagnosed diagnostic => .diagnosed (change diagnostic)
  | .cancelled => .cancelled
  | .plain message => .plain message
  | .wrapped fixedText cause => .wrapped fixedText (cause.mapDiagnostic change)
  | .joined lead cause => .joined lead (cause.mapDiagnostic change)

/-- Give a diagnostic without a line the given line. -/
def atLine (line : Int) (failure : Failure) : Failure :=
  failure.mapDiagnostic fun diagnostic => diagnostic.atLine line

/-- Give a diagnostic without a file the given file. -/
def inFile (file : String) (failure : Failure) : Failure :=
  failure.mapDiagnostic fun diagnostic => diagnostic.inFile file

/-- Put a context in front of a failure; the text is fixed as it reads now. -/
def wrap (lead : Bytes) (cause : Failure) : Failure :=
  .wrapped (lead ++ cause.text) cause

/-- An error-severity diagnostic as a failure. -/
def report (code : Code) (line : Int) (message : String) : Failure :=
  .diagnosed { Diagnostic.error code (Bytes.ofString message) with line := line }

end Failure

/-- Change the failure of a result. -/
def Except.onFailure (change : Failure → Failure) : Except Failure α → Except Failure α
  | .ok value => .ok value
  | .error failure => .error (change failure)

end IlsCompiler
