namespace IlsCompiler

/-!
# Phases of a compilation

A compilation runs its phases in order. It can be cancelled; whether it was is
looked at before each phase, before each function that is lowered and before each
node that code is made for.
-/

/-- A phase of a compilation. -/
inductive Phase where
  | parse
  | lower
  | prune
  | emit
deriving DecidableEq, Repr, Inhabited

namespace Phase

/-- The phases in the order they run. -/
def all : List Phase := [.parse, .lower, .prune, .emit]

/-- The word for a phase. -/
def name : Phase → String
  | .parse => "parse"
  | .lower => "lower"
  | .prune => "prune"
  | .emit => "emit"

/-- The phase that a word names. -/
def ofName? (name : String) : Option Phase :=
  all.find? fun phase => phase.name == name

/-- The place of a phase in the order. -/
def rank : Phase → Nat
  | .parse => 0
  | .lower => 1
  | .prune => 2
  | .emit => 3

end Phase

/-- A point at which a cancellation takes effect. -/
inductive Checkpoint where
  | phase (next : Phase)
  | function (number : Nat)
  | node (number : Nat)
deriving DecidableEq, Repr

namespace Checkpoint

/-- Whether a checkpoint is passed only after a phase has started. -/
def follows (checkpoint : Checkpoint) (phase : Phase) : Bool :=
  match checkpoint with
  | .phase next => phase.rank < next.rank
  | .function _ => phase.rank ≤ Phase.lower.rank
  | .node _ => phase.rank ≤ Phase.emit.rank

end Checkpoint

/-- At which checkpoints a compilation finds itself cancelled. -/
abbrev Cancellation := Checkpoint → Bool

namespace Cancellation

/-- No cancellation. -/
def never : Cancellation := fun _ => false

/-- A cancellation in advance. -/
def now : Cancellation := fun _ => true

/-- A cancellation when a phase starts. -/
def atStartOf (phase : Phase) : Cancellation :=
  fun checkpoint => checkpoint.follows phase

end Cancellation

end IlsCompiler
