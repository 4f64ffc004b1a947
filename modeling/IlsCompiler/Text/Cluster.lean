import IlsCompiler.Text.ClusterTable
import IlsCompiler.Text.Printable

namespace IlsCompiler.Text

/-!
# Clusters

Text falls into clusters: what a reader sees as one character, such as a letter with
its accents, a syllable of Hangul or a flag. Whether two neighbours belong to one
cluster depends on their classes and, for pictographs and flags, on what stands in
front of them in the cluster.
-/

/-- The class of a character within clusters. -/
inductive ClusterClass where
  | carriageReturn
  | lineFeed
  | control
  | extend
  | joiner
  | regional
  | prepend
  | spacingMark
  | leadingJamo
  | vowelJamo
  | trailingJamo
  | openSyllable
  | closedSyllable
  | pictograph
  | other
deriving DecidableEq, Repr, Inhabited

namespace ClusterClass

/-- The first Hangul syllable, the number of syllables, and how many share a vowel. -/
def syllables : Nat × Nat × Nat := (0xAC00, 11172, 28)

/-- Whether a code is a Hangul syllable. -/
def isSyllable (code : Nat) : Bool :=
  syllables.1 ≤ code && code < syllables.1 + syllables.2.1

/-- The class of a character. -/
def ofChar (value : Char) : ClusterClass :=
  let code := value.toNat
  if code = 0x0D then .carriageReturn
  else if code = 0x0A then .lineFeed
  else if 0x20 ≤ code && code < 0x7F then .other
  else if code = 0x200D then .joiner
  else if 0x1F1E6 ≤ code && code ≤ 0x1F1FF then .regional
  else if inRanges [(0x1100, 0x115F), (0xA960, 0xA97C)] code then .leadingJamo
  else if inRanges [(0x1160, 0x11A7), (0xD7B0, 0xD7C6)] code then .vowelJamo
  else if inRanges [(0x11A8, 0x11FF), (0xD7CB, 0xD7FB)] code then .trailingJamo
  else if isSyllable code then
    if (code - syllables.1) % syllables.2.2 = 0 then .openSyllable else .closedSyllable
  else if inRanges extendRanges code then .extend
  else if inRanges spacingMarkRanges code then .spacingMark
  else if inRanges prependRanges code then .prepend
  else if inRanges pictographRanges code then .pictograph
  else if inRanges controlRanges code then .control
  else .other

/-- Whether a class stands alone on a line of its own. -/
def isBreak : ClusterClass → Bool
  | .carriageReturn => true
  | .lineFeed => true
  | .control => true
  | _ => false

end ClusterClass

/-- What matters of a cluster for whether the next character belongs to it. -/
structure ClusterState where
  last : ClusterClass
  /-- Whether the cluster ends in a pictograph with its modifiers. -/
  pictograph : Bool
  /-- Whether it ends in such a pictograph and a joiner. -/
  joined : Bool
  /-- Whether it ends in the first half of a flag. -/
  halfFlag : Bool
deriving DecidableEq, Repr

namespace ClusterState

/-- The state of a cluster of one character. -/
def ofClass (first : ClusterClass) : ClusterState :=
  { last := first, pictograph := first = .pictograph, joined := false,
    halfFlag := first = .regional }

/-- Whether a character of a class belongs to the cluster. -/
def admits (state : ClusterState) (next : ClusterClass) : Bool :=
  if state.last = .carriageReturn && next = .lineFeed then true
  else if state.last.isBreak || next.isBreak then false
  else
    match state.last, next with
    | _, .extend => true
    | _, .joiner => true
    | _, .spacingMark => true
    | .prepend, _ => true
    | .leadingJamo, .leadingJamo => true
    | .leadingJamo, .vowelJamo => true
    | .leadingJamo, .openSyllable => true
    | .leadingJamo, .closedSyllable => true
    | .openSyllable, .vowelJamo => true
    | .openSyllable, .trailingJamo => true
    | .vowelJamo, .vowelJamo => true
    | .vowelJamo, .trailingJamo => true
    | .closedSyllable, .trailingJamo => true
    | .trailingJamo, .trailingJamo => true
    | .joiner, .pictograph => state.joined
    | .regional, .regional => state.halfFlag
    | _, _ => false

/-- The state with a character of a class taken in. -/
def push (state : ClusterState) (next : ClusterClass) : ClusterState :=
  { last := next
    pictograph := next = .pictograph || (next = .extend && state.pictograph)
    joined := next = .joiner && state.pictograph
    halfFlag := next = .regional && !state.halfFlag }

end ClusterState

/-- Characters behind an open cluster, which is kept in reverse. -/
def clustersFrom (state : ClusterState) (current : List Char) : List Char → List (List Char)
  | [] => [current.reverse]
  | value :: rest =>
      let next := ClusterClass.ofChar value
      if state.admits next then
        clustersFrom (state.push next) (value :: current) rest
      else
        current.reverse :: clustersFrom (.ofClass next) [value] rest

/-- The clusters of a text in order. -/
def clusters : List Char → List (List Char)
  | [] => []
  | value :: rest => clustersFrom (.ofClass (.ofChar value)) [value] rest

end IlsCompiler.Text
