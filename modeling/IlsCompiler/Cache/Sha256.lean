import IlsCompiler.Text.Bytes

namespace IlsCompiler.Sha256

/-!
# SHA-256

The hash of a byte string: the message is padded to whole blocks of 64 bytes, and
each block is mixed into a state of eight words by 64 rounds.
-/

/-- The round constants: fractional parts of the cube roots of the first 64 primes. -/
def constants : Array UInt32 := #[
  0x428a2f98, 0x71374491, 0xb5c0fbcf, 0xe9b5dba5, 0x3956c25b, 0x59f111f1, 0x923f82a4, 0xab1c5ed5,
  0xd807aa98, 0x12835b01, 0x243185be, 0x550c7dc3, 0x72be5d74, 0x80deb1fe, 0x9bdc06a7, 0xc19bf174,
  0xe49b69c1, 0xefbe4786, 0x0fc19dc6, 0x240ca1cc, 0x2de92c6f, 0x4a7484aa, 0x5cb0a9dc, 0x76f988da,
  0x983e5152, 0xa831c66d, 0xb00327c8, 0xbf597fc7, 0xc6e00bf3, 0xd5a79147, 0x06ca6351, 0x14292967,
  0x27b70a85, 0x2e1b2138, 0x4d2c6dfc, 0x53380d13, 0x650a7354, 0x766a0abb, 0x81c2c92e, 0x92722c85,
  0xa2bfe8a1, 0xa81a664b, 0xc24b8b70, 0xc76c51a3, 0xd192e819, 0xd6990624, 0xf40e3585, 0x106aa070,
  0x19a4c116, 0x1e376c08, 0x2748774c, 0x34b0bcb5, 0x391c0cb3, 0x4ed8aa4a, 0x5b9cca4f, 0x682e6ff3,
  0x748f82ee, 0x78a5636f, 0x84c87814, 0x8cc70208, 0x90befffa, 0xa4506ceb, 0xbef9a3f7, 0xc67178f2]

/-- The eight words that blocks are mixed into. -/
structure State where
  a : UInt32
  b : UInt32
  c : UInt32
  d : UInt32
  e : UInt32
  f : UInt32
  g : UInt32
  h : UInt32
deriving DecidableEq, Repr, Inhabited

/-- The state before the first block: fractional parts of the square roots of eight primes. -/
def initial : State :=
  { a := 0x6a09e667, b := 0xbb67ae85, c := 0x3c6ef372, d := 0xa54ff53a,
    e := 0x510e527f, f := 0x9b05688c, g := 0x1f83d9ab, h := 0x5be0cd19 }

/-- A word rotated to the right by fewer bits than it has. -/
def rotate (word : UInt32) (count : UInt32) : UInt32 :=
  (word >>> count) ||| (word <<< (32 - count))

/-- The number as bytes, most significant first. -/
def bigEndian : Nat → Nat → Bytes
  | 0, _ => []
  | count + 1, value => bigEndian count (value / 256) ++ [(value % 256).toUInt8]

/-- The zero bytes between the mark behind a message and its length. -/
def paddingZeros (size : Nat) : Nat :=
  (119 - size % 64) % 64

/-- A message with its mark, zeros and its length in bits: whole blocks. -/
def pad (message : Bytes) : Bytes :=
  message ++ [0x80] ++ List.replicate (paddingZeros message.length) 0 ++
    bigEndian 8 (message.length * 8)

/-- Bytes as words, most significant byte first. -/
def words : Bytes → List UInt32
  | first :: second :: third :: fourth :: rest =>
      ((first.toUInt32 <<< 24) ||| (second.toUInt32 <<< 16) ||| (third.toUInt32 <<< 8) |||
        fourth.toUInt32) :: words rest
  | _ => []

/-- The next word of a schedule. -/
def nextWord (schedule : Array UInt32) : UInt32 :=
  let position := schedule.size
  let older := schedule.getD (position - 15) 0
  let newer := schedule.getD (position - 2) 0
  let fromOlder := rotate older 7 ^^^ rotate older 18 ^^^ (older >>> 3)
  let fromNewer := rotate newer 17 ^^^ rotate newer 19 ^^^ (newer >>> 10)
  schedule.getD (position - 16) 0 + fromOlder + schedule.getD (position - 7) 0 + fromNewer

/-- Extend a schedule by a number of words. -/
def extend : Nat → Array UInt32 → Array UInt32
  | 0, schedule => schedule
  | count + 1, schedule => extend count (schedule.push (nextWord schedule))

/-- The words of all rounds of a block of sixteen words. -/
def schedule (block : List UInt32) : Array UInt32 :=
  extend 48 block.toArray

/-- One round with its constant and its word. -/
def round (state : State) (constant word : UInt32) : State :=
  let mixedE := rotate state.e 6 ^^^ rotate state.e 11 ^^^ rotate state.e 25
  let choice := (state.e &&& state.f) ^^^ ((~~~ state.e) &&& state.g)
  let first := state.h + mixedE + choice + constant + word
  let mixedA := rotate state.a 2 ^^^ rotate state.a 13 ^^^ rotate state.a 22
  let majority := (state.a &&& state.b) ^^^ (state.a &&& state.c) ^^^ (state.b &&& state.c)
  let second := mixedA + majority
  { a := first + second, b := state.a, c := state.b, d := state.c,
    e := state.d + first, f := state.e, g := state.f, h := state.g }

/-- Mix a block into a state. -/
def compress (state : State) (block : List UInt32) : State :=
  let final := (constants.zip (schedule block)).foldl
    (fun current entry => round current entry.1 entry.2) state
  { a := state.a + final.a, b := state.b + final.b, c := state.c + final.c, d := state.d + final.d,
    e := state.e + final.e, f := state.f + final.f, g := state.g + final.g, h := state.h + final.h }

/-- Mix a number of blocks of sixteen words into a state. -/
def mixBlocks : Nat → State → List UInt32 → State
  | 0, state, _ => state
  | count + 1, state, message =>
      mixBlocks count (compress state (message.take 16)) (message.drop 16)

/-- The bytes of a state. -/
def State.bytes (state : State) : Bytes :=
  [state.a, state.b, state.c, state.d, state.e, state.f, state.g, state.h].flatMap fun word =>
    bigEndian 4 word.toNat

/-- The hash of a byte string. -/
def hash (message : Bytes) : Bytes :=
  let padded := words (pad message)
  (mixBlocks (padded.length / 16) initial padded).bytes

end IlsCompiler.Sha256
