import IlsCompiler.Cache.Sha256

namespace IlsCompiler.MessagePack

/-!
# MessagePack

The part of the MessagePack format that cached outcomes need. Writing always takes
the shortest form of a length. Reading takes every form, and skips values of any
kind that are not asked for.
-/

open Sha256 (bigEndian)

/-- A length with the code that says how it is written: in the code, or in 1, 2 or 4 bytes. -/
def writeString (contents : Bytes) : Bytes :=
  let size := contents.length
  if size < 32 then
    (0xA0 + size).toUInt8 :: contents
  else if size < 0x100 then
    0xD9 :: bigEndian 1 size ++ contents
  else if size < 0x10000 then
    0xDA :: bigEndian 2 size ++ contents
  else
    0xDB :: bigEndian 4 size ++ contents

/-- The head of a list with a number of elements. -/
def writeListHead (count : Nat) : Bytes :=
  if count < 16 then
    [(0x90 + count).toUInt8]
  else if count < 0x10000 then
    0xDC :: bigEndian 2 count
  else
    0xDD :: bigEndian 4 count

/-- A list of strings. -/
def writeStrings (strings : List Bytes) : Bytes :=
  writeListHead strings.length ++ strings.flatMap writeString

/-- A number of two bytes. -/
def writeWord (value : Nat) : Bytes :=
  0xCD :: bigEndian 2 value

/-- The head of a map with fewer than sixteen entries. -/
def writeMapHead (count : Nat) : Bytes :=
  [(0x80 + count).toUInt8]

/-- A part of a byte string that has been read, and what is behind it. -/
abbrev Reading (α : Type) := Option (α × Bytes)

/-- The given number of bytes. -/
def readBytes (count : Nat) (input : Bytes) : Reading Bytes :=
  if count ≤ input.length then
    some (input.take count, input.drop count)
  else
    none

/-- The number that bytes hold, most significant first. -/
def numberOf (bytes : Bytes) : Nat :=
  bytes.foldl (fun value byte => value * 256 + byte.toNat) 0

/-- A number of the given count of bytes. -/
def readNumber (count : Nat) (input : Bytes) : Reading Nat :=
  (readBytes count input).map fun (bytes, rest) => (numberOf bytes, rest)

/-- The length of a string behind its code; nothing stands for an empty one. -/
def stringLength (code : Nat) (input : Bytes) : Reading Nat :=
  if code = 0xC0 then
    some (0, input)
  else if 0xA0 ≤ code && code ≤ 0xBF then
    some (code - 0xA0, input)
  else if code = 0xD9 || code = 0xC4 then
    readNumber 1 input
  else if code = 0xDA || code = 0xC5 then
    readNumber 2 input
  else if code = 0xDB || code = 0xC6 then
    readNumber 4 input
  else
    none

/-- A string. -/
def readString (input : Bytes) : Reading Bytes :=
  match input with
  | [] => none
  | code :: rest =>
      match stringLength code.toNat rest with
      | some (size, rest) => readBytes size rest
      | none => none

/-- The length of a list behind its code. -/
def listLength (code : Nat) (input : Bytes) : Reading Nat :=
  if 0x90 ≤ code && code ≤ 0x9F then
    some (code - 0x90, input)
  else if code = 0xDC then
    readNumber 2 input
  else if code = 0xDD then
    readNumber 4 input
  else
    none

/-- The number of entries of a map behind its code. -/
def mapLength (code : Nat) (input : Bytes) : Reading Nat :=
  if 0x80 ≤ code && code ≤ 0x8F then
    some (code - 0x80, input)
  else if code = 0xDE then
    readNumber 2 input
  else if code = 0xDF then
    readNumber 4 input
  else
    none

/-- A number of strings. -/
def readStringsOf : Nat → Bytes → Reading (List Bytes)
  | 0, input => some ([], input)
  | count + 1, input =>
      match readString input with
      | none => none
      | some (first, rest) =>
          (readStringsOf count rest).map fun (others, rest) => (first :: others, rest)

/-- A list of strings; nothing in its place leaves the list as it was. -/
def readStrings (before : List Bytes) (input : Bytes) : Reading (List Bytes) :=
  match input with
  | [] => none
  | code :: rest =>
      if code = 0xC0 then
        some (before, rest)
      else
        match listLength code.toNat rest with
        | some (count, rest) => readStringsOf count rest
        | none => none

/-- A number in two bytes, whatever width it is written with; wider ones lose their high bytes. -/
def readWord (input : Bytes) : Reading Nat :=
  match input with
  | [] => none
  | code :: rest =>
      let code := code.toNat
      let cut := fun (reading : Reading Nat) =>
        reading.map fun (value, rest) => (value % 0x10000, rest)
      if code = 0xC0 then
        some (0, rest)
      else if code ≤ 0x7F then
        some (code, rest)
      else if 0xE0 ≤ code then
        some (code + 0xFF00, rest)
      else if code = 0xCC then
        readNumber 1 rest
      else if code = 0xD0 then
        (readNumber 1 rest).map fun (value, rest) =>
          (if value < 0x80 then value else value + 0xFF00, rest)
      else if code = 0xCD || code = 0xD1 then
        readNumber 2 rest
      else if code = 0xCE || code = 0xD2 then
        cut (readNumber 4 rest)
      else if code = 0xCF || code = 0xD3 then
        cut (readNumber 8 rest)
      else
        none

/-- What a value consists of behind its code: bytes to pass over, and values inside it. -/
def extent (code : Nat) (input : Bytes) : Option (Nat × Nat × Bytes) :=
  let plain := fun (size : Nat) => some (size, 0, input)
  let extension := fun (reading : Reading Nat) =>
    reading.map fun (size, rest) => (size + 1, 0, rest)
  if code ≤ 0x7F || 0xE0 ≤ code then plain 0
  else if code = 0xC0 || code = 0xC2 || code = 0xC3 then plain 0
  else if code = 0xCC || code = 0xD0 then plain 1
  else if code = 0xCD || code = 0xD1 then plain 2
  else if code = 0xCE || code = 0xD2 || code = 0xCA then plain 4
  else if code = 0xCF || code = 0xD3 || code = 0xCB then plain 8
  else if code = 0xD4 then plain 2
  else if code = 0xD5 then plain 3
  else if code = 0xD6 then plain 5
  else if code = 0xD7 then plain 9
  else if code = 0xD8 then plain 17
  else if code = 0xC7 then extension (readNumber 1 input)
  else if code = 0xC8 then extension (readNumber 2 input)
  else if code = 0xC9 then extension (readNumber 4 input)
  else
    match stringLength code input, listLength code input, mapLength code input with
    | some (size, rest), _, _ => some (size, 0, rest)
    | none, some (count, rest), _ => some (0, count, rest)
    | none, none, some (count, rest) => some (0, 2 * count, rest)
    | none, none, none => none

/-- Pass over a number of values; the fuel bounds how many values there can be. -/
def skipValues : Nat → Nat → Bytes → Option Bytes
  | _, 0, input => some input
  | 0, _ + 1, _ => none
  | _, _ + 1, [] => none
  | fuel + 1, pending + 1, code :: rest =>
      match extent code.toNat rest with
      | none => none
      | some (size, inner, rest) =>
          match readBytes size rest with
          | none => none
          | some (_, rest) => skipValues fuel (pending + inner) rest

/-- Pass over one value. -/
def skip (input : Bytes) : Option Bytes :=
  skipValues input.length 1 input

end IlsCompiler.MessagePack
