import IlsCompiler.Cache.MessagePack

namespace IlsCompiler

/-!
# Cached outcomes

What a successful compilation leaves behind, and how it is stored: a map in a fixed
order, in which empty optional fields are left out.
-/

/-- A stored outcome; `schema` is the version of the form it is stored in. -/
structure CachedUnit where
  schema : Nat := 0
  path : Bytes := []
  assembly : Bytes := []
  listing : Bytes := []
  removed : List Bytes := []
deriving DecidableEq, Repr, Inhabited

namespace CachedUnit

open MessagePack

/-- The version of the form that outcomes are stored in. -/
def currentSchema : Nat := 1

/-- The stored form of an outcome. -/
def encode (stored : CachedUnit) : Bytes :=
  let listing :=
    if stored.listing.isEmpty then [] else [writeString "ir" ++ writeString stored.listing]
  let removed :=
    if stored.removed.isEmpty then [] else [writeString "removed" ++ writeStrings stored.removed]
  let fields :=
    [writeString "schema" ++ writeWord stored.schema, writeString "path" ++ writeString stored.path,
      writeString "asm" ++ writeString stored.assembly] ++ listing ++ removed
  writeMapHead fields.length ++ fields.flatten

/-- Read the value of a field; a field of an unknown name is passed over. -/
def readField (stored : CachedUnit) (name : Bytes) (input : Bytes) : Reading CachedUnit :=
  if name = Bytes.ofString "schema" then
    (readWord input).map fun (value, rest) => ({ stored with schema := value }, rest)
  else if name = Bytes.ofString "path" then
    (readString input).map fun (value, rest) => ({ stored with path := value }, rest)
  else if name = Bytes.ofString "asm" then
    (readString input).map fun (value, rest) => ({ stored with assembly := value }, rest)
  else if name = Bytes.ofString "ir" then
    (readString input).map fun (value, rest) => ({ stored with listing := value }, rest)
  else if name = Bytes.ofString "removed" then
    (readStrings stored.removed input).map fun (value, rest) =>
      ({ stored with removed := value }, rest)
  else
    (skip input).map fun rest => (stored, rest)

/-- Read a number of named fields. -/
def readFields : Nat → CachedUnit → Bytes → Option CachedUnit
  | 0, stored, _ => some stored
  | count + 1, stored, input =>
      match readString input with
      | none => none
      | some (name, rest) =>
          match stored.readField name rest with
          | none => none
          | some (after, rest) => readFields count after rest

/-- Read the values of named fields that stand without their names. -/
def readInOrder : List String → CachedUnit → Bytes → Option CachedUnit
  | [], stored, _ => some stored
  | name :: names, stored, input =>
      match stored.readField name input with
      | none => none
      | some (after, rest) => readInOrder names after rest

/-- The names of the fields in the order they are stored. -/
def fieldNames : List String := ["schema", "path", "asm", "ir", "removed"]

/--
Read a stored outcome: a map of fields, or a list of all their values. Nothing and
the empty list stand for an outcome without anything in it.
-/
def decode (stored : Bytes) : Option CachedUnit :=
  match stored with
  | [] => none
  | code :: rest =>
      if code = 0xC0 then
        some {}
      else
        match mapLength code.toNat rest, listLength code.toNat rest with
        | some (count, rest), _ => readFields count {} rest
        | none, some (count, rest) =>
            if count = 0 then
              some {}
            else if count = fieldNames.length then
              readInOrder fieldNames {} rest
            else
              none
        | none, none => none

end CachedUnit

end IlsCompiler
