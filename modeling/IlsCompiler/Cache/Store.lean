import IlsCompiler.Cache.Unit

namespace IlsCompiler

/-!
# Keys of the cache

A cached outcome is found by what it was made from: the source, the compiler that
made it, and the options that change what is made.
-/

/-- A hash value. -/
structure Digest where
  bytes : Bytes
deriving DecidableEq, Repr, Inhabited

namespace Digest

/-- The digest of a byte string. -/
def ofBytes (contents : Bytes) : Digest :=
  ⟨Sha256.hash contents⟩

/-- The digest of digests in order. -/
def combine (parts : List Digest) : Digest :=
  ofBytes (parts.flatMap bytes)

/-- A digest in hexadecimal digits. -/
def text (digest : Digest) : String :=
  Bytes.hex digest.bytes

/-- Whether all bits of a digest are zero. -/
def isZero (digest : Digest) : Bool :=
  digest.bytes.all fun byte => byte == 0

end Digest

/-- The word for the options that change what is made. -/
def cacheFlags (keepListing : Bool) : String :=
  if keepListing then
    "asm+ir"
  else
    "asm"

/-- The key of what a compiler with a fingerprint makes of a source. -/
def cacheKey (source : Bytes) (fingerprint : String) (keepListing : Bool) : Digest :=
  .combine [.ofBytes source, .ofBytes fingerprint, .ofBytes (cacheFlags keepListing)]

/-!
## The store of the cache

Stored outcomes by their keys. An entry written in another form than the current
one counts as missing; one that cannot be read at all is a fault of its own.
-/

/-- The entries of a cache, each with its stored bytes. -/
structure CacheStore where
  entries : List (Digest × Bytes)
deriving DecidableEq, Repr, Inhabited

namespace CacheStore

/-- A store without entries. -/
def empty : CacheStore := ⟨[]⟩

/-- The stored bytes of an entry. -/
def raw? (store : CacheStore) (key : Digest) : Option Bytes :=
  store.entries.lookup key

/-- Store bytes in place of any there were. -/
def write (store : CacheStore) (key : Digest) (stored : Bytes) : CacheStore :=
  ⟨(store.entries.filter fun entry => entry.1 != key) ++ [(key, stored)]⟩

/-- Store an outcome. -/
def put (store : CacheStore) (key : Digest) (outcome : CachedUnit) : CacheStore :=
  store.write key { outcome with schema := CachedUnit.currentSchema }.encode

/-- The result of looking for an entry. -/
inductive Lookup where
  | hit (outcome : CachedUnit)
  | miss
  | unreadable
deriving DecidableEq, Repr

/-- Look for an entry. -/
def get (store : CacheStore) (key : Digest) : Lookup :=
  match store.raw? key with
  | none => .miss
  | some stored =>
      match CachedUnit.decode stored with
      | none => .unreadable
      | some outcome =>
          if outcome.schema = CachedUnit.currentSchema then
            .hit outcome
          else
            .miss

/-- The number of entries. -/
def size (store : CacheStore) : Nat :=
  store.entries.length

end CacheStore

end IlsCompiler
