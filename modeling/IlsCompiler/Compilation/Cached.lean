import IlsCompiler.Cache.Store
import IlsCompiler.Compilation.Tracing
import IlsCompiler.Version

namespace IlsCompiler

/-!
# Compilations with a cache

A compilation that has been done before is not done again: what it made is taken from
the cache. The cache is only an optimization. An entry that cannot be read is made
anew, and only what was made without problems is stored.
-/

namespace Compiled

/-- What is stored of an outcome. -/
def toUnit (compiled : Compiled) : CachedUnit :=
  { path := compiled.path, assembly := compiled.assembly, listing := compiled.listing,
    removed := compiled.removed }

/-- The outcome that a stored one stands for. -/
def ofUnit (path : String) (options : CompileOptions) (stored : CachedUnit) : Compiled :=
  { start path options with
    assembly := stored.assembly
    listing := stored.listing
    removed := stored.removed
    cached := true }

end Compiled

/-- A compilation, the entry of the cache that could not be read, and the cache after it. -/
structure CachedCompilation where
  run : Compilation
  unreadable : Option Digest := none
  store : Option CacheStore

namespace CachedCompilation

/-- The key of the outcome of this compiler. -/
def key (source : Bytes) (options : CompileOptions) : Digest :=
  cacheKey source Version.current.fingerprint options.keepListing

/-- Whether an outcome is stored. -/
def isStored (run : Compilation) : Bool :=
  run.fatal.isNone && !run.compiled.failed

/-- Compile and store the outcome. -/
def compile (path : String) (source : Bytes) (options : CompileOptions)
    (cancelled : Cancellation) (store : CacheStore) : CachedCompilation :=
  let run := Compilation.ofSource path source options cancelled
  { run := run
    store := some
      (if isStored run then store.put (key source options) run.compiled.toUnit else store) }

/-- Compile source text with a cache, or without one. -/
def ofSource (path : String) (source : Bytes) (options : CompileOptions)
    (cancelled : Cancellation) (store : Option CacheStore) : CachedCompilation :=
  match store with
  | none => { run := Compilation.ofSource path source options cancelled, store := none }
  | some entries =>
      match entries.get (key source options) with
      | .hit stored => { run := { compiled := .ofUnit path options stored }, store := some entries }
      | .miss => compile path source options cancelled entries
      | .unreadable =>
          { compile path source options cancelled entries with
            unreadable := some (key source options) }

/-- The trace of a compilation with a cache inside a span. -/
def trace (compilation : CachedCompilation) (parent : Nat) (tracer : Trace.Tracer) :
    Trace.Tracer :=
  compilation.run.trace parent
    (compilation.unreadable.map fun entry => "cache entry " ++ entry.text ++ ": cannot be read")
    none tracer

end CachedCompilation

end IlsCompiler
