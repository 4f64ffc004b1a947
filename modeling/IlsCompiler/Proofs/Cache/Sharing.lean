import Mathlib.Algebra.Group.Nat.Defs
import IlsCompiler.Compilation.Cached
import IlsCompiler.Proofs.Compilation.FileNames

namespace IlsCompiler

/-!
# Entries of the cache

An entry is found by its key and read back from its stored form. What is written of an outcome reads
back as that outcome, if its parts are not longer than a length in four bytes can say. Keys are as
good as what they are made of, as long as no two different byte strings that are hashed on the way
have the same hash.
-/

namespace Sha256

@[simp] theorem length_bigEndian
    (count value : Nat) :
    (bigEndian count value).length = count := by
  induction count generalizing value with
  | zero => rfl
  | succ count inductionHypothesis => simp [bigEndian, inductionHypothesis]

/-- Hashes have 32 bytes. -/
@[simp] theorem length_hash
    (message : Bytes) :
    (hash message).length = 32 := by
  simp [hash, State.bytes]

end Sha256

/-- No two different byte strings among some have the same hash. -/
def NoCollision (hashed : Bytes → Prop) : Prop :=
  ∀ left right, hashed left → hashed right → Sha256.hash left = Sha256.hash right → left = right

/-- The byte strings that are hashed for a key. -/
def keyParts (source : Bytes) (fingerprint : String) (keepListing : Bool) : List Bytes :=
  let parts := [source, Bytes.ofString fingerprint, Bytes.ofString (cacheFlags keepListing)]
  parts.flatMap Sha256.hash :: parts

/-- Without a collision keys tell sources and options apart. -/
theorem eq_of_cacheKey
    {hashed : Bytes → Prop}
    {source other : Bytes}
    {fingerprint : String}
    {keepListing keepOther : Bool}
    (noCollision : NoCollision hashed)
    (ofSource : ∀ part ∈ keyParts source fingerprint keepListing, hashed part)
    (ofOther : ∀ part ∈ keyParts other fingerprint keepOther, hashed part)
    (same : cacheKey source fingerprint keepListing = cacheKey other fingerprint keepOther) :
    source = other ∧ keepListing = keepOther := by
  simp only [keyParts, List.forall_mem_cons] at ofSource ofOther
  obtain ⟨isAll, isSource, -, isFlags, -⟩ := ofSource
  obtain ⟨isOtherAll, isOther, -, isOtherFlags, -⟩ := ofOther
  have sameParts : [source, Bytes.ofString fingerprint,
      Bytes.ofString (cacheFlags keepListing)].flatMap Sha256.hash =
      [other, Bytes.ofString fingerprint,
        Bytes.ofString (cacheFlags keepOther)].flatMap Sha256.hash := by
    refine noCollision _ _ isAll isOtherAll ?_
    simpa [cacheKey, Digest.combine, Digest.ofBytes] using same
  simp only [List.flatMap_cons, List.flatMap_nil, List.append_nil] at sameParts
  obtain ⟨sameSource, others⟩ := List.append_inj sameParts (by simp)
  obtain ⟨-, sameFlags⟩ := List.append_inj others (by simp)
  refine ⟨noCollision _ _ isSource isOther sameSource, ?_⟩
  have flags := noCollision _ _ isFlags isOtherFlags sameFlags
  cases keepListing <;> cases keepOther <;> first | rfl | exact absurd flags (by decide)

namespace MessagePack

open Sha256 (bigEndian)

theorem numberOf_append
    (bytes : Bytes)
    (last : UInt8) :
    numberOf (bytes ++ [last]) = numberOf bytes * 256 + last.toNat := by
  simp [numberOf]

theorem numberOf_bigEndian
    {count value : Nat}
    (bounded : value < 256 ^ count) :
    numberOf (bigEndian count value) = value := by
  induction count generalizing value with
  | zero => simp_all [bigEndian, numberOf]
  | succ count inductionHypothesis =>
      have shorter : value / 256 < 256 ^ count := by
        rw [Nat.div_lt_iff_lt_mul (by decide), ← Nat.pow_succ]
        exact bounded
      rw [bigEndian, numberOf_append, inductionHypothesis shorter]
      have digit : (value % 256).toUInt8.toNat = value % 256 := by
        simp [Nat.toUInt8]
      rw [digit]
      exact Nat.div_add_mod' value 256

theorem readBytes_append
    (contents rest : Bytes) :
    readBytes contents.length (contents ++ rest) = some (contents, rest) := by
  simp [readBytes]

theorem readNumber_bigEndian
    {count value : Nat}
    (bounded : value < 256 ^ count)
    (rest : Bytes) :
    readNumber count (bigEndian count value ++ rest) = some (value, rest) := by
  have read := readBytes_append (bigEndian count value) rest
  rw [Sha256.length_bigEndian] at read
  simp only [readNumber, read, Option.map_some, numberOf_bigEndian bounded]

theorem readWord_writeWord
    {value : Nat}
    (bounded : value < 0x10000)
    (rest : Bytes) :
    readWord (writeWord value ++ rest) = some (value, rest) := by
  simpa [writeWord, readWord] using readNumber_bigEndian bounded rest

/-- A code that carries a small number. -/
theorem toNat_code
    {base number : Nat}
    (bounded : base + number < 256) :
    (base + number).toUInt8.toNat = base + number := by
  simpa [Nat.toUInt8] using bounded

/-- The greatest length that four bytes can say. -/
abbrev lengthLimit : Nat := 256 ^ 4

/-- A string of a length that can be written is read back. -/
theorem readString_writeString
    {contents : Bytes}
    (bounded : contents.length < lengthLimit)
    (rest : Bytes) :
    readString (writeString contents ++ rest) = some (contents, rest) := by
  have read := readBytes_append contents rest
  unfold writeString
  dsimp only
  split
  next small =>
    have inRange : 0xA0 ≤ 0xA0 + contents.length ∧ 0xA0 + contents.length ≤ 0xBF := by omega
    have other : 0xA0 + contents.length ≠ 0xC0 := by omega
    simp only [List.cons_append, readString, toNat_code (show 0xA0 + contents.length < 256 by omega),
      stringLength, other, inRange, ↓reduceIte, decide_true, Bool.and_self, Nat.add_sub_cancel_left,
      read]
  split
  next => simp [readString, stringLength, @readNumber_bigEndian 1 _ (by omega), read]
  split
  · simp [readString, stringLength, @readNumber_bigEndian 2 _ (by omega), read]
  · simp [readString, stringLength, @readNumber_bigEndian 4 _ (by omega), read]

variable
    {strings : List Bytes}

theorem readStringsOf_writeString
    (bounded : ∀ contents ∈ strings, contents.length < lengthLimit)
    (rest : Bytes) :
    readStringsOf strings.length (strings.flatMap writeString ++ rest) = some (strings, rest) := by
  induction strings with
  | nil => rfl
  | cons first others inductionHypothesis =>
      rw [List.forall_mem_cons] at bounded
      rw [List.length_cons, readStringsOf, List.flatMap_cons, List.append_assoc,
        readString_writeString bounded.1]
      simp only [inductionHypothesis bounded.2, Option.map_some]

/-- A list of strings that can be written is read back, whatever was there before. -/
theorem readStrings_writeStrings
    (count : strings.length < lengthLimit)
    (bounded : ∀ contents ∈ strings, contents.length < lengthLimit)
    (before : List Bytes)
    (rest : Bytes) :
    readStrings before (writeStrings strings ++ rest) = some (strings, rest) := by
  have read := readStringsOf_writeString bounded rest
  unfold writeStrings writeListHead
  split
  next small =>
    have inRange : 0x90 ≤ 0x90 + strings.length ∧ 0x90 + strings.length ≤ 0x9F := by omega
    have notNil : (0x90 + strings.length).toUInt8 ≠ 0xC0 := by
      intro same
      have := congrArg UInt8.toNat same
      rw [toNat_code (by omega)] at this
      simp at this
      omega
    simp only [List.cons_append, List.nil_append, readStrings, listLength, notNil, inRange, read,
      toNat_code (show 0x90 + strings.length < 256 by omega), ↓reduceIte, decide_true, Bool.and_self,
      Nat.add_sub_cancel_left]
  split
  · simp [readStrings, listLength, @readNumber_bigEndian 2 _ (by omega), read]
  · simp [readStrings, listLength, @readNumber_bigEndian 4 _ (by omega), read]

end MessagePack

variable
    {stored : CachedUnit}

namespace CachedUnit

open MessagePack

/-- The parts of an outcome are not longer than its stored form can say. -/
structure Fits (stored : CachedUnit) : Prop where
  schema : stored.schema < 0x10000
  path : stored.path.length < lengthLimit
  assembly : stored.assembly.length < lengthLimit
  listing : stored.listing.length < lengthLimit
  removed : stored.removed.length < lengthLimit
  names : ∀ name ∈ stored.removed, name.length < lengthLimit

/-- A field is read back by its name. -/
theorem readFields_cons
    {stored after : CachedUnit}
    {name : String}
    {value rest : Bytes}
    {count : Nat}
    (short : (Bytes.ofString name).length < lengthLimit)
    (read : stored.readField name (value ++ rest) = some (after, rest)) :
    readFields (count + 1) stored (writeString name ++ (value ++ rest)) =
      readFields count after rest := by
  rw [readFields, readString_writeString short]
  simp only [read]

/-- A map with fewer than sixteen fields is read field by field. -/
theorem decode_map
    {count : Nat}
    (few : count < 16)
    (rest : Bytes) :
    decode (writeMapHead count ++ rest) = readFields count {} rest := by
  have inRange : 0x80 ≤ 0x80 + count ∧ 0x80 + count ≤ 0x8F := by omega
  have notNil : (0x80 + count).toUInt8 ≠ 0xC0 := by
    intro same
    have code := congrArg UInt8.toNat same
    rw [toNat_code (by omega)] at code
    have : (0xC0 : UInt8).toNat = 192 := rfl
    omega
  simp only [writeMapHead, List.cons_append, List.nil_append, decode, notNil, ↓reduceIte, mapLength,
    toNat_code (show 0x80 + count < 256 by omega), inRange, decide_true, Bool.and_self,
    Nat.add_sub_cancel_left]

/-- An outcome is read back from its stored form. -/
theorem decode_encode
    (fits : stored.Fits) :
    decode stored.encode = some stored := by
  rcases stored with ⟨schema, path, assembly, listing, removed⟩
  have schemaRead : ∀ (before : CachedUnit) rest,
      before.readField "schema" (writeWord schema ++ rest) =
        some ({ before with schema := schema }, rest) := by
    intro before rest
    simp [readField, readWord_writeWord fits.schema]
  have pathRead : ∀ (before : CachedUnit) rest,
      before.readField "path" (writeString path ++ rest) =
        some ({ before with path := path }, rest) := by
    intro before rest
    rw [readField, if_neg (by decide), if_pos rfl, readString_writeString fits.path]
    rfl
  have assemblyRead : ∀ (before : CachedUnit) rest,
      before.readField "asm" (writeString assembly ++ rest) =
        some ({ before with assembly := assembly }, rest) := by
    intro before rest
    rw [readField, if_neg (by decide), if_neg (by decide), if_pos rfl,
      readString_writeString fits.assembly]
    rfl
  have listingRead : ∀ (before : CachedUnit) rest,
      before.readField "ir" (writeString listing ++ rest) =
        some ({ before with listing := listing }, rest) := by
    intro before rest
    rw [readField, if_neg (by decide), if_neg (by decide), if_neg (by decide), if_pos rfl,
      readString_writeString fits.listing]
    rfl
  have removedRead : ∀ (before : CachedUnit) rest,
      before.readField "removed" (writeStrings removed ++ rest) =
        some ({ before with removed := removed }, rest) := by
    intro before rest
    rw [readField, if_neg (by decide), if_neg (by decide), if_neg (by decide), if_neg (by decide),
      if_pos rfl, readStrings_writeStrings fits.removed fits.names]
    rfl
  have opens : ∀ (before : CachedUnit) count rest,
      readFields (count + 3) before
        (writeString "schema" ++ (writeWord schema ++ (writeString "path" ++ (writeString path ++
          (writeString "asm" ++ (writeString assembly ++ rest)))))) =
        readFields count { before with schema := schema, path := path, assembly := assembly }
          rest := by
    intro before count rest
    rw [readFields_cons (by decide) (schemaRead _ _), readFields_cons (by decide) (pathRead _ _),
      readFields_cons (by decide) (assemblyRead _ _)]
  -- Behind the fields that are always there stand those that are not empty.
  obtain ⟨count, tail, few, form, closes⟩ : ∃ count tail, count ≤ 2 ∧
      encode ⟨schema, path, assembly, listing, removed⟩ = writeMapHead (count + 3) ++
        (writeString "schema" ++ (writeWord schema ++ (writeString "path" ++ (writeString path ++
          (writeString "asm" ++ (writeString assembly ++ tail)))))) ∧
      readFields count ⟨schema, path, assembly, [], []⟩ tail =
        some ⟨schema, path, assembly, listing, removed⟩ := by
    by_cases noListing : listing = []
    · subst noListing
      by_cases noRemoved : removed = []
      · subst noRemoved
        exact ⟨0, [], by decide, by simp [encode], rfl⟩
      · refine ⟨1, writeString "removed" ++ (writeStrings removed ++ []), by decide, ?_, ?_⟩
        · simp [encode, noRemoved]
        · rw [readFields_cons (by decide) (removedRead _ _)]
          rfl
    · by_cases noRemoved : removed = []
      · subst noRemoved
        refine ⟨1, writeString "ir" ++ (writeString listing ++ []), by decide, ?_, ?_⟩
        · simp [encode, noListing]
        · rw [readFields_cons (by decide) (listingRead _ _)]
          rfl
      · refine ⟨2, writeString "ir" ++ (writeString listing ++
          (writeString "removed" ++ (writeStrings removed ++ []))), by decide, ?_, ?_⟩
        · simp [encode, noListing, noRemoved]
        · rw [readFields_cons (by decide) (listingRead _ _),
            readFields_cons (by decide) (removedRead _ _)]
          rfl
  rw [form, decode_map (by omega), opens]
  exact closes

end CachedUnit

namespace CacheStore

/-- What is written is found, and what stood under other keys still is. -/
theorem raw?_write
    (store : CacheStore)
    (key other : Digest)
    (stored : Bytes) :
    (store.write key stored).raw? other =
      if other = key then some stored else store.raw? other := by
  have kept : ∀ entries : List (Digest × Bytes),
      (entries.filter fun entry => entry.1 != key).lookup other =
        if other = key then none else entries.lookup other := by
    intro entries
    induction entries with
    | nil => simp
    | cons entry rest inductionHypothesis =>
        rcases entry with ⟨found, value⟩
        by_cases isKey : found = key
        · rw [List.filter_cons_of_neg (by simp [isKey]), inductionHypothesis]
          by_cases isOther : other = key
          · rw [if_pos isOther, if_pos isOther]
          · rw [if_neg isOther, if_neg isOther, List.lookup_cons, isKey,
              beq_eq_false_iff_ne.mpr isOther]
        · rw [List.filter_cons_of_pos (by simpa using isKey), List.lookup_cons,
            inductionHypothesis, List.lookup_cons]
          by_cases isFound : other = found
          · subst isFound
            rw [beq_self_eq_true]
            simp [isKey]
          · rw [beq_eq_false_iff_ne.mpr isFound]
  unfold write raw?
  rw [List.lookup_append, kept]
  by_cases isKey : other = key
  · simp [isKey]
  · rw [if_neg isKey, if_neg isKey, List.lookup_cons, beq_eq_false_iff_ne.mpr isKey]
    simp

end CacheStore

/-!
## Compilations that share a cache

Several compilations look for their outcome in one cache, compile what they do not find there, and
keep what they compiled. Their steps may come in any order, and the cache may be emptied in between.
Each of them ends as it would end without a cache. The invariant is that every entry is the outcome
of a compilation that was asked for under its key, and the key tells everything that the outcome
depends on.
-/

/-- A compilation that is asked for. -/
structure CompileRequest where
  path : String
  source : Bytes
  options : CompileOptions

namespace CompileRequest

/-- The key of the outcome. -/
def key (request : CompileRequest) : Digest :=
  CachedCompilation.key request.source request.options

/-- The byte strings that are hashed for the key. -/
def hashed (request : CompileRequest) : List Bytes :=
  keyParts request.source Version.current.fingerprint request.options.keepListing

/-- The compilation without a cache. -/
def plain (request : CompileRequest) : Compilation :=
  .ofSource request.path request.source request.options .never

/-- What is stored of the compilation. -/
def outcome (request : CompileRequest) : CachedUnit :=
  { request.plain.compiled.toUnit with schema := CachedUnit.currentSchema }

/-- The compilation that a stored outcome stands for. -/
def restored (request : CompileRequest) (stored : CachedUnit) : Compilation :=
  { compiled := .ofUnit request.path request.options stored }

/-- A run that ends as without a cache, but for the remark whether its outcome was found there. -/
structure EndsAlike (request : CompileRequest) (run : Compilation) : Prop where
  fatal : run.fatal = request.plain.fatal
  compiled : run.compiled = { request.plain.compiled with cached := run.compiled.cached }

theorem EndsAlike.plain
    (request : CompileRequest) :
    request.EndsAlike request.plain where
  fatal := rfl
  compiled := rfl

/--
An outcome that is stored for one request is what every other one under its key would make: it
depends neither on the file nor on the limit of diagnostics nor on whether the listing is checked.
-/
theorem restored_endsAlike
    {request other : CompileRequest}
    (isStored : CachedCompilation.isStored other.plain = true)
    (sameSource : request.source = other.source)
    (sameListing : request.options.keepListing = other.options.keepListing) :
    request.EndsAlike (request.restored other.outcome) := by
  rcases request with ⟨path, source, options⟩
  rcases other with ⟨otherPath, otherSource, otherOptions⟩
  cases sameSource
  obtain ⟨fatal, notFailed⟩ : (Compilation.ofSource otherPath source otherOptions .never).fatal =
      none ∧ (Compilation.ofSource otherPath source otherOptions .never).compiled.failed = false := by
    simpa [CachedCompilation.isStored, CompileRequest.plain] using isStored
  obtain ⟨listing, text, makes⟩ := Compilation.exists_makes fatal notFailed
  obtain ⟨-, otherMade⟩ := Compilation.ofSource_of_makes makes otherOptions
  obtain ⟨noFatal, made⟩ := Compilation.ofSource_of_makes (makes.within path) options
  rw [Compilation.made_within] at made
  constructor
  · exact noFatal.symm
  · simp only [restored, outcome, CompileRequest.plain, made, otherMade, Compiled.ofUnit,
      Compiled.toUnit, Compilation.made]
    dsimp only at sameListing
    rw [sameListing]

end CompileRequest

/-- How far a run that uses the cache is. -/
inductive CacheUse where
  | waiting
  | compiled (run : Compilation)
  | finished (run : Compilation)

/-- A cache and the runs that use it. -/
structure SharedCache (ι : Type) where
  store : CacheStore
  uses : ι → CacheUse

/-- A step of one run, or the cache is emptied. -/
inductive SharedStep (ι : Type) where
  | look (turn : ι)
  | keep (turn : ι)
  | drop

namespace SharedCache

variable
    {ι : Type}

/-- The cache is empty, and no run has looked. -/
def start : SharedCache ι :=
  { store := .empty, uses := fun _ => .waiting }

variable
    {turn : ι}

section Steps

variable
    [DecidableEq ι]

/-- A run gets to another stand. -/
def moveOn (shared : SharedCache ι) (turn : ι) (use : CacheUse) : SharedCache ι :=
  { shared with uses := fun other => if other = turn then use else shared.uses other }

/--
A run that waits looks for its outcome and, if it is not there, compiles. A run that has compiled
keeps its outcome if it is worth it. A step that is not due changes nothing.
-/
def step (requests : ι → CompileRequest) (shared : SharedCache ι) : SharedStep ι → SharedCache ι
  | .look turn =>
      match shared.uses turn with
      | .waiting =>
          match shared.store.get (requests turn).key with
          | .hit stored => shared.moveOn turn (.finished ((requests turn).restored stored))
          | .miss => shared.moveOn turn (.compiled (requests turn).plain)
          | .unreadable => shared.moveOn turn (.compiled (requests turn).plain)
      | _ => shared
  | .keep turn =>
      match shared.uses turn with
      | .compiled run =>
          { shared.moveOn turn (.finished run) with
            store :=
              if CachedCompilation.isStored run then
                shared.store.put (requests turn).key run.compiled.toUnit
              else
                shared.store }
      | _ => shared
  | .drop => { shared with store := .empty }

/-- Take steps one after the other. -/
def after (requests : ι → CompileRequest) (steps : List (SharedStep ι)) : SharedCache ι :=
  steps.foldl (step requests) start

/-- A run that takes its steps in a row is a compilation with the cache. -/
theorem look_and_keep
    (requests : ι → CompileRequest)
    (shared : SharedCache ι)
    (waits : shared.uses turn = .waiting) :
    let alone := ((shared.step requests (.look turn)).step requests (.keep turn))
    let compilation := CachedCompilation.ofSource (requests turn).path (requests turn).source
      (requests turn).options .never (some shared.store)
    alone.uses turn = .finished compilation.run ∧ compilation.store = some alone.store := by
  have key : (requests turn).key =
      CachedCompilation.key (requests turn).source (requests turn).options := rfl
  unfold CachedCompilation.ofSource
  cases found : shared.store.get (requests turn).key with
  | hit stored =>
      simp only [step, waits, found, moveOn, ↓reduceIte, ← key]
      exact ⟨rfl, trivial⟩
  | miss =>
      simp only [step, waits, found, moveOn, ↓reduceIte, ← key]
      exact ⟨rfl, rfl⟩
  | unreadable =>
      simp only [step, waits, found, moveOn, ↓reduceIte, ← key]
      exact ⟨rfl, rfl⟩

@[simp] theorem uses_moveOn
    (shared : SharedCache ι)
    (turn other : ι)
    (use : CacheUse) :
    (shared.moveOn turn use).uses other = if other = turn then use else shared.uses other :=
  rfl

end Steps

/-- What holds of a cache and its runs at any time. -/
structure Sound (requests : ι → CompileRequest) (shared : SharedCache ι) : Prop where
  entries : ∀ key stored, shared.store.raw? key = some stored →
    ∃ turn, key = (requests turn).key ∧
      CachedCompilation.isStored (requests turn).plain = true ∧
      stored = (requests turn).outcome.encode
  compiled : ∀ turn run, shared.uses turn = .compiled run → run = (requests turn).plain
  finished : ∀ turn run, shared.uses turn = .finished run → (requests turn).EndsAlike run

section Soundness

variable
    {requests : ι → CompileRequest}
    {shared : SharedCache ι}

theorem sound_start :
    Sound requests (start : SharedCache ι) where
  entries := nofun
  compiled := nofun
  finished := nofun

/-- An entry that is found was made for the same source, with the listing or without it as wanted. -/
theorem Sound.hit
    (noCollision : NoCollision fun part => ∃ turn, part ∈ (requests turn).hashed)
    (decodes : ∀ turn, CachedCompilation.isStored (requests turn).plain = true →
      CachedUnit.decode (requests turn).outcome.encode = some (requests turn).outcome)
    (sound : Sound requests shared)
    (found : shared.store.get (requests turn).key = .hit stored) :
    (requests turn).EndsAlike ((requests turn).restored stored) := by
  unfold CacheStore.get at found
  cases raw : shared.store.raw? (requests turn).key with
  | none => simp [raw] at found
  | some bytes =>
      obtain ⟨maker, sameKey, isStored, rfl⟩ := sound.entries _ _ raw
      simp only [raw, decodes maker isStored] at found
      rw [if_pos (show (requests maker).outcome.schema = CachedUnit.currentSchema from rfl)] at found
      cases found
      obtain ⟨sameSource, sameListing⟩ := eq_of_cacheKey noCollision
        (fun part member => ⟨turn, member⟩) (fun part member => ⟨maker, member⟩) sameKey
      exact CompileRequest.restored_endsAlike isStored sameSource sameListing

variable
    [DecidableEq ι]

/-- Runs that get to a stand that is right for them leave a cache sound. -/
theorem Sound.moveOn
    (sound : Sound requests shared)
    {use : CacheUse}
    (compiled : ∀ run, use = .compiled run → run = (requests turn).plain)
    (finished : ∀ run, use = .finished run → (requests turn).EndsAlike run) :
    Sound requests (shared.moveOn turn use) where
  entries := sound.entries
  compiled other run isCompiled := by
    rw [uses_moveOn] at isCompiled
    split at isCompiled
    next same => exact same ▸ compiled run isCompiled
    · exact sound.compiled other run isCompiled
  finished other run isFinished := by
    rw [uses_moveOn] at isFinished
    split at isFinished
    next same => exact same ▸ finished run isFinished
    · exact sound.finished other run isFinished

/-- Every step leaves a cache sound. -/
theorem Sound.step
    (noCollision : NoCollision fun part => ∃ turn, part ∈ (requests turn).hashed)
    (decodes : ∀ turn, CachedCompilation.isStored (requests turn).plain = true →
      CachedUnit.decode (requests turn).outcome.encode = some (requests turn).outcome)
    (sound : Sound requests shared)
    (taken : SharedStep ι) :
    Sound requests (shared.step requests taken) := by
  cases taken with
  | look turn =>
      have compiles : Sound requests (shared.moveOn turn (.compiled (requests turn).plain)) :=
        sound.moveOn (fun run same => (CacheUse.compiled.inj same).symm) nofun
      rw [SharedCache.step]
      split
      · split
        next stored found =>
          refine sound.moveOn nofun fun run same => ?_
          cases same
          exact sound.hit noCollision decodes found
        · exact compiles
        · exact compiles
      · exact sound
  | keep turn =>
      rw [SharedCache.step]
      split
      next run isCompiled =>
        cases sound.compiled turn run isCompiled
        have moved : Sound requests (shared.moveOn turn (.finished (requests turn).plain)) :=
          sound.moveOn nofun fun run same => CacheUse.finished.inj same ▸ .plain _
        refine ⟨fun key stored raw => ?_, moved.compiled, moved.finished⟩
        by_cases isStored : CachedCompilation.isStored (requests turn).plain = true
        · rw [if_pos isStored, CacheStore.put, CacheStore.raw?_write] at raw
          split at raw
          next sameKey =>
            cases raw
            exact ⟨turn, sameKey, isStored, rfl⟩
          · exact sound.entries key stored raw
        · rw [if_neg isStored] at raw
          exact sound.entries key stored raw
      · exact sound
  | drop => exact ⟨nofun, sound.compiled, sound.finished⟩

/-- What one run has kept another one finds under the same key. -/
theorem uses_of_kept
    {first second : ι}
    (decodes : CachedUnit.decode (requests first).outcome.encode = some (requests first).outcome)
    (isStored : CachedCompilation.isStored (requests first).plain = true)
    (apart : second ≠ first)
    (sameKey : (requests second).key = (requests first).key) :
    (after requests [.look first, .keep first, .look second]).uses second =
      .finished ((requests second).restored (requests first).outcome) := by
  have missed : (start : SharedCache ι).store.get (requests first).key = .miss := rfl
  have found : (CacheStore.empty.put (requests first).key
      (requests first).plain.compiled.toUnit).get (requests second).key =
        .hit (requests first).outcome := by
    have raw : (CacheStore.empty.put (requests first).key
        (requests first).plain.compiled.toUnit).raw? (requests second).key =
          some (requests first).outcome.encode := by
      rw [CacheStore.put, CacheStore.raw?_write, if_pos sameKey]
      rfl
    rw [CacheStore.get, raw]
    simp only [decodes]
    exact if_pos rfl
  have looked : step requests start (.look first) =
      (start : SharedCache ι).moveOn first (.compiled (requests first).plain) := by
    rw [step, missed]
    rfl
  let compiled : SharedCache ι := start.moveOn first (.compiled (requests first).plain)
  have stored : (step requests compiled (.keep first)).store =
      CacheStore.empty.put (requests first).key (requests first).plain.compiled.toUnit := by
    simp only [compiled, step, uses_moveOn, ↓reduceIte, isStored]
    rfl
  have waits : (step requests compiled (.keep first)).uses second = .waiting := by
    simp only [compiled, step, uses_moveOn, ↓reduceIte, apart]
    rfl
  show (step requests (step requests (step requests start (.look first)) (.keep first))
    (.look second)).uses second = _
  rw [looked, step, waits, stored, found, uses_moveOn, if_pos rfl]

/--
Runs that share a cache end as they would without it, in whatever order they look and keep and
whenever the cache is emptied: with the same text, listing, removed functions and diagnostics. What
a run finds does not depend on the file, the limit of diagnostics or the check of the listing that
the run before it was asked for.
-/
theorem shared_cache_transparent
    (requests : ι → CompileRequest)
    (noCollision : NoCollision fun part => ∃ turn, part ∈ (requests turn).hashed)
    (decodes : ∀ turn, CachedCompilation.isStored (requests turn).plain = true →
      CachedUnit.decode (requests turn).outcome.encode = some (requests turn).outcome)
    (steps : List (SharedStep ι))
    (turn : ι)
    (run : Compilation)
    (isFinished : (after requests steps).uses turn = .finished run) :
    run.fatal = (requests turn).plain.fatal ∧
      run.compiled =
        { (requests turn).plain.compiled with cached := run.compiled.cached } := by
  have sound : ∀ shared : SharedCache ι, Sound requests shared →
      Sound requests (steps.foldl (SharedCache.step requests) shared) := by
    clear isFinished
    induction steps with
    | nil => exact fun _ holds => holds
    | cons first rest inductionHypothesis =>
        exact fun shared holds => inductionHypothesis _ (holds.step noCollision decodes first)
  obtain ⟨fatal, compiled⟩ := (sound start sound_start).finished turn run isFinished
  exact ⟨fatal, compiled⟩

/-- Two requests for one source in two files, with different limits and checks. -/
def twoFiles (second : Bool) : CompileRequest :=
  { path := if second then "b.ils" else "a.ils"
    source := "fn main() { @println(1); }"
    options :=
      { diagnosticLimit := if second then 5 else 0, keepListing := true, verifyListing := second } }

/-- The second run finds what the first one kept, and ends as it would have ended without it. -/
theorem twoFiles_shared :
    ∃ run, (after twoFiles [.look false, .keep false, .look true]).uses true = .finished run ∧
      run.compiled.cached = true ∧ run.fatal = (twoFiles true).plain.fatal ∧
      run.compiled = { (twoFiles true).plain.compiled with cached := true } := by
  have noCollision : NoCollision fun part => ∃ turn, part ∈ (twoFiles turn).hashed := by
    -- The first byte string is made of the hashes of the other ones, which are evaluated first.
    let source := Sha256.bigEndian 32
      0x98a03d0fd99b86bc769fa1d6a8cb3a1a1ea8b48f6eea8ef09e70890775d32483
    let fingerprint := Sha256.bigEndian 32
      0xb7f352309e66c12515e02f40aa53043e3997323e48a9404a253780210b813b42
    let flags := Sha256.bigEndian 32
      0x8f0f04df67e2d19c1a9213b522ad5a3a44f5f9f45056c5aa2d66beaae702c170
    have ofSource : Sha256.hash (twoFiles false).source = source := by decide +kernel
    have ofFingerprint : Sha256.hash (Bytes.ofString Version.current.fingerprint) =
        fingerprint := by decide +kernel
    have ofFlags : Sha256.hash (Bytes.ofString (cacheFlags true)) = flags := by decide +kernel
    have ofHashes : (Sha256.hash (source ++ (fingerprint ++ (flags ++ [])))).headD 0 = 214 := by
      decide +kernel
    have firsts : ((twoFiles false).hashed.map fun part => (Sha256.hash part).headD 0) =
        [214, 152, 183, 143] := by
      have hashed : (twoFiles false).hashed =
          keyParts (twoFiles false).source Version.current.fingerprint true := rfl
      simp only [hashed, keyParts, List.map_cons, List.map_nil, List.flatMap_cons,
        List.flatMap_nil, ofSource, ofFingerprint, ofFlags, ofHashes]
      decide +kernel
    have apart : ((twoFiles false).hashed.map fun part => (Sha256.hash part).headD 0).Nodup := by
      rw [firsts]
      decide
    have same : ∀ turn, (twoFiles turn).hashed = (twoFiles false).hashed := by
      intro turn
      cases turn <;> rfl
    rintro left right ⟨turn, isLeft⟩ ⟨other, isRight⟩ sameHash
    exact List.inj_on_of_nodup_map apart (same turn ▸ isLeft) (same other ▸ isRight)
      (congrArg (fun hash => hash.headD 0) sameHash)
  have decodes : ∀ turn, CachedUnit.decode (twoFiles turn).outcome.encode =
      some (twoFiles turn).outcome := by
    intro turn
    cases turn <;> decide +kernel
  have finished := uses_of_kept (decodes false) (by decide +kernel) Bool.noConfusion
    (show (twoFiles true).key = (twoFiles false).key from rfl)
  obtain ⟨fatal, compiled⟩ := shared_cache_transparent twoFiles noCollision
    (fun turn _ => decodes turn) _ true _ finished
  exact ⟨_, finished, rfl, fatal, compiled⟩

end Soundness

end SharedCache

end IlsCompiler
