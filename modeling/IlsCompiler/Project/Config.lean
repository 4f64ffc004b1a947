import IlsCompiler.Toml.Document

namespace IlsCompiler

/-!
# Project configurations

What a manifest says about a project. Sections and fields are found by their names,
without regard to case if no name fits exactly. A value of the wrong kind makes the
whole manifest unreadable.
-/

/-- The settings of a project. -/
structure ProjectConfig where
  name : String := ""
  sources : List String := []
  outDir : String := ""
  keepListing : Bool := false
  verifyListing : Bool := false
  cache : Bool := true
  jobs : Int := 0
deriving DecidableEq, Repr, Inhabited

/-- Why a manifest cannot be used. -/
inductive ManifestFault where
  | unreadable
  | missingName
  | missingSources
  | unknownKey (key : Toml.Key)
  | negativeJobs
deriving DecidableEq, Repr

/-- How a fault is told. -/
def ManifestFault.message : ManifestFault → String
  | .unreadable => "failed to parse TOML"
  | .missingName => "missing [package].name"
  | .missingSources => "missing [build].sources"
  | .unknownKey key => "unknown key " ++ Toml.keyText key
  | .negativeJobs => "[compiler].jobs must not be negative"

namespace ProjectConfig

open Toml

/-- A field of a section. -/
inductive Field where
  | name
  | sources
  | outDir
  | keepListing
  | verifyListing
  | cache
  | jobs
deriving DecidableEq, Repr

/-- The sections with the names of their fields. -/
def sections : List (String × List (String × Field)) := [
  ("package", [("name", .name)]),
  ("build", [("sources", .sources), ("out_dir", .outDir)]),
  ("compiler", [("keep_ir", .keepListing), ("verify_ir", .verifyListing), ("cache", .cache),
    ("jobs", .jobs)])]

/-- A letter without its case; two letters outside ASCII are cases of ASCII ones. -/
def caseless (value : Char) : Char :=
  match value.toNat with
  | 0x17F => 's'
  | 0x212A => 'k'
  | _ => value.toLower

/-- What a name stands for: an exact fit, or else one without regard to case. -/
def fitting? (names : List (String × α)) (name : String) : Option α :=
  match names.lookup name with
  | some found => some found
  | none =>
      (names.find? fun entry => entry.1.toList == name.toList.map caseless).map fun entry => entry.2

/-- Strings out of the items of an array. -/
def texts? (items : List Value) : Option (List String) :=
  items.mapM fun item =>
    match item with
    | .text value => some value
    | _ => none

/-- Set a field, if the value is of its kind. -/
def set? (config : ProjectConfig) : Field → Value → Option ProjectConfig
  | .name, .text value => some { config with name := value }
  | .sources, .array items => (texts? items).map fun values => { config with sources := values }
  | .outDir, .text value => some { config with outDir := value }
  | .keepListing, .truth value => some { config with keepListing := value }
  | .verifyListing, .truth value => some { config with verifyListing := value }
  | .cache, .truth value => some { config with cache := value }
  | .jobs, .integer value => some { config with jobs := value }
  | _, _ => none

/-- Settings, and the keys that they were read from. -/
abbrev Decoded := ProjectConfig × List Key

/-- Read a field of a section; one of an unknown name is left alone. -/
def readField (table : String) (fields : List (String × Field)) (decoded : Decoded)
    (entry : String × Value) : Option Decoded :=
  match fitting? fields entry.1 with
  | none => some decoded
  | some field =>
      (decoded.1.set? field entry.2).map fun config => (config, [table, entry.1] :: decoded.2)

/-- Read a section; one of an unknown name is left alone. -/
def readSection (decoded : Decoded) (entry : String × Value) : Option Decoded :=
  match fitting? sections entry.1 with
  | none => some decoded
  | some fields =>
      match entry.2 with
      | .table inner => inner.foldlM (readField entry.1 fields) (decoded.1, [entry.1] :: decoded.2)
      | _ => none

/-- The directory that a project is built into if it does not say so. -/
def defaultOutDir : String := "build"

/-- The settings that the contents of a manifest give. -/
def ofContents (contents : Bytes) : Except ManifestFault ProjectConfig :=
  match Document.ofContents? contents with
  | none => .error .unreadable
  | some document =>
      match document.root.foldlM readSection ({}, []) with
      | none => .error .unreadable
      | some (config, decoded) =>
          if !document.isDefined "package" "name" || Text.trim config.name = "" then
            .error .missingName
          else if !document.isDefined "build" "sources" || config.sources.isEmpty then
            .error .missingSources
          else
            match document.keys.find? fun key => !decoded.contains key with
            | some key => .error (.unknownKey key)
            | none =>
                if config.jobs < 0 then
                  .error .negativeJobs
                else
                  .ok { config with
                    outDir := if config.outDir = "" then defaultOutDir else config.outDir }

end ProjectConfig

end IlsCompiler
