import IlsCompiler.Files.Path

namespace IlsCompiler

/-!
# Where a build writes

Every source has one place in the output directory. A source below the base directory
keeps its way from there; any other keeps only its name.
-/

namespace Output

/-- The extension of assembly files. -/
def assemblyExtension : String := ".asm"

/-- The extension of files that hold a listing. -/
def listingExtension : String := ".ir"

/-- What a source is called within the output directory. -/
def nameWithin (baseDir file : String) : String :=
  if baseDir = "" then
    Path.lastName file
  else
    match Path.relative? (Path.parse baseDir) (Path.parse file) with
    | some way => if Path.up.toList.isPrefixOf way.toList then Path.lastName file else way
    | none => Path.lastName file

/-- Where the assembly text of a source goes. -/
def place (baseDir outDir file : String) : Path :=
  Path.join outDir
    (Path.withoutExtension (nameWithin baseDir file) ++ assemblyExtension)

/-- Where the listing goes that belongs to an assembly file. -/
def listingText (assembly : String) : String :=
  let stem :=
    if assemblyExtension.toList.isSuffixOf assembly.toList then
      String.ofList (assembly.toList.take (assembly.length - assemblyExtension.length))
    else
      assembly
  stem ++ listingExtension

/-- Two sources that would be written to one place. -/
structure Collision where
  first : String
  second : String
  place : Path
deriving DecidableEq, Repr

/-- How a collision is told. -/
def Collision.message (collision : Collision) : String :=
  collision.first ++ " and " ++ collision.second ++ " both compile to " ++ collision.place.text

/-- Places for sources, given the sources whose places are taken. -/
def placesAfter (baseDir outDir : String) (taken : List (Path × String)) :
    List String → Except Collision (List Path)
  | [] => .ok []
  | file :: rest =>
      let target := place baseDir outDir file
      match taken.lookup target with
      | some first => .error { first := first, second := file, place := target }
      | none =>
          match placesAfter baseDir outDir ((target, file) :: taken) rest with
          | .error collision => .error collision
          | .ok places => .ok (target :: places)

/-- The place of every source, or the first two sources that share one. -/
def places (files : List String) (baseDir outDir : String) : Except Collision (List Path) :=
  placesAfter baseDir outDir [] files

end Output

end IlsCompiler
