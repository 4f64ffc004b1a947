import IlsCompiler.CommandLine.Run

namespace IlsCompiler.CommandLine

/-!
# The program

The files that a command can be about are read in advance, the command runs on them,
and what it changed is written back.
-/

/-- How deep directories are looked through. -/
def loadDepth : Nat := 64

/-- Whether the contents of a file matter and not only that it is there. -/
def isRead (name : String) : Bool :=
  name = Manifest.fileName || Sources.extension.toList.isSuffixOf name.toList

/-- The contents of a file, or nothing where they cannot be read. -/
def loadContents (path name : String) : IO Bytes :=
  if isRead name then
    try
      return (← IO.FS.readBinFile path).data.toList
    catch _ =>
      return []
  else
    return []

/-- Read what stands below a directory, down to a depth. -/
def loadBelow : Nat → String → Place → FileSystem → IO FileSystem
  | 0, _, _, system => return system
  | depth + 1, path, place, system => do
      let mut current := system
      for entry in ← (← IO.FS.realPath path).readDir do
        let name := entry.fileName
        let inner := path ++ "/" ++ name
        let location := place ++ [name]
        if ← entry.path.isDir then
          current ← loadBelow depth inner location (current.withDirectory location)
        else
          current := current.withFile location (← loadContents inner name)
      return current

/-- Read a directory, or nothing where that fails. -/
def loadDirectory (path : Path) (system : FileSystem) : IO FileSystem :=
  try
    loadBelow loadDepth path.text path.names (system.withDirectory path.names)
  catch _ =>
    return system

/-- Read a file if it is there. -/
def loadFile (path : Path) (system : FileSystem) : IO FileSystem :=
  try
    let contents := (← IO.FS.readBinFile path.text).data.toList
    return system.withFile path.names contents
  catch _ =>
    return system

/-- Read what a word of the command line may name, if it lies elsewhere. -/
def loadNamed (working : String) (system : FileSystem) (word : String) : IO FileSystem := do
  let path := Path.absolute working word
  if isFlagWord word || (system.entry? path.names).isSome then
    return system
  else
    loadDirectory path (← loadFile path system)

/-- Read the project that a directory belongs to. -/
def loadProject (working : String) (system : FileSystem) : IO FileSystem := do
  let mut current := system
  for candidate in Manifest.candidates (Path.parse working) do
    current ← loadFile candidate current
  match Manifest.find current "." with
  | .ok (some path) =>
      if path.parent = Path.parse working then
        return current
      else
        loadDirectory path.parent current
  | _ => return current

/-- The directory of the stored outcomes. -/
def unitsPath (environment : Environment) : String :=
  (environment.cacheDirectory.extend "units").text

/-- The path of a stored outcome. -/
def unitPath (environment : Environment) (key : Digest) : String :=
  unitsPath environment ++ "/" ++ key.text ++ ".mp"

/-- Read the stored outcomes. -/
def loadCache (environment : Environment) : IO Environment := do
  let mut store := CacheStore.empty
  try
    for entry in ← (← IO.FS.realPath (unitsPath environment)).readDir do
      let name := entry.fileName.toList
      match Bytes.ofHexDigits? (name.take (name.length - 3)) with
      | some key => store := store.write ⟨key⟩ (← IO.FS.readBinFile entry.path).data.toList
      | none => pure ()
    return { environment with cache := store }
  catch _ =>
    return { environment with cache := store }

/-- Write a file. -/
def saveFile (path : String) (contents : Bytes) : IO Unit :=
  IO.FS.writeBinFile path ⟨contents.toArray⟩

/-- Write back what a command changed. -/
def save (before after : Environment) : IO Unit := do
  for (place, entry) in after.files.entries do
    if before.files.entry? place != some entry then
      let path := (Path.mk true place).text
      match entry with
      | .directory => IO.FS.createDirAll path
      | .file contents => saveFile path contents
  for (key, _) in before.cache.entries do
    if (after.cache.raw? key).isNone then
      IO.FS.removeFile (unitPath before key)
  for (key, stored) in after.cache.entries do
    if before.cache.raw? key != some stored then
      IO.FS.createDirAll (unitsPath after)
      saveFile (unitPath after key) stored

/-- The directory that holds the caches of all programs. -/
def findCacheHome : IO String := do
  match ← IO.getEnv "XDG_CACHE_HOME" with
  | some path => if path ≠ "" then return path
  | none => pure ()
  return (Path.join ((← IO.getEnv "HOME").getD "") ".cache").text

/-- Read the surroundings of a command. -/
def loadEnvironment (words : List String) : IO Environment := do
  let working := (← IO.currentDir).toString
  let mut files ← loadDirectory (Path.parse working) (.empty (Path.parse working).names)
  files ← loadProject working files
  for word in words do
    files ← loadNamed working files word
  loadCache
    { files := files, cacheHome := ← findCacheHome,
      outputIsTerminal := ← (← IO.getStdout).isTty,
      messagesAreTerminal := ← (← IO.getStderr).isTty }

end IlsCompiler.CommandLine

open IlsCompiler in
/-- Run the command line of the process. -/
def main (words : List String) : IO UInt32 := do
  let environment ← CommandLine.loadEnvironment words
  let answer := CommandLine.run words environment
  CommandLine.save environment answer.environment
  (← IO.getStdout).write ⟨answer.output.toArray⟩
  (← IO.getStderr).write ⟨answer.messages.toArray⟩
  return answer.status.toUInt32
