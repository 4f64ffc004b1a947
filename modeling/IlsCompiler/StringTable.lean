import IlsCompiler.Text.Normal

namespace IlsCompiler

/-!
# The string table

String constants are stored once each under numbered symbols. Contents are
normalized first, so that spellings of the same text share an entry.
-/

/-- Contents in the order of their symbols. -/
structure StringTable where
  contents : List Bytes
deriving DecidableEq, Repr, Inhabited

namespace StringTable

/-- A table without entries. -/
def empty : StringTable := ⟨[]⟩

/-- The symbol with a number. -/
def symbolAt (position : Nat) : String :=
  "STR_" ++ toString position

/-- The symbol of a text, entering it if it is new. -/
def intern (table : StringTable) (text : Bytes) : StringTable × String :=
  let content := Text.normalize text
  match table.contents.idxOf? content with
  | some position => (table, symbolAt position)
  | none => (⟨table.contents ++ [content]⟩, symbolAt table.contents.length)

/-- The symbols and contents in order. -/
def entries (table : StringTable) : List (String × Bytes) :=
  table.contents.mapIdx fun position content => (symbolAt position, content)

/-- The content of a symbol. -/
def content? (table : StringTable) (symbol : String) : Option Bytes :=
  table.entries.lookup symbol

/-- The symbol of a text that is in the table. -/
def symbol? (table : StringTable) (text : Bytes) : Option String :=
  (table.contents.idxOf? (Text.normalize text)).map symbolAt

/-- How many entries there are. -/
def size (table : StringTable) : Nat :=
  table.contents.length

end StringTable

end IlsCompiler
