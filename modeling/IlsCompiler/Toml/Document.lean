import IlsCompiler.Toml.Parser

namespace IlsCompiler.Toml

/-!
# TOML documents

The statements of a document build up nested tables. A key may be given only once.
A table that came up only on the way to another one may still be opened by a header of
its own, and a value that is an array may be replaced.
-/

/-- A value of a document; `tables` are the tables of an array that headers add to. -/
inductive Value where
  | text (value : String)
  | integer (value : Int)
  | real
  | truth (value : Bool)
  | moment
  | array (items : List Value)
  | table (fields : List (String × Value))
  | tables (items : List (List (String × Value)))
deriving Repr, Inhabited

/-- A table: its keys in the order they came up, with their values. -/
abbrev Table := List (String × Value)

namespace Table

/-- The value of a key. -/
def get? (table : Table) (name : String) : Option Value :=
  table.lookup name

/-- Give a key a value, in place of any it had. -/
def put : Table → String → Value → Table
  | [], name, value => [(name, value)]
  | (key, old) :: rest, name, value =>
      if key = name then
        (name, value) :: rest
      else
        (key, old) :: put rest name value

/-- The table that a value stands for: itself, or the last of several. -/
def ofValue? : Value → Option Table
  | .table fields => some fields
  | .tables items => items.getLast?
  | _ => none

/-- Put a table in the place of the one that a value stands for. -/
def intoValue (fields : Table) : Value → Value
  | .tables items => .tables (items.dropLast ++ [fields])
  | _ => .table fields

/-- The table at the end of a way. -/
def at? (table : Table) : Key → Option Table
  | [] => some table
  | name :: rest =>
      match (table.get? name).bind ofValue? with
      | none => none
      | some inner => at? inner rest

/-- Change the table at the end of a way. -/
def change? (table : Table) (change : Table → Option Table) : Key → Option Table
  | [] => change table
  | name :: rest =>
      match table.get? name with
      | none => none
      | some value =>
          match ofValue? value with
          | none => none
          | some inner =>
              (change? inner change rest).map fun after => table.put name (intoValue after value)

end Table

/--
A document while it is built: its tables, the keys in the order they were given, the
keys of tables that only came up on the way, those whose values are arrays, and the
table that statements add to.
-/
structure Document where
  root : Table := []
  keys : List Key := []
  passing : List Key := []
  arrays : List Key := []
  context : Key := []
deriving Repr, Inhabited

namespace Document

/-- Note that a table came up on the way. -/
def pass (document : Document) (key : Key) : Document :=
  { document with passing := key :: document.passing }

/-- Note that a table did not only come up on the way. -/
def settle (document : Document) (key : Key) : Document :=
  { document with passing := document.passing.filter fun other => other != key }

/-- The key that the kind of a value is noted for; an empty name stands for its table. -/
def kindKey (document : Document) (name : String) : Key :=
  if name != "" then
    document.context ++ [name]
  else if document.context.isEmpty then
    [""]
  else
    document.context

/-- Note whether the value of a key is an array. -/
def noteKind (document : Document) (name : String) (isArray : Bool) : Document :=
  let key := document.kindKey name
  let others := document.arrays.filter fun other => other != key
  { document with arrays := if isArray then key :: others else others }

/-- Give a key in the current table a value. -/
def setValue (document : Document) (name : String) (value : Value) : Option Document :=
  let key := document.context ++ [name]
  match document.root.at? document.context with
  | none => none
  | some table =>
      let stored := fun (current : Document) =>
        (current.root.change? (fun inner => some (inner.put name value)) current.context).map
          fun root => { current with root := root }
      if (table.get? name).isNone then
        stored document
      else if document.arrays.contains key then
        stored (document.settle key)
      else if document.passing.contains key then
        some (document.settle key)
      else
        none

/-- Go through the tables of a way, making those that are missing. -/
def openWay (document : Document) (done : Key) : Key → Option Document
  | [] => some { document with context := done }
  | name :: rest =>
      match document.root.at? done with
      | none => none
      | some table =>
          match table.get? name with
          | some value =>
              if (Table.ofValue? value).isSome then
                document.openWay (done ++ [name]) rest
              else
                none
          | none =>
              match document.root.change? (fun inner => some (inner.put name (.table []))) done with
              | none => none
              | some root =>
                  ({ document with root := root }.pass (done ++ [name])).openWay
                    (done ++ [name]) rest

/-- Add a table to the array of a key in the current table. -/
def addItem (document : Document) (name : String) : Option Document :=
  let change := fun (table : Table) =>
    match table.get? name with
    | none => some (table.put name (.tables [[]]))
    | some (.tables items) => some (table.put name (.tables (items ++ [[]])))
    | some _ => none
  (document.root.change? change document.context).map fun root =>
    { document with root := root }

/-- Make a table the current one, as a new item of an array if asked to. -/
def enter (document : Document) (key : Key) (asItem : Bool) : Option Document :=
  match key.getLast? with
  | none => none
  | some name =>
      match document.openWay [] key.dropLast with
      | none => none
      | some opened =>
          let entered :=
            if asItem then
              opened.addItem name
            else
              opened.setValue name (.table [])
          entered.map fun after => { after with context := key }

/-- Enter the tables in front of the last part of a key. -/
def enterParts (document : Document) : Key → Option Document
  | [] => some document
  | name :: rest =>
      let key := document.context ++ [name]
      match (document.pass key).enter key false with
      | none => none
      | some after => after.enterParts rest

/-- Whether a term is an array. -/
def isArrayTerm : Term → Bool
  | .array _ => true
  | _ => false

mutual

/-- The value of a term that is given to a name in the current table. -/
def evaluate (document : Document) (name : String) (asItem : Bool) :
    Term → Option (Document × Value)
  | .text value => some (document, .text value)
  | .integer value => some (document, .integer value)
  | .real => some (document, .real)
  | .truth value => some (document, .truth value)
  | .moment => some (document, .moment)
  | .array items =>
      (evaluateItems (document.noteKind name true) name items).map fun (after, values) =>
        (after, .array values)
  | .inline fields =>
      let key := document.context ++ [name]
      match (document.pass key).enter key asItem with
      | none => none
      | some entered =>
          (evaluateFields entered key fields []).map fun (after, table) =>
            ({ after with context := document.context }, .table table)

/-- The values of the items of an array. -/
def evaluateItems (document : Document) (name : String) :
    List Term → Option (Document × List Value)
  | [] => some (document, [])
  | item :: rest =>
      match evaluate document name true item with
      | none => none
      | some (after, value) =>
          (evaluateItems after name rest).map fun (last, values) => (last, value :: values)

/--
The fields of an inline table, which is the current table for each of them. All parts of
a key say where its value goes in the document; in the value that the inline table itself
has, it is found under the last part alone.
-/
def evaluateFields (document : Document) (table : Key) :
    List (Key × Term) → Table → Option (Document × Table)
  | [], fields => some (document, fields)
  | (key, term) :: rest, fields =>
      let name := key.getLast?.getD ""
      match { document with context := table }.enterParts key.dropLast with
      | none => none
      | some entered =>
          let noted := { entered with keys := entered.keys ++ [entered.context ++ [name]] }
          match evaluate noted name false term with
          | none => none
          | some (after, value) =>
              match after.setValue name value with
              | none => none
              | some set =>
                  evaluateFields (set.noteKind name (isArrayTerm term)) table rest
                    (fields.put name value)

end

/-- Give a key a value, within the current table. -/
def assign (document : Document) (key : Key) (term : Term) : Option Document :=
  (evaluateFields document document.context [(key, term)] []).map fun (after, _) =>
    { after with context := document.context }

/-- Take a statement in. -/
def step (document : Document) : Statement → Option Document
  | .header key =>
      (document.enter key false).map fun after =>
        { after.noteKind "" false with keys := after.keys ++ [key] }
  | .item key =>
      (document.enter key true).map fun after =>
        { after.noteKind "" false with keys := after.keys ++ [key] }
  | .assign key term => document.assign key term

/-- The document that contents hold, if they are well formed. -/
def ofContents? (contents : Bytes) : Option Document :=
  (statements? contents).bind fun statements => statements.foldlM step {}

/-- Whether a key was given a value. -/
def isDefined (document : Document) (table name : String) : Bool :=
  match document.root.get? table with
  | some (.table fields) => (Table.get? fields name).isSome
  | _ => false

end Document

end IlsCompiler.Toml
