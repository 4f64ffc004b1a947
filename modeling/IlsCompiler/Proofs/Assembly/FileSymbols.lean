import IlsCompiler.Proofs.Assembly.FunctionTexts
import IlsCompiler.Proofs.Lowering.Globals

namespace IlsCompiler

/-!
# The names that a file introduces

A file introduces the formats and strings of its data section, the functions that are kept, its
global variables and the routine that prints. All but the last are told apart from each other and
from the registers as they are written. The routine is not, so a function or global variable of its
name clashes with it, and neither are the registers in capital letters.
-/

/-- Whether a name spells a register when capital letters count as small ones. -/
def Reg.isNameInAnyCase (name : String) : Bool :=
  isName (String.ofList (name.toList.map Char.toLower))

variable
    {name : String}

/-- No spelling of a register has an underscore. -/
theorem Reg.isName_of_underscore
    (member : '_' ∈ name.toList) :
    isName name = false := by
  have noUnderscore : ∀ reg ∈ all, ∀ spelling ∈ reg.spellings, '_' ∉ spelling.toList := by decide
  rw [isName, ofSpelling?, Option.isSome_eq_false_iff, Option.isNone_iff_eq_none, List.find?_eq_none]
  intro reg isReg spelled
  exact noUnderscore reg isReg name (List.contains_iff_mem.mp spelled) member

/-- The names of formats and strings, which are in every file of a listing. -/
def Listing.constantNames (listing : Listing) : List String :=
  PrintFormat.all.map (fun format => format.name) ++
    listing.strings.entries.map fun entry => entry.1

namespace StringTable

/-- The name of a string contains an underscore, also in small letters. -/
theorem underscore_mem_symbolAt
    (position : Nat) :
    '_' ∈ (symbolAt position).toList ∧
      '_' ∈ (symbolAt position).toList.map Char.toLower := by
  simp [symbolAt]

end StringTable

variable
    {listing : Listing}

namespace Listing

theorem mem_constantNames
    (member : name ∈ listing.constantNames) :
    name ∈ PrintFormat.all.map (fun format => format.name) ∨
      ∃ position, name = StringTable.symbolAt position := by
  rcases List.mem_append.mp member with isFormat | isString
  · exact .inl isFormat
  · rw [StringTable.symbols_eq] at isString
    obtain ⟨position, _, rfl⟩ := List.mem_map.mp isString
    exact .inr ⟨position, rfl⟩

theorem constantNames_nodup
    (listing : Listing) :
    listing.constantNames.Nodup := by
  refine List.nodup_append.mpr ⟨by decide, ?_, ?_⟩
  · rw [StringTable.symbols_eq]
    exact List.nodup_range.map fun _ _ => StringTable.symbolAt_injective
  · rintro format isFormat string isString rfl
    rw [StringTable.symbols_eq] at isString
    obtain ⟨position, _, rfl⟩ := List.mem_map.mp isString
    have noUnderscore : ∀ name ∈ PrintFormat.all.map (fun format => format.name),
        '_' ∉ name.toList := by decide
    exact noUnderscore _ isFormat (StringTable.underscore_mem_symbolAt position).1

/-- No constant has the name of a register, in small or in capital letters. -/
theorem constantNames_noRegister
    (member : name ∈ listing.constantNames) :
    Reg.isName name = false ∧ Reg.isNameInAnyCase name = false := by
  rcases mem_constantNames member with isFormat | ⟨position, rfl⟩
  · have formats : ∀ name ∈ PrintFormat.all.map (fun format => format.name),
        Reg.isName name = false ∧ Reg.isNameInAnyCase name = false := by decide
    exact formats name isFormat
  · obtain ⟨asWritten, inSmall⟩ := StringTable.underscore_mem_symbolAt position
    refine ⟨Reg.isName_of_underscore asWritten, Reg.isName_of_underscore ?_⟩
    simpa using inSmall

theorem routine_notMem_constantNames
    (listing : Listing) :
    PrintFormat.routine ∉ listing.constantNames := by
  intro member
  rcases mem_constantNames member with isFormat | ⟨position, isString⟩
  · revert isFormat
    decide
  · have isThere := (StringTable.underscore_mem_symbolAt position).1
    rw [← isString] at isThere
    revert isThere
    decide

end Listing

namespace AssemblyFile

variable
    {listing : Listing}
    {file final : AssemblyFile}

/--
The names of a file outside functions: those of its data are told apart from each other and from the
registers.
-/
structure Distinct (listing : Listing) (file : AssemblyFile) : Prop where
  symbols : file.symbols = listing.constantNames ++ file.data.map fun entry => entry.name
  nodup : file.symbols.Nodup
  registers : ∀ entry ∈ file.data, Reg.isName entry.name = false

theorem distinct_start
    (listing : Listing) :
    Distinct listing (.start listing) where
  symbols := by simp [AssemblyFile.start, Listing.constantNames]
  nodup := listing.constantNames_nodup
  registers _ member := by cases member

/-- A global variable that is added has a name of its own. -/
theorem addGlobal_named
    {id : VarId}
    {line : Nat}
    (added : file.addGlobal listing id line = .ok final) :
    ∃ entry : DataEntry,
      listing.globalName? (.declare id line) = some entry.name ∧
        (Reg.isName entry.name = false ∧ entry.name ∉ file.symbols) ∧
        final.symbols = file.symbols ++ [entry.name] ∧ final.data = file.data ++ [entry] := by
  unfold addGlobal at added
  split at added
  next _ _ _ _ name isParam _ _ found =>
    split at added
    · cases added
    · split at added
      · cases added
      · split at added
        · cases added
        next text =>
          cases declared : file.declareSymbol name line with
          | error failure => simp [declared, bind, Except.bind] at added
          | ok named =>
              rw [declared] at added
              obtain ⟨allowed, rfl⟩ := declareSymbol_ok_iff.mp declared
              cases added
              refine ⟨.ofGlobal name _ _, ?_, allowed, rfl, rfl⟩
              simp only [Listing.globalName?, Listing.fixed?, found]
              cases isParam <;> rfl
  · cases added

theorem Distinct.addGlobal
    (distinct : Distinct listing file)
    {id : VarId}
    {line : Nat}
    (added : file.addGlobal listing id line = .ok final) :
    Distinct listing final := by
  obtain ⟨entry, _, ⟨noRegister, isNew⟩, symbols, data⟩ := addGlobal_named added
  refine ⟨?_, ?_, fun other member => ?_⟩
  · rw [symbols, data, distinct.symbols]
    simp
  · rw [symbols]
    refine List.nodup_append.mpr ⟨distinct.nodup, by simp, fun name isOld other isEntry => ?_⟩
    cases List.mem_singleton.mp isEntry
    rintro rfl
    exact isNew isOld
  · rw [data] at member
    rcases List.mem_append.mp member with isOld | isEntry
    · exact distinct.registers other isOld
    · exact List.mem_singleton.mp isEntry ▸ noRegister

/-- Declarations of global variables keep names apart, and their names are those of the data. -/
theorem Distinct.takes
    {nodes : List Node}
    {names : List String}
    (distinct : Distinct listing file)
    (declares : nodes.map listing.globalName? = names.map some)
    (outside : file.current = none)
    (taken : Takes listing nodes file final) :
    Distinct listing final ∧
      final.data.map DataEntry.name = file.data.map DataEntry.name ++ names := by
  induction nodes generalizing file names with
  | nil =>
      cases taken
      cases names with
      | nil => exact ⟨distinct, (List.append_nil _).symm⟩
      | cons _ _ => cases declares
  | cons node rest inductionHypothesis =>
      cases names with
      | nil => cases declares
      | cons name others =>
          rw [List.map_cons, List.map_cons, List.cons.injEq] at declares
          obtain ⟨between, one, restTaken⟩ := taken
          obtain ⟨id, line, _, _, _, _, rfl, _⟩ := Listing.globalName?_ok declares.1
          have added : file.addGlobal listing id line = .ok between := by
            rw [← one]
            simp [step, outside]
          obtain ⟨entry, named, _, _, data⟩ := addGlobal_named added
          cases Option.some.inj (declares.1.symm.trans named)
          obtain ⟨stillDistinct, allData⟩ := inductionHypothesis (distinct.addGlobal added)
            declares.2 ((addGlobal_ok added).2.2.trans outside) restTaken
          refine ⟨stillDistinct, allData.trans ?_⟩
          simp [data]

end AssemblyFile

namespace Lower

open LoweringState AssemblyFile

/-- The functions of a program that are kept. -/
def keptNames (program : Program) (pruned : Pruned) : List String :=
  (functionNames program.statements).filter fun name => !pruned.removed.contains name

/-- The names that a program gives its file to introduce, in front of the external routine. -/
def fileNames (program : Program) (listing : Listing) (pruned : Pruned) : List String :=
  listing.constantNames ++ (declaredNames program.statements).eraseDups ++ keptNames program pruned

/--
The text of a file introduces names: each name of a constant or global variable begins a line of the
data section, each name of a function a line of code, and the lines inside a function begin with a
tab or a dot.
-/
def Introduces (text : String) (constants functions globals : List String) : Prop :=
  ∃ (codes : List (String × List String)) (data : List String),
    text = fileText codes data ∧ codes.map Prod.fst = functions ∧
      (∀ code ∈ codes, ∃ lines,
        code.2 = (code.1 ++ ":") :: lines ++ ["\tret", ""] ∧
          ∀ line ∈ lines, line.toList.head? = some '\t' ∨ line.toList.head? = some '.') ∧
      List.Forall₂ (fun name line => ∃ rest, line = "\t" ++ name ++ " " ++ rest)
        (constants ++ globals) data

/-- The lines of the data section begin with the names of its entries. -/
theorem dataLines_named
    (listing : Listing)
    (file : AssemblyFile) :
    List.Forall₂ (fun name line => ∃ rest, line = "\t" ++ name ++ " " ++ rest)
      (listing.constantNames ++ file.data.map DataEntry.name)
      (file.dataLines listing).tail.dropLast := by
  have lines : (file.dataLines listing).tail.dropLast =
      (PrintFormat.all.map fun format => "\t" ++ format.name ++ " db " ++ format.bytes) ++
        (listing.strings.entries.map fun entry =>
          "\t" ++ entry.1 ++ " db " ++ Backquoted.text entry.2 ++ ", 0") ++
        file.data.map fun entry => "\t" ++ entry.text := by
    simp [dataLines]
  rw [lines, Listing.constantNames]
  refine List.rel_append (List.rel_append ?_ ?_) ?_ <;>
    rw [List.forall₂_map_left_iff, List.forall₂_map_right_iff, List.forall₂_same]
  · exact fun format _ => ⟨"db " ++ format.bytes, by simp [← String.toList_inj]⟩
  · exact fun entry _ => ⟨"db " ++ Backquoted.text entry.2 ++ ", 0", by simp [← String.toList_inj]⟩
  · intro entry _
    unfold DataEntry.text
    split
    · exact ⟨"times " ++ toString entry.times ++ " " ++ entry.directive ++ " 0", by
        simp [← String.toList_inj]⟩
    · exact ⟨entry.directive ++ " " ++ entry.init, by simp [← String.toList_inj]⟩

/-- A file of kept functions holds the names of its data apart and can introduce the functions. -/
theorem Row.globals_distinct
    {program : Program}
    {declared last : LoweringState}
    {parts : List FunctionSection}
    (row : Row program listing declared last parts)
    {globals : AssemblyFile}
    (taken : Takes listing declared.listing.nodes.toList (.start listing) globals) :
    Distinct listing globals ∧
      globals.data.map DataEntry.name = (declaredNames program.statements).eraseDups := by
  have grown : declared.listing.Extends listing := row.listing_eq ▸ row.laid.extends_
  obtain ⟨distinct, data⟩ :=
    (distinct_start listing).takes (row.ready.globalNames grown) rfl taken
  exact ⟨distinct, by simpa [AssemblyFile.start] using data⟩

/--
The names that a file introduces are told apart from each other, from the registers as they are
written, and from the external routine unless a kept function or a global variable is called like
it. Only a kept function or a global variable can have the name of a register in other letters.
-/
theorem names_clash_only_with_routine
    {program : Program}
    {listing : Listing}
    {pruned : Pruned}
    {text : String}
    (lowered : program.lower = .ok listing)
    (choice : pruned = .whole listing ∨ pruned = .ofListing listing)
    (emitted : listing.emit pruned.nodes = .ok text) :
    Introduces text listing.constantNames (keptNames program pruned)
        (declaredNames program.statements).eraseDups ∧
      (fileNames program listing pruned).Nodup ∧
      (∀ name ∈ PrintFormat.routine :: fileNames program listing pruned,
        Reg.isName name = false) ∧
      ((PrintFormat.routine :: fileNames program listing pruned).Nodup ↔
        PrintFormat.routine ∉ keptNames program pruned ∧
          PrintFormat.routine ∉ declaredNames program.statements) ∧
      ∀ name ∈ PrintFormat.routine :: fileNames program listing pruned,
        Reg.isNameInAnyCase name = true →
          name ∈ keptNames program pruned ∨ name ∈ declaredNames program.statements := by
  obtain ⟨declared, last, parts, row⟩ := lower_row lowered
  obtain ⟨globals, globalsTaken, areSome, admits, rfl⟩ := (row.emits_iff choice).mp emitted
  obtain ⟨noCode, _, _⟩ := row.globals_taken globalsTaken
  obtain ⟨distinct, data⟩ := row.globals_distinct globalsTaken
  have functions : (parts.filter fun part => !pruned.removed.contains part.name).map
      FunctionSection.name = keptNames program pruned := by
    rw [keptNames, ← row.names, List.filter_map]
    rfl
  have symbols : fileNames program listing pruned = globals.symbols ++ keptNames program pruned := by
    rw [fileNames, distinct.symbols, ← data]
  rw [functions] at admits
  have noDuplicates : (fileNames program listing pruned).Nodup := by
    rw [symbols, List.nodup_append]
    exact ⟨distinct.nodup, admits.distinct, fun name isOld other isNew same =>
      admits.unused other isNew (same ▸ isOld)⟩
  have isFileName : ∀ name, name ∈ fileNames program listing pruned ↔
      name ∈ listing.constantNames ∨ name ∈ declaredNames program.statements ∨
        name ∈ keptNames program pruned := by
    simp [fileNames]
  refine ⟨⟨_, _, text_closedAll noCode _, ?_, ?_, ?_⟩, noDuplicates, ?_, ?_, ?_⟩
  · rw [List.map_map]
    exact functions
  · intro code member
    obtain ⟨part, isPart, rfl⟩ := List.mem_map.mp member
    refine row.text_shape lowered (List.mem_of_mem_filter isPart) (areSome part isPart) ?_
    exact admits.registers _ (functions ▸ List.mem_map_of_mem isPart)
  · rw [← data]
    exact dataLines_named listing globals
  · intro name member
    rcases List.mem_cons.mp member with rfl | isIntroduced
    · decide
    · rcases (isFileName name).mp isIntroduced with isConstant | isGlobal | isFunction
      · exact (Listing.constantNames_noRegister isConstant).1
      · rw [← List.mem_eraseDups, ← data] at isGlobal
        obtain ⟨entry, isEntry, rfl⟩ := List.mem_map.mp isGlobal
        exact distinct.registers entry isEntry
      · exact admits.registers name isFunction
  · rw [List.nodup_cons, isFileName]
    have noConstant := listing.routine_notMem_constantNames
    tauto
  · intro name member inAnyCase
    rcases List.mem_cons.mp member with rfl | isIntroduced
    · have isWritten : Reg.isNameInAnyCase PrintFormat.routine = false := by decide
      rw [isWritten] at inAnyCase
      cases inAnyCase
    · rcases (isFileName name).mp isIntroduced with isConstant | isGlobal | isFunction
      · rw [(Listing.constantNames_noRegister isConstant).2] at inAnyCase
        cases inAnyCase
      · exact .inr isGlobal
      · exact .inl isFunction

/-- A function has the name of the external routine, a global variable that of a register. -/
def routineProgram : Program :=
  { file := "t.ils"
    statements := [
      .declare 1 "RAX" .int none,
      .function 2 "printf" [] .absent 2 [],
      .function 3 "main" [] .absent 3 [.call 3 3 "printf" false []]] }

theorem routineProgram_clashes :
    ∃ listing text,
      routineProgram.lower = .ok listing ∧
        listing.emit (Pruned.ofListing listing).nodes = .ok text ∧
        Introduces text listing.constantNames ["printf", "main"] ["RAX"] ∧
        ¬ (PrintFormat.routine ::
          fileNames routineProgram listing (Pruned.ofListing listing)).Nodup ∧
        "RAX" ∈ fileNames routineProgram listing (Pruned.ofListing listing) ∧
        Reg.isNameInAnyCase "RAX" = true := by
  have accepted : (routineProgram.lower.toOption.map fun listing =>
      ((listing.emit (Pruned.ofListing listing).nodes).toBool, (Pruned.ofListing listing).removed)) =
        some (true, []) := by
    decide +kernel
  cases lowered : routineProgram.lower with
  | error failure => simp [lowered, Except.toOption] at accepted
  | ok listing =>
      cases emitted : listing.emit (Pruned.ofListing listing).nodes with
      | error failure => simp [lowered, emitted, Except.toOption, Except.toBool] at accepted
      | ok text =>
          have removed : (Pruned.ofListing listing).removed = [] := by
            simpa [lowered, emitted, Except.toOption, Except.toBool] using accepted
          have kept : keptNames routineProgram (Pruned.ofListing listing) = ["printf", "main"] := by
            rw [keptNames, removed]
            decide
          have globals : (declaredNames routineProgram.statements).eraseDups = ["RAX"] := by decide
          obtain ⟨introduced, _, _, distinct, _⟩ :=
            names_clash_only_with_routine lowered (.inr rfl) emitted
          rw [kept] at introduced distinct
          rw [globals] at introduced
          refine ⟨listing, text, rfl, emitted, introduced, fun apart => ?_, ?_, by decide⟩
          · exact (distinct.mp apart).1 (by decide)
          · simp [fileNames, globals]

end Lower

end IlsCompiler
