import IlsCompiler.Proofs.Assembly.Processor

namespace IlsCompiler

/-!
# Moves as they are written

A line of code is a text. Moves are read off their lines here, the way an assembler does, and a line
that makes the one before it useless is found to move something else to the same place.
-/

/-- One side of a move as it is written: a part of a register, memory of a width, or a constant. -/
inductive MoveSide where
  | register (reg : Reg) (width : Nat)
  | memory (address : List Char) (width : Nat)
  | constant (text : List Char)
deriving DecidableEq, Repr

/-- The widths in bytes that registers have names for. -/
def Reg.widths : List Nat := [8, 4, 2, 1]

/-- The register that a name spells, and the number of its low bytes that the name means. -/
def Reg.ofName? (text : String) : Option (Reg × Nat) :=
  (all.flatMap fun reg => widths.map fun width => (reg, width)).find? fun part =>
    part.1.sized part.2 == text

namespace MoveSide

/-- The address and width of an operand that is memory. -/
def memory? (written : List Char) : Option (List Char × Nat) :=
  Reg.widths.findSome? fun width =>
    (Move.afterStart? (Ty.qualifierFor width ++ " [").toList written).bind fun rest =>
      if rest.getLast? = some ']' then some (rest.dropLast, width) else none

/-- The side of a move that a text stands for; only memory is written with brackets. -/
def ofText? (written : List Char) : Option MoveSide :=
  match Reg.ofName? (String.ofList written) with
  | some (reg, width) => some (.register reg width)
  | none =>
      match memory? written with
      | some (address, width) => some (.memory address width)
      | none => if '[' ∈ written then none else some (.constant written)

/-- Whether something can be moved to a side. -/
def isPlace : MoveSide → Bool
  | .constant _ => false
  | _ => true

end MoveSide

namespace Move

/-- The two operands that one comma separates. -/
def operands? (written : List Char) : Option (List Char × List Char) :=
  match written.dropWhile (· != ',') with
  | ',' :: behind => if ',' ∈ behind then none else some (written.takeWhile (· != ','), behind)
  | _ => none

/-- Whether a line, without a tab in front of it, starts like a move. -/
def starts (line : String) : Bool :=
  (afterStart? "mov ".toList (withoutTab line).toList).isSome

/-- The two sides of a move that a line stands for, whether or not their widths agree. -/
def sides? (line : String) : Option (MoveSide × MoveSide) := do
  let written ← afterStart? "mov ".toList (withoutTab line).toList
  let (first, second) ← operands? written
  let target ← MoveSide.ofText? (Text.trimChars first)
  let source ← MoveSide.ofText? (Text.trimChars second)
  if target.isPlace then some (target, source) else none

/-- Lines that start like a move are moves. -/
def isWritten (line : String) : Bool :=
  !starts line || (sides? line).isSome

/-- Whether a character can be part of a name. -/
def isIdentifierChar (value : Char) : Bool :=
  value.isAlphanum || value ∈ ['_', '$', '#', '@', '~', '.', '?']

/-- The runs of characters of names, among them empty ones. -/
def identifiers : List Char → List (List Char)
  | [] => [[]]
  | value :: rest =>
      match identifiers rest with
      | [] => []
      | run :: others =>
          if isIdentifierChar value then (value :: run) :: others else [] :: run :: others

/-- The parts of registers that an address is made with. -/
def partsOf (address : List Char) : List (Reg × Nat) :=
  (identifiers address).filterMap fun name => Reg.ofName? (String.ofList name)

end Move

example :
    Move.sides? "\tmov ecx, dword [xs + r8*4]" =
      some (.register .rcx 4, .memory "xs + r8*4".toList 4) ∧
      Move.partsOf "xs + r8*4".toList = [(.r8, 8)] := by
  decide +kernel

/-!
## Names of registers
-/

variable
    {text : String}
    {reg : Reg}
    {width : Nat}

namespace Reg

theorem ofName?_eq_some
    (named : ofName? text = some (reg, width)) :
    reg.sized width = text ∧ width ∈ widths := by
  have member := List.mem_of_find?_eq_some named
  simp only [List.mem_flatMap, List.mem_map, Prod.mk.injEq] at member
  obtain ⟨_, _, _, one, _, rfl⟩ := member
  exact ⟨by simpa using List.find?_some named, one⟩

/-- A name means a part of the register that it spells. -/
theorem ofSpelling?_eq_ofName?
    (text : String) :
    ofSpelling? text = (ofName? text).map Prod.fst := by
  cases named : ofName? text with
  | none =>
      have other : ∀ reg ∈ all, ∀ width ∈ widths, reg.sized width ≠ text := by
        intro reg known width one same
        have missing := List.find?_eq_none.mp named (reg, width)
          (List.mem_flatMap.mpr ⟨reg, known, List.mem_map.mpr ⟨width, one, rfl⟩⟩)
        simp [same] at missing
      refine List.find?_eq_none.mpr fun reg known spells => ?_
      have member : text ∈ reg.spellings := by simpa using spells
      simp only [spellings, List.mem_cons, List.not_mem_nil, or_false] at member
      rcases member with same | same | same | same
      · exact other reg known 8 (by decide) same.symm
      · exact other reg known 4 (by decide) same.symm
      · exact other reg known 2 (by decide) same.symm
      · exact other reg known 1 (by decide) same.symm
  | some part =>
      obtain ⟨reg, width⟩ := part
      obtain ⟨rfl, one⟩ := ofName?_eq_some named
      simp only [widths, List.mem_cons, List.not_mem_nil, or_false] at one
      rcases one with rfl | rfl | rfl | rfl <;> cases reg <;> decide

/-- The name of a part of a register is made of name characters. -/
theorem named_of_ofSpelling?
    (spelled : ofSpelling? text = some reg) :
    text.toList ≠ [] ∧ ∀ value ∈ text.toList, Move.isNameChar value := by
  have spells : text ∈ reg.spellings := by simpa using List.find?_some spelled
  have named : ∀ name ∈ reg.spellings, name.toList ≠ [] ∧ name.toList.all Move.isNameChar := by
    cases reg <;> decide
  exact ⟨(named text spells).1, List.all_eq_true.mp (named text spells).2⟩

end Reg

namespace Move

theorem mentions_of_ofSpelling?
    (spelled : Reg.ofSpelling? text = some reg) :
    mentions text reg = true := by
  have spells : text ∈ reg.spellings := by simpa using List.find?_some spelled
  have mentioned : ∀ name ∈ reg.spellings, mentions name reg = true := by
    cases reg <;> decide +kernel
  exact mentioned text spells

theorem afterStart?_eq_some
    {start text rest : List Char}
    (found : afterStart? start text = some rest) :
    text = start ++ rest := by
  induction start generalizing text with
  | nil => simpa [afterStart?] using found
  | cons wanted start inductionHypothesis =>
      cases text with
      | nil => simp [afterStart?] at found
      | cons value text =>
          rw [afterStart?] at found
          split at found
          next same => rw [inductionHypothesis found, same, List.cons_append]
          next => cases found

theorem cutComma?_eq_some
    {text front back : List Char}
    (cut : cutComma? text = some (front, back)) :
    text = front ++ ',' :: ' ' :: back := by
  induction text generalizing front with
  | nil => cases cut
  | cons value rest inductionHypothesis =>
      unfold cutComma? at cut
      split at cut
      next => cases cut
      next other same =>
        cases same
        cases cut
        rfl
      next other rest _ same =>
        cases same
        split at cut
        next before behind known =>
          cases cut
          rw [inductionHypothesis known, List.cons_append]
        next => cases cut

theorem operands?_append
    {front : List Char}
    (noComma : ',' ∉ front)
    (back : List Char) :
    operands? (front ++ ',' :: back) = if ',' ∈ back then none else some (front, back) := by
  have solid : ∀ value ∈ front, (value != ',') = true := by
    rintro value member
    simpa using fun same : value = ',' => noComma (same ▸ member)
  unfold operands?
  rw [List.dropWhile_append_of_pos solid, List.takeWhile_append_of_pos solid]
  simp

/-- Where a line has one comma, it is the comma at which its operands are cut apart. -/
theorem operands?_of_cutComma?
    {text front back first second : List Char}
    (cut : cutComma? text = some (front, back))
    (operands : operands? text = some (first, second)) :
    first = front ∧ second = ' ' :: back := by
  obtain rfl := cutComma?_eq_some cut
  by_cases comma : ',' ∈ front
  · obtain ⟨before, behind, rfl, none_⟩ := List.eq_append_cons_of_mem comma
    rw [List.append_assoc, List.cons_append, operands?_append none_] at operands
    simp at operands
  · rw [operands?_append comma] at operands
    split at operands
    · cases operands
    · cases operands
      exact ⟨rfl, rfl⟩

theorem trimChars_blank
    (text : List Char) :
    Text.trimChars (' ' :: text) = Text.trimChars text := by
  have blank : Text.isSpace ' ' = true := by decide
  simp [Text.trimChars, blank]

/-- The two texts that a move is cut into stand for its two sides. -/
theorem sides_of_parse?
    {line target source : String}
    {place taken : MoveSide}
    (parsed : parse? (withoutTab line) = some (target, source))
    (known : sides? line = some (place, taken)) :
    MoveSide.ofText? target.toList = some place ∧ MoveSide.ofText? source.toList = some taken ∧
      place.isPlace := by
  simp only [parse?, Option.bind_eq_bind, Option.bind_eq_some_iff, Option.pure_def,
    Option.some.injEq] at parsed
  simp only [sides?, Option.bind_eq_bind, Option.bind_eq_some_iff] at known
  obtain ⟨written, start, ⟨front, back⟩, cut, halves⟩ := parsed
  obtain ⟨other, sameStart, ⟨first, second⟩, operands, known⟩ := known
  cases halves
  cases start.symm.trans sameStart
  obtain ⟨rfl, rfl⟩ := operands?_of_cutComma? cut operands
  obtain ⟨side, placeSide, read, readSide, guarded⟩ := known
  split at guarded
  next isPlace =>
    cases guarded
    rw [trimChars_blank] at readSide
    simp only [String.toList_ofList]
    exact ⟨placeSide, readSide, isPlace⟩
  next => cases guarded

/-!
## What an operand reads
-/

theorem identifiers_ne_nil
    (text : List Char) :
    identifiers text ≠ [] := by
  cases text with
  | nil => simp [identifiers]
  | cons value rest =>
      unfold identifiers
      split
      next none_ => exact (identifiers_ne_nil rest none_).elim
      next => split <;> simp

/-- The first run of a text ends where no name goes on. -/
theorem head_of_identifiers
    {text run : List Char}
    {others : List (List Char)}
    (split_ : identifiers text = run :: others)
    {right : Char}
    (ends : isIdentifierChar right = false) :
    ∃ last back, text ++ [right] = run ++ last :: back ∧ isIdentifierChar last = false := by
  induction text generalizing run others with
  | nil =>
      cases split_
      exact ⟨right, [], rfl, ends⟩
  | cons value rest inductionHypothesis =>
      unfold identifiers at split_
      split at split_
      next none_ => exact (identifiers_ne_nil rest none_).elim
      next first more known =>
        split at split_
        · cases split_
          obtain ⟨last, back, same, solid⟩ := inductionHypothesis known
          exact ⟨last, back, by rw [List.cons_append, same, List.cons_append], solid⟩
        next other =>
          cases split_
          exact ⟨value, rest ++ [right], rfl, by simpa using other⟩

/-- All other runs of a text also begin where no name comes from. -/
theorem tail_of_identifiers
    {text run : List Char}
    (member : run ∈ (identifiers text).tail)
    {right : Char}
    (ends : isIdentifierChar right = false) :
    ∃ front first last back, text ++ [right] = front ++ first :: (run ++ last :: back) ∧
      isIdentifierChar first = false ∧ isIdentifierChar last = false := by
  induction text with
  | nil => simp [identifiers] at member
  | cons value rest inductionHypothesis =>
      unfold identifiers at member
      split at member
      next none_ => exact (identifiers_ne_nil rest none_).elim
      next head more known =>
        have later : run ∈ more →
            ∃ front first last back,
              (value :: rest) ++ [right] = front ++ first :: (run ++ last :: back) ∧
              isIdentifierChar first = false ∧ isIdentifierChar last = false := by
          intro inMore
          obtain ⟨front, first, last, back, same, begins, solid⟩ :=
            inductionHypothesis (by rw [known]; exact inMore)
          exact ⟨value :: front, first, last, back,
            by rw [List.cons_append, same, List.cons_append], begins, solid⟩
        split at member
        · exact later member
        next other =>
          rcases List.mem_cons.mp member with rfl | inMore
          · obtain ⟨last, back, same, solid⟩ := head_of_identifiers known ends
            exact ⟨[], value, last, back, by rw [List.cons_append, same]; rfl,
              by simpa using other, solid⟩
          · exact later inMore

theorem not_isNameChar
    {value : Char}
    (solid : isIdentifierChar value = false) :
    isNameChar value = false := by
  have parts : value.isAlphanum = ((value.isUpper || value.isLower) || value.isDigit) := rfl
  simp only [isIdentifierChar, parts, Bool.or_eq_false_iff] at solid
  simp only [isNameChar, Bool.or_eq_false_iff]
  exact ⟨solid.1.1.2, solid.1.2⟩

/-- A name between two brackets is one of the words of an operand. -/
theorem mem_words_of_identifiers
    {address run : List Char}
    (member : run ∈ identifiers address)
    (some_ : run ≠ [])
    (named : ∀ value ∈ run, isNameChar value)
    (front : List Char) :
    String.ofList run ∈ words [] (front ++ '[' :: (address ++ [']'])) := by
  have opens : isNameChar '[' = false := by decide
  have closes : isIdentifierChar ']' = false := by decide
  cases known : identifiers address with
  | nil => exact (identifiers_ne_nil address known).elim
  | cons head others =>
      rcases List.mem_cons.mp (known ▸ member) with rfl | later
      · obtain ⟨last, back, same, solid⟩ := head_of_identifiers known closes
        rw [same]
        exact mem_words named some_ opens (not_isNameChar solid) [] front back
      · obtain ⟨before, first, last, back, same, begins, solid⟩ :=
          tail_of_identifiers (by rw [known]; exact later) closes
        rw [same]
        simpa using mem_words named some_ (not_isNameChar begins) (not_isNameChar solid) []
          (front ++ '[' :: before) back

end Move

namespace MoveSide

/-- The parts of registers that one side of a move is made with. -/
def parts : MoveSide → List (Reg × Nat)
  | .register reg width => [(reg, width)]
  | .memory address _ => Move.partsOf address
  | .constant _ => []

variable
    {written address : List Char}

theorem memory?_eq_some
    (known : memory? written = some (address, width)) :
    width ∈ Reg.widths ∧
      written = (Ty.qualifierFor width ++ " ").toList ++ '[' :: (address ++ [']']) := by
  obtain ⟨other, one, found⟩ := List.exists_of_findSome?_eq_some known
  obtain ⟨rest, start, guarded⟩ := Option.bind_eq_some_iff.mp found
  split at guarded
  next closed =>
    cases guarded
    refine ⟨one, ?_⟩
    obtain ⟨inside, rfl⟩ := List.getLast?_eq_some_iff.mp closed
    rw [Move.afterStart?_eq_some start]
    simp [String.toList_append]
  next => cases guarded

/-- Only a text with a bracket stands for memory. -/
theorem bracket_of_memory
    (known : ofText? written = some (.memory address width)) :
    '[' ∈ written := by
  unfold ofText? at known
  split at known
  · cases known
  next =>
    split at known
    next isMemory =>
      rw [(memory?_eq_some isMemory).2]
      simp
    next => split at known <;> cases known

/-- A text that does not mention a register stands for a side that is made with others. -/
theorem apart_of_not_mentions
    {side : MoveSide}
    (known : ofText? text.toList = some side)
    (unnamed : Move.mentions text reg = false) :
    ∀ part ∈ side.parts, part.1 ≠ reg := by
  rintro part member rfl
  have notWord : ∀ word ∈ Move.words [] text.toList, Reg.ofSpelling? word ≠ some part.1 := by
    intro word isWord spelled
    have mentioned : Move.mentions text part.1 = true :=
      List.any_eq_true.mpr ⟨word, isWord, by rw [spelled, beq_self_eq_true]⟩
    exact Bool.false_ne_true (unnamed.symm.trans mentioned)
  unfold ofText? at known
  rw [String.ofList_toList] at known
  split at known
  next reg width named =>
    cases known
    obtain rfl : part = (reg, width) := by simpa [parts] using member
    have spelled : Reg.ofSpelling? text = some reg := by
      rw [Reg.ofSpelling?_eq_ofName?, named]
      rfl
    exact Bool.false_ne_true (unnamed.symm.trans (Move.mentions_of_ofSpelling? spelled))
  next =>
    split at known
    next address width isMemory =>
      cases known
      obtain ⟨_, written⟩ := memory?_eq_some isMemory
      simp only [parts, Move.partsOf, List.mem_filterMap] at member
      obtain ⟨run, isRun, named⟩ := member
      have spelled : Reg.ofSpelling? (String.ofList run) = some part.1 := by
        rw [Reg.ofSpelling?_eq_ofName?, named]
        rfl
      obtain ⟨some_, chars⟩ := Reg.named_of_ofSpelling? spelled
      rw [String.toList_ofList] at some_ chars
      exact notWord _ (written ▸ Move.mem_words_of_identifiers isRun some_ chars _) spelled
    next =>
      split at known
      · cases known
      · cases known
        simp [parts] at member

end MoveSide

namespace Move

/-- Lines that start like a move and are in the syntax of moves have two sides. -/
theorem sides?_isSome_of_parse?
    {line : String}
    {operands : String × String}
    (written : isWritten line)
    (parsed : parse? (withoutTab line) = some operands) :
    ∃ place taken, sides? line = some (place, taken) := by
  have start : starts line = true := by
    simp only [parse?, Option.bind_eq_bind, Option.bind_eq_some_iff] at parsed
    obtain ⟨_, start, _⟩ := parsed
    rw [starts, start, Option.isSome_some]
  simp only [isWritten, start, Bool.not_true, Bool.false_or] at written
  obtain ⟨⟨place, taken⟩, known⟩ := Option.isSome_iff_exists.mp written
  exact ⟨place, taken, known⟩

/--
A line is useless only in front of a line that moves something else to the same part of a register,
or to the same memory what is no memory.
-/
theorem sides_of_redundant
    {previous next : String}
    (writtenPrevious : isWritten previous)
    (writtenNext : isWritten ("\t" ++ next))
    (redundant : isRedundant previous next = true) :
    ∃ place first second, sides? previous = some (place, first) ∧
      sides? ("\t" ++ next) = some (place, second) ∧
      ((∃ reg width, place = .register reg width ∧ width ∈ Reg.widths ∧
          ∀ part ∈ second.parts, part.1 ≠ reg) ∨
        ((∃ address width, place = .memory address width) ∧
          ∀ address width, second ≠ .memory address width)) := by
  have tab : withoutTab ("\t" ++ next) = next := by simp [withoutTab]
  unfold isRedundant at redundant
  split at redundant
  next firstTarget firstSource target source parsedPrevious parsedNext =>
    rw [← tab] at parsedNext
    obtain ⟨place, first, sidesPrevious⟩ := sides?_isSome_of_parse? writtenPrevious parsedPrevious
    obtain ⟨other, second, sidesNext⟩ := sides?_isSome_of_parse? writtenNext parsedNext
    obtain ⟨previousPlace, _, _⟩ := sides_of_parse? parsedPrevious sidesPrevious
    obtain ⟨nextPlace, nextSource, isPlace⟩ := sides_of_parse? parsedNext sidesNext
    split at redundant
    next same =>
      subst same
      obtain rfl : other = place := by
        rw [previousPlace] at nextPlace
        exact (Option.some.inj nextPlace).symm
      refine ⟨other, first, second, sidesPrevious, sidesNext, ?_⟩
      unfold MoveSide.ofText? at nextPlace
      rw [String.ofList_toList] at nextPlace
      split at redundant
      next reg spelled =>
        rw [Reg.ofSpelling?_eq_ofName?] at spelled
        obtain ⟨⟨named, width⟩, part, rfl⟩ := Option.map_eq_some_iff.mp spelled
        simp only [part, Option.some.injEq] at nextPlace
        exact .inl ⟨named, width, nextPlace.symm, (Reg.ofName?_eq_some part).2,
          MoveSide.apart_of_not_mentions nextSource (by simpa using redundant)⟩
      next unnamed =>
        rw [Reg.ofSpelling?_eq_ofName?, Option.map_eq_none_iff] at unnamed
        simp only [unnamed] at nextPlace
        refine .inr ⟨?_, ?_⟩
        · split at nextPlace
          next address width _ =>
            cases nextPlace
            exact ⟨address, width, rfl⟩
          next =>
            split at nextPlace
            · cases nextPlace
            · cases nextPlace
              cases isPlace
        · rintro address width rfl
          simp [MoveSide.bracket_of_memory nextSource] at redundant
    next => cases redundant
  next => cases redundant

end Move

end IlsCompiler
