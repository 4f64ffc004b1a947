import IlsCompiler.Proofs.Assembly.Functions
import IlsCompiler.Proofs.Assembly.WrittenMoves

namespace IlsCompiler

/-!
# Code in which moves were replaced

A move takes the place of the move before it where that is useless. Lines that are appended in this
way do what they do when all of them are kept. Registers have parts of any width and memory has
bytes; where addresses lie, what constants and symbols stand for and what lines do that are no moves
is left open.
-/

/-- The low bytes of a word. -/
def lowBytes (word : BitVec 64) (width : Nat) : BitVec 64 :=
  .ofNat 64 (word.toNat % 256 ^ width)

/-- A register with its low bytes written; writing four of them clears the others. -/
def withLowBytes (old word : BitVec 64) (width : Nat) : BitVec 64 :=
  if width = 4 then
    lowBytes word 4
  else
    .ofNat 64 (old.toNat / 256 ^ width * 256 ^ width + word.toNat % 256 ^ width)

/-- The registers of a processor, memory by the byte, and whatever else there is. -/
structure Core (Rest : Type) where
  regs : Reg → BitVec 64
  memory : BitVec 64 → BitVec 8
  rest : Rest

namespace Core

variable
    {Rest : Type}

/-- Write a whole register. -/
def set (core : Core Rest) (reg : Reg) (word : BitVec 64) : Core Rest :=
  { core with regs := fun other => if other = reg then word else core.regs other }

/-- The number in some bytes from an address on, the lowest byte first. -/
def number (core : Core Rest) (address : BitVec 64) : Nat → Nat
  | 0 => 0
  | bytes + 1 => (core.memory address).toNat + 256 * number core (address + 1) bytes

/-- Write the low bytes of a word from an address on. -/
def store (core : Core Rest) (address : BitVec 64) (width : Nat) (word : BitVec 64) : Core Rest :=
  { core with
    memory := fun place =>
      if (place - address).toNat < width then
        .ofNat 8 (word.toNat / 256 ^ (place - address).toNat)
      else
        core.memory place }

end Core

/-- Where control goes behind a line. -/
inductive Passage (Rest : Type) where
  | next (core : Core Rest)
  | jump (label : String) (core : Core Rest)
  | stop (core : Core Rest)

/--
What code depends on: what constants stand for, which place an address means when the parts of
registers in it have some values, and what lines do that are no moves.
-/
structure Setting (Rest : Type) where
  constant : String → BitVec 64
  place : String → List (BitVec 64) → BitVec 64
  other : String → Core Rest → Passage Rest

namespace Setting

variable
    {Rest : Type}

/-- The place that an address means. -/
def locate (setting : Setting Rest) (core : Core Rest) (address : List Char) : BitVec 64 :=
  setting.place (String.ofList address)
    ((Move.partsOf address).map fun part => lowBytes (core.regs part.1) part.2)

/-- The word that one side of a move stands for. -/
def value (setting : Setting Rest) (core : Core Rest) : MoveSide → BitVec 64
  | .register reg width => lowBytes (core.regs reg) width
  | .memory address width => .ofNat 64 (core.number (setting.locate core address) width)
  | .constant text => setting.constant (String.ofList text)

/-- Move a word to one side of a move. -/
def put (setting : Setting Rest) (core : Core Rest) (word : BitVec 64) : MoveSide → Core Rest
  | .register reg width => core.set reg (withLowBytes (core.regs reg) word width)
  | .memory address width => core.store (setting.locate core address) width word
  | .constant _ => core

/-- What a line does. -/
def effect (setting : Setting Rest) (line : String) (core : Core Rest) : Passage Rest :=
  match Move.sides? line with
  | some (target, source) => .next (setting.put core (setting.value core source) target)
  | none => setting.other line core

/--
Code that runs from some of its lines on comes to an end: behind the last line or where a line
stops it. A jump goes on at the line of its label.
-/
inductive Runs (setting : Setting Rest) (lines : List String) :
    List String → Core Rest → Core Rest → Prop
  | done (core : Core Rest) : Runs setting lines [] core core
  | next {line : String} {rest : List String} {core later final : Core Rest} :
      setting.effect line core = .next later → Runs setting lines rest later final →
        Runs setting lines (line :: rest) core final
  | jump {line label : String} {rest : List String} {core later final : Core Rest} :
      setting.effect line core = .jump label later → Line.text (.label label) ∈ lines →
        Runs setting lines (lines.dropWhile (· != Line.text (.label label))) later final →
        Runs setting lines (line :: rest) core final
  | stop {line : String} {rest : List String} {core final : Core Rest} :
      setting.effect line core = .stop final → Runs setting lines (line :: rest) core final

/-- Code that starts at its first line in one state comes to an end in another. -/
def Ends (setting : Setting Rest) (lines : List String) (start final : Core Rest) : Prop :=
  setting.Runs lines lines start final

end Setting

/-!
## Moves behind moves
-/

/-- Of two writes to one part of a register the second stays. -/
theorem withLowBytes_withLowBytes
    {width : Nat}
    (one : width ∈ Reg.widths)
    (old first second : BitVec 64) :
    withLowBytes (withLowBytes old first width) second width = withLowBytes old second width := by
  have small := old.isLt
  simp only [Reg.widths, List.mem_cons, List.not_mem_nil, or_false] at one
  rcases one with rfl | rfl | rfl | rfl <;>
    simp only [withLowBytes, Nat.reduceEqDiff, ↓reduceIte, Nat.reducePow, BitVec.toNat_ofNat]
  all_goals
    refine congrArg (BitVec.ofNat 64) ?_
    omega

namespace Core

variable
    {Rest : Type}
    (core : Core Rest)

@[simp] theorem regs_set_self
    (reg : Reg)
    (word : BitVec 64) :
    (core.set reg word).regs reg = word := by
  simp [set]

theorem regs_set_of_ne
    {reg other : Reg}
    (apart : other ≠ reg)
    (word : BitVec 64) :
    (core.set reg word).regs other = core.regs other := by
  simp [set, apart]

@[simp] theorem set_set
    (reg : Reg)
    (first second : BitVec 64) :
    (core.set reg first).set reg second = core.set reg second := by
  unfold set
  congr 1
  funext other
  split
  · rfl
  · next apart => simp only [if_neg apart]

@[simp] theorem store_store
    (address : BitVec 64)
    (width : Nat)
    (first second : BitVec 64) :
    (core.store address width first).store address width second =
      core.store address width second := by
  unfold store
  congr 1
  funext place
  split
  · rfl
  · next apart => simp only [if_neg apart]

@[simp] theorem number_set
    (reg : Reg)
    (word address : BitVec 64)
    (bytes : Nat) :
    (core.set reg word).number address bytes = core.number address bytes := by
  induction bytes generalizing address with
  | zero => rfl
  | succ bytes inductionHypothesis =>
      rw [number, number, inductionHypothesis]
      rfl

end Core

namespace Setting

variable
    {Rest : Type}
    (setting : Setting Rest)
    (core : Core Rest)
    {reg : Reg}

theorem locate_set
    {address : List Char}
    (apart : ∀ part ∈ Move.partsOf address, part.1 ≠ reg)
    (word : BitVec 64) :
    setting.locate (core.set reg word) address = setting.locate core address := by
  unfold locate
  congr 1
  exact List.map_congr_left fun part member => by rw [core.regs_set_of_ne (apart part member)]

variable
    {side : MoveSide}

/-- A side of a move that is made with other registers stands for the same word. -/
theorem value_set
    (apart : ∀ part ∈ side.parts, part.1 ≠ reg)
    (word : BitVec 64) :
    setting.value (core.set reg word) side = setting.value core side := by
  cases side with
  | register read width =>
      have other : read ≠ reg := apart (read, width) (by simp [MoveSide.parts])
      simp only [value, core.regs_set_of_ne other]
  | memory address width => simp only [value, setting.locate_set core apart, Core.number_set]
  | constant text => rfl

/-- What is no memory stands for the same word behind a store. -/
theorem value_store
    (solid : ∀ address width, side ≠ .memory address width)
    (address : BitVec 64)
    (width : Nat)
    (word : BitVec 64) :
    setting.value (core.store address width word) side = setting.value core side := by
  cases side with
  | memory address width => exact (solid address width rfl).elim
  | _ => rfl

end Setting


namespace Setting

variable
    {Rest : Type}

theorem effect_of_sides
    (setting : Setting Rest)
    {line : String}
    {place taken : MoveSide}
    (sides : Move.sides? line = some (place, taken))
    (core : Core Rest) :
    setting.effect line core = .next (setting.put core (setting.value core taken) place) := by
  rw [effect, sides]

variable
    {previous next : String}

/-- A move behind a useless move does what it does without it. -/
theorem effect_of_redundant
    (setting : Setting Rest)
    (writtenPrevious : Move.isWritten previous)
    (writtenNext : Move.isWritten ("\t" ++ next))
    (redundant : Move.isRedundant previous next = true)
    (core : Core Rest) :
    ∃ between later, setting.effect previous core = .next between ∧
      setting.effect ("\t" ++ next) between = .next later ∧
      setting.effect ("\t" ++ next) core = .next later := by
  obtain ⟨place, first, second, sidesPrevious, sidesNext, kind⟩ :=
    Move.sides_of_redundant writtenPrevious writtenNext redundant
  refine ⟨_, _, setting.effect_of_sides sidesPrevious core,
    setting.effect_of_sides sidesNext _, ?_⟩
  rw [setting.effect_of_sides sidesNext]
  rcases kind with ⟨reg, width, rfl, one, apart⟩ | ⟨⟨address, width, rfl⟩, solid⟩
  · simp only [put, setting.value_set core apart, Core.regs_set_self, Core.set_set,
      withLowBytes_withLowBytes one]
  · have unmoved : ∀ place word, setting.locate (core.store place width word) address =
        setting.locate core address := fun _ _ => rfl
    simp only [put, setting.value_store core solid, unmoved, Core.store_store]

/-- The lines from some place on, with a line and without it if it is still ahead. -/
def Ahead
    (previous next : String)
    (back long short : List String) : Prop :=
  (∃ front, long = front ++ previous :: next :: back ∧ short = front ++ next :: back) ∨
    long = short

namespace Ahead

variable
    {previous next line : String}
    {back long short : List String}

theorem nil_iff
    (ahead : Ahead previous next back long short) :
    long = [] ↔ short = [] := by
  rcases ahead with ⟨front, rfl, rfl⟩ | rfl
  · simp
  · rfl

variable
    {rest : List String}

/-- The first line ahead is the line in question, or it is there without that line as well. -/
theorem of_cons
    (ahead : Ahead previous next back (line :: rest) short) :
    (line = previous ∧ rest = next :: back ∧ short = next :: back) ∨
      ∃ others, short = line :: others ∧ Ahead previous next back rest others := by
  rcases ahead with ⟨front, same, rfl⟩ | rfl
  · cases front with
    | nil =>
        cases same
        exact .inl ⟨rfl, rfl, rfl⟩
    | cons first front =>
        cases same
        exact .inr ⟨front ++ next :: back, rfl, .inl ⟨front, rfl, rfl⟩⟩
  · exact .inr ⟨rest, rfl, .inr rfl⟩

theorem to_cons
    (ahead : Ahead previous next back long (line :: rest)) :
    (line = next ∧ rest = back ∧ long = previous :: next :: back) ∨
      ∃ others, long = line :: others ∧ Ahead previous next back others rest := by
  rcases ahead with ⟨front, rfl, same⟩ | rfl
  · cases front with
    | nil =>
        cases same
        exact .inl ⟨rfl, rfl, rfl⟩
    | cons first front =>
        cases same
        exact .inr ⟨front ++ previous :: next :: back, rfl, .inl ⟨front, rfl, rfl⟩⟩
  · exact .inr ⟨rest, rfl, .inr rfl⟩

/-- A jump goes on at the same line, whether a line that is no label is there or not. -/
theorem of_jump
    {label : String}
    (noLabel : previous ≠ label)
    (front back : List String) :
    Ahead previous next back
      ((front ++ previous :: next :: back).dropWhile (· != label))
      ((front ++ next :: back).dropWhile (· != label)) := by
  rw [List.dropWhile_append, List.dropWhile_append]
  split
  · exact .inr (by simp [noLabel])
  · exact .inl ⟨_, rfl, rfl⟩

end Ahead

theorem ne_label_of_redundant
    (redundant : Move.isRedundant previous next = true)
    (label : String) :
    previous ≠ Line.text (.label label) := by
  rintro rfl
  obtain ⟨rest, start⟩ := Move.mov_of_isRedundant redundant
  simp [Line.text, Move.withoutTab, Move.afterStart?] at start

section Dropping

variable
    {setting : Setting Rest}
    {previous next : String}
    (writtenPrevious : Move.isWritten previous)
    (writtenNext : Move.isWritten ("\t" ++ next))
    (redundant : Move.isRedundant previous next = true)
    {front back long short : List String}
    {core final : Core Rest}

include writtenPrevious writtenNext redundant

theorem runs_without
    (ahead : Ahead previous ("\t" ++ next) back long short)
    (runs : setting.Runs (front ++ previous :: ("\t" ++ next) :: back) long core final) :
    setting.Runs (front ++ ("\t" ++ next) :: back) short core final := by
  induction runs generalizing short with
  | done core =>
      obtain rfl := ahead.nil_iff.mp rfl
      exact .done core
  | @next line rest core later final effect _ inductionHypothesis =>
      rcases ahead.of_cons with ⟨rfl, rfl, rfl⟩ | ⟨others, rfl, further⟩
      · obtain ⟨between, last, first, second, direct⟩ :=
          setting.effect_of_redundant writtenPrevious writtenNext redundant core
        cases first.symm.trans effect
        cases inductionHypothesis (.inr rfl) with
        | next same rest =>
            cases second.symm.trans same
            exact .next direct rest
        | jump same => cases second.symm.trans same
        | stop same => cases second.symm.trans same
      · exact .next effect (inductionHypothesis further)
  | @jump line label rest core later final effect member _ inductionHypothesis =>
      have noLabel := ne_label_of_redundant redundant label
      rcases ahead.of_cons with ⟨rfl, rfl, rfl⟩ | ⟨others, rfl, further⟩
      · obtain ⟨_, _, first, _⟩ :=
          setting.effect_of_redundant writtenPrevious writtenNext redundant core
        cases first.symm.trans effect
      · refine .jump effect ?_ (inductionHypothesis (.of_jump noLabel front back))
        simpa [noLabel.symm] using member
  | @stop line rest core final effect =>
      rcases ahead.of_cons with ⟨rfl, rfl, rfl⟩ | ⟨others, rfl, further⟩
      · obtain ⟨_, _, first, _⟩ :=
          setting.effect_of_redundant writtenPrevious writtenNext redundant core
        cases first.symm.trans effect
      · exact .stop effect

theorem runs_with
    (ahead : Ahead previous ("\t" ++ next) back long short)
    (runs : setting.Runs (front ++ ("\t" ++ next) :: back) short core final) :
    setting.Runs (front ++ previous :: ("\t" ++ next) :: back) long core final := by
  induction runs generalizing long with
  | done core =>
      obtain rfl := ahead.nil_iff.mpr rfl
      exact .done core
  | @next line rest core later final effect _ inductionHypothesis =>
      rcases ahead.to_cons with ⟨rfl, rfl, rfl⟩ | ⟨others, rfl, further⟩
      · obtain ⟨between, last, first, second, direct⟩ :=
          setting.effect_of_redundant writtenPrevious writtenNext redundant core
        cases direct.symm.trans effect
        exact .next first (.next second (inductionHypothesis (.inr rfl)))
      · exact .next effect (inductionHypothesis further)
  | @jump line label rest core later final effect member _ inductionHypothesis =>
      have noLabel := ne_label_of_redundant redundant label
      rcases ahead.to_cons with ⟨rfl, rfl, rfl⟩ | ⟨others, rfl, further⟩
      · obtain ⟨_, _, _, _, direct⟩ :=
          setting.effect_of_redundant writtenPrevious writtenNext redundant core
        cases direct.symm.trans effect
      · refine .jump effect ?_ (inductionHypothesis (.of_jump noLabel front back))
        simpa [noLabel.symm] using member
  | @stop line rest core final effect =>
      rcases ahead.to_cons with ⟨rfl, rfl, rfl⟩ | ⟨others, rfl, further⟩
      · obtain ⟨_, _, _, _, direct⟩ :=
          setting.effect_of_redundant writtenPrevious writtenNext redundant core
        cases direct.symm.trans effect
      · exact .stop effect

end Dropping

/-- Code comes to the same ends with a useless move and without it. -/
theorem runs_of_redundant
    (setting : Setting Rest)
    (writtenPrevious : Move.isWritten previous)
    (writtenNext : Move.isWritten ("\t" ++ next))
    (redundant : Move.isRedundant previous next = true)
    (front back : List String)
    (core final : Core Rest) :
    setting.Ends (front ++ ("\t" ++ next) :: back) core final ↔
      setting.Ends (front ++ previous :: ("\t" ++ next) :: back) core final :=
  have ahead : Ahead previous ("\t" ++ next) back _ _ := .inl ⟨front, rfl, rfl⟩
  ⟨runs_with writtenPrevious writtenNext redundant ahead,
    runs_without writtenPrevious writtenNext redundant ahead⟩

end Setting

/-!
## Bodies that are appended to
-/

/-- Something that is appended to a body. -/
inductive Edit where
  | add (instruction : Instruction)
  | label (name : String)
  | raw (text : String)
  | reserve
deriving DecidableEq, Repr

namespace Edit

/-- The line that is appended. -/
def line : Edit → Line
  | .add instruction => .instruction instruction
  | .label name => .label name
  | .raw text => .raw text
  | .reserve => .blank

/-- The line that is appended, as it is written. -/
def text (edit : Edit) : String :=
  edit.line.text

end Edit

namespace Body

/-- Append to a body. -/
def edit (body : Body) : Edit → Body
  | .add instruction => body.add instruction
  | .label name => body.label name
  | .raw text => body.raw text
  | .reserve => body.reserve.1

/-- Append to a body again and again. -/
def edited (body : Body) (edits : List Edit) : Body :=
  edits.foldl edit body

/-- A line is appended behind all others, or it is a move in the place of one it makes useless. -/
theorem edit_cases
    (body : Body)
    (edit : Edit) :
    (body.edit edit).texts = body.texts ++ [edit.text] ∨
      ∃ front previous instruction, edit = .add instruction ∧ body.texts = front ++ [previous] ∧
        Move.isRedundant previous instruction.text = true ∧
        (body.edit edit).texts = front ++ [edit.text] := by
  cases edit with
  | add instruction =>
      have lines := lines_add body instruction
      unfold keptFor at lines
      split at lines
      next last found =>
        split at lines
        next redundant =>
          refine .inr ⟨body.lines.toList.dropLast.map Line.text, last.text, instruction, rfl, ?_,
            redundant, ?_⟩
          · rw [← Array.getLast?_toList] at found
            obtain ⟨front, known⟩ := List.getLast?_eq_some_iff.mp found
            simp [texts, known]
          · simp [texts, Body.edit, lines, Edit.text, Edit.line]
        next => exact .inl (by simp [texts, Body.edit, lines, Edit.text, Edit.line])
      next => exact .inl (by simp [texts, Body.edit, lines, Edit.text, Edit.line])
  | label name => exact .inl (by simp [texts, Body.edit, label, Edit.text, Edit.line])
  | raw text => exact .inl (by simp [texts, Body.edit, raw, Edit.text, Edit.line])
  | reserve => exact .inl (by simp [texts, Body.edit, reserve, Edit.text, Edit.line])

/-- Only moves make the line before them useless. -/
theorem edit_of_not_starts
    (body : Body)
    {edit : Edit}
    (noMove : Move.starts edit.text = false) :
    (body.edit edit).lines = body.lines.push edit.line := by
  cases edit with
  | add instruction =>
      have noStart : Move.afterStart? "mov ".toList instruction.text.toList = none := by
        simpa [Move.starts, Edit.text, Edit.line] using noMove
      have apart : ∀ previous, Move.isRedundant previous instruction.text = false :=
        Move.not_redundant_of_parse? (Move.parse?_eq_none noStart)
      show (body.add instruction).lines = _
      unfold add
      split
      · simp [apart, Edit.line]
      · rfl
  | _ => rfl

variable
    {front : Array Line}
    {last : Line}

/-- What is appended behind a line that is no move leaves the line and all before it. -/
theorem edit_behind
    (noMove : Move.starts last.text = false)
    (body : Body)
    (edit : Edit) :
    Body.edit ⟨front.push last ++ body.lines⟩ edit =
      ⟨front.push last ++ (body.edit edit).lines⟩ := by
  cases edit with
  | add instruction =>
      have apart : Move.isRedundant last.text instruction.text = false := by
        refine Bool.eq_false_iff.mpr fun redundant => ?_
        obtain ⟨rest, start⟩ := Move.mov_of_isRedundant redundant
        rw [Move.starts, start] at noMove
        cases noMove
      show add _ instruction = ⟨_ ++ (body.add instruction).lines⟩
      unfold add
      rw [Array.back?_append]
      cases found : body.lines.back? with
      | none =>
          have none_ : body.lines = #[] := Array.back?_eq_none_iff.mp found
          simp [apart, none_]
      | some other =>
          have some_ : body.lines ≠ #[] := by
            intro none_
            simp [none_] at found
          simp only [Option.some_or]
          split
          · simp [some_]
          · simp
  | label name => simp [Body.edit, label]
  | raw text => simp [Body.edit, raw]
  | reserve => simp [Body.edit, reserve]

theorem edited_behind
    (noMove : Move.starts last.text = false)
    (body : Body)
    (edits : List Edit) :
    Body.edited ⟨front.push last ++ body.lines⟩ edits =
      ⟨front.push last ++ (body.edited edits).lines⟩ := by
  induction edits generalizing body with
  | nil => rfl
  | cons edit edits inductionHypothesis =>
      show Body.edited (Body.edit _ edit) edits = ⟨_ ++ ((body.edit edit).edited edits).lines⟩
      rw [edit_behind noMove]
      exact inductionHypothesis (body.edit edit)

/-- Code is what is appended before a line that is no move, that line, and what comes behind it. -/
theorem edited_around
    (body : Body)
    (front : List Edit)
    {edit : Edit}
    (noMove : Move.starts edit.text = false)
    (back : List Edit) :
    (body.edited (front ++ edit :: back)).texts =
      (body.edited front).texts ++ edit.text :: (empty.edited back).texts := by
  have here : (body.edited front).edit edit =
      ⟨(body.edited front).lines.push edit.line ++ empty.lines⟩ := by
    simp [empty, ← edit_of_not_starts _ noMove]
  have parts : body.edited (front ++ edit :: back) =
      ((body.edited front).edit edit).edited back := by
    simp [edited]
  rw [parts, here, edited_behind noMove]
  simp [texts, Edit.text]

end Body

namespace Setting

/-- Lines that are appended come to the same ends when useless moves are replaced. -/
theorem ends_edited
    {Rest : Type}
    (setting : Setting Rest)
    {body : Body}
    {edits : List Edit}
    (begun : ∀ line ∈ body.texts, Move.isWritten line)
    (written : ∀ edit ∈ edits, Move.isWritten edit.text)
    (start final : Core Rest) :
    setting.Ends (body.edited edits).texts start final ↔
      setting.Ends (body.texts ++ edits.map Edit.text) start final := by
  induction edits generalizing body with
  | nil => simp [Body.edited]
  | cons edit edits inductionHypothesis =>
      have writtenEdit := written edit (by simp)
      have writtenLater : ∀ later ∈ edits, Move.isWritten later.text :=
        fun later member => written later (by simp [member])
      show setting.Ends ((body.edit edit).edited edits).texts start final ↔ _
      rw [List.map_cons]
      rcases body.edit_cases edit with
        texts | ⟨front, previous, instruction, rfl, known, redundant, texts⟩
      · have begunLater : ∀ line ∈ (body.edit edit).texts, Move.isWritten line := by
          simpa [texts, or_imp, forall_and] using ⟨begun, writtenEdit⟩
        rw [inductionHypothesis begunLater writtenLater, texts, List.append_assoc,
          List.singleton_append]
      · have begunFront : ∀ line ∈ front, Move.isWritten line :=
          fun line member => begun line (by simp [known, member])
        have writtenPrevious : Move.isWritten previous := begun previous (by simp [known])
        have begunLater : ∀ line ∈ (body.edit (.add instruction)).texts, Move.isWritten line := by
          simpa [texts, or_imp, forall_and] using ⟨begunFront, writtenEdit⟩
        rw [inductionHypothesis begunLater writtenLater, texts, known, List.append_assoc,
          List.append_assoc, List.singleton_append, List.singleton_append]
        exact setting.runs_of_redundant writtenPrevious writtenEdit redundant front _ start final

end Setting

namespace Body

/--
Lines in the syntax of moves that are appended to a body come to the same ends as without any
replacement, and no label, free line or other line that is no move takes part in a replacement.
-/
theorem edited_sound
    {body : Body}
    {edits : List Edit}
    (begun : ∀ line ∈ body.texts, Move.isWritten line)
    (written : ∀ edit ∈ edits, Move.isWritten edit.text) :
    (∀ (Rest : Type) (setting : Setting Rest) (start final : Core Rest),
      setting.Ends (body.edited edits).texts start final ↔
        setting.Ends (body.texts ++ edits.map Edit.text) start final) ∧
      ∀ front edit back, edits = front ++ edit :: back → Move.starts edit.text = false →
        (body.edited edits).texts =
          (body.edited front).texts ++ edit.text :: (empty.edited back).texts := by
  refine ⟨fun Rest setting start final => setting.ends_edited begun written start final, ?_⟩
  rintro front edit back rfl noMove
  exact body.edited_around front noMove back

/-- A body that ends with a move. -/
def begunBody : Body :=
  ⟨#[.raw "f:", .blank, .instruction (.verbatim "mov rcx, 0")]⟩

/-- Moves that replace each other and the last one of a body, and some that must stay. -/
def replacing : List Edit := [
  .add (.verbatim "mov rcx, r8"), .add (.verbatim "mov rcx, qword [rbp-8]"),
  .add (.verbatim "mov rcx, dword [xs + ecx*4]"), .label "L", .add (.verbatim "mov rcx, 1"),
  .add (.verbatim "mov word [g], 1"), .add (.verbatim "mov word [g], cx"),
  .add (.verbatim "jmp .L")]

theorem edited_sound_replacing :
    (begunBody.edited replacing).texts =
      ["f:", "", "\tmov rcx, qword [rbp-8]", "\tmov rcx, dword [xs + ecx*4]", ".L:",
        "\tmov rcx, 1", "\tmov word [g], cx", "\tjmp .L"] ∧
      ∀ (Rest : Type) (setting : Setting Rest) (start final : Core Rest),
        setting.Ends (begunBody.edited replacing).texts start final ↔
          setting.Ends (begunBody.texts ++ replacing.map Edit.text) start final :=
  ⟨by decide +kernel,
    (@edited_sound begunBody replacing (by decide +kernel) (by decide +kernel)).1⟩

end Body

end IlsCompiler
