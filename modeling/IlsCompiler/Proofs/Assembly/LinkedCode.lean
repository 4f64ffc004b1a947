import IlsCompiler.Proofs.Assembly.Alignment

namespace IlsCompiler

/-!
# The code of a whole program

Each function of a program that is kept has code of one form: its start, which reserves a frame and
saves registers, the lines that were made for its statements, and its end, which takes the registers
back. The lines in between fit the frame that they were made with.
-/

/-- A function calls functions as they are declared and overwrites its own parameters only. -/
def Listing.permits (listing : Listing) (function : Signature) : Permitted where
  calls call := call.builtin = false ∧ call.WellFormed listing
  parameters position := position < function.params.length

namespace Listing

variable
    {listing : Listing}
    {function : Signature}

theorem pends_permits
    (formed : listing.WellFormed)
    (function : Signature) :
    listing.Pends (listing.permits function) := by
  intro id v callee call found storage
  have fixed : listing.fixed? id = some v.fixed := by
    simp [fixed?, found]
  have isResult : v.fixed.storage = .result callee call := by
    obtain ⟨number, type, value, preserved, lastUse, place⟩ := v
    cases storage
    rfl
  have storageFormed := (formed id v.fixed fixed).storage
  rw [isResult] at storageFormed
  exact storageFormed

theorem isPermitted_permits
    (ordered : listing.Ordered function.params 0)
    {node : Node}
    (formed : node.WellFormed (some function) listing) :
    node.IsPermitted (listing.permits function) listing := by
  cases node with
  | assign target value type selected line =>
      obtain ⟨w, known, _, owned, _⟩ := formed
      intro v name position scope found storage
      have fixed : listing.fixed? target = some v.fixed := by
        simp [fixed?, found]
      rw [fixed, Option.some.injEq] at known
      subst known
      have place : ∃ inner, v.fixed.storage = .named name false true position inner := by
        obtain ⟨number, type, value, preserved, lastUse, place⟩ := v
        cases storage
        exact ⟨_, rfl⟩
      obtain ⟨inner, place⟩ := place
      obtain ⟨owner, isOwner, isParam⟩ := owned (by rw [place]; rfl)
      cases isOwner
      obtain ⟨number, atNumber⟩ := List.getElem?_of_mem isParam
      obtain ⟨w, other, isFound, otherPlace⟩ := ordered number target atNumber
      rw [fixed, Option.some.injEq] at isFound
      rw [← isFound, place] at otherPlace
      cases otherPlace
      show 0 + number < function.params.length
      have inside := (List.getElem?_eq_some_iff.mp atNumber).1
      omega
  | call invoked => exact fun notBuiltin => ⟨notBuiltin, formed⟩
  | _ => trivial

end Listing

open FunctionCode in
/-- The code of a function, made with a frame, with the registers that it saves. -/
structure Shaped (listing : Listing) (function : Signature) (locals : Nat) (frame : StackFrame)
    (saved : List Reg) (lines : List Line) (written : Body) : Prop where
  lines_eq : written.lines.toList =
    opening function ++ Emit.setup (frame.size saved.length) saved ++ lines ++
      ending function.isVoid (frame.size saved.length) saved
  locals_eq : frame.locals = locals
  room : frame.slots.length ≤ frame.locals
  saved_sublist : saved.Sublist Reg.preservedPool
  level : Line.levels? 0 lines = some 0
  fit : Line.Fit (listing.permits function) frame.slots.length saved lines

variable
    {listing : Listing}
    {function : Signature}

namespace Lower

open LoweringState FunctionCode

variable
    {body : List Stmt}

/-- The code of a function has the form that code has. -/
theorem Coded.shaped
    {before after bound between : LoweringState}
    {file final : AssemblyFile}
    {almost ended : FunctionCode}
    (coded : Coded listing function body before after bound between file final almost ended)
    (formed : listing.WellFormed)
    (ordered : listing.Ordered function.params 0)
    (grounded : before.Grounded)
    (known : before.listing.Parameters function)
    (lowered : functionBody function body before = .ok ((), after))
    (grown : after.listing.Extends listing) :
    ∃ frame saved lines,
      Shaped listing function (declarationsIn body) frame saved lines (ended.body.add .ret) := by
  have forms := (functionBody_forms grounded known lowered).2
  obtain ⟨zero, writes⟩ := coded.writes (Listing.pends_permits formed function)
    (fun node member => Listing.isPermitted_permits ordered ((forms node member).mono grown)) known
    lowered rfl
  have leveled := writes.leveled (leveled_prologued function file.calls (declarationsIn body))
  have continues := writes.continues
  obtain ⟨lines, shape, level, fit⟩ :=
    leveled.lines_of_epilogue continues.reserved coded.epilogue
  rw [continues.signature] at shape
  rw [zero] at level
  refine ⟨almost.frame, almost.pool.touched, lines, ?_⟩
  exact
    { lines_eq := shape
      locals_eq := continues.locals
      room := leveled.room
      saved_sublist := List.filter_sublist
      level := level
      fit := fit.mono (Nat.le_refl _) fun reg preserved used =>
        List.mem_filter.mpr ⟨preserved, by simpa using used⟩ }

/-- The code of a function that a file took has the form that code has. -/
theorem Emitted.shaped
    {name : String}
    {start finish : LoweringState}
    {opens closes : AssemblyFile}
    (emitted : Emitted listing name body function start finish opens closes)
    (formed : listing.WellFormed)
    (ordered : listing.Ordered function.params 0) :
    ∃ frame saved lines written,
      Shaped listing function (declarationsIn body) frame saved lines written ∧
        closes.code = opens.code ++ written.texts ++ [""] := by
  obtain ⟨bound, between, almost, ended, coded⟩ := function_coded emitted.parameters
    emitted.lowered emitted.taken emitted.isOutside emitted.counted
  obtain ⟨frame, saved, lines, shaped⟩ := coded.shaped formed ordered emitted.grounded
    emitted.parameters emitted.lowered emitted.grown
  exact ⟨frame, saved, lines, ended.body.add .ret, shaped, coded.code⟩

/-- A function in the text of a program, with its code. -/
def Compiled (listing : Listing) (text name : String) (body : List Stmt) (written : Body) : Prop :=
  ∃ function frame saved lines,
    listing.signature? name = some function ∧
      Shaped listing function (declarationsIn body) frame saved lines written ∧
      ∃ front back : List String,
        text = String.join ((front ++ written.texts ++ back).map (· ++ "\n"))

/-- The functions of a program that are kept, and no other ones, have code. -/
structure Linked (program : Program) (listing : Listing) (pruned : Pruned) (text : String)
    (code : String → Option Body) : Prop where
  kept : ∀ ⦃line name params result bodyLine body⦄,
    .function line name params result bodyLine body ∈ program.statements →
      name ∉ pruned.removed →
      ∃ written, code name = some written ∧ Compiled listing text name body written
  only : ∀ ⦃name written⦄, code name = some written →
    ∃ body, Compiled listing text name body written

variable
    {program : Program}

/-- What lowering gives is well formed, and it declares the functions of the program. -/
theorem formed_of_lower
    (lowered : program.lower = .ok listing) :
    listing.WellFormed ∧ Declared program.statements listing ∧
      (functionNames program.statements).Nodup := by
  obtain ⟨declared, final, parts, row⟩ := lower_row lowered
  rw [row.listing_eq]
  exact ⟨(row.laid.grounded row.ready.grounded).formed,
    Declared.grown row.laid.extends_ row.ready.functions, row.ready.distinct⟩

end Lower

/-!
## The call lines in the text of a program

The code of a function is its name and behind it lines that are labels or instructions with a form
of their own. Such a line calls a function exactly when it is written as a call of it, so the calls
of a function can be counted in the text, and there are as many as in its source.
-/

namespace Line

/-- Whether a line is a label or an instruction with a form of its own. -/
def isFormed : Line → Bool
  | .instruction (.verbatim _) => false
  | .instruction _ => true
  | .label _ => true
  | _ => false

variable
    {line : Line}
    {lines : List Line}

/-- A line that has a level is formed. -/
theorem isFormed_of_level?
    {level next : Int}
    (known : line.level? level = some next) :
    line.isFormed := by
  cases line with
  | instruction instruction =>
      cases instruction with
      | verbatim text => cases known
      | _ => rfl
  | label name => rfl
  | raw text => cases known
  | blank => cases known

theorem isFormed_of_levels?
    {level last : Int}
    (known : levels? level lines = some last) :
    ∀ line ∈ lines, line.isFormed := by
  induction lines generalizing level with
  | nil => exact fun _ member => nomatch member
  | cons first rest inductionHypothesis =>
      obtain ⟨next, atFirst, behind⟩ := Option.bind_eq_some_iff.mp known
      intro line member
      rcases List.mem_cons.mp member with rfl | inRest
      · exact isFormed_of_level? atFirst
      · exact inductionHypothesis behind line inRest

end Line

/-- Behind its name the code of a function has formed lines only, and it ends with a return. -/
theorem Shaped.formed
    {locals : Nat}
    {frame : StackFrame}
    {saved : List Reg}
    {lines : List Line}
    {written : Body}
    (shaped : Shaped listing function locals frame saved lines written) :
    ∃ rest,
      written.lines.toList = .raw (function.name ++ ":") :: rest ++ [.instruction .ret] ∧
        ∀ line ∈ rest, line.isFormed := by
  have closes : ∀ instruction ∈ Emit.closing function.isVoid (frame.size saved.length) saved,
      (Line.instruction instruction).isFormed := by
    intro instruction member
    simp only [Emit.closing, List.mem_append, List.mem_cons, List.not_mem_nil, or_false,
      List.mem_ite_nil_right, List.mem_ite_nil_left, List.mem_map] at member
    rcases member with (⟨_, rfl⟩ | ⟨_, rfl | ⟨_, _, rfl⟩⟩) | rfl | rfl <;> rfl
  have reserves : ∀ line ∈ Emit.setup (frame.size saved.length) saved, line.isFormed := by
    intro line member
    simp only [Emit.setup, List.mem_append, List.mem_ite_nil_left, List.mem_singleton,
      List.mem_map] at member
    rcases member with ⟨_, rfl⟩ | ⟨_, _, rfl⟩ <;> rfl
  have inside := Line.isFormed_of_levels? shaped.level
  refine ⟨(FunctionCode.opening function).tail ++ Emit.setup (frame.size saved.length) saved ++ lines ++
    (Emit.closing function.isVoid (frame.size saved.length) saved).map .instruction, ?_, ?_⟩
  · rw [shaped.lines_eq]
    simp [FunctionCode.opening, FunctionCode.ending]
  · intro line member
    simp only [List.mem_append, FunctionCode.opening, List.tail_cons, List.mem_cons,
      List.not_mem_nil, or_false, List.mem_map] at member
    rcases member with (((rfl | rfl) | isSetup) | isInside) | ⟨instruction, isClosing, rfl⟩
    · rfl
    · rfl
    · exact reserves line isSetup
    · exact inside line isInside
    · exact closes instruction isClosing

namespace Lower

variable
    {listing : Listing}

end Lower

end IlsCompiler
