import IlsCompiler.Proofs.Assembly.StatementTraces
import IlsCompiler.Proofs.Lowering.ProgramLifetimes

namespace IlsCompiler

/-!
# The code of a whole function

Around the code of its body a function has a prologue, which keeps a line free, and an
epilogue, which fills that line once it is known which registers were used.
-/

namespace Move

/-- An instruction that is no move makes no line useless. -/
theorem not_redundant_of_parse?
    {next : String}
    (noMove : parse? next = none)
    (previous : String) :
    isRedundant previous next = false := by
  unfold isRedundant
  rw [noMove]
  cases parse? (withoutTab previous) <;> rfl

end Move

namespace FunctionCode

/-- The lines of a function behind its prologue. -/
def prologueLines (function : Signature) : Array Line :=
  #[.raw (function.name ++ ":"), .instruction (.push (.whole .rbp)),
    .instruction (.mov (.whole .rbp) (.whole .rsp)), .blank]

/-- The code of a function behind its prologue. -/
def prologued (function : Signature) (calls : List Nat) (locals : Nat) : FunctionCode :=
  { signature := function
    frame := { StackFrame.ofFunction function.name with locals := locals, reserved := 3 }
    body := ⟨prologueLines function⟩
    pool := .full
    calls := calls }

/-- The free line of a function is filled and its last line added behind its name. -/
theorem first_of_filled
    {function : Signature}
    {calls : List Nat}
    {locals : Nat}
    {last : Body}
    (same : last.lines.toList.take 4 =
      (prologued function calls locals).body.lines.toList.take 4)
    (filling : List Line) :
    ((last.fill 3 filling).add .ret).lines[0]? = some (.raw (function.name ++ ":")) := by
  have notMove : Move.parse? (Instruction.text .ret) = none := by decide
  have first : last.lines.toList[0]? = some (.raw (function.name ++ ":")) := by
    have here : (last.lines.toList.take 4)[0]? = some (.raw (function.name ++ ":")) := by
      rw [same]
      rfl
    simpa using here
  obtain ⟨rest, lines⟩ : ∃ rest, last.lines.toList = .raw (function.name ++ ":") :: rest := by
    cases known : last.lines.toList with
    | nil => simp [known] at first
    | cons line rest => exact ⟨rest, by simpa [known] using first⟩
  have pushed : ∀ body : Body, (body.add .ret).lines = body.lines.push (.instruction .ret) := by
    intro body
    unfold Body.add
    split <;> simp [Move.not_redundant_of_parse? notMove]
  have filled : (last.fill 3 filling).lines.toList[0]? =
      some (.raw (function.name ++ ":")) := by
    simp [Body.fill, lines]
  rw [pushed, ← Array.getElem?_toList, Array.toList_push]
  rw [List.getElem?_append_left]
  · exact filled
  · exact (List.getElem?_eq_some_iff.mp filled).1

end FunctionCode

namespace Emit

open Stateful FunctionCode

variable
    {function : Signature}
    {calls : List Nat}
    {locals : Nat}
    {before after : FunctionCode}
    {done : Unit}

theorem prologue_ok
    (run : prologue locals (.opened function calls) = .ok (done, after)) :
    after = .prologued function calls locals := by
  have pushes : Body.add (Body.empty.raw (function.name ++ ":")) (.push (.whole .rbp)) =
      ⟨#[.raw (function.name ++ ":"), .instruction (.push (.whole .rbp))]⟩ := by
    have notMove : Move.parse? (Instruction.text (.push (.whole .rbp))) = none := by decide
    simp [Body.add, Body.empty, Body.raw, Move.not_redundant_of_parse? notMove]
  have moves : Body.add ⟨#[.raw (function.name ++ ":"), .instruction (.push (.whole .rbp))]⟩
      (.mov (.whole .rbp) (.whole .rsp)) =
        ⟨#[.raw (function.name ++ ":"), .instruction (.push (.whole .rbp)),
          .instruction (.mov (.whole .rbp) (.whole .rsp))]⟩ := by
    have keeps : Move.isRedundant (Line.text (.instruction (.push (.whole .rbp))))
        (Instruction.text (.mov (.whole .rbp) (.whole .rsp))) = false := by decide
    simp [Body.add, keeps]
  unfold prologue at run
  simp only [bind_ok_iff, ins_ok_iff, modify_ok_iff] at run
  obtain ⟨_, _, rfl, _, _, rfl, rfl⟩ := run
  simp only [FunctionCode.opened, pushes, moves]
  rfl

/-- The lines that reserve a frame call nothing. -/
theorem setup_silent
    (size : Nat)
    (saved : List Reg) :
    ∀ line ∈ setup size saved, line.called? = none := by
  intro line member
  unfold setup at member
  rcases List.mem_append.mp member with reserves | saves
  · split at reserves
    · simp at reserves
    · rw [List.mem_singleton.mp reserves]
      rfl
  · obtain ⟨reg, _, rfl⟩ := List.mem_map.mp saves
    rfl

/-- The end of a function fills the free line and makes no call. -/
theorem epilogue_ok
    (free : before.body.lines[before.frame.reserved]? = some .blank)
    (run : epilogue before = .ok (done, after)) :
    after.calls = before.calls ∧ after.body.calls = before.body.calls ∧
      ∃ last filling,
        before.body.Keeps last ∧ after.body = last.fill before.frame.reserved filling := by
  unfold epilogue at run
  obtain ⟨_, _, got, later⟩ := bind_ok_iff.mp run
  obtain ⟨rfl, rfl⟩ := get_ok_iff.mp got
  -- Everything in front of the filling is silent, whichever lines it has.
  have finish : ∀ {size : Nat} {saved : List Reg} {code : FunctionCode},
      Becomes 0 [] [] before code →
      (do
        ins (.mov (.whole .rsp) (.whole .rbp))
        ins (.pop .rbp)
        modify fun current : FunctionCode =>
          { current with
            body := current.body.fill current.frame.reserved (setup size saved) } :
          Emit Unit) code = .ok (done, after) →
      after.calls = before.calls ∧ after.body.calls = before.body.calls ∧
        ∃ last filling,
          before.body.Keeps last ∧ after.body = last.fill before.frame.reserved filling := by
    intro size saved code earlier run
    simp only [bind_ok_iff] at run
    obtain ⟨_, _, moved, _, last, popped, filled⟩ := run
    have whole := earlier.after_silent
      ((silent_ins rfl moved).after_silent (silent_ins rfl popped))
    cases modify_ok_iff.mp filled
    have blank := whole.kept.blank free
    refine ⟨by simpa using whole.calls, ?_, last.body, _, whole.kept, by rw [← whole.reserved]⟩
    rw [whole.reserved, Body.calls_fill blank (setup_silent size saved)]
    simpa using whole.routines
  have restored : ∀ {code : FunctionCode},
      Becomes 0 [] [] before code →
      (do
        if !before.pool.touched.isEmpty then
          ins (.lea .rsp (.frame (-((before.frame.size before.pool.touched.length +
            StackFrame.slotSize * before.pool.touched.length : Nat) : Int))))
          before.pool.touched.reverse.forM fun reg => ins (.pop reg)
        ins (.mov (.whole .rsp) (.whole .rbp))
        ins (.pop .rbp)
        modify fun current : FunctionCode =>
          { current with
            body := current.body.fill current.frame.reserved
              (setup (before.frame.size before.pool.touched.length) before.pool.touched) } :
          Emit Unit) code = .ok (done, after) →
      after.calls = before.calls ∧ after.body.calls = before.body.calls ∧
        ∃ last filling,
          before.body.Keeps last ∧ after.body = last.fill before.frame.reserved filling := by
    intro code earlier run
    split at run
    · obtain ⟨_, _, addressed, run⟩ := bind_ok_iff.mp run
      obtain ⟨_, _, popped, run⟩ := bind_ok_iff.mp run
      exact finish (earlier.after_silent ((silent_ins rfl addressed).after_silent
        ((silent_sequences.forM fun _ _ =>
          ⟨silent_ins rfl, fun _ _ _ _ => trivial⟩).1 popped))) run
    · exact finish earlier run
  cases isVoid : before.signature.isVoid with
  | true =>
      simp only [isVoid, ↓reduceIte] at later
      obtain ⟨_, _, cleared, later⟩ := bind_ok_iff.mp later
      exact restored (silent_ins rfl cleared) later
  | false =>
      simp only [isVoid, Bool.false_eq_true, ↓reduceIte] at later
      exact restored (.refl _ _) later

end Emit

namespace Lower

open LoweringState FunctionCode AssemblyFile

variable
    {listing : Listing}
    {before after : LoweringState}
    {function : Signature}
    {body : List Stmt}

/-- Inside a function no node ends it. -/
theorem endsFunction_of_proceeds
    (proceeds : before.Proceeds after) :
    ∀ node ∈ after.listing.since before.listing, node.endsFunction = false := by
  intro node member
  have kind := isInner_of_proceeds proceeds node member
  cases node <;> first | rfl | cases kind

theorem callCount_prepared
    (state : LoweringState)
    (function : Signature)
    (locals : Nat) :
    (state.prepared function locals).listing.callCount = state.listing.callCount := by
  simp [prepared, enteredBy, LoweringState.opened, Listing.modifyFunction]

/-- Up to the statements of a function no code makes a call. -/
theorem bound_runs
    {bound : LoweringState}
    (binds : (before.begun function (declarationsIn body)).Proceeds bound)
    (sameNodes : bound.listing.nodes =
      (before.begun function (declarationsIn body)).listing.nodes) :
    listing.Runs (before.prepared function (declarationsIn body)) bound [] ∧
      Inside bound.listing.scopes bound.scope := by
  let start := before.prepared function (declarationsIn body)
  let entered := start.labelled ((before.enteredBy function).newFrame .function "").startLabel
  have labels : listing.Runs start entered [] := .labelled _ _
  have opens : listing.Runs entered (before.begun function (declarationsIn body)) [] :=
    .of_push (extends_appended _ _) (nodes_appended _ _) fun _ => Emit.silent_pure _
  have places : listing.Runs (before.begun function (declarationsIn body)) bound [] :=
    .of_same_nodes binds.extends_ sameNodes
  refine ⟨labels.trans (opens.trans places), Inside.proceeds ?_ binds⟩
  rw [scope_begun]
  exact inside_begun before function (declarationsIn body)

/--
The code of a function: it was made for the nodes of the statements, from the code behind the
prologue on, and it ends with the epilogue.
-/
structure Coded (listing : Listing) (function : Signature) (body : List Stmt)
    (before after bound between : LoweringState) (file final : AssemblyFile)
    (almost ended : FunctionCode) : Prop where
  parametersBound : bindParameters before.listing.scopes.size function.line function.params
    (before.begun function (declarationsIn body)) = .ok ((), bound)
  bodyLowered : statements body bound = .ok ((), between)
  inside : Inside bound.listing.scopes bound.scope
  tidy : before.Tidy → bound.Tidy
  opens : listing.Runs (before.prepared function (declarationsIn body)) bound []
  closes : listing.Runs between between.closed []
  ends : between.closed.listing.Extends after.listing
  emits : listing.Emits (before.prepared function (declarationsIn body)).listing
    between.closed.listing (.prologued function file.calls (declarationsIn body)) almost
  agrees : (before.prepared function (declarationsIn body)).Agrees
    (.prologued function file.calls (declarationsIn body))
  epilogue : Emit.epilogue almost = .ok ((), ended)
  code : final.code = file.code ++ (ended.body.add .ret).texts ++ [""]
  calls : final.calls = ended.calls
  current : final.current = none

variable
    {file final : AssemblyFile}

theorem function_coded
    (known : before.listing.Parameters function)
    (lowered : functionBody function body before = .ok ((), after))
    (taken : AssemblyFile.Takes listing (after.listing.since before.listing) file final)
    (isOutside : file.current = none)
    (counted : ∀ number ∈ file.calls, number < before.listing.callCount) :
    ∃ bound between almost ended,
      Coded listing function body before after bound between file final almost ended := by
  obtain ⟨bound, between, parametersBound, binds, sameNodes, bodyLowered, inner, ends, nodes⟩ :=
    functionBody_since known lowered
  let start := before.prepared function (declarationsIn body)
  rw [nodes] at taken
  have noEnd : ∀ node ∈ .prologue function (declarationsIn body) ::
      between.closed.listing.since start.listing ++ [.epilogue function],
        node.endsFunction = false := by
    intro node member
    simp only [List.cons_append, List.mem_cons, List.mem_append, List.not_mem_nil,
      or_false] at member
    rcases member with rfl | isInner | rfl
    · rfl
    · exact endsFunction_of_proceeds inner node isInner
    · rfl
  obtain ⟨code, run, finalCode, finalCalls, finalCurrent⟩ :=
    AssemblyFile.takes_function noEnd isOutside taken
  obtain ⟨almost, run, epilogueRun⟩ := Emit.nodes_append_ok_iff.mp run
  obtain ⟨entered, prologueRun, bodyRun⟩ := Emit.nodes_cons_ok_iff.mp run
  obtain ⟨last, epilogueRun, nothing⟩ := Emit.nodes_cons_ok_iff.mp epilogueRun
  cases Emit.nodes_nil_ok_iff.mp nothing
  cases Emit.prologue_ok prologueRun
  obtain ⟨opens, inside⟩ : listing.Runs start bound [] ∧
      Inside bound.listing.scopes bound.scope := bound_runs binds sameNodes
  have tidy : before.Tidy → bound.Tidy := fun isTidy =>
    binds.tidy ((proceeds_begun before function (declarationsIn body)).tidy
      ((grows_prepared before function (declarationsIn body)).tidy isTidy))
  have agrees : start.Agrees (.prologued function file.calls (declarationsIn body)) := by
    refine ⟨?_, fun entry member => by simp [prologued, Pool.full] at member, Pool.sound_full⟩
    intro number member
    rw [callCount_prepared]
    exact counted number member
  exact ⟨bound, between, almost, code, parametersBound, bodyLowered, inside, tidy, opens, .closed between, ends,
    ⟨_, inner.extends_.nodes_eq, bodyRun⟩, agrees, epilogueRun, finalCode, finalCalls,
    finalCurrent⟩

/-- The code of a function begins with its name and makes the calls of its parts, in their order. -/
theorem Coded.calls_eq
    {bound between : LoweringState}
    {almost ended : FunctionCode}
    (coded : Coded listing function body before after bound between file final almost ended)
    (numbered : listing.Numbered)
    (grown : after.listing.Extends listing) :
    (∀ number ∈ final.calls, number < after.listing.callCount) ∧
      (ended.body.add .ret).lines[0]? = some (.raw (function.name ++ ":")) ∧
      (ended.body.add .ret).calls = (partsIn body).flatMap Part.called := by
  have inner := (lowering_runs numbered).2.2 body coded.inside coded.bodyLowered
    (coded.closes.grown.trans (coded.ends.trans grown))
  have follows := (coded.opens.trans (inner.before_silent coded.closes)).follows coded.emits
    coded.agrees
  obtain ⟨numbers, becomes⟩ := follows.becomes
  have blank : (prologued function file.calls (declarationsIn body)).body.lines[3]? =
      some .blank := rfl
  have free : almost.body.lines[almost.frame.reserved]? = some .blank := by
    rw [becomes.reserved]
    exact becomes.kept.blank blank
  obtain ⟨sameCalls, sameRoutines, filled, filling, kept, isFilled⟩ :=
    Emit.epilogue_ok free coded.epilogue
  refine ⟨?_, ?_, ?_⟩
  · rw [coded.calls, sameCalls]
    intro number member
    exact Nat.lt_of_lt_of_le (follows.agrees.calls number member) coded.ends.calls
  · have sameStart := (becomes.kept.trans kept).take_of_blank blank
    rw [isFilled, becomes.reserved]
    exact first_of_filled sameStart filling
  · rw [Body.calls_add, sameRoutines, becomes.routines]
    simp [prologued, prologueLines, Body.calls, Line.called?]

/-- The code of a function makes the calls of the parts of its body, in their order. -/
theorem function_taken
    (numbered : listing.Numbered)
    (known : before.listing.Parameters function)
    (lowered : functionBody function body before = .ok ((), after))
    (grown : after.listing.Extends listing)
    (taken : AssemblyFile.Takes listing (after.listing.since before.listing) file final)
    (isOutside : file.current = none)
    (counted : ∀ number ∈ file.calls, number < before.listing.callCount) :
    final.current = none ∧
      (∀ number ∈ final.calls, number < after.listing.callCount) ∧
      ∃ code : Body,
        final.code = file.code ++ code.texts ++ [""] ∧
          code.lines[0]? = some (.raw (function.name ++ ":")) ∧
          code.calls = (partsIn body).flatMap Part.called := by
  obtain ⟨bound, between, almost, ended, coded⟩ :=
    function_coded known lowered taken isOutside counted
  obtain ⟨stillCounted, first, calls⟩ := coded.calls_eq numbered grown
  exact ⟨coded.current, stillCounted, ended.body.add .ret, coded.code, first, calls⟩

/-- The nodes of one function, where they were lowered and where a file took them. -/
structure Emitted (listing : Listing) (name : String) (body : List Stmt)
    (function : Signature) (start finish : LoweringState) (opens closes : AssemblyFile) :
    Prop where
  known : start.listing.signature? name = some function
  parameters : start.listing.Parameters function
  lowered : functionBody function body start = .ok ((), finish)
  grown : finish.listing.Extends listing
  taken : Takes listing (finish.listing.since start.listing) opens closes
  isOutside : opens.current = none
  counted : ∀ number ∈ opens.calls, number < start.listing.callCount
  grounded : start.Grounded

section Files

variable
    {stmts : List Stmt}
    {file final : AssemblyFile}
    {owned : Nat → Bool}
    {removed : List String}

/-- A declared function has a place in the listing. -/
theorem exists_tag_of_signature?
    {name : String}
    (known : listing.signature? name = some function) :
    ∃ tag ∈ listing.tags, tag.1.name = name := by
  have named := Listing.name_of_signature? known
  obtain ⟨found, isFound, rfl⟩ := Option.map_eq_some_iff.mp known
  exact ⟨_, List.mem_map_of_mem (List.mem_of_find?_eq_some isFound), named⟩

/-- A file takes the functions that are kept one behind the other. -/
theorem bodies_taken
    (numbered : listing.Numbered)
    (bodies : Bodies stmts before after)
    (declared : Declared stmts before.listing)
    (distinct : (functionNames stmts).Nodup)
    (fresh : ∀ tag ∈ before.listing.tags, tag.1.name ∈ functionNames stmts → tag.2 = (0, 0))
    (grown : after.listing.Extends listing)
    (whole : ∀ tag ∈ after.listing.tags, ∀ position,
      tag.2.1 ≤ position → position < tag.2.1 + tag.2.2 →
        owned position = removed.contains tag.1.name)
    (taken : Takes listing
      (keep owned before.listing.nodes.size (after.listing.since before.listing)) file final)
    (isOutside : file.current = none)
    (counted : ∀ number ∈ file.calls, number < before.listing.callCount)
    (grounded : before.Grounded) :
    (∃ added, final.code = file.code ++ added) ∧
      ∀ ⦃line name params result bodyLine body⦄,
        .function line name params result bodyLine body ∈ stmts → name ∉ removed →
          ∃ function start finish opens closes,
            Emitted listing name body function start finish opens closes ∧
              ∃ added, final.code = closes.code ++ added := by
  induction bodies generalizing file with
  | nil state =>
      have nothing : keep owned state.listing.nodes.size (state.listing.since state.listing) =
          [] := by
        have atEnd : state.listing.since state.listing = [] := by
          simp [Listing.since]
        rw [atEnd]
        rfl
      rw [nothing] at taken
      cases taken
      exact ⟨⟨[], by simp⟩, by simp⟩
  | declare bodies inductionHypothesis =>
      obtain ⟨more, each⟩ := inductionHypothesis declared.tail distinct fresh grown whole taken
        isOutside counted grounded
      refine ⟨more, fun line name params result bodyLine body member => ?_⟩
      exact each (by simpa using member)
  | @function line name params result bodyLine body rest function before between after known
      lowered bodies inductionHypothesis =>
      obtain ⟨signature, found, parameters, -⟩ := declared (List.mem_cons_self ..)
      cases known.symm.trans found
      simp only [functionNames, List.nodup_cons] at distinct
      obtain ⟨firstGrown, _, _⟩ := functionBody_tags parameters lowered
      have restDeclared := Declared.grown firstGrown declared.tail
      have restGrown := (bodies_tags bodies restDeclared).1
      rw [firstGrown.since_trans restGrown, keep_append, firstGrown.length_since] at taken
      obtain ⟨middle, firstTaken, restTaken⟩ := takes_append_iff.mp taken
      -- The function is kept or left out as a whole, by the place that its tag gives it.
      have owner : ∀ position, before.listing.nodes.size ≤ position →
          position < before.listing.nodes.size + (between.listing.since before.listing).length →
            owned position = removed.contains name := by
        obtain ⟨tag, member, named⟩ := exists_tag_of_signature?
          ((firstGrown.trans restGrown).signatures _ _ known)
        have place := tag_of_first declared distinct.1
          (fun tag member named => fresh tag member (by simp [functionNames, named]))
          known lowered bodies tag member named
        intro position lower upper
        rw [firstGrown.length_since] at upper
        rw [← named]
        apply whole tag member position <;> rw [place]
        · exact lower
        · have more := firstGrown.size_nodes
          simp only
          omega
      have restFresh := fresh_of_first declared distinct.1 fresh known lowered
      have restGrounded := functionBody_grounded grounded parameters lowered
      cases isRemoved : removed.contains name with
      | true =>
          rw [keep_none (isRemoved ▸ owner)] at firstTaken
          cases firstTaken
          obtain ⟨more, each⟩ := inductionHypothesis restDeclared distinct.2 restFresh grown
            whole restTaken isOutside
            (fun number member => Nat.lt_of_lt_of_le (counted number member) firstGrown.calls)
            restGrounded
          refine ⟨more, fun line other params result bodyLine body member isKept => ?_⟩
          rcases List.mem_cons.mp member with isFirst | inRest
          · cases isFirst
            exact (isKept (by simpa using isRemoved)).elim
          · exact each inRest isKept
      | false =>
          rw [keep_all (isRemoved ▸ owner)] at firstTaken
          obtain ⟨isClosed, stillCounted, code, appended, _, _⟩ :=
            function_taken numbered parameters lowered (restGrown.trans grown) firstTaken
              isOutside counted
          obtain ⟨⟨added, more⟩, each⟩ := inductionHypothesis restDeclared distinct.2 restFresh
            grown whole restTaken isClosed stillCounted restGrounded
          refine ⟨⟨code.texts ++ [""] ++ added, by rw [more, appended]; simp⟩, ?_⟩
          intro line other params result bodyLine body member isKept
          rcases List.mem_cons.mp member with isFirst | inRest
          · cases isFirst
            exact ⟨function, before, between, file, middle,
              ⟨known, parameters, lowered, restGrown.trans grown, firstTaken, isOutside, counted,
                grounded⟩,
              added, more⟩
          · exact each inRest isKept

/-- Every function that is kept has its code in the text that is emitted. -/
theorem emitted_of_program
    {program : Program}
    {pruned : Pruned}
    {text : String}
    (lowered : program.lower = .ok listing)
    (choice : pruned = .whole listing ∨ pruned = .ofListing listing)
    (emitted : listing.emit pruned.nodes = .ok text) :
    listing.Numbered ∧
      ∀ ⦃line name params result bodyLine body⦄,
        .function line name params result bodyLine body ∈ program.statements →
          name ∉ pruned.removed →
          ∃ function start finish opens closes,
            Emitted listing name body function start finish opens closes ∧
              ∃ front back,
                text = String.join ((front ++ closes.code ++ back).map (· ++ "\n")) := by
  obtain ⟨declared, last, ready, bodies, rfl⟩ := lower_ready lowered
  have grown := (bodies_tags bodies ready.functions).1
  have numbered := grown.numbered ready.numbered
  obtain ⟨owned, nodes, whole, inFront⟩ := kept_nodes ready bodies choice
  obtain ⟨final, taken, rfl⟩ := takes_of_emit emitted
  rw [nodes, grown.nodes_eq, keep_append] at taken
  obtain ⟨opened, globals, functions⟩ := takes_append_iff.mp taken
  rw [keep_all fun position _ upper => inFront position (by simpa using upper)] at globals
  have declares : ∀ node ∈ declared.listing.nodes.toList, ∃ id line, node = .declare id line := by
    intro node member
    have kind := ready.globals node member
    cases node with
    | declare id line => exact ⟨id, line, rfl⟩
    | _ => cases kind
  obtain ⟨_, noCalls, isOutside⟩ := takes_declarations declares rfl globals
  rw [Nat.zero_add, Array.length_toList] at functions
  obtain ⟨_, each⟩ := bodies_taken numbered bodies ready.functions ready.distinct
    (fun tag member _ => ready.fresh tag member) (.refl _) whole functions isOutside
    (by simp [noCalls, AssemblyFile.start]) ready.grounded
  refine ⟨numbered, fun line name params result bodyLine body member isKept => ?_⟩
  obtain ⟨function, start, finish, opens, closes, isEmitted, added, code⟩ := each member isKept
  refine ⟨function, start, finish, opens, closes, isEmitted,
    ["global " ++ entryName, "", "section .text"],
    added ++ final.dataLines last.listing ++ ["extern " ++ PrintFormat.routine], ?_⟩
  rw [AssemblyFile.text, AssemblyFile.lines, code]
  simp only [List.append_assoc]

end Files

end Lower

end IlsCompiler

namespace IlsCompiler

/-!
## The order of calls in emitted code

Every function that is not pruned has its code in the file, and that code makes the calls
of one part of the function after those of the other. Inside a part the calls stand in
source order exactly when none of them waits for a later one.
-/

namespace Lower

variable
    {listing : Listing}

/--
The code of a function calls what its parts call, one part after the other. What a part calls
are its calls in source order, each once, but possibly in another order; the order is that of
the source exactly when nowhere in the part a call waits while a later one is made.
-/
theorem emitted_calls_in_source_order_iff
    {program : Program}
    {pruned : Pruned}
    {text : String}
    {line : Nat}
    {name : String}
    {params : List Param}
    {result : Ty}
    {bodyLine : Nat}
    {body : List Stmt}
    (lowered : program.lower = .ok listing)
    (choice : pruned = .whole listing ∨ pruned = .ofListing listing)
    (emitted : listing.emit pruned.nodes = .ok text)
    (member : .function line name params result bodyLine body ∈ program.statements)
    (isKept : name ∉ pruned.removed) :
    ∃ (front back : List String) (code : Body),
      text = String.join ((front ++ code.texts ++ back).map (· ++ "\n")) ∧
        code.lines[0]? = some (.raw (name ++ ":")) ∧
        code.calls = (partsIn body).flatMap Part.called ∧
        ∀ part ∈ partsIn body,
          (part.made 0).Perm (part.calls.zipIdx 0) ∧
            (part.made 0 = part.calls.zipIdx 0 ↔ part.overtakes = false) := by
  obtain ⟨numbered, each⟩ := emitted_of_program lowered choice emitted
  obtain ⟨function, start, finish, opens, closes, isEmitted, front, back, rfl⟩ :=
    each member isKept
  obtain ⟨_, _, code, appended, first, calls⟩ := function_taken numbered isEmitted.parameters
    isEmitted.lowered isEmitted.grown isEmitted.taken isEmitted.isOutside isEmitted.counted
  rw [Listing.name_of_signature? isEmitted.known] at first
  refine ⟨front ++ opens.code, [""] ++ back, code, ?_, first, calls, fun part _ =>
    ⟨part.made_perm 0, part.made_eq_iff 0⟩⟩
  rw [appended]
  simp only [List.append_assoc]

/-- The difference `f() - (g() - h())`, whose first call waits for the two others. -/
def waitingDifference : Expr :=
  .binary 4 .sub (.call 4 "f" false [])
    (.binary 4 .sub (.call 4 "g" false []) (.call 4 "h" false []))

/-- Three functions that give one, and a main function that declares `x` as the difference. -/
def waitingProgram : Program :=
  let one (name : String) : Stmt :=
    .function 1 name [] .int 1 [.leave 1 (some (.literal 1 (.scalar .int "1")))]
  { file := "t.ils"
    statements := [one "f", one "g", one "h",
      .function 4 "main" [] .absent 4 [.declare 4 "x" .int (some waitingDifference)]] }

theorem waitingProgram_calls_first_last :
    ∃ listing text front back, ∃ code : Body,
      waitingProgram.lower = .ok listing ∧
        listing.emit (Pruned.ofListing listing).nodes = .ok text ∧
        text = String.join ((front ++ code.texts ++ back).map (· ++ "\n")) ∧
        code.lines[0]? = some (.raw "main:") ∧
        code.calls = ["g", "h", "f"] ∧ (Part.expression waitingDifference).overtakes = true ∧
        (Part.expression waitingDifference).calls = ["f", "g", "h"] := by
  have accepted : (waitingProgram.lower.toOption.map fun listing =>
      (listing.emit (Pruned.ofListing listing).nodes).toBool &&
        !(Pruned.ofListing listing).removed.contains "main") = some true := by
    decide +kernel
  cases lowered : waitingProgram.lower with
  | error failure => simp [lowered, Except.toOption] at accepted
  | ok listing =>
      cases emitted : listing.emit (Pruned.ofListing listing).nodes with
      | error failure => simp [lowered, emitted, Except.toOption, Except.toBool] at accepted
      | ok text =>
          have isKept : "main" ∉ (Pruned.ofListing listing).removed := by
            simpa [lowered, emitted, Except.toOption, Except.toBool] using accepted
          obtain ⟨front, back, code, isText, first, calls, _⟩ :=
            emitted_calls_in_source_order_iff lowered (.inr rfl) emitted
              (List.mem_of_getElem? (show waitingProgram.statements[3]? = some _ from rfl)) isKept
          refine ⟨listing, text, front, back, code, rfl, emitted, isText, first, ?_, by decide,
            by decide⟩
          rw [calls]
          decide

end Lower

end IlsCompiler
