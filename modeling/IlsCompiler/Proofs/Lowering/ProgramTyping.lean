import IlsCompiler.Proofs.Lowering.StatementTyping
import IlsCompiler.Proofs.Program.Readings

namespace IlsCompiler

/-!
# Programs keep to types

What a program that is read from a source text is lowered to keeps to types as a whole: every
variable that is declared, every value that is stored, passed and returned, and every constant.
-/

variable
    {listing : Listing}

namespace Listing

/-- Whether nodes keep to types in the functions that are entered among them. -/
def NodesTyped (listing : Listing) : Option Signature → List Node → Prop
  | _, [] => True
  | _, .entry function :: rest => listing.NodesTyped (some function) rest
  | function, node :: rest => node.Typed function listing ∧ listing.NodesTyped function rest

/-- Whether all variables and nodes of a listing keep to types. -/
structure Typed (listing : Listing) : Prop where
  vars : ∀ id v, listing.fixed? id = some v → v.Typed listing
  nodes : listing.NodesTyped none listing.nodes.toList

/-- Nodes among which no function is entered keep to types one by one. -/
theorem nodesTyped_append
    {function : Option Signature}
    {nodes rest : List Node}
    (noEntry : ∀ node ∈ nodes, ∀ entered, node ≠ .entry entered)
    (typed : ∀ node ∈ nodes, node.Typed function listing)
    (others : listing.NodesTyped function rest) :
    listing.NodesTyped function (nodes ++ rest) := by
  induction nodes with
  | nil => exact others
  | cons first nodes inductionHypothesis =>
      rw [List.forall_mem_cons] at noEntry typed
      have behind := inductionHypothesis noEntry.2 typed.2
      cases first with
      | entry entered => exact (noEntry.1 entered rfl).elim
      | _ => exact ⟨typed.1, behind⟩

end Listing

namespace Lower

open LoweringState Stateful Listing

variable
    {known : Nat → Prop}
    {before after : LoweringState}
    {done : Unit}
    {stmts : List Stmt}

theorem moduleVariables_keeps
    (written : bodyWritten stmts)
    (lines : ∀ line ∈ linesOfBody stmts, known line)
    (lowered : moduleVariables stmts before = .ok (done, after)) :
    before.Keeps known after := by
  induction stmts generalizing before with
  | nil =>
      rw [moduleVariables] at lowered
      obtain ⟨-, rfl⟩ := pure_ok_iff.mp lowered
      exact .refl _
  | cons first rest inductionHypothesis =>
      rw [linesOfBody, List.forall_mem_append] at lines
      cases first with
      | declare line name type initial =>
          rw [moduleVariables] at lowered
          obtain ⟨_, between, declared, others⟩ := bind_ok_iff.mp lowered
          obtain ⟨⟨usable, isWritten, agrees⟩, restWritten⟩ := written
          have here := lines.1
          rw [Stmt.lines, List.forall_mem_cons] at here
          exact (declare_keeps here.1 usable isWritten agrees here.2 declared).trans
            (inductionHypothesis restWritten lines.2 others)
      | _ => exact inductionHypothesis written.2 lines.2 lowered

variable
    {ids : List VarId}

/-- Parameters have types of variables that are no arrays. -/
theorem parameters_keeps
    {position : Nat}
    {params : List Param}
    (usable : ∀ param ∈ params, param.type.IsStored ∨ param.type = .void)
    (lowered : parameters position params before = .ok (ids, after)) :
    before.Keeps known after := by
  induction params generalizing before position ids with
  | nil =>
      rw [parameters] at lowered
      obtain ⟨rfl, rfl⟩ := pure_ok_iff.mp lowered
      exact .refl _
  | cons param rest inductionHypothesis =>
      rw [List.forall_mem_cons] at usable
      obtain ⟨noArray, notVoid, _, _, restLowered⟩ := parameters_cons_ok lowered
      have stored : param.type.IsStored := usable.1.resolve_right notVoid
      have adds : before.Keeps known (before.withParameter param position) := fun sound =>
        respects_variable sound (extends_withParameter before param position) rfl
          (Array.size_push _) (fixed?_withParameter before param position)
          ⟨stored, by rintro ⟨⟩, noArray⟩ (by rintro ⟨⟩) (by rintro _ ⟨⟩) (List.append_nil _).symm
          (by rintro _ ⟨⟩)
      exact adds.trans (inductionHypothesis usable.2 restLowered)

theorem moduleFunctions_keeps
    (written : bodyWritten stmts)
    (lowered : moduleFunctions stmts before = .ok (done, after)) :
    before.Keeps known after := by
  induction stmts generalizing before with
  | nil =>
      rw [moduleFunctions] at lowered
      obtain ⟨-, rfl⟩ := pure_ok_iff.mp lowered
      exact .refl _
  | cons first rest inductionHypothesis =>
      cases first with
      | function line name params result bodyLine body =>
          rw [moduleFunctions] at lowered
          obtain ⟨_, middle, declared, others⟩ := bind_ok_iff.mp lowered
          obtain ⟨ids, between, created, _, free, rfl⟩ := declareFunction_steps declared
          refine Keeps.trans ((parameters_keeps written.1.1 created).trans ?_)
            (inductionHypothesis written.2 others)
          exact .of_same (extends_withFunction _ _) rfl rfl rfl
      | _ => exact inductionHypothesis written.2 lowered

variable
    {function : Signature}

/-- The body of a function keeps to types, with values of the function's type that are returned. -/
theorem functionBody_sound
    {body : List Stmt}
    (sound : before.listing.Sound known)
    (here : known function.line)
    (areParameters : before.listing.Parameters function)
    (written : bodyWritten body)
    (lines : ∀ line ∈ linesOfBody body, known line)
    (lowered : functionBody function body before = .ok (done, after)) :
    after.listing.Sound known ∧
      ∀ node ∈ after.listing.since before.listing,
        node.Sound known (some function) after.listing := by
  have enters : { before with function := some function }.Keeps known
      (before.enteredBy function) :=
    fun isSound => respects_appended isSound ⟨by simp [Node.Typed], by simpa [Node.lines]⟩
  obtain ⟨finished, whole, rfl⟩ := plainly_keeps.functionBody areParameters enters
    (composed_keeps.lowering inherited_kept |>.2.2 body ⟨written, lines⟩) lowered
  have respects := whole sound
  exact ⟨respects.sound, respects.nodes⟩

variable
    {parts : List FunctionSection}

theorem Laid.sound
    (laid : Laid parts before after)
    (sound : before.listing.Sound known)
    (each : ∀ part ∈ parts, known part.function.line ∧ bodyWritten part.body ∧
      ∀ line ∈ linesOfBody part.body, known line) :
    after.listing.Sound known ∧
      ∀ part ∈ parts, ∀ node ∈ part.nodes,
        node.Sound known (some part.function) after.listing := by
  induction laid with
  | nil state => exact ⟨sound, nofun⟩
  | @cons part rest after _ parameters lowered laid inductionHypothesis =>
      rw [List.forall_mem_cons] at each
      obtain ⟨⟨here, written, lines⟩, others⟩ := each
      obtain ⟨partSound, nodes⟩ := functionBody_sound sound here parameters written lines lowered
      obtain ⟨allSound, allNodes⟩ := inductionHypothesis partSound others
      refine ⟨allSound, ?_⟩
      rw [List.forall_mem_cons]
      exact ⟨fun node member => ⟨(nodes node member).typed.mono laid.extends_,
        (nodes node member).lines⟩, allNodes⟩

theorem sound_start
    (file : String) :
    (start file).listing.Sound known := by
  have nothing : ∀ {id v}, (start file).listing.fixed? id ≠ some v := by
    simp [start, Listing.empty, Listing.fixed?, Listing.lookup?]
  exact
    { numbered := fun _ _ found => (nothing found).elim
      typed := fun _ _ found => (nothing found).elim
      anchored := fun _ _ found => (nothing found).elim
      lines := fun _ _ found => (nothing found).elim }

/-- What stands in a row of functions keeps to types, each in the function that is entered. -/
theorem Laid.nodesTyped
    (laid : Laid parts before after)
    (typed : ∀ part ∈ parts, ∀ node ∈ part.nodes, node.Typed (some part.function) listing)
    (outer : Option Signature) :
    listing.NodesTyped outer (parts.flatMap FunctionSection.nodes) := by
  induction laid generalizing outer with
  | nil state => exact trivial
  | @cons part rest after _ parameters lowered laid inductionHypothesis =>
      rw [List.forall_mem_cons] at typed
      obtain ⟨_, between, _, _, _, _, proceeds, _, shape⟩ := functionBody_since parameters lowered
      have nodes : part.nodes = _ := shape
      have isInner := isInner_of_proceeds proceeds
      rw [nodes] at typed
      rw [List.flatMap_cons, nodes, List.append_assoc, List.cons_append]
      rw [List.cons_append, List.forall_mem_cons] at typed
      show listing.NodesTyped (some part.function) _
      rw [← List.append_assoc]
      refine nodesTyped_append ?_ typed.1.2 (inductionHypothesis typed.2 _)
      rintro node member entered rfl
      simp only [List.cons_append, List.mem_cons, List.mem_append, List.not_mem_nil, or_false,
        reduceCtorEq, false_or] at member
      exact absurd (isInner _ member) (by simp [Node.isInner])

variable
    {program : Program}
    {listing : Listing}

/-- Every function of a row is declared on the line of its statement, with the body that it has. -/
theorem Row.statement_of_section
    {declared final : LoweringState}
    (row : Row program listing declared final parts)
    {part : FunctionSection}
    (member : part ∈ parts) :
    ∃ name params result bodyLine,
      .function part.function.line name params result bodyLine part.body ∈ program.statements := by
  have inBodies : (part.name, part.body) ∈ functionBodies program.statements :=
    row.same ▸ List.mem_map_of_mem member
  obtain ⟨line, params, result, bodyLine, isStatement⟩ := mem_functionBodies_iff.mp inBodies
  obtain ⟨signature, isDeclared, _, _, _, _, _, here⟩ := row.ready.functions isStatement
  obtain ⟨_, _, _, inFront, found, _⟩ := row.laid.split member
  cases found.symm.trans (inFront.extends_.signatures _ _ isDeclared)
  exact ⟨part.name, params, result, bodyLine, here.symm ▸ isStatement⟩

/-- Lowering a program whose constants are written keeps to types, and to lines of the program. -/
theorem lower_sound
    (written : bodyWritten program.statements)
    (lines : ∀ line ∈ linesOfBody program.statements, known line)
    (lowered : program.lower = .ok listing) :
    listing.Sound known ∧ listing.Typed ∧
      ∀ node ∈ listing.nodes.toList, ∀ line ∈ node.lines, known line := by
  obtain ⟨declared, final, parts, row⟩ := lower_row lowered
  obtain ⟨globals, globalsLowered, functionsLowered⟩ := row.ready.reached
  have respects := ((moduleVariables_keeps written lines globalsLowered).trans
    (moduleFunctions_keeps written functionsLowered)) (sound_start program.file)
  have fronts : declared.listing.since (start program.file).listing =
      declared.listing.nodes.toList := rfl
  have inFront := respects.nodes
  rw [fronts] at inFront
  obtain ⟨sound, nodes⟩ := row.laid.sound respects.sound fun part member => by
    obtain ⟨name, params, result, bodyLine, isStatement⟩ := row.statement_of_section member
    have inside : ∀ line ∈ Stmt.lines (.function part.function.line name params result bodyLine
        part.body), known line :=
      fun line isLine => lines line (lines_of_statement isStatement isLine)
    simp only [Stmt.lines, List.forall_mem_cons, List.forall_mem_append] at inside
    exact ⟨inside.1, (isWritten_of_statement written isStatement).2, inside.2.2⟩
  rw [← row.listing_eq] at sound nodes
  have grown : declared.listing.Extends listing := row.listing_eq ▸ row.laid.extends_
  refine ⟨sound, ⟨sound.typed, ?_⟩, ?_⟩
  · rw [row.nodes_eq]
    refine nodesTyped_append ?_ (fun node member => (inFront node member).typed.mono grown)
      (row.laid.nodesTyped (fun part member node isNode => (nodes part member node isNode).typed) _)
    rintro node member entered rfl
    cases row.ready.globals _ member
  · rw [row.nodes_eq]
    intro node member
    rcases List.mem_append.mp member with isGlobal | inParts
    · exact (inFront node isGlobal).lines
    · obtain ⟨part, isPart, isNode⟩ := List.mem_flatMap.mp inParts
      exact (nodes part isPart node isNode).lines

end Lower

namespace Reading

/-- A text that is read to its end stands for a tree with its lines and written constants. -/
theorem tree_of_whole
    {source : Bytes}
    {statements : List Stmt}
    (whole : Whole source statements) :
    bodyWritten statements ∧ ∀ line ∈ linesOfBody statements, source.IsLine line := by
  obtain ⟨front, last, isSource, _, yields⟩ := whole
  have inSource : ∀ token ∈ front.map Lexeme.token, ∃ lexeme ∈ Lexeme.ofSource source,
      lexeme.token = token := by
    intro token member
    obtain ⟨lexeme, isLexeme, same⟩ := List.mem_map.mp member
    exact ⟨lexeme, isSource ▸ List.mem_append_left _ isLexeme, same⟩
  refine ⟨yields.written fun token member => ?_, yields.lines fun token member => ?_⟩
  · obtain ⟨lexeme, isLexeme, rfl⟩ := inSource token member
    exact Lexeme.isNumeral_of_mem isLexeme
  · obtain ⟨lexeme, isLexeme, rfl⟩ := inSource token member
    exact Lexeme.isLine_of_mem isLexeme

end Reading

namespace Lower

end Lower

end IlsCompiler
