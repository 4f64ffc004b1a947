import IlsCompiler.IR.Prune
import IlsCompiler.Proofs.Lowering.Programs

namespace IlsCompiler

/-!
# Where the functions stand in a listing

The bodies of a program are lowered one behind the other, so each function takes up one
stretch of the listing, from its entry to the end of its scope. Pruning leaves out whole
stretches.
-/

/-- Nodes without those at owned positions; the first node has the given position. -/
def keep (owned : Nat → Bool) (start : Nat) (nodes : List Node) : List Node :=
  ((nodes.zipIdx start).filter fun entry => !owned entry.2).map fun entry => entry.1

theorem keep_append
    (owned : Nat → Bool)
    (start : Nat)
    (first second : List Node) :
    keep owned start (first ++ second) =
      keep owned start first ++ keep owned (start + first.length) second := by
  unfold keep
  rw [List.zipIdx_append, List.filter_append, List.map_append]

variable
    {owned : Nat → Bool}
    {nodes : List Node}

/-- Nodes at positions that nobody owns are all kept. -/
theorem keep_all
    {start : Nat}
    (free : ∀ position, start ≤ position → position < start + nodes.length →
      owned position = false) :
    keep owned start nodes = nodes := by
  have everything : (nodes.zipIdx start).filter (fun entry => !owned entry.2) =
      nodes.zipIdx start := by
    rw [List.filter_eq_self]
    rintro ⟨node, position⟩ member
    obtain ⟨lower, upper, -⟩ := List.mem_zipIdx member
    simp [free position lower upper]
  unfold keep
  rw [everything]
  exact List.zipIdx_map_fst start nodes

/-- Nodes at positions that are all owned are all left out. -/
theorem keep_none
    {start : Nat}
    (taken : ∀ position, start ≤ position → position < start + nodes.length →
      owned position = true) :
    keep owned start nodes = [] := by
  have nothing : (nodes.zipIdx start).filter (fun entry => !owned entry.2) = [] := by
    rw [List.filter_eq_nil_iff]
    rintro ⟨node, position⟩ member
    obtain ⟨lower, upper, -⟩ := List.mem_zipIdx member
    simp [taken position lower upper]
  simp [keep, nothing]

/-- The nodes that a later listing has beyond an earlier one. -/
def Listing.since (later earlier : Listing) : List Node :=
  later.nodes.toList.drop earlier.nodes.size

namespace Listing.Extends

variable
    {first second third : Listing}

theorem nodes_eq
    (grown : first.Extends second) :
    second.nodes.toList = first.nodes.toList ++ second.since first := by
  obtain ⟨added, same⟩ := grown.nodes
  unfold since
  rw [← same, ← Array.length_toList, List.drop_left]

theorem length_since
    (grown : first.Extends second) :
    first.nodes.size + (second.since first).length = second.nodes.size := by
  have total := congrArg List.length grown.nodes_eq
  simpa using total.symm

theorem since_trans
    (earlier : first.Extends second)
    (later : second.Extends third) :
    third.since first = second.since first ++ third.since second := by
  have whole := (earlier.trans later).nodes_eq
  rw [later.nodes_eq, earlier.nodes_eq, List.append_assoc] at whole
  exact (List.append_cancel_left whole).symm

/-- What a later listing has beyond an earlier one is what was added to it. -/
theorem since_of_adds
    {kind : Node → Bool}
    (grown : first.Extends second)
    (adds : first.Adds kind second) :
    ∀ node ∈ second.since first, kind node := by
  obtain ⟨added, nodes, isKind⟩ := adds
  have both := grown.nodes_eq
  rw [nodes] at both
  rw [← List.append_cancel_left both]
  exact isKind

end Listing.Extends

variable
    {stmts : List Stmt}
    {first second : Signature × Nat × Nat}
    {listing : Listing}
    {done : Unit}

namespace Lower

open LoweringState

variable
    {before after : LoweringState}

/-- What a statement adds neither begins nor ends a function. -/
theorem isInner_of_proceeds
    (proceeds : before.Proceeds after) :
    ∀ node ∈ after.listing.since before.listing, node.isInner :=
  proceeds.extends_.since_of_adds proceeds.inner

variable
    {function : Signature}
    {body : List Stmt}

/-- The nodes of a function: its entry, its prologue, its body, its epilogue and its end. -/
theorem functionBody_since
    (known : before.listing.Parameters function)
    (lowered : functionBody function body before = .ok ((), after)) :
    ∃ bound between,
      bindParameters before.listing.scopes.size function.line function.params
          (before.begun function (declarationsIn body)) = .ok ((), bound) ∧
        (before.begun function (declarationsIn body)).Proceeds bound ∧
        bound.listing.nodes = (before.begun function (declarationsIn body)).listing.nodes ∧
        statements body bound = .ok ((), between) ∧
        (before.prepared function (declarationsIn body)).Proceeds between.closed ∧
        between.closed.listing.Extends after.listing ∧
        after.listing.since before.listing =
          .entry function ::
            (.prologue function (declarationsIn body) ::
              between.closed.listing.since
                (before.prepared function (declarationsIn body)).listing ++
              [.epilogue function]) ++
            [.closeScope before.listing.scopes.size .function true] := by
  obtain ⟨bound, between, parametersBound, bodyLowered, _, rfl⟩ := functionBody_ok lowered
  have first := (grows_prepared before function (declarationsIn body)).trans
    (proceeds_begun before function (declarationsIn body)).toGrows
  obtain ⟨binds, sameNodes⟩ := bindParameters_proceeds (inside_begun before function _)
    (first.extends_.parameters known) parametersBound
  have inner := (proceeds_begun before function (declarationsIn body)).trans
    (binds.trans ((statements_proceeds bodyLowered).trans (proceeds_closed between)))
  have ends : between.closed.listing.Extends
      (between.finished function before.listing.scopes.size).outside.listing :=
    (extends_appended between.closed _).trans (extends_appended _ _)
  refine ⟨bound, between, parametersBound, binds, sameNodes, bodyLowered, inner, ends, ?_⟩
  have start : before.listing.Extends
      (before.prepared function (declarationsIn body)).listing :=
    (grows_prepared before function (declarationsIn body)).extends_
  rw [start.since_trans (inner.extends_.trans ends), inner.extends_.since_trans ends]
  have front : (before.prepared function (declarationsIn body)).listing.since before.listing =
      [.entry function, .prologue function (declarationsIn body)] := by
    have nodes := start.nodes_eq
    rw [nodes_prepared] at nodes
    simpa using nodes.symm
  have back : (between.finished function before.listing.scopes.size).outside.listing.since
      between.closed.listing =
        [.epilogue function, .closeScope before.listing.scopes.size .function true] := by
    have pushed : (between.finished function before.listing.scopes.size).outside.listing.nodes =
        (between.closed.listing.nodes.push (.epilogue function)).push
          (.closeScope before.listing.scopes.size .function true) := by
      simp [outside, popped, finished]
    have nodes := ends.nodes_eq
    rw [pushed] at nodes
    simpa using nodes.symm
  rw [front, back]
  simp

theorem Declared.tail
    {first : Stmt}
    {rest : List Stmt}
    (declared : Declared (first :: rest) listing) :
    Declared rest listing :=
  fun _ _ _ _ _ _ member => declared (List.mem_cons_of_mem _ member)

/-- A body that is lowered leaves the listing of the state outside it. -/
theorem functionBody_tags
    (known : before.listing.Parameters function)
    (lowered : functionBody function body before = .ok (done, after)) :
    before.listing.Extends after.listing ∧
      before.listing.nodes.size < after.listing.nodes.size ∧
      after.listing.tags = before.listing.tags.map
        (Listing.tagged (some function) before.listing.nodes.size
          (after.listing.nodes.size - before.listing.nodes.size)) := by
  obtain ⟨last, rfl, grows, more⟩ := functionBody_grows known lowered
  exact ⟨grows.extends_, more, grows.tags⟩

/-- Bodies add their nodes to the listing and move no function but their own. -/
theorem bodies_tags
    (bodies : Bodies stmts before after)
    (declared : Declared stmts before.listing) :
    before.listing.Extends after.listing ∧
      ∃ move : Signature × Nat × Nat → Signature × Nat × Nat,
        after.listing.tags = before.listing.tags.map move ∧
          (∀ tag, (move tag).1 = tag.1) ∧
          ∀ tag, tag.1.name ∉ functionNames stmts → move tag = tag := by
  induction bodies with
  | nil => exact ⟨.refl _, id, by simp, fun _ => rfl, fun _ _ => rfl⟩
  | @declare line name type initial rest before after bodies inductionHypothesis =>
      obtain ⟨grown, move, tags, same, others⟩ :=
        inductionHypothesis declared.tail
      exact ⟨grown, move, tags, same, fun tag absent => others tag (by simpa [functionNames])⟩
  | @function line name params result bodyLine body rest function before between after known
      lowered bodies inductionHypothesis =>
      obtain ⟨signature, found, parameters, -⟩ := declared (List.mem_cons_self ..)
      cases known.symm.trans found
      have named := Listing.name_of_signature? known
      obtain ⟨firstGrown, _, firstTags⟩ := functionBody_tags parameters lowered
      obtain ⟨grown, move, tags, same, others⟩ :=
        inductionHypothesis (Declared.grown firstGrown declared.tail)
      refine ⟨firstGrown.trans grown, move ∘ Listing.tagged (some function)
        before.listing.nodes.size (between.listing.nodes.size - before.listing.nodes.size),
        ?_, ?_, ?_⟩
      · rw [tags, firstTags, List.map_map]
      · intro tag
        rw [Function.comp, same, Listing.fst_tagged]
      · intro tag absent
        simp only [functionNames, List.mem_cons, not_or] at absent
        rw [Function.comp, Listing.tagged_other (named ▸ absent.1), others tag absent.2]

section Ranges

variable
    {line : Nat}
    {name : String}
    {params : List Param}
    {result : Ty}
    {bodyLine : Nat}
    {body rest : List Stmt}
    {function : Signature}
    {between : LoweringState}

/-- Where a function stands is settled by its own body and by no later one. -/
theorem tag_of_first
    (declared : Declared (.function line name params result bodyLine body :: rest)
      before.listing)
    (distinct : name ∉ functionNames rest)
    (fresh : ∀ tag ∈ before.listing.tags, tag.1.name = name → tag.2 = (0, 0))
    (known : before.listing.signature? name = some function)
    (lowered : functionBody function body before = .ok ((), between))
    (bodies : Bodies rest between after) :
    ∀ tag ∈ after.listing.tags, tag.1.name = name →
      tag.2 = (before.listing.nodes.size,
        between.listing.nodes.size - before.listing.nodes.size) := by
  obtain ⟨signature, found, parameters, -⟩ := declared (List.mem_cons_self ..)
  cases known.symm.trans found
  obtain ⟨firstGrown, more, firstTags⟩ := functionBody_tags parameters lowered
  obtain ⟨grown, move, tags, same, others⟩ :=
    bodies_tags bodies (Declared.grown firstGrown declared.tail)
  intro tag member isFirst
  rw [tags, firstTags, List.map_map] at member
  obtain ⟨old, oldMember, rfl⟩ := List.mem_map.mp member
  simp only [Function.comp] at isFirst ⊢
  rw [same, Listing.fst_tagged] at isFirst
  rw [Listing.tagged_own (isFirst.trans (Listing.name_of_signature? known).symm),
    fresh old oldMember isFirst, others _ (by simpa [isFirst] using distinct)]
  have added : between.listing.nodes.size - before.listing.nodes.size ≠ 0 := by omega
  simp [Listing.counted, added]

/-- Functions whose bodies are still to come have no nodes yet. -/
theorem fresh_of_first
    (declared : Declared (.function line name params result bodyLine body :: rest)
      before.listing)
    (distinct : name ∉ functionNames rest)
    (fresh : ∀ tag ∈ before.listing.tags,
      tag.1.name ∈ functionNames (.function line name params result bodyLine body :: rest) →
        tag.2 = (0, 0))
    (known : before.listing.signature? name = some function)
    (lowered : functionBody function body before = .ok ((), between)) :
    ∀ tag ∈ between.listing.tags, tag.1.name ∈ functionNames rest → tag.2 = (0, 0) := by
  obtain ⟨signature, found, parameters, -⟩ := declared (List.mem_cons_self ..)
  cases known.symm.trans found
  obtain ⟨_, _, firstTags⟩ := functionBody_tags parameters lowered
  intro tag member isNamed
  rw [firstTags] at member
  obtain ⟨old, oldMember, rfl⟩ := List.mem_map.mp member
  rw [Listing.fst_tagged] at isNamed
  have apart : old.1.name ≠ function.name := by
    rw [Listing.name_of_signature? known]
    exact fun equal => distinct (equal ▸ isNamed)
  rw [Listing.tagged_other apart]
  exact fresh old oldMember (by simp [functionNames, isNamed])

end Ranges

/-- The functions among bodies stand where the nodes of these bodies stand. -/
theorem bodies_ranges
    (bodies : Bodies stmts before after)
    (declared : Declared stmts before.listing)
    (distinct : (functionNames stmts).Nodup)
    (fresh : ∀ tag ∈ before.listing.tags, tag.1.name ∈ functionNames stmts → tag.2 = (0, 0)) :
    ∀ tag ∈ after.listing.tags, tag.1.name ∈ functionNames stmts →
      before.listing.nodes.size ≤ tag.2.1 ∧ tag.2.1 + tag.2.2 ≤ after.listing.nodes.size := by
  induction bodies with
  | nil =>
      intro tag _ absent
      simp [functionNames] at absent
  | declare bodies inductionHypothesis =>
      exact inductionHypothesis declared.tail distinct fresh
  | @function line name params result bodyLine body rest function before between after known
      lowered bodies inductionHypothesis =>
      simp only [functionNames, List.nodup_cons] at distinct
      obtain ⟨signature, found, parameters, -⟩ := declared (List.mem_cons_self ..)
      cases known.symm.trans found
      obtain ⟨firstGrown, more, _⟩ := functionBody_tags parameters lowered
      have restDeclared := Declared.grown firstGrown declared.tail
      have restSize := (bodies_tags bodies restDeclared).1.size_nodes
      intro tag member isNamed
      simp only [functionNames, List.mem_cons] at isNamed
      rcases isNamed with isFirst | inRest
      · have place := tag_of_first declared distinct.1
          (fun tag member named => fresh tag member (by simp [functionNames, named]))
          known lowered bodies tag member isFirst
        rw [place]
        simp only
        omega
      · have range := inductionHypothesis restDeclared distinct.2
          (fresh_of_first declared distinct.1 fresh known lowered) tag member inRest
        omega

/-- No two functions own the same node. -/
theorem bodies_apart
    (bodies : Bodies stmts before after)
    (declared : Declared stmts before.listing)
    (distinct : (functionNames stmts).Nodup)
    (fresh : ∀ tag ∈ before.listing.tags, tag.1.name ∈ functionNames stmts → tag.2 = (0, 0))
    (firstMember : first ∈ after.listing.tags)
    (secondMember : second ∈ after.listing.tags)
    (firstNamed : first.1.name ∈ functionNames stmts)
    (secondNamed : second.1.name ∈ functionNames stmts)
    {position : Nat}
    (inFirst : first.2.1 ≤ position ∧ position < first.2.1 + first.2.2)
    (inSecond : second.2.1 ≤ position ∧ position < second.2.1 + second.2.2) :
    first.1.name = second.1.name := by
  induction bodies with
  | nil => simp [functionNames] at firstNamed
  | declare bodies inductionHypothesis =>
      exact inductionHypothesis declared.tail distinct fresh firstMember secondMember firstNamed
        secondNamed
  | @function line name params result bodyLine body rest function before between after known
      lowered bodies inductionHypothesis =>
      simp only [functionNames, List.nodup_cons] at distinct
      obtain ⟨signature, found, parameters, -⟩ := declared (List.mem_cons_self ..)
      cases known.symm.trans found
      obtain ⟨firstGrown, more, _⟩ := functionBody_tags parameters lowered
      have restDeclared := Declared.grown firstGrown declared.tail
      have restFresh := fresh_of_first declared distinct.1 fresh known lowered
      have place := tag_of_first declared distinct.1
        (fun tag member named => fresh tag member (by simp [functionNames, named]))
        known lowered bodies
      have ranges := bodies_ranges bodies restDeclared distinct.2 restFresh
      simp only [functionNames, List.mem_cons] at firstNamed secondNamed
      rcases firstNamed with firstIs | firstInRest
      · rcases secondNamed with secondIs | secondInRest
        · rw [firstIs, secondIs]
        · have early := place first firstMember firstIs
          have late := ranges second secondMember secondInRest
          rw [early] at inFirst
          simp only at inFirst
          omega
      · rcases secondNamed with secondIs | secondInRest
        · have early := place second secondMember secondIs
          have late := ranges first firstMember firstInRest
          rw [early] at inSecond
          simp only at inSecond
          omega
        · exact inductionHypothesis restDeclared distinct.2 restFresh firstMember secondMember
            firstInRest secondInRest

end Lower

/-- Whether a node declares a variable. -/
def Node.isDeclaration : Node → Bool
  | .declare _ _ => true
  | _ => false

namespace Lower

open LoweringState Stateful

variable
    {before after : LoweringState}

/-- The module scope stays the module scope. -/
theorem isModule_grown
    {earlier later : ScopeTree}
    {scope : Nat}
    (grown : earlier.Extends later)
    (isModule : earlier.isModule scope = true) :
    later.isModule scope = true := by
  unfold ScopeTree.isModule at isModule ⊢
  cases found : earlier.get? scope with
  | none => simp [found] at isModule
  | some known =>
      obtain ⟨more, moreFound, same⟩ := grown scope known found
      simp only [found] at isModule
      simp only [moreFound, same.parent]
      exact isModule

/-- The constant of a global variable takes no nodes. -/
theorem constant_nodes
    {line : Nat}
    {name : String}
    {type : Ty}
    {initial : Option Expr}
    {stored : Value}
    (lowered : constant line name type initial before = .ok (stored, after)) :
    after.listing.nodes = before.listing.nodes := by
  rcases constant_ok lowered with
    ⟨_, _, rfl⟩ | ⟨_, _, _, _, _, _, _, _, rfl⟩ | ⟨_, _, _, _, _, rfl⟩ |
      ⟨_, _, _, _, _, _, _, _, rfl⟩
  · unfold defaulted
    split <;> rfl
  all_goals rfl

/-- Global variables add nothing but their declarations to a listing. -/
theorem moduleVariables_adds
    (isModule : before.listing.scopes.isModule before.scope = true)
    (lowered : moduleVariables stmts before = .ok (done, after)) :
    before.listing.Adds Node.isDeclaration after.listing := by
  induction stmts generalizing before with
  | nil =>
      rw [moduleVariables] at lowered
      obtain ⟨-, rfl⟩ := pure_ok_iff.mp lowered
      exact .refl rfl
  | cons first rest inductionHypothesis =>
      cases first with
      | declare line name type initial =>
          rw [moduleVariables] at lowered
          obtain ⟨_, between, declared, others⟩ := bind_ok_iff.mp lowered
          have proceeds := declare_proceeds declared
          have stillModule : between.listing.scopes.isModule between.scope = true := by
            rw [scope_of_proceeds proceeds]
            exact isModule_grown proceeds.extends_.scopes isModule
          refine Listing.Adds.trans ?_ (inductionHypothesis stillModule others)
          rcases declare_module_ok isModule declared with
            ⟨_, rfl⟩ | ⟨_, stored, middle, found, rfl⟩
          · exact .refl rfl
          · have same := constant_nodes found
            refine ⟨[.declare (middle.listing.vars.size + 1) line], ?_, by
              simp [Node.isDeclaration]⟩
            simp [withGlobal, Listing.addNamed, Listing.addVariable, same]
      | _ => exact inductionHypothesis isModule lowered

/--
What is known of a program in front of its bodies: every function is declared under a name
of its own and has no nodes yet, and the nodes that stand there declare global variables.
-/
structure Ready (program : Program) (declared : LoweringState) : Prop where
  reached : ∃ globals,
    moduleVariables program.statements (start program.file) = .ok ((), globals) ∧
      moduleFunctions program.statements globals = .ok ((), declared)
  functions : Declared program.statements declared.listing
  distinct : (functionNames program.statements).Nodup
  fresh : ∀ tag ∈ declared.listing.tags, tag.2 = (0, 0)
  named : declared.listing.tags.map (fun tag => tag.1.name) = functionNames program.statements
  globals : ∀ node ∈ declared.listing.nodes.toList, node.isDeclaration
  numbered : declared.listing.Numbered
  tidy : declared.Tidy

variable
    {program : Program}

theorem ready_of_passes
    {globals declared : LoweringState}
    (globalsLowered :
      moduleVariables program.statements (start program.file) = .ok ((), globals))
    (functions : moduleFunctions program.statements globals = .ok ((), declared)) :
    Ready program declared := by
  have proceeds := moduleVariables_proceeds globalsLowered
  have noTags : globals.listing.tags = [] := by
    rw [proceeds.tags]
    rfl
  obtain ⟨declares, known, added, tags, names, zero, distinct⟩ := moduleFunctions_ok functions
  rw [noTags, List.nil_append] at tags
  have nodes : declared.listing.nodes = globals.listing.nodes :=
    congrArg Listing.Frozen.nodes declares.frozen
  exact
    { reached := ⟨globals, globalsLowered, functions⟩
      functions := known
      distinct := by
        rw [← names, ← tags]
        exact distinct (by simp [noTags])
      fresh := by
        rw [tags]
        exact zero
      named := by rw [tags, names]
      globals := by
        obtain ⟨added, same, isDeclaration⟩ := moduleVariables_adds rfl globalsLowered
        rw [nodes, same]
        intro node member
        exact isDeclaration node (by simpa [start, Listing.empty] using member)
      numbered := by
        apply declares.extends_.numbered
        apply proceeds.extends_.numbered
        intro id v found
        simp [start, Listing.empty, Listing.fixed?, Listing.lookup?] at found
      tidy := by
        apply Tidy.of_pending declares.extends_
        · rintro id ⟨open_, member, isPending⟩
          exact .inl ⟨open_, declares.frames ▸ member, isPending⟩
        · apply proceeds.tidy
          rintro id ⟨open_, member, isPending⟩
          rw [List.mem_singleton.mp member] at isPending
          simp [Frame.outermost] at isPending }

theorem lower_ready
    (lowered : program.lower = .ok listing) :
    ∃ declared final,
      Ready program declared ∧ Bodies program.statements declared final ∧
        listing = final.listing := by
  obtain ⟨globals, declared, final, globalsLowered, functions, _, bodies, same⟩ := lower_ok lowered
  exact ⟨declared, final, ready_of_passes globalsLowered functions, bodies, same⟩

/-- Two tags of one listing with the same name are the same tag. -/
theorem tag_unique
    {tags : List (Signature × Nat × Nat)}
    (distinct : (tags.map fun tag => tag.1.name).Nodup)
    (firstMember : first ∈ tags)
    (secondMember : second ∈ tags)
    (same : first.1.name = second.1.name) :
    first = second := by
  induction tags with
  | nil => simp at firstMember
  | cons tag rest inductionHypothesis =>
      simp only [List.map_cons, List.nodup_cons] at distinct
      have apart : ∀ other ∈ rest, other.1.name ≠ tag.1.name := by
        intro other member equal
        exact distinct.1 (equal ▸ List.mem_map_of_mem member)
      rcases List.mem_cons.mp firstMember with rfl | firstInRest
      · rcases List.mem_cons.mp secondMember with rfl | secondInRest
        · rfl
        · exact (apart second secondInRest same.symm).elim
      · rcases List.mem_cons.mp secondMember with rfl | secondInRest
        · exact (apart first firstInRest same).elim
        · exact inductionHypothesis distinct.2 firstInRest secondInRest

variable
    {declared final : LoweringState}

/-- The functions of a lowered program are those of its statements, in their order. -/
theorem Ready.names
    (ready : Ready program declared)
    (bodies : Bodies program.statements declared final) :
    final.listing.tags.map (fun tag => tag.1.name) = functionNames program.statements := by
  obtain ⟨_, move, tags, same, _⟩ := bodies_tags bodies ready.functions
  rw [tags, List.map_map, ← ready.named]
  congr 1
  funext tag
  simp [same]

/--
Pruning keeps or leaves out every function as a whole, and it keeps what stands in front
of the functions.
-/
theorem kept_nodes
    (ready : Ready program declared)
    (bodies : Bodies program.statements declared final)
    {pruned : Pruned}
    (choice : pruned = .whole final.listing ∨ pruned = .ofListing final.listing) :
    ∃ owned : Nat → Bool,
      pruned.nodes = keep owned 0 final.listing.nodes.toList ∧
        (∀ tag ∈ final.listing.tags, ∀ position,
          tag.2.1 ≤ position → position < tag.2.1 + tag.2.2 →
            owned position = pruned.removed.contains tag.1.name) ∧
        ∀ position < declared.listing.nodes.size, owned position = false := by
  rcases choice with rfl | rfl
  · refine ⟨fun _ => false, ?_, by simp [Pruned.whole], by simp⟩
    exact (keep_all (by simp)).symm
  · let unused := final.listing.unusedFunctions
    have names := ready.names bodies
    have distinct : (final.listing.tags.map fun tag => tag.1.name).Nodup :=
      names ▸ ready.distinct
    have named : ∀ tag ∈ final.listing.tags, tag.1.name ∈ functionNames program.statements := by
      intro tag member
      rw [← names]
      exact List.mem_map_of_mem member
    have tagged : ∀ owner ∈ unused,
        (owner.signature, owner.firstNode, owner.nodeCount) ∈ final.listing.tags := by
      intro owner member
      exact List.mem_map_of_mem (List.mem_filter.mp member).1
    have fresh : ∀ tag ∈ declared.listing.tags,
        tag.1.name ∈ functionNames program.statements → tag.2 = (0, 0) :=
      fun tag member _ => ready.fresh tag member
    refine ⟨fun position => unused.any fun owner => owner.owns position, rfl, ?_, ?_⟩
    · intro tag member position lower upper
      rw [Bool.eq_iff_iff]
      simp only [Pruned.ofListing, List.any_eq_true, List.contains_eq_mem, List.mem_map,
        decide_eq_true_eq, Function.owns, Bool.and_eq_true]
      constructor
      · rintro ⟨owner, isUnused, inOwner⟩
        have ownerMember := tagged owner isUnused
        exact ⟨owner, isUnused, (bodies_apart bodies ready.functions ready.distinct fresh member
          ownerMember (named tag member) (named _ ownerMember) ⟨lower, upper⟩ inOwner).symm⟩
      · rintro ⟨owner, isUnused, sameName⟩
        have sameTag := tag_unique distinct (tagged owner isUnused) member sameName
        refine ⟨owner, isUnused, ?_⟩
        rw [← sameTag] at lower upper
        exact ⟨lower, upper⟩
    · intro position early
      simp only [List.any_eq_false, Function.owns, Bool.and_eq_true, decide_eq_true_eq]
      intro owner isUnused inOwner
      have ownerMember := tagged owner isUnused
      have range := bodies_ranges bodies ready.functions ready.distinct fresh _ ownerMember
        (named _ ownerMember)
      simp only at range
      omega

end Lower

end IlsCompiler
