import IlsCompiler.Proofs.Lowering.Sections

namespace IlsCompiler

/-!
# Listings as a row of functions

A lowered program is a row of sections, one for each function, behind the declarations of
its global variables. Each section is what lowering the body of its function added to the
listing. Pruning leaves out sections as a whole and keeps the others in their order.
-/

/-- A function together with the states of lowering in front of and behind its body. -/
structure FunctionSection where
  name : String
  body : List Stmt
  function : Signature
  start : LoweringState
  finish : LoweringState

/-- The nodes that lowering the body of a function added. -/
def FunctionSection.nodes (part : FunctionSection) : List Node :=
  part.finish.listing.since part.start.listing

@[simp] theorem Listing.since_self
    (listing : Listing) :
    listing.since listing = [] := by
  simp [since]

namespace Lower

open LoweringState

/-- Bodies that were lowered one behind the other, from one state to another. -/
inductive Laid : List FunctionSection → LoweringState → LoweringState → Prop
  | nil (state : LoweringState) : Laid [] state state
  | cons {part : FunctionSection} {rest : List FunctionSection} {after : LoweringState} :
      part.start.listing.signature? part.name = some part.function →
        part.start.listing.Parameters part.function →
        functionBody part.function part.body part.start = .ok ((), part.finish) →
        Laid rest part.finish after → Laid (part :: rest) part.start after

/-- The functions among module statements with their bodies. -/
def functionBodies : List Stmt → List (String × List Stmt)
  | [] => []
  | .function _ name _ _ _ body :: rest => (name, body) :: functionBodies rest
  | _ :: rest => functionBodies rest

variable
    {name : String}

theorem mem_functionBodies_iff
    {stmts : List Stmt}
    {body : List Stmt} :
    (name, body) ∈ functionBodies stmts ↔
      ∃ line params result bodyLine,
        .function line name params result bodyLine body ∈ stmts := by
  induction stmts with
  | nil => simp [functionBodies]
  | cons first rest inductionHypothesis =>
      cases first with
      | function line other params result bodyLine otherBody =>
          simp only [functionBodies, List.mem_cons, Prod.mk.injEq, inductionHypothesis,
            Stmt.function.injEq]
          constructor
          · rintro (⟨rfl, rfl⟩ | ⟨line, params, result, bodyLine, member⟩)
            · exact ⟨line, params, result, bodyLine, .inl ⟨rfl, rfl, rfl, rfl, rfl, rfl⟩⟩
            · exact ⟨line, params, result, bodyLine, .inr member⟩
          · rintro ⟨_, _, _, _, ⟨-, rfl, -, -, -, rfl⟩ | member⟩
            · exact .inl ⟨rfl, rfl⟩
            · exact .inr ⟨_, _, _, _, member⟩
      | _ => simp [functionBodies, inductionHypothesis]

theorem functionNames_eq
    (stmts : List Stmt) :
    functionNames stmts = (functionBodies stmts).map Prod.fst := by
  induction stmts with
  | nil => rfl
  | cons first rest inductionHypothesis =>
      cases first <;> simp [functionNames, functionBodies, inductionHypothesis]

namespace Laid

variable
    {parts : List FunctionSection}
    {before after : LoweringState}

theorem extends_
    (laid : Laid parts before after) :
    before.listing.Extends after.listing := by
  induction laid with
  | nil state => exact .refl _
  | cons _ known lowered _ inductionHypothesis =>
      exact (functionBody_tags known lowered).1.trans inductionHypothesis

/-- What a row of functions adds to a listing is what each of them adds. -/
theorem since_eq
    (laid : Laid parts before after) :
    after.listing.since before.listing = parts.flatMap FunctionSection.nodes := by
  induction laid with
  | nil state => rw [Listing.since_self]; rfl
  | cons _ known lowered laid inductionHypothesis =>
      rw [(functionBody_tags known lowered).1.since_trans laid.extends_, inductionHypothesis]
      rfl

/-- The functions of a row one of which is picked out. -/
theorem split
    {part : FunctionSection}
    (laid : Laid parts before after)
    (member : part ∈ parts) :
    ∃ front back,
      parts = front ++ part :: back ∧ Laid front before part.start ∧
        part.start.listing.signature? part.name = some part.function ∧
        part.start.listing.Parameters part.function ∧
        functionBody part.function part.body part.start = .ok ((), part.finish) ∧
        Laid back part.finish after := by
  induction laid with
  | nil state => cases member
  | @cons first rest after found known lowered laid inductionHypothesis =>
      rcases List.mem_cons.mp member with rfl | inRest
      · exact ⟨[], rest, rfl, .nil _, found, known, lowered, laid⟩
      · obtain ⟨front, back, rfl, inFront, others⟩ := inductionHypothesis inRest
        exact ⟨first :: front, back, rfl, .cons found known lowered inFront, others⟩

end Laid

variable
    {parts : List FunctionSection}

section Rows

variable
    {stmts : List Stmt}
    {before after : LoweringState}

/-- The bodies of a program are a row of functions. -/
theorem Bodies.laid
    (bodies : Bodies stmts before after)
    (declared : Declared stmts before.listing) :
    ∃ parts,
      Laid parts before after ∧
        parts.map (fun part => (part.name, part.body)) = functionBodies stmts := by
  induction bodies with
  | nil state => exact ⟨[], .nil _, rfl⟩
  | declare bodies inductionHypothesis => exact inductionHypothesis declared.tail
  | @function line name params result bodyLine body rest function before between after known
      lowered bodies inductionHypothesis =>
      obtain ⟨signature, found, parameters, -⟩ := declared (List.mem_cons_self ..)
      cases known.symm.trans found
      obtain ⟨grown, _, _⟩ := functionBody_tags parameters lowered
      obtain ⟨parts, laid, same⟩ := inductionHypothesis (Declared.grown grown declared.tail)
      let part : FunctionSection := ⟨name, body, function, before, between⟩
      refine ⟨part :: parts, .cons known parameters lowered laid, ?_⟩
      rw [List.map_cons, same]
      rfl

/-- The nodes of a row of functions that are not owned are those of the functions kept. -/
theorem keep_sections
    {owned : Nat → Bool}
    {removed : List String}
    (laid : Laid parts before after)
    (places : ∀ part ∈ parts, ∀ position,
      part.start.listing.nodes.size ≤ position →
        position < part.finish.listing.nodes.size →
          owned position = removed.contains part.name) :
    keep owned before.listing.nodes.size (after.listing.since before.listing) =
      (parts.filter fun part => !removed.contains part.name).flatMap FunctionSection.nodes := by
  induction laid with
  | nil state =>
      rw [Listing.since_self]
      rfl
  | @cons part rest after found known lowered laid inductionHypothesis =>
      have grown := (functionBody_tags known lowered).1
      have here := places part (List.mem_cons_self ..)
      rw [grown.since_trans laid.extends_, keep_append, grown.length_since,
        inductionHypothesis fun other member => places other (List.mem_cons_of_mem _ member)]
      have length := grown.length_since
      cases isRemoved : removed.contains part.name with
      | true =>
          rw [List.filter_cons_of_neg (by simpa using isRemoved), keep_none]
          · rfl
          · intro position lower upper
            rw [here position lower (by omega), isRemoved]
      | false =>
          rw [List.filter_cons_of_pos (by simpa using isRemoved), keep_all]
          · rfl
          · intro position lower upper
            rw [here position lower (by omega), isRemoved]

/-- Every function of a row stands where its tag says. -/
theorem tag_of_section
    (bodies : Bodies stmts before after)
    (declared : Declared stmts before.listing)
    (distinct : (functionNames stmts).Nodup)
    (fresh : ∀ tag ∈ before.listing.tags, tag.1.name ∈ functionNames stmts → tag.2 = (0, 0))
    (laid : Laid parts before after)
    (same : parts.map (fun part => (part.name, part.body)) = functionBodies stmts) :
    ∀ part ∈ parts, ∃ tag ∈ after.listing.tags,
      tag.1.name = part.name ∧
        tag.2 = (part.start.listing.nodes.size,
          part.finish.listing.nodes.size - part.start.listing.nodes.size) := by
  induction bodies generalizing parts with
  | nil state =>
      cases parts with
      | nil => simp
      | cons part rest => cases same
  | declare bodies inductionHypothesis =>
      exact inductionHypothesis declared.tail distinct fresh laid same
  | @function line name params result bodyLine body rest function before between after known
      lowered bodies inductionHypothesis =>
      cases laid with
      | nil => cases same
      | @cons part others after found parameters partLowered laid =>
          rw [List.map_cons, functionBodies, List.cons.injEq, Prod.mk.injEq] at same
          obtain ⟨⟨sameName, sameBody⟩, same⟩ := same
          subst sameName
          subst sameBody
          cases found.symm.trans known
          rw [lowered] at partLowered
          simp only [Except.ok.injEq, Prod.mk.injEq, true_and] at partLowered
          subst partLowered
          simp only [functionNames, List.nodup_cons] at distinct
          have grown := (functionBody_tags parameters lowered).1
          have restDeclared := Declared.grown grown declared.tail
          have restFresh := fresh_of_first declared distinct.1 fresh known lowered
          intro chosen member
          rcases List.mem_cons.mp member with rfl | inRest
          · have whole := grown.trans (bodies_tags bodies restDeclared).1
            have kept := whole.signatures _ _ known
            have named := Listing.name_of_signature? kept
            obtain ⟨owner, isOwner, isSame⟩ := Option.map_eq_some_iff.mp kept
            refine ⟨(owner.signature, owner.firstNode, owner.nodeCount),
              List.mem_map_of_mem (List.mem_of_find?_eq_some isOwner), by rw [isSame, named], ?_⟩
            exact tag_of_first declared distinct.1
              (fun tag member named => fresh tag member (by simp [functionNames, named])) known
              lowered bodies _ (List.mem_map_of_mem (List.mem_of_find?_eq_some isOwner))
              (by rw [isSame, named])
          · exact inductionHypothesis restDeclared distinct.2 restFresh laid same chosen inRest

end Rows

/-- A lowered program as its row of functions. -/
structure Row (program : Program) (listing : Listing) (declared final : LoweringState)
    (parts : List FunctionSection) : Prop where
  ready : Ready program declared
  laid : Laid parts declared final
  same : parts.map (fun part => (part.name, part.body)) = functionBodies program.statements
  listing_eq : listing = final.listing
  pruned : ∀ {pruned : Pruned},
    pruned = .whole listing ∨ pruned = .ofListing listing →
      pruned.nodes = declared.listing.nodes.toList ++
        (parts.filter fun part => !pruned.removed.contains part.name).flatMap
          FunctionSection.nodes

variable
    {program : Program}

/-- The functions of a program stand in a row when its bodies have been lowered. -/
theorem row_of_bodies
    {declared final : LoweringState}
    (ready : Ready program declared)
    (bodies : Bodies program.statements declared final)
    (laid : Laid parts declared final)
    (same : parts.map (fun part => (part.name, part.body)) =
      functionBodies program.statements) :
    Row program final.listing declared final parts := by
  refine ⟨ready, laid, same, rfl, ?_⟩
  intro pruned choice
  obtain ⟨owned, nodes, whole, inFront⟩ := kept_nodes ready bodies choice
  rw [nodes, laid.extends_.nodes_eq, keep_append, Nat.zero_add, Array.length_toList,
    keep_all fun position _ upper => inFront position (by simpa using upper), keep_sections laid]
  intro part member position lower upper
  obtain ⟨tag, isTag, named, place⟩ := tag_of_section bodies ready.functions ready.distinct
    (fun tag member _ => ready.fresh tag member) laid same part member
  rw [← named]
  apply whole tag isTag position <;> rw [place]
  · exact lower
  · simp only
    omega

theorem lower_row
    {listing : Listing}
    (lowered : program.lower = .ok listing) :
    ∃ declared final parts, Row program listing declared final parts := by
  obtain ⟨declared, final, ready, bodies, rfl⟩ := lower_ready lowered
  obtain ⟨parts, laid, same⟩ := bodies.laid ready.functions
  exact ⟨declared, final, parts, row_of_bodies ready bodies laid same⟩

namespace Row

variable
    {program : Program}
    {listing : Listing}
    {declared final : LoweringState}
    {parts : List FunctionSection}

theorem numbered
    (row : Row program listing declared final parts) :
    listing.Numbered := by
  rw [row.listing_eq]
  exact row.laid.extends_.numbered row.ready.numbered

/-- Every function of a program has its section. -/
theorem section_of_function
    (row : Row program listing declared final parts)
    {line : Nat}
    {params : List Param}
    {result : Ty}
    {bodyLine : Nat}
    {body : List Stmt}
    (member : .function line name params result bodyLine body ∈ program.statements) :
    ∃ part ∈ parts, part.name = name ∧ part.body = body := by
  have inBodies := mem_functionBodies_iff.mpr ⟨line, params, result, bodyLine, member⟩
  rw [← row.same] at inBodies
  obtain ⟨part, inParts, same⟩ := List.mem_map.mp inBodies
  exact ⟨part, inParts, by simpa using same⟩

/-- Everything in the listing is a global declaration or in the section of a function. -/
theorem nodes_eq
    (row : Row program listing declared final parts) :
    listing.nodes.toList =
      declared.listing.nodes.toList ++ parts.flatMap FunctionSection.nodes := by
  rw [row.listing_eq, row.laid.extends_.nodes_eq, row.laid.since_eq]

theorem names
    (row : Row program listing declared final parts) :
    parts.map (fun part => part.name) = functionNames program.statements := by
  rw [functionNames_eq, ← row.same, List.map_map]
  rfl

end Row

end Lower

end IlsCompiler
