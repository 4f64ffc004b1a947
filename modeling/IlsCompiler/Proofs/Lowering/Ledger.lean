import IlsCompiler.Proofs.Lowering.References

namespace IlsCompiler

/-!
# A ledger of lifetimes

A ledger follows a sequence of nodes. It knows the scopes that are open, the variables that have
been declared and not destroyed yet, and those that have been destroyed. It allows a variable to
be declared once and destroyed once, both in the scope it belongs to, and a node to be about
variables that are alive.
-/

/-- The function whose nodes come by, and the open scopes with their end labels, inside out. -/
structure OpenScopes where
  function : Option Signature
  scopes : List (Nat × String)
deriving DecidableEq, Repr

namespace OpenScopes

/-- The open scopes in front of the first node. -/
def none_ : OpenScopes :=
  { function := none, scopes := [] }

/-- The open scopes behind a node; a scope is closed by its end label. -/
def after (open_ : OpenScopes) : Node → OpenScopes
  | .entry function => { open_ with function := some function }
  | .openScope scope kind =>
      { open_ with
        scopes := (scope, (Lower.scopeLabels kind scope open_.function).2) :: open_.scopes }
  | .label name =>
      if open_.scopes.head?.map Prod.snd = some name then
        { open_ with scopes := open_.scopes.tail }
      else
        open_
  | _ => open_

/-- The innermost open scope. -/
def innermost? (open_ : OpenScopes) : Option Nat :=
  open_.scopes.head?.map Prod.fst

end OpenScopes

/-- The open scopes behind nodes. -/
def openScopes (nodes : List Node) : OpenScopes :=
  nodes.foldl OpenScopes.after .none_

variable
    {id : VarId}
    {listing : Listing}

namespace Listing

/-- Whether a variable is one that is destroyed. -/
def isDestroyed (listing : Listing) (id : VarId) : Bool :=
  ((listing.lookup? id).map Variable.needsDestroy).getD false

/-- The scope that a variable belongs to. -/
def scopeOf? (listing : Listing) (id : VarId) : Option Nat :=
  (listing.lookup? id).bind fun v => v.storage.scope?

theorem isDestroyed_eq
    {v : Variable}
    (found : listing.fixed? id = some v) :
    listing.isDestroyed id = v.needsDestroy := by
  obtain ⟨w, isFound, rfl⟩ := lookup?_of_fixed? found
  simp [isDestroyed, isFound]

theorem scopeOf?_eq
    {v : Variable}
    (found : listing.fixed? id = some v)
    (destroyed : v.needsDestroy) :
    listing.scopeOf? id = v.storage.scope? := by
  obtain ⟨w, isFound, rfl⟩ := lookup?_of_fixed? found
  rw [Variable.needsDestroy_fixed] at destroyed
  simp [scopeOf?, isFound, Variable.scope?_fixed destroyed]

end Listing

/-- What a ledger has noted. -/
structure Ledger where
  open_ : OpenScopes
  pending : List VarId
  gone : List VarId
deriving DecidableEq, Repr

variable
    {nodes : List Node}
    {node : Node}

namespace Ledger

/-- A ledger in front of the first node. -/
def blank : Ledger :=
  { open_ := .none_, pending := [], gone := [] }

/-- The ledger behind a node. -/
def after (listing : Listing) (ledger : Ledger) (node : Node) : Ledger :=
  let moved := { ledger with open_ := ledger.open_.after node }
  match node with
  | .declare id _ =>
      if listing.isDestroyed id then
        { moved with pending := ledger.pending ++ [id] }
      else
        moved
  | .destroy id => { moved with pending := ledger.pending.erase id, gone := ledger.gone ++ [id] }
  | _ => moved

/-- A variable that is destroyed belongs to the innermost open scope. -/
def Fits (listing : Listing) (ledger : Ledger) (id : VarId) : Prop :=
  listing.isDestroyed id ∧ ledger.open_.innermost? = listing.scopeOf? id ∧
    (listing.scopeOf? id).isSome

/-- Whether a ledger allows a node. -/
def Allows (listing : Listing) (ledger : Ledger) (node : Node) : Prop :=
  match node with
  | .declare id _ =>
      (listing.isDestroyed id →
        id ∉ ledger.pending ∧ id ∉ ledger.gone ∧ ledger.Fits listing id) ∧
        listing.Alive (ledger.after listing node).pending id
  | .destroy id => id ∈ ledger.pending ∧ ledger.Fits listing id
  | _ => ∀ id ∈ node.uses, listing.Alive ledger.pending id

/-- A ledger allows nodes one after the other. -/
def Accepts (listing : Listing) : Ledger → List Node → Prop
  | _, [] => True
  | ledger, node :: rest =>
      ledger.Allows listing node ∧ Accepts listing (ledger.after listing node) rest

/-- The ledger behind nodes. -/
def behind (listing : Listing) (ledger : Ledger) (nodes : List Node) : Ledger :=
  nodes.foldl (after listing) ledger

section Sequences

variable
    {listing : Listing}
    {ledger : Ledger}

theorem behind_append
    (first second : List Node) :
    ledger.behind listing (first ++ second) =
      (ledger.behind listing first).behind listing second := by
  simp [behind]

theorem accepts_append
    {first second : List Node} :
    ledger.Accepts listing (first ++ second) ↔
      ledger.Accepts listing first ∧ (ledger.behind listing first).Accepts listing second := by
  induction first generalizing ledger with
  | nil => simp [Accepts, behind]
  | cons node rest inductionHypothesis =>
      simp [Accepts, inductionHypothesis, behind, and_assoc]

theorem open_after
    (node : Node) :
    (ledger.after listing node).open_ = ledger.open_.after node := by
  unfold after
  split
  · split <;> rfl
  · rfl
  · rfl

theorem open_behind
    (nodes : List Node) :
    (ledger.behind listing nodes).open_ = nodes.foldl OpenScopes.after ledger.open_ := by
  induction nodes generalizing ledger with
  | nil => rfl
  | cons node rest inductionHypothesis =>
      show (behind listing (ledger.after listing node) rest).open_ = _
      rw [inductionHypothesis, open_after]
      rfl

/-- Pending variables of the innermost scope may be destroyed one after the other. -/
theorem accepts_destroys
    {ids rest : List VarId}
    (perm : ledger.pending.Perm (ids ++ rest))
    (fits : ∀ id ∈ ids, ledger.Fits listing id) :
    ledger.Accepts listing (ids.map .destroy) ∧
      ∃ pending : List VarId,
        pending.Perm rest ∧
          ledger.behind listing (ids.map .destroy) =
            { ledger with pending := pending, gone := ledger.gone ++ ids } := by
  induction ids generalizing ledger with
  | nil => exact ⟨trivial, ledger.pending, perm, by simp [behind]⟩
  | cons id others inductionHypothesis =>
      have less : (ledger.pending.erase id).Perm (others ++ rest) := by
        have erased := perm.erase id
        rwa [List.cons_append, List.erase_cons_head] at erased
      obtain ⟨accepted, pending, left, isBehind⟩ :=
        @inductionHypothesis (ledger.after listing (.destroy id)) less
          fun other member => fits other (by simp [member])
      refine ⟨⟨⟨perm.symm.subset (by simp), fits id (by simp)⟩, accepted⟩, pending, left, ?_⟩
      show behind listing (ledger.after listing (.destroy id)) (others.map .destroy) = _
      rw [isBehind]
      simp [after, OpenScopes.after]

end Sequences

/-! ## Growing listings -/

section Growth

variable
    {earlier later : Listing}
    {ledger : Ledger}

theorem isDestroyed_mono
    (grown : earlier.Extends later)
    (known : ∃ v, earlier.fixed? id = some v) :
    later.isDestroyed id = earlier.isDestroyed id := by
  obtain ⟨v, found⟩ := known
  rw [Listing.isDestroyed_eq found, Listing.isDestroyed_eq (grown.fixed?_of found)]

theorem known_of_isDestroyed
    (destroyed : listing.isDestroyed id) :
    ∃ v, listing.fixed? id = some v ∧ v.needsDestroy := by
  unfold Listing.isDestroyed at destroyed
  cases found : listing.lookup? id with
  | none => simp [found] at destroyed
  | some v => exact ⟨v.fixed, by simp [Listing.fixed?, found], by simpa [found] using destroyed⟩

/-- Where nothing is added that is destroyed, the same variables are. -/
theorem isDestroyed_of_fresh
    (grown : earlier.Extends later)
    (fresh : ∀ id v, earlier.vars.size < id → later.fixed? id = some v →
      v.needsDestroy = false)
    (id : VarId) :
    later.isDestroyed id = earlier.isDestroyed id := by
  by_cases old : ∃ v, earlier.fixed? id = some v
  · exact isDestroyed_mono grown old
  · have absent : earlier.isDestroyed id = false := by
      refine Bool.eq_false_iff.mpr fun destroyed => old ?_
      obtain ⟨v, found, _⟩ := known_of_isDestroyed destroyed
      exact ⟨v, found⟩
    rw [absent]
    refine Bool.eq_false_iff.mpr fun destroyed => ?_
    obtain ⟨v, found, needs⟩ := known_of_isDestroyed destroyed
    have isNew : earlier.vars.size < id := by
      refine Nat.lt_of_not_le fun inside => old ?_
      exact Listing.exists_fixed? (Listing.le_size_of_fixed? found).1 inside
    rw [fresh id v isNew found] at needs
    cases needs

theorem scopeOf?_mono
    (grown : earlier.Extends later)
    (destroyed : earlier.isDestroyed id = true) :
    later.scopeOf? id = earlier.scopeOf? id := by
  obtain ⟨v, found, needs⟩ := known_of_isDestroyed destroyed
  rw [Listing.scopeOf?_eq found needs, Listing.scopeOf?_eq (grown.fixed?_of found) needs]

theorem Fits.mono
    (grown : earlier.Extends later)
    (fits : ledger.Fits earlier id) :
    ledger.Fits later id := by
  obtain ⟨destroyed, isInnermost, isKnown⟩ := fits
  obtain ⟨v, found, _⟩ := known_of_isDestroyed destroyed
  have same := scopeOf?_mono grown destroyed
  refine ⟨?_, ?_, ?_⟩
  · rw [isDestroyed_mono grown ⟨v, found⟩]
    exact destroyed
  · rw [same, isInnermost]
  · rw [same]
    exact isKnown

theorem after_mono
    (grown : earlier.Extends later)
    (allowed : ledger.Allows earlier node) :
    ledger.after later node = ledger.after earlier node := by
  cases node with
  | declare id line =>
      obtain ⟨v, found, _⟩ := allowed.2.found
      simp only [after, isDestroyed_mono grown ⟨v, found⟩]
  | _ => rfl

/-- What a ledger allows does not change while a listing grows. -/
theorem Allows.mono
    (grown : earlier.Extends later)
    (allowed : ledger.Allows earlier node) :
    ledger.Allows later node := by
  have same := after_mono grown allowed
  cases node with
  | declare id line =>
      obtain ⟨v, found, _⟩ := allowed.2.found
      refine ⟨fun destroyed => ?_, ?_⟩
      · rw [isDestroyed_mono grown ⟨v, found⟩] at destroyed
        obtain ⟨unheld, ungone, fits⟩ := allowed.1 destroyed
        exact ⟨unheld, ungone, fits.mono grown⟩
      · rw [same]
        exact allowed.2.mono grown (List.Subset.refl _)
  | destroy id => exact ⟨allowed.1, allowed.2.mono grown⟩
  | _ => exact fun id member => (allowed id member).mono grown (List.Subset.refl _)

theorem Accepts.mono
    (grown : earlier.Extends later)
    (accepted : ledger.Accepts earlier nodes) :
    ledger.Accepts later nodes ∧ ledger.behind later nodes = ledger.behind earlier nodes := by
  induction nodes generalizing ledger with
  | nil => exact ⟨trivial, rfl⟩
  | cons node rest inductionHypothesis =>
      obtain ⟨allowed, others⟩ := accepted
      have same := after_mono grown allowed
      obtain ⟨acceptsRest, behindRest⟩ := inductionHypothesis others
      refine ⟨⟨allowed.mono grown, by rwa [same]⟩, ?_⟩
      show behind later (ledger.after later node) rest = _
      rw [same, behindRest]
      rfl

end Growth

end Ledger

/-!
## What accepted nodes say

In nodes that a ledger accepts, a variable that is destroyed goes through three stages: it is
new until it is declared, then pending until it is destroyed, and from there on no node is about
it. What a ledger accepts it also accepts when fewer variables have been destroyed before.
-/

/-- A node neither declares or destroys a variable nor is about something that leads to it. -/
def Node.Spares (listing : Listing) (id : VarId) (node : Node) : Prop :=
  node ≠ .destroy id ∧ ∀ used ∈ node.uses, ¬listing.Touches used id

/-- A node neither declares nor destroys a variable. -/
def Node.Passes (id : VarId) (node : Node) : Prop :=
  node ≠ .destroy id ∧ ∀ line, node ≠ .declare id line

theorem Node.Spares.passes
    (spares : node.Spares listing id) :
    node.Passes id := by
  refine ⟨spares.1, ?_⟩
  rintro line rfl
  exact spares.2 id (by simp [Node.uses, Node.operands]) (.self id)

namespace Ledger

variable
    {listing : Listing}
    {ledger : Ledger}
    {id : VarId}

/-- What is alive leads to nothing that is destroyed and not pending. -/
theorem untouched_of_alive
    {pending : List VarId}
    (destroyed : listing.isDestroyed id)
    (unheld : id ∉ pending)
    {used : VarId}
    (alive : listing.Alive pending used) :
    ¬listing.Touches used id := by
  intro touches
  obtain ⟨v, found, held⟩ := (alive.touched touches).found
  rw [Listing.isDestroyed_eq found] at destroyed
  exact unheld (held destroyed)

section Steps

variable
    {node : Node}

/-- A node that passes a variable by leaves it pending or not as it was. -/
theorem pending_after
    (passes : node.Passes id) :
    id ∈ (ledger.after listing node).pending ↔ id ∈ ledger.pending := by
  cases node with
  | declare other line =>
      have differs : id ≠ other := fun same => passes.2 line (by rw [same])
      simp only [after]
      split <;> simp [differs]
  | destroy other =>
      have differs : id ≠ other := fun same => passes.1 (by rw [same])
      simp [after, List.mem_erase_of_ne differs]
  | _ => exact Iff.rfl

theorem gone_after
    (passes : node.Passes id) :
    id ∈ (ledger.after listing node).gone ↔ id ∈ ledger.gone := by
  cases node with
  | declare other line =>
      simp only [after]
      split <;> exact Iff.rfl
  | destroy other =>
      have differs : id ≠ other := fun same => passes.1 (by rw [same])
      simp [after, differs]
  | _ => exact Iff.rfl

/-- No variable is pending twice, or both pending and gone. -/
theorem distinct_after
    (allowed : ledger.Allows listing node)
    (distinct : (ledger.pending ++ ledger.gone).Nodup) :
    ((ledger.after listing node).pending ++ (ledger.after listing node).gone).Nodup := by
  cases node with
  | declare other line =>
      by_cases destroyed : listing.isDestroyed other = true
      · obtain ⟨unheld, ungone, _⟩ := allowed.1 destroyed
        have same : ledger.after listing (.declare other line) =
            { ledger with pending := ledger.pending ++ [other] } := by
          simp [after, destroyed, OpenScopes.after]
        have moved : (ledger.pending ++ [other] ++ ledger.gone).Perm
            (other :: (ledger.pending ++ ledger.gone)) := by
          simp [List.perm_middle]
        rw [same]
        refine moved.nodup_iff.mpr (List.nodup_cons.mpr ⟨?_, distinct⟩)
        simp [unheld, ungone]
      · have same : ledger.after listing (.declare other line) = ledger := by
          simp [after, destroyed, OpenScopes.after]
        rw [same]
        exact distinct
  | destroy other =>
      have moved : (ledger.pending.erase other ++ (ledger.gone ++ [other])).Perm
          (ledger.pending ++ ledger.gone) := by
        have swapped : (ledger.pending.erase other ++ (ledger.gone ++ [other])).Perm
            (other :: ledger.pending.erase other ++ ledger.gone) := by
          rw [← List.append_assoc]
          exact List.perm_append_comm
        exact swapped.trans ((List.perm_cons_erase allowed.1).symm.append_right _)
      exact moved.nodup_iff.mpr distinct
  | _ => exact distinct

end Steps

/-- Once a variable is gone, every further node spares it. -/
theorem spares_of_gone
    (destroyed : listing.isDestroyed id)
    (isGone : id ∈ ledger.gone)
    (unheld : id ∉ ledger.pending)
    (accepted : ledger.Accepts listing nodes) :
    ∀ node ∈ nodes, node.Spares listing id := by
  induction nodes generalizing ledger with
  | nil => exact fun _ member => (List.not_mem_nil member).elim
  | cons first rest inductionHypothesis =>
      obtain ⟨allowed, others⟩ := accepted
      have spares : first.Spares listing id := by
        cases first with
        | declare other line =>
            refine ⟨by simp, ?_⟩
            have differs : other ≠ id := by
              rintro rfl
              exact (allowed.1 destroyed).2.1 isGone
            have still : id ∉ (ledger.after listing (.declare other line)).pending := by
              rw [pending_after ⟨by simp, by simp [differs]⟩]
              exact unheld
            intro used member
            rw [List.mem_singleton.mp member]
            exact untouched_of_alive destroyed still allowed.2
        | destroy other =>
            refine ⟨?_, fun _ member => (List.not_mem_nil member).elim⟩
            rintro ⟨⟩
            exact unheld allowed.1
        | _ =>
            refine ⟨by simp, fun used member => ?_⟩
            exact untouched_of_alive destroyed unheld (allowed used member)
      intro node member
      rcases List.mem_cons.mp member with rfl | inRest
      · exact spares
      · refine inductionHypothesis ?_ ?_ others node inRest
        · exact (gone_after spares.passes).mpr isGone
        · exact fun wrong => unheld ((pending_after spares.passes).mp wrong)

/-- A pending variable that is not pending at the end is destroyed once, in its own scope. -/
theorem destroyed_of_pending
    (destroyed : listing.isDestroyed id)
    (distinct : (ledger.pending ++ ledger.gone).Nodup)
    (isPending : id ∈ ledger.pending)
    (accepted : ledger.Accepts listing nodes)
    (ends : id ∉ (ledger.behind listing nodes).pending) :
    ∃ middle back,
      nodes = middle ++ .destroy id :: back ∧ (∀ node ∈ middle, node.Passes id) ∧
        (ledger.behind listing middle).open_.innermost? = listing.scopeOf? id ∧
        ∀ node ∈ back, node.Spares listing id := by
  induction nodes generalizing ledger with
  | nil => exact (ends isPending).elim
  | cons first rest inductionHypothesis =>
      obtain ⟨allowed, others⟩ := accepted
      have distinctLater := distinct_after allowed distinct
      by_cases isDestroy : first = .destroy id
      · subst isDestroy
        refine ⟨[], rest, rfl, by simp, allowed.2.2.1, ?_⟩
        have isGone : id ∈ (ledger.after listing (.destroy id)).gone := by simp [after]
        refine spares_of_gone destroyed isGone (fun wrong => ?_) others
        exact (List.nodup_append.mp distinctLater).2.2 id wrong id isGone rfl
      · have passes : first.Passes id := by
          refine ⟨isDestroy, ?_⟩
          rintro line rfl
          exact (allowed.1 destroyed).1 isPending
        obtain ⟨middle, back, rfl, passMiddle, inScope, spared⟩ :=
          inductionHypothesis distinctLater ((pending_after passes).mpr isPending) others ends
        refine ⟨first :: middle, back, rfl, ?_, inScope, spared⟩
        intro node member
        rcases List.mem_cons.mp member with rfl | inMiddle
        · exact passes
        · exact passMiddle node inMiddle

/-- A new variable that is pending or gone at the end is declared once, in its own scope. -/
theorem declared_of_new
    {nodes : List Node}
    (destroyed : listing.isDestroyed id)
    (distinct : (ledger.pending ++ ledger.gone).Nodup)
    (isNew : id ∉ ledger.pending ++ ledger.gone)
    (accepted : ledger.Accepts listing nodes)
    (ends : id ∈ (ledger.behind listing nodes).pending ++ (ledger.behind listing nodes).gone) :
    ∃ front line rest,
      nodes = front ++ .declare id line :: rest ∧ (∀ node ∈ front, node.Passes id) ∧
        (ledger.behind listing front).open_.innermost? = listing.scopeOf? id ∧
        ∃ later : Ledger,
          later = ledger.behind listing (front ++ [.declare id line]) ∧
            (later.pending ++ later.gone).Nodup ∧ id ∈ later.pending ∧
            later.Accepts listing rest := by
  induction nodes generalizing ledger with
  | nil => exact (isNew ends).elim
  | cons first rest inductionHypothesis =>
      obtain ⟨allowed, others⟩ := accepted
      have distinctLater := distinct_after allowed distinct
      by_cases isDeclare : ∃ line, first = .declare id line
      · obtain ⟨line, rfl⟩ := isDeclare
        refine ⟨[], line, rest, rfl, by simp, (allowed.1 destroyed).2.2.2.1, _, rfl,
          distinctLater, ?_, others⟩
        simp [behind, after, destroyed]
      · have passes : first.Passes id := by
          refine ⟨?_, fun line same => isDeclare ⟨line, same⟩⟩
          rintro rfl
          exact isNew (List.mem_append_left _ allowed.1)
        have stillNew : id ∉ (ledger.after listing first).pending ++
            (ledger.after listing first).gone := by
          rw [List.mem_append, pending_after passes, gone_after passes, ← List.mem_append]
          exact isNew
        obtain ⟨front, line, back, rfl, passFront, inScope, later, isLater, kept⟩ :=
          inductionHypothesis distinctLater stillNew others ends
        refine ⟨first :: front, line, back, rfl, ?_, inScope, later, isLater, kept⟩
        intro node member
        rcases List.mem_cons.mp member with rfl | inFront
        · exact passes
        · exact passFront node inFront

end Ledger

/--
The lifetime of a variable in a sequence: it is declared once and destroyed once behind that,
both while the innermost open scope is the one it belongs to, and from there on it is spared.
-/
def Listing.Lifetime (listing : Listing) (nodes : List Node) (id : VarId) : Prop :=
  ∃ front line middle back,
    nodes = front ++ .declare id line :: (middle ++ .destroy id :: back) ∧
      (∀ node ∈ front, node.Passes id) ∧ (∀ node ∈ middle, node.Passes id) ∧
      (openScopes front).innermost? = listing.scopeOf? id ∧
      (openScopes (front ++ .declare id line :: middle)).innermost? = listing.scopeOf? id ∧
      ∀ node ∈ back, node.Spares listing id

/-- What a ledger accepts from the start and does not leave pending has a lifetime. -/
theorem Ledger.lifetime_of_accepts
    (destroyed : listing.isDestroyed id)
    (accepted : Ledger.blank.Accepts listing nodes)
    (ends : (Ledger.blank.behind listing nodes).pending = [])
    (isGone : id ∈ (Ledger.blank.behind listing nodes).gone) :
    listing.Lifetime nodes id := by
  obtain ⟨front, line, rest, rfl, passFront, inScope, later, rfl, distinct, isPending, others⟩ :=
    @declared_of_new listing .blank id nodes destroyed List.nodup_nil (by simp [blank]) accepted
      (List.mem_append_right _ isGone)
  have ahead : ∀ more, (Ledger.blank.behind listing (front ++ [.declare id line])).behind
      listing more = Ledger.blank.behind listing (front ++ .declare id line :: more) := by
    intro more
    rw [← behind_append, List.append_assoc]
    rfl
  have unheld : id ∉ ((Ledger.blank.behind listing (front ++ [.declare id line])).behind
      listing rest).pending := by
    rw [ahead, ends]
    exact List.not_mem_nil
  obtain ⟨middle, back, rfl, passMiddle, inScopeLater, spared⟩ :=
    destroyed_of_pending destroyed distinct isPending others unheld
  rw [ahead, open_behind] at inScopeLater
  rw [open_behind] at inScope
  exact ⟨front, line, middle, back, rfl, passFront, passMiddle, inScope, inScopeLater, spared⟩

/-! ## Fewer variables that are gone -/

namespace Ledger

/-- One ledger shows what another shows, with fewer variables that are gone. -/
structure Fewer (less more : Ledger) : Prop where
  open_ : less.open_ = more.open_
  pending : less.pending = more.pending
  gone : less.gone ⊆ more.gone

variable
    {listing : Listing}
    {less more : Ledger}

theorem Fewer.after
    (fewer : less.Fewer more)
    (node : Node) :
    (less.after listing node).Fewer (more.after listing node) := by
  obtain ⟨open_, pending, gone⟩ := less
  obtain ⟨sameOpen, samePending, isGone⟩ := fewer
  cases sameOpen
  cases samePending
  cases node with
  | declare id line =>
      simp only [Ledger.after]
      split <;> exact ⟨rfl, rfl, isGone⟩
  | destroy id =>
      refine ⟨rfl, rfl, ?_⟩
      intro other member
      rcases List.mem_append.mp member with old | new
      · exact List.mem_append_left _ (isGone old)
      · exact List.mem_append_right _ new
  | _ => exact ⟨rfl, rfl, isGone⟩

theorem Fewer.allows
    (fewer : less.Fewer more)
    (allowed : more.Allows listing node) :
    less.Allows listing node := by
  have sameAfter := (@Fewer.after listing less more fewer node).pending
  cases node with
  | declare id line =>
      refine ⟨fun destroyed => ?_, ?_⟩
      · obtain ⟨unheld, ungone, fits⟩ := allowed.1 destroyed
        refine ⟨?_, fun wrong => ungone (fewer.gone wrong), ?_⟩
        · rw [fewer.pending]
          exact unheld
        · unfold Fits
          rw [fewer.open_]
          exact fits
      · rw [sameAfter]
        exact allowed.2
  | destroy id =>
      refine ⟨?_, ?_⟩
      · rw [fewer.pending]
        exact allowed.1
      · unfold Fits
        rw [fewer.open_]
        exact allowed.2
  | _ =>
      intro id member
      rw [fewer.pending]
      exact allowed id member

/-- What is accepted behind more destroyed variables is accepted behind fewer. -/
theorem Fewer.accepts
    (fewer : less.Fewer more)
    (accepted : more.Accepts listing nodes) :
    less.Accepts listing nodes ∧
      (less.behind listing nodes).Fewer (more.behind listing nodes) := by
  induction nodes generalizing less more with
  | nil => exact ⟨trivial, fewer⟩
  | cons node rest inductionHypothesis =>
      obtain ⟨allowed, others⟩ := accepted
      obtain ⟨acceptsRest, fewerRest⟩ := inductionHypothesis (fewer.after node) others
      exact ⟨⟨fewer.allows allowed, acceptsRest⟩, fewerRest⟩

end Ledger

end IlsCompiler
