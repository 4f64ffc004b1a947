import Mathlib.Data.List.Induction
import Mathlib.Data.List.Nodup
import IlsCompiler.Proofs.Assembly.Registers

namespace IlsCompiler

/-!
# The register pool along a history

Registers are asked for and given back in any order, and now and then the pool is started anew. At
every moment the pool says who was handed which register and has not given it back, and everything
else that can be asked of it follows from the requests made so far.
-/

namespace Pool

/-- What can be asked of a pool. -/
inductive Request where
  | assign (id : VarId) (mustSurvive : Bool)
  | release (id : VarId)
  | reset
deriving DecidableEq, Repr

/-- The pool behind a request; a request that is refused leaves the pool as it is. -/
def after (pool : Pool) : Request → Pool
  | .assign id mustSurvive =>
      match pool.assign id mustSurvive with
      | .ok (taken, _) => taken
      | .error _ => pool
  | .release id => pool.release id
  | .reset => full

/-- The pool behind a history of requests. -/
def ofRequests (requests : List Request) : Pool :=
  requests.foldl after full

theorem ofRequests_concat
    (requests : List Request)
    (last : Request) :
    ofRequests (requests ++ [last]) = (ofRequests requests).after last := by
  simp [ofRequests]

/-- Behind a history a temporary without a register asks for one and is handed the given one. -/
structure Hands (earlier : List Request) (id : VarId) (mustSurvive : Bool) (reg : Reg) :
    Prop where
  free : (ofRequests earlier).held? id = none
  given : (ofRequests (earlier ++ [.assign id mustSurvive])).held? id = some reg

/-- A temporary was handed a register and has neither given it back nor lost it since. -/
def Keeps (requests : List Request) (id : VarId) (mustSurvive : Bool) (reg : Reg) : Prop :=
  ∃ earlier later,
    requests = earlier ++ .assign id mustSurvive :: later ∧ Hands earlier id mustSurvive reg ∧
      .release id ∉ later ∧ .reset ∉ later

/-- A register was handed out since the pool was started. -/
def HandedOut (requests : List Request) (reg : Reg) : Prop :=
  ∃ earlier id mustSurvive later,
    requests = earlier ++ .assign id mustSurvive :: later ∧ Hands earlier id mustSurvive reg ∧
      .reset ∉ later

/-- What the pool answers is what the requests made so far imply. -/
structure Follows (requests : List Request) (pool : Pool) : Prop where
  inverse : ∀ id reg, pool.held? id = some reg ↔ pool.owner? reg = some id
  partition : (pool.volatile ++ pool.preserved ++ pool.heldRegs).Perm
    (Reg.volatilePool ++ Reg.preservedPool)
  volatile : ∀ reg ∈ pool.volatile, reg.isPreserved = false
  preserved : ∀ reg ∈ pool.preserved, reg.isPreserved = true
  apart : ∀ id other reg, pool.held? id = some reg → pool.held? other = some reg → id = other
  holders : ∀ id reg,
    pool.held? id = some reg ↔ ∃ mustSurvive, Keeps requests id mustSurvive reg
  survivors : ∀ id reg, Keeps requests id true reg → reg.isPreserved = true
  touched : ∀ reg, reg ∈ pool.touched ↔ reg.isPreserved = true ∧ HandedOut requests reg
  live : pool.live.Nodup ∧
    ∀ reg, reg ∈ pool.live ↔ reg.isPreserved = false ∧ ∃ id, pool.held? id = some reg
  refused : ∀ id mustSurvive,
    (∃ shortage, pool.assign id mustSurvive = .error shortage) ↔
      pool.held? id = none ∧
        (mustSurvive = true ∧ pool.preserved = [] ∨ pool.volatile = [] ∧ pool.preserved = [])
  unchanged : ∀ id mustSurvive shortage, pool.assign id mustSurvive = .error shortage →
    ofRequests (requests ++ [.assign id mustSurvive]) = pool
  repeated : ∀ id mustSurvive again taken reg, pool.assign id mustSurvive = .ok (taken, reg) →
    taken.assign id again = .ok (taken, reg)
  idle : ∀ id, pool.held? id = none → pool.release id = pool

variable
    {pool taken : Pool}
    {requests : List Request}
    {id other : VarId}
    {mustSurvive : Bool}
    {reg : Reg}

/-!
## Single requests
-/

/-- Volatile and preserved registers wait in their own queues. -/
structure Sorted (pool : Pool) : Prop where
  volatile : ∀ reg ∈ pool.volatile, reg.isPreserved = false
  preserved : ∀ reg ∈ pool.preserved, reg.isPreserved = true

theorem sorted_full :
    full.Sorted :=
  ⟨by decide, by decide⟩

/--
A temporary without a register is handed the front of one of the queues; that of the volatile
registers if there is one and it need not survive a call.
-/
theorem assign_of_free
    (free : pool.held? id = none)
    (assigned : pool.assign id mustSurvive = .ok (taken, reg)) :
    (mustSurvive = false ∧ ∃ rest, pool.volatile = reg :: rest ∧
        taken = { pool with volatile := rest }.give id reg) ∨
      ∃ rest, pool.preserved = reg :: rest ∧
        taken = { pool with preserved := rest }.give id reg := by
  have preserved : pool.takePreserved? id = some (taken, reg) →
      ∃ rest, pool.preserved = reg :: rest ∧
        taken = { pool with preserved := rest }.give id reg := by
    intro took
    unfold takePreserved? at took
    split at took
    · cases took
    next first rest isFree =>
      cases took
      exact ⟨rest, isFree, rfl⟩
  have volatile : pool.takeVolatile? id = some (taken, reg) →
      ∃ rest, pool.volatile = reg :: rest ∧
        taken = { pool with volatile := rest }.give id reg := by
    intro took
    unfold takeVolatile? at took
    split at took
    · cases took
    next first rest isFree =>
      cases took
      exact ⟨rest, isFree, rfl⟩
  unfold assign at assigned
  simp only [free] at assigned
  split at assigned
  · split at assigned
    next took =>
      cases assigned
      exact .inr (preserved took)
    next => cases assigned
  next mayPass =>
    split at assigned
    next took =>
      cases assigned
      exact .inl ⟨by simpa using mayPass, volatile took⟩
    next =>
      split at assigned
      next took =>
        cases assigned
        exact .inr (preserved took)
      next => cases assigned

/-- A request for a register hands one out, or it leaves the pool as it is. -/
theorem after_assign_cases
    (pool : Pool)
    (id : VarId)
    (mustSurvive : Bool) :
    pool.after (.assign id mustSurvive) = pool ∨
      pool.held? id = none ∧
        ∃ taken reg, pool.assign id mustSurvive = .ok (taken, reg) ∧
          pool.after (.assign id mustSurvive) = taken := by
  simp only [after]
  cases assigned : pool.assign id mustSurvive with
  | error shortage => exact .inl rfl
  | ok result =>
      cases held : pool.held? id with
      | none => exact .inr ⟨rfl, _, _, rfl, rfl⟩
      | some known =>
          simp only [assign, held, Except.ok.injEq] at assigned
          exact .inl (assigned ▸ rfl)

theorem Sorted.after
    (sorted : pool.Sorted)
    (request : Request) :
    (pool.after request).Sorted := by
  cases request with
  | reset => exact sorted_full
  | assign id mustSurvive =>
      rcases after_assign_cases pool id mustSurvive with
        same | ⟨free, taken, reg, assigned, isTaken⟩
      · rw [same]
        exact sorted
      rw [isTaken]
      rcases assign_of_free free assigned with ⟨_, rest, isFree, rfl⟩ | ⟨rest, isFree, rfl⟩
      · exact ⟨fun other member => sorted.volatile other (isFree ▸ .tail _ member),
          sorted.preserved⟩
      · exact ⟨sorted.volatile,
          fun other member => sorted.preserved other (isFree ▸ .tail _ member)⟩
  | release id =>
      show (pool.release id).Sorted
      unfold release
      split
      · exact sorted
      next reg found =>
        dsimp only
        split
        next isPreserved =>
          refine ⟨sorted.volatile, fun other member => ?_⟩
          rcases List.mem_append.mp member with old | new
          · exact sorted.preserved other old
          · exact List.mem_singleton.mp new ▸ isPreserved
        next isVolatile =>
          refine ⟨fun other member => ?_, sorted.preserved⟩
          rcases List.mem_append.mp member with old | new
          · exact sorted.volatile other old
          · simpa [List.mem_singleton.mp new] using isVolatile

theorem Sound.after
    (sound : pool.Sound)
    (request : Request) :
    (pool.after request).Sound := by
  cases request with
  | reset => exact sound_full
  | release id => exact sound.release id
  | assign id mustSurvive =>
      rcases after_assign_cases pool id mustSurvive with same | ⟨_, _, _, assigned, isTaken⟩
      · rw [same]
        exact sound
      · rw [isTaken]
        exact sound.assign assigned

/-- Whoever is handed a register is found with it, and nobody else is found with another one. -/
theorem held?_give
    (pool : Pool)
    (free : pool.held? id = none)
    (reg : Reg)
    (other : VarId) :
    (pool.give id reg).held? other = if other = id then some reg else pool.held? other := by
  unfold held? give
  rw [List.lookup_append]
  split
  next same =>
    subst same
    rw [show pool.held.lookup other = none from free]
    simp
  next apart => simp [List.lookup_cons, beq_false_of_ne apart]

theorem sound_ofRequests
    (requests : List Request) :
    (ofRequests requests).Sound := by
  induction requests using List.reverseRecOn with
  | nil => exact sound_full
  | append_singleton requests last inductionHypothesis =>
      rw [ofRequests_concat]
      exact inductionHypothesis.after last

theorem sorted_ofRequests
    (requests : List Request) :
    (ofRequests requests).Sorted := by
  induction requests using List.reverseRecOn with
  | nil => exact sorted_full
  | append_singleton requests last inductionHypothesis =>
      rw [ofRequests_concat]
      exact inductionHypothesis.after last

/-- Whoever must survive calls is handed a preserved register. -/
theorem Hands.isPreserved
    (hands : Hands requests id true reg) :
    reg.isPreserved = true := by
  rcases after_assign_cases (ofRequests requests) id true with
    same | ⟨free, taken, given, assigned, isTaken⟩
  · have given := hands.given
    rw [ofRequests_concat, same, hands.free] at given
    cases given
  · rcases assign_of_free free assigned with ⟨⟨⟩, _⟩ | ⟨rest, isFree, rfl⟩
    have isGiven := hands.given
    rw [ofRequests_concat, isTaken, held?_give _ (by exact free), if_pos rfl] at isGiven
    rw [← Option.some.inj isGiven]
    exact (sorted_ofRequests requests).preserved given (isFree ▸ .head _)

/-- Registers that are handed out belong to the pool. -/
theorem Hands.mem_pooled
    (hands : Hands requests id mustSurvive reg) :
    reg ∈ Reg.pooled :=
  (sound_ofRequests _).mem_pooled (mem_held_of_held? hands.given)

end Pool

end IlsCompiler
