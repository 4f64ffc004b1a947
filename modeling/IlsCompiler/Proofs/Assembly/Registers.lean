import IlsCompiler.Assembly.Pool

namespace IlsCompiler

/-!
# Who holds which register

Every register of the pool is either free or held, and no register is held twice. So a
register that is handed out belongs to nobody else.
-/

/-- The registers that temporaries can have. -/
def Reg.pooled : List Reg :=
  volatilePool ++ preservedPool

namespace Pool

/-- The registers that temporaries hold. -/
def heldRegs (pool : Pool) : List Reg :=
  pool.held.map Prod.snd

/-- Every register is free or held, each by one temporary at most. -/
structure Sound (pool : Pool) : Prop where
  registers : (pool.volatile ++ pool.preserved ++ pool.heldRegs).Perm Reg.pooled
  owners : (pool.held.map Prod.fst).Nodup

theorem sound_full :
    full.Sound :=
  ⟨by decide, by decide⟩

variable
    {pool : Pool}
    {id : VarId}

/-- A pool in which an owner is not found has no entry for it. -/
theorem not_owner_of_held?
    (free : pool.held? id = none) :
    id ∉ pool.held.map Prod.fst := by
  intro member
  obtain ⟨entry, inHeld, rfl⟩ := List.mem_map.mp member
  have apart := List.lookup_eq_none_iff.mp free entry inHeld
  simp at apart

/-- A temporary that is found holds its register. -/
theorem mem_held_of_held?
    {reg : Reg}
    (found : pool.held? id = some reg) :
    (id, reg) ∈ pool.held := by
  obtain ⟨front, back, same, _⟩ := List.lookup_eq_some_iff.mp found
  rw [same]
  simp

namespace Sound

variable
    {pool taken : Pool}
    {id : VarId}
    {reg : Reg}

theorem nodup
    (sound : pool.Sound) :
    (pool.volatile ++ pool.preserved ++ pool.heldRegs).Nodup :=
  sound.registers.nodup_iff.mpr (by decide)

/-- Whoever is in the list of owners is found there with its own register. -/
theorem held?_of_mem
    (sound : pool.Sound)
    (member : (id, reg) ∈ pool.held) :
    pool.held? id = some reg := by
  obtain ⟨front, back, same⟩ := List.append_of_mem member
  apply List.lookup_eq_some_iff.mpr
  refine ⟨front, back, same, ?_⟩
  intro entry inFront
  have distinct := sound.owners
  rw [same, List.map_append, List.map_cons, List.nodup_append] at distinct
  have apart : entry.1 ≠ id := distinct.2.2 entry.1 (List.mem_map_of_mem inFront) id (by simp)
  exact bne_iff_ne.mpr apart.symm

theorem mem_pooled
    (sound : pool.Sound)
    (member : (id, reg) ∈ pool.held) :
    reg ∈ Reg.pooled := by
  apply sound.registers.mem_iff.mp
  exact List.mem_append_right _ (List.mem_map_of_mem member)

/-- A register that is held is not one of the pointers. -/
theorem noPointer
    (sound : pool.Sound)
    (held : reg ∈ pool.heldRegs) :
    reg ≠ .rsp ∧ reg ≠ .rbp := by
  obtain ⟨entry, member, rfl⟩ := List.mem_map.mp held
  have pooled := sound.mem_pooled member
  constructor
  · intro isPointer
    exact absurd (isPointer ▸ pooled) (by decide)
  · intro isPointer
    exact absurd (isPointer ▸ pooled) (by decide)

end Sound

section Taking

variable
    {pool taken : Pool}
    {id : VarId}
    {reg : Reg}

/-- Handing out a register that was free moves it to the registers that are held. -/
theorem sound_give
    (free : pool.held? id = none)
    (owners : (pool.held.map Prod.fst).Nodup)
    (registers : (reg :: (pool.volatile ++ pool.preserved ++ pool.heldRegs)).Perm Reg.pooled) :
    (pool.give id reg).Sound := by
  refine ⟨?_, ?_⟩
  · have moved : (pool.volatile ++ pool.preserved ++ (pool.heldRegs ++ [reg])).Perm
        (reg :: (pool.volatile ++ pool.preserved ++ pool.heldRegs)) := by
      rw [← List.append_assoc]
      exact List.perm_append_singleton _ _
    simpa [give, heldRegs] using moved.trans registers
  · simp only [give, List.map_append, List.map_cons, List.map_nil, List.nodup_append,
      List.nodup_cons, List.not_mem_nil, not_false_eq_true, List.nodup_nil, and_self,
      List.mem_singleton, true_and]
    refine ⟨owners, ?_⟩
    intro other member last isLast same
    exact not_owner_of_held? free (isLast ▸ same ▸ member)

/--
A register that is handed out was free: it is one of the pool and belongs to nobody else,
and everybody keeps what they hold.
-/
theorem Sound.assign_free
    {mustSurvive : Bool}
    (sound : pool.Sound)
    (free : pool.held? id = none)
    (assigned : pool.assign id mustSurvive = .ok (taken, reg)) :
    taken.Sound ∧ taken.held = pool.held ++ [(id, reg)] ∧ reg ∈ Reg.pooled ∧
      reg ∉ pool.heldRegs := by
  have preserved : pool.takePreserved? id = some (taken, reg) →
      taken.Sound ∧ taken.held = pool.held ++ [(id, reg)] ∧ reg ∈ Reg.pooled ∧
        reg ∉ pool.heldRegs := by
    intro took
    unfold takePreserved? at took
    cases isFree : pool.preserved with
    | nil => simp [isFree] at took
    | cons first rest =>
        simp only [isFree, Option.some.injEq, Prod.mk.injEq] at took
        obtain ⟨rfl, rfl⟩ := took
        have moved : (first :: (pool.volatile ++ rest ++ pool.heldRegs)).Perm
            (pool.volatile ++ pool.preserved ++ pool.heldRegs) := by
          rw [isFree, List.append_assoc, List.append_assoc, List.cons_append]
          exact List.perm_middle.symm
        have registers := moved.trans sound.registers
        have distinct := registers.nodup_iff.mpr (by decide)
        refine ⟨sound_give free sound.owners registers, rfl,
          registers.mem_iff.mp (List.mem_cons_self ..), ?_⟩
        exact fun member => (List.nodup_cons.mp distinct).1 (List.mem_append_right _ member)
  have volatile : pool.takeVolatile? id = some (taken, reg) →
      taken.Sound ∧ taken.held = pool.held ++ [(id, reg)] ∧ reg ∈ Reg.pooled ∧
        reg ∉ pool.heldRegs := by
    intro took
    unfold takeVolatile? at took
    cases isFree : pool.volatile with
    | nil => simp [isFree] at took
    | cons first rest =>
        simp only [isFree, Option.some.injEq, Prod.mk.injEq] at took
        obtain ⟨rfl, rfl⟩ := took
        have registers : (first :: (rest ++ pool.preserved ++ pool.heldRegs)).Perm
            Reg.pooled := by
          simpa [isFree] using sound.registers
        have distinct := registers.nodup_iff.mpr (by decide)
        refine ⟨sound_give free sound.owners registers, rfl,
          registers.mem_iff.mp (List.mem_cons_self ..), ?_⟩
        exact fun member => (List.nodup_cons.mp distinct).1 (List.mem_append_right _ member)
  unfold assign at assigned
  simp only [free] at assigned
  split at assigned
  · cases took : pool.takePreserved? id with
    | none => simp [took] at assigned
    | some pair =>
        simp only [took, Except.ok.injEq] at assigned
        exact preserved (took.trans (congrArg some assigned))
  · cases took : pool.takeVolatile? id with
    | some pair =>
        simp only [took, Except.ok.injEq] at assigned
        exact volatile (took.trans (congrArg some assigned))
    | none =>
        cases tookOther : pool.takePreserved? id with
        | none => simp [took, tookOther] at assigned
        | some pair =>
            simp only [took, tookOther, Except.ok.injEq] at assigned
            exact preserved (tookOther.trans (congrArg some assigned))

theorem Sound.assign
    {mustSurvive : Bool}
    (sound : pool.Sound)
    (assigned : pool.assign id mustSurvive = .ok (taken, reg)) :
    taken.Sound := by
  cases free : pool.held? id with
  | none => exact (sound.assign_free free assigned).1
  | some known =>
      simp only [Pool.assign, free] at assigned
      cases assigned
      exact sound

end Taking

/-- The temporaries that keep their registers when one gives its register back. -/
theorem mem_held_release
    {pool : Pool}
    {id : VarId}
    {entry : VarId × Reg}
    (other : entry.1 ≠ id) :
    entry ∈ (pool.release id).held ↔ entry ∈ pool.held := by
  unfold release
  split
  · rfl
  · split <;> simp [other]

/-- Whoever gives a register back does not hold one any more. -/
theorem not_mem_held_release
    {entry : VarId × Reg}
    (member : entry ∈ (pool.release id).held) :
    entry.1 ≠ id := by
  unfold release at member
  split at member
  next free =>
    rintro rfl
    exact not_owner_of_held? free (List.mem_map_of_mem member)
  next => split at member <;> simpa using (List.mem_filter.mp member).2

theorem Sound.release
    (sound : pool.Sound)
    (id : VarId) :
    (pool.release id).Sound := by
  unfold Pool.release
  cases found : pool.held? id with
  | none => exact sound
  | some reg =>
      obtain ⟨front, back, same, _⟩ := List.lookup_eq_some_iff.mp found
      have owners := sound.owners
      rw [same, List.map_append, List.map_cons, List.nodup_append] at owners
      obtain ⟨_, later, apart⟩ := owners
      have absent := (List.nodup_cons.mp later).1
      -- The owner has one entry, so leaving out its entries leaves out just that one.
      have without : (pool.held.filter fun entry => entry.1 != id) = front ++ back := by
        rw [same, List.filter_append, List.filter_cons_of_neg (by simp)]
        congr 1
        · rw [List.filter_eq_self]
          intro entry member
          simpa using apart entry.1 (List.mem_map_of_mem member) id (by simp)
        · rw [List.filter_eq_self]
          intro entry member
          have other : entry.1 ≠ id := by
            intro equal
            exact absent (List.mem_map.mpr ⟨entry, member, equal⟩)
          simpa using other
      have distinct : ((front ++ back).map Prod.fst).Nodup := by
        rw [← without]
        exact List.Nodup.sublist (List.filter_sublist.map _) sound.owners
      have registers := sound.registers
      rw [heldRegs, same, List.map_append, List.map_cons] at registers
      simp only [without]
      split
      · refine ⟨List.Perm.trans ?_ registers, distinct⟩
        simp only [heldRegs, List.map_append, List.append_assoc, List.cons_append,
          List.nil_append]
        exact (List.perm_middle.symm.append_left _).append_left _
      · refine ⟨List.Perm.trans ?_ registers, distinct⟩
        simp only [heldRegs, List.map_append, List.append_assoc, List.cons_append,
          List.nil_append]
        refine List.Perm.append_left _ ?_
        refine List.Perm.trans ?_ (List.perm_middle.symm.append_left _)
        exact List.perm_middle.symm

section Handing

variable
    {pool taken : Pool}
    {id : VarId}
    {mustSurvive : Bool}
    {reg : Reg}

/-- A temporary has its register already, or it is given one that it then holds. -/
theorem assign_cases
    (assigned : pool.assign id mustSurvive = .ok (taken, reg)) :
    (pool.held? id = some reg ∧ taken = pool) ∨
      (pool.held? id = none ∧
        ∃ rest : Pool, rest.held = pool.held ∧ rest.used = pool.used ∧ taken = rest.give id reg) := by
  have preserved : pool.takePreserved? id = some (taken, reg) →
      ∃ rest : Pool, rest.held = pool.held ∧ rest.used = pool.used ∧
        taken = rest.give id reg := by
    intro took
    unfold takePreserved? at took
    split at took
    · cases took
    next first rest isFree =>
      cases took
      exact ⟨{ pool with preserved := rest }, rfl, rfl, rfl⟩
  have volatile : pool.takeVolatile? id = some (taken, reg) →
      ∃ rest : Pool, rest.held = pool.held ∧ rest.used = pool.used ∧
        taken = rest.give id reg := by
    intro took
    unfold takeVolatile? at took
    split at took
    · cases took
    next first rest isFree =>
      cases took
      exact ⟨{ pool with volatile := rest }, rfl, rfl, rfl⟩
  unfold assign at assigned
  split at assigned
  next known held =>
    cases assigned
    exact .inl ⟨held, rfl⟩
  next free =>
    refine .inr ⟨free, ?_⟩
    split at assigned
    · split at assigned
      next took =>
        cases assigned
        exact preserved took
      next => cases assigned
    · split at assigned
      next took =>
        cases assigned
        exact volatile took
      next =>
        split at assigned
        next took =>
          cases assigned
          exact preserved took
        next => cases assigned

/-- Whoever is handed a register holds it then, and nobody loses one. -/
theorem held_of_assign
    (assigned : pool.assign id mustSurvive = .ok (taken, reg)) :
    reg ∈ taken.heldRegs ∧ pool.heldRegs ⊆ taken.heldRegs := by
  rcases assign_cases assigned with ⟨known, rfl⟩ | ⟨_, rest, same, _, rfl⟩
  · exact ⟨List.mem_map_of_mem (mem_held_of_held? known), List.Subset.refl _⟩
  · refine ⟨by simp [heldRegs, give], fun other member => ?_⟩
    rw [heldRegs, ← same] at member
    rw [heldRegs, give, List.map_append]
    exact List.mem_append_left _ member

/-- The preserved registers that temporaries hold are among those used so far. -/
def Records (pool : Pool) : Prop :=
  ∀ reg ∈ pool.heldRegs, reg.isPreserved → reg ∈ pool.used

theorem records_full :
    full.Records :=
  fun _ member => (List.not_mem_nil member).elim

theorem Records.assign
    (records : pool.Records)
    (assigned : pool.assign id mustSurvive = .ok (taken, reg)) :
    taken.Records ∧ pool.used ⊆ taken.used := by
  rcases assign_cases assigned with ⟨_, rfl⟩ | ⟨_, rest, sameHeld, sameUsed, rfl⟩
  · exact ⟨records, List.Subset.refl _⟩
  · have grown : pool.used ⊆ (rest.give id reg).used := by
      intro other member
      simp only [give, sameUsed]
      split
      · exact List.mem_append_left _ member
      · exact member
    refine ⟨fun other member preserved => ?_, grown⟩
    simp only [heldRegs, give, sameHeld, List.map_append, List.map_cons, List.map_nil,
      List.mem_append, List.mem_singleton] at member
    rcases member with old | rfl
    · exact grown (records other old preserved)
    · simp only [give, preserved, Bool.true_and, sameUsed]
      split
      · simp
      next known => simpa using known

theorem Records.release
    (records : pool.Records)
    (id : VarId) :
    (pool.release id).Records ∧ (pool.release id).used = pool.used := by
  have fewer : (pool.release id).heldRegs ⊆ pool.heldRegs := by
    unfold Pool.release
    split
    · exact List.Subset.refl _
    · split <;> exact List.map_subset _ List.filter_sublist.subset
  have same : (pool.release id).used = pool.used := by
    unfold Pool.release
    split
    · rfl
    · split <;> rfl
  exact ⟨fun reg member preserved => same ▸ records reg (fewer member) preserved, same⟩

end Handing

end Pool

end IlsCompiler
