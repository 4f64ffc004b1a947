import Mathlib.Data.List.Induction
import Mathlib.Data.List.Perm.Subperm
import IlsCompiler.Proofs.Assembly.Steps

namespace IlsCompiler

/-!
# The slots of a frame along a history

Locals get their slots when they are first asked for, in any order and mixed with parameters. At
every moment the requests made so far say which locals have slots; none of them moves or overlaps
another or a parameter, and a frame refuses a local only when all its slots are given away.
-/

namespace StackFrame

/-- What a frame is asked for: the place of a local, or of the parameter at a position. -/
inductive Request where
  | ofLocal (id : VarId) (name : String)
  | ofParameter (position : Nat)
deriving DecidableEq, Repr

/-- The frame behind a request and the address that is asked for. -/
def answer (frame : StackFrame) : Request → Except Failure (StackFrame × Address)
  | .ofLocal id name => frame.slot id name
  | .ofParameter position => .ok (frame, parameterAddress position)

/-- Where code for a named variable is made, the frame is asked for its place. -/
theorem slotOperand_answers
    (id : VarId)
    (name : String)
    (isParam : Bool)
    (position : Nat)
    (code : FunctionCode) :
    Emit.slotOperand id name isParam position code =
      match code.frame.answer (if isParam then .ofParameter position else .ofLocal id name) with
      | .error failure => .error failure
      | .ok (frame, address) => .ok (.memory address slotSize, { code with frame := frame }) := by
  cases isParam with
  | true => rfl
  | false =>
      show (match code.frame.slot id name with
        | .error failure => (throw failure : Emit Operand)
        | .ok (frame, address) => do
            set { code with frame := frame }
            return .memory address slotSize) code = _
      simp only [answer, Bool.false_eq_true, ↓reduceIte]
      cases code.frame.slot id name <;> rfl

/-- The frame behind a request; a request that is refused leaves the frame as it is. -/
def after (frame : StackFrame) (request : Request) : StackFrame :=
  match frame.answer request with
  | .ok (later, _) => later
  | .error _ => frame

/-- The frame behind a history of requests. -/
def afterAll (frame : StackFrame) (requests : List Request) : StackFrame :=
  requests.foldl after frame

/-- The frame of a function for which slots have been reserved and none has been given away. -/
def reserving (function : String) (locals : Nat) : StackFrame :=
  { ofFunction function with locals := locals }

/-- One of the requests was for a local and was answered with an address. -/
def Given (start : StackFrame) (requests : List Request) (id : VarId) (address : Address) :
    Prop :=
  ∃ earlier name later frame,
    requests = earlier ++ .ofLocal id name :: later ∧
      (start.afterAll earlier).answer (.ofLocal id name) = .ok (frame, address)

/-- What a frame answers is what the requests made so far imply. -/
structure Serves (start : StackFrame) (requests : List Request) (frame : StackFrame) : Prop where
  stable : ∀ id name address, Given start requests id address →
    frame.answer (.ofLocal id name) = .ok (frame, address)
  inside : ∀ id address, Given start requests id address →
    ∃ offset, address = .frame offset ∧ -(8 * start.locals : Int) ≤ offset ∧ offset + 8 ≤ 0
  apart : ∀ id other offset otherOffset, id ≠ other →
    Given start requests id (.frame offset) → Given start requests other (.frame otherOffset) →
    offset + 8 ≤ otherOffset ∨ otherOffset + 8 ≤ offset
  parameter : ∀ position : Nat,
    frame.answer (.ofParameter position) = .ok (frame, .frame (16 + 8 * position))
  beside : ∀ id offset (position : Nat), Given start requests id (.frame offset) →
    offset + 8 ≤ 16 + 8 * position
  refused : ∀ request, (∃ failure, frame.answer request = .error failure) ↔
    ∃ id name, request = .ofLocal id name ∧ (∀ address, ¬Given start requests id address) ∧
      ∃ others : List VarId, others.Nodup ∧ others.length = start.locals ∧
        ∀ other ∈ others, ∃ address, Given start requests other address
  unchanged : ∀ request failure, frame.answer request = .error failure →
    start.afterAll (requests ++ [request]) = frame
  padded : ∀ saved, 8 * start.locals ≤ frame.size saved ∧
    frame.size saved ≤ 8 * start.locals + 8 ∧ (frame.size saved + 8 * saved) % 16 = 0

variable
    {start frame : StackFrame}
    {requests : List Request}
    {id : VarId}
    {address : Address}

/-!
## Single requests
-/

/-- A request gives the next slot to a local that has none, or it leaves the frame as it is. -/
theorem after_cases
    (frame : StackFrame)
    (request : Request) :
    frame.after request = frame ∨
      ∃ id name, request = .ofLocal id name ∧ id ∉ frame.slots ∧
        frame.slots.length < frame.locals ∧
        frame.answer request =
          .ok ({ frame with slots := frame.slots ++ [id] }, slotAddress frame.slots.length) ∧
        frame.after request = { frame with slots := frame.slots ++ [id] } := by
  cases request with
  | ofParameter position => exact .inl rfl
  | ofLocal id name =>
      cases placed : frame.slot id name with
      | error failure => exact .inl (by simp only [after, answer, placed])
      | ok result =>
          obtain ⟨later, address⟩ := result
          have isLater : frame.after (.ofLocal id name) = later := by
            simp only [after, answer, placed]
          rcases Emit.slot_ok placed with ⟨_, _, rfl, _⟩ | ⟨new, room, rfl, rfl⟩
          · exact .inl isLater
          · exact .inr ⟨id, name, rfl, List.idxOf?_eq_none_iff.mp new, room, placed, isLater⟩

theorem locals_after
    (frame : StackFrame)
    (request : Request) :
    (frame.after request).locals = frame.locals := by
  rcases after_cases frame request with same | ⟨_, _, _, _, _, _, isLater⟩
  · rw [same]
  · rw [isLater]

theorem slots_prefix_after
    (frame : StackFrame)
    (request : Request) :
    frame.slots <+: (frame.after request).slots := by
  rcases after_cases frame request with same | ⟨_, _, _, _, _, _, isLater⟩
  · simp only [same, List.prefix_refl]
  · simp only [isLater, List.prefix_append]

/-- Each local has one slot, and no more have been given away than are reserved. -/
structure Sound (frame : StackFrame) : Prop where
  distinct : frame.slots.Nodup
  fits : frame.slots.length ≤ frame.locals

theorem Sound.after
    (sound : frame.Sound)
    (request : Request) :
    (frame.after request).Sound := by
  rcases after_cases frame request with same | ⟨id, _, _, new, room, _, isLater⟩
  · rw [same]
    exact sound
  · rw [isLater]
    exact ⟨List.nodup_append.mpr ⟨sound.distinct, by simp, by
        rintro other member _ isNew rfl
        exact new (List.mem_singleton.mp isNew ▸ member)⟩,
      by simpa [Nat.succ_le_iff] using room⟩

variable
    {number : Nat}

/-- A local that has a slot is told its address whenever it asks. -/
theorem answer_of_slotted
    (slotted : frame.slots.idxOf? id = some number)
    (name : String) :
    frame.answer (.ofLocal id name) = .ok (frame, slotAddress number) := by
  simp only [answer, slot, slotted]

/-- A frame refuses locals without a slot when all slots have been given away, and nothing else. -/
theorem answer_error_iff
    (frame : StackFrame)
    (request : Request) :
    (∃ failure, frame.answer request = .error failure) ↔
      ∃ id name, request = .ofLocal id name ∧ id ∉ frame.slots ∧
        frame.locals ≤ frame.slots.length := by
  cases request with
  | ofParameter position => simp [answer]
  | ofLocal id name =>
      have known : id ∉ frame.slots ↔ frame.slots.idxOf? id = none :=
        List.idxOf?_eq_none_iff.symm
      simp only [Request.ofLocal.injEq, answer, slot]
      cases slotted : frame.slots.idxOf? id with
      | some number => simp_all
      | none =>
          simp only
          split <;> simp_all

/-- The bytes of a frame are padded by one slot where the saved registers need it. -/
theorem size_padded
    (frame : StackFrame)
    (saved : Nat) :
    8 * frame.locals ≤ frame.size saved ∧ frame.size saved ≤ 8 * frame.locals + 8 ∧
      (frame.size saved + 8 * saved) % 16 = 0 := by
  unfold size slotSize
  dsimp only
  split <;> omega

/-!
## Histories of requests
-/

theorem afterAll_concat
    (start : StackFrame)
    (requests : List Request)
    (last : Request) :
    start.afterAll (requests ++ [last]) = (start.afterAll requests).after last := by
  simp [afterAll]

theorem locals_afterAll
    (start : StackFrame)
    (requests : List Request) :
    (start.afterAll requests).locals = start.locals := by
  induction requests using List.reverseRecOn with
  | nil => rfl
  | append_singleton requests last inductionHypothesis =>
      rw [afterAll_concat, locals_after, inductionHypothesis]

theorem slots_prefix_afterAll
    (start : StackFrame)
    (requests : List Request) :
    start.slots <+: (start.afterAll requests).slots := by
  induction requests using List.reverseRecOn with
  | nil => exact List.prefix_refl _
  | append_singleton requests last inductionHypothesis =>
      rw [afterAll_concat]
      exact inductionHypothesis.trans (slots_prefix_after _ last)

theorem Sound.afterAll
    (sound : start.Sound)
    (requests : List Request) :
    (start.afterAll requests).Sound := by
  induction requests using List.reverseRecOn with
  | nil => exact sound
  | append_singleton requests last inductionHypothesis =>
      rw [afterAll_concat]
      exact inductionHypothesis.after last

/-- A slot that a local has stays its slot when others get theirs. -/
theorem idxOf?_of_prefix
    {slots later : List VarId}
    (grown : slots <+: later)
    (slotted : slots.idxOf? id = some number) :
    later.idxOf? id = some number := by
  obtain ⟨more, rfl⟩ := grown
  unfold List.idxOf? at slotted ⊢
  rw [List.findIdx?_append, slotted]
  rfl

/-- The addresses given so far are those of the slots given away, if none was at the start. -/
theorem given_iff
    (fresh : start.slots = [])
    (requests : List Request) :
    Given start requests id address ↔
      ∃ number, (start.afterAll requests).slots.idxOf? id = some number ∧
        address = slotAddress number := by
  constructor
  · rintro ⟨earlier, name, later, frame, rfl, given⟩
    have slots : (start.afterAll (earlier ++ .ofLocal id name :: later)).slots =
        (((start.afterAll earlier).after (.ofLocal id name)).afterAll later).slots := by
      simp [afterAll]
    have isFrame : (start.afterAll earlier).after (.ofLocal id name) = frame := by
      simp only [after, given]
    have kept : frame.slots <+: (start.afterAll (earlier ++ .ofLocal id name :: later)).slots := by
      rw [slots, isFrame]
      exact slots_prefix_afterAll frame later
    rcases Emit.slot_ok given with ⟨number, slotted, rfl, rfl⟩ | ⟨new, _, rfl, rfl⟩
    · exact ⟨number, idxOf?_of_prefix kept slotted, rfl⟩
    · refine ⟨_, idxOf?_of_prefix kept ?_, rfl⟩
      unfold List.idxOf? at new ⊢
      rw [List.findIdx?_append, new]
      simp
  · rintro ⟨number, slotted, rfl⟩
    induction requests using List.reverseRecOn with
    | nil => simp [afterAll, fresh] at slotted
    | append_singleton requests last inductionHypothesis =>
        rw [afterAll_concat] at slotted
        have onward : Given start requests id (slotAddress number) →
            Given start (requests ++ [last]) id (slotAddress number) := by
          rintro ⟨earlier, name, later, frame, rfl, given⟩
          exact ⟨earlier, name, later ++ [last], frame, by simp, given⟩
        rcases after_cases (start.afterAll requests) last with
          same | ⟨newest, name, rfl, new, _, answered, isLater⟩
        · rw [same] at slotted
          exact onward (inductionHypothesis slotted)
        · rw [isLater] at slotted
          by_cases isNewest : id = newest
          · subst isNewest
            have isLast : number = (start.afterAll requests).slots.length := by
              have absent := List.idxOf?_eq_none_iff.mpr new
              unfold List.idxOf? at absent slotted
              rw [List.findIdx?_append, absent] at slotted
              simpa using slotted.symm
            exact ⟨requests, name, [], _, rfl, isLast ▸ answered⟩
          · refine onward (inductionHypothesis ?_)
            unfold List.idxOf? at slotted ⊢
            rw [List.findIdx?_append] at slotted
            simpa [List.findIdx?_cons, Ne.symm isNewest] using slotted

/-- Locals with the same slot are the same. -/
theorem eq_of_idxOf?
    {slots : List VarId}
    {other : VarId}
    (slotted : slots.idxOf? id = some number)
    (otherSlotted : slots.idxOf? other = some number) :
    id = other := by
  unfold List.idxOf? at slotted otherSlotted
  obtain ⟨_, isId, _⟩ := List.findIdx?_eq_some_iff_getElem.mp slotted
  obtain ⟨_, isOther, _⟩ := List.findIdx?_eq_some_iff_getElem.mp otherSlotted
  exact (beq_iff_eq.mp isId).symm.trans (beq_iff_eq.mp isOther)

/-- Along every history of requests a frame answers what the requests imply. -/
theorem slots_serve_requests
    (function : String)
    (locals : Nat)
    (requests : List Request) :
    Serves (reserving function locals) requests
      ((reserving function locals).afterAll requests) := by
  set start := reserving function locals
  have fresh : start.slots = [] := rfl
  have sound : (start.afterAll requests).Sound :=
    Sound.afterAll ⟨by simp [fresh], by simp [fresh]⟩ requests
  have sameLocals := locals_afterAll start requests
  have numbered : ∀ {id address}, Given start requests id address →
      ∃ number, (start.afterAll requests).slots.idxOf? id = some number ∧
        address = slotAddress number ∧ number < start.locals := by
    intro id address given
    obtain ⟨number, slotted, isAddress⟩ := (given_iff fresh requests).mp given
    have inSlots : number < (start.afterAll requests).slots.length := by
      unfold List.idxOf? at slotted
      exact (List.findIdx?_eq_some_iff_getElem.mp slotted).1
    exact ⟨number, slotted, isAddress, sameLocals ▸ Nat.lt_of_lt_of_le inSlots sound.fits⟩
  have mem_slots_iff : ∀ id, id ∈ (start.afterAll requests).slots ↔
      ∃ address, Given start requests id address := by
    intro id
    simp only [given_iff fresh requests]
    rw [← not_iff_not, ← List.idxOf?_eq_none_iff, Option.eq_none_iff_forall_ne_some]
    simp
  refine
    { stable := fun id name address given => ?_
      inside := fun id address given => ?_
      apart := fun id other offset otherOffset distinct given otherGiven => ?_
      parameter := fun position => ?_
      beside := fun id offset position given => ?_
      refused := fun request => ?_
      unchanged := fun request failure refused => ?_
      padded := fun saved => sameLocals ▸ size_padded (start.afterAll requests) saved }
  · obtain ⟨number, slotted, rfl, _⟩ := numbered given
    exact answer_of_slotted slotted name
  · obtain ⟨number, _, rfl, small⟩ := numbered given
    refine ⟨_, rfl, ?_⟩
    simp only [slotSize]
    omega
  · obtain ⟨number, slotted, isOffset, _⟩ := numbered given
    obtain ⟨otherNumber, otherSlotted, isOtherOffset, _⟩ := numbered otherGiven
    have apart : number ≠ otherNumber := by
      rintro rfl
      exact distinct (eq_of_idxOf? slotted otherSlotted)
    simp only [slotAddress, slotSize, Address.frame.injEq] at isOffset isOtherOffset
    omega
  · simp [answer, parameterAddress, slotSize]
  · obtain ⟨number, _, isOffset, _⟩ := numbered given
    simp only [slotAddress, slotSize, Address.frame.injEq] at isOffset
    omega
  · rw [answer_error_iff, sameLocals]
    refine exists_congr fun id => exists_congr fun name => and_congr_right fun _ => ?_
    rw [mem_slots_iff, not_exists]
    refine and_congr_right fun _ => ⟨fun full => ?_, ?_⟩
    · exact ⟨_, sound.distinct, Nat.le_antisymm (sameLocals ▸ sound.fits) full,
        fun other member => (mem_slots_iff other).mp member⟩
    · rintro ⟨others, distinct, isLength, given⟩
      rw [← isLength]
      exact (distinct.subperm fun other member =>
        (mem_slots_iff other).mpr (given other member)).length_le
  · rw [afterAll_concat]
    simp only [after, refused]

end StackFrame

end IlsCompiler
