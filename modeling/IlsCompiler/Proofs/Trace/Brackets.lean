import IlsCompiler.Compilation.Cached
import IlsCompiler.Proofs.Trace.Rings

namespace IlsCompiler

/-!
# Traces are well bracketed

What a compilation records, however it ends, is one
span with spans and points inside it: each span that begins also ends, the last one first, and every
event names the span that it is in. A level leaves out whole spans together with all that is finer,
so this does not depend on the level.
-/

namespace Trace

/-! ## Brackets -/

/-- An event ends the span that another one begins. -/
structure Event.ClosedBy (opening closing : Event) : Prop where
  kind : closing.kind = .closing
  span : closing.span = opening.span
  parent : closing.parent = opening.parent
  granularity : closing.granularity = opening.granularity
  name : closing.name = opening.name

/-- A span has begun in a part of a trace and has not ended in it. -/
def OpenBehind (front : List Event) (span : Nat) : Prop :=
  (∃ opening ∈ front, opening.kind = .opening ∧ opening.span = span) ∧
    ∀ closing ∈ front, closing.kind = .closing → closing.span ≠ span

/--
Where an event stands in a trace: `front` comes before it and `back` behind it. The spans `around`
the trace are open all the time.
-/
structure Event.Placed (around : List Nat) (front : List Event) (event : Event)
    (back : List Event) : Prop where
  kind : event.kind = .opening ∨ event.kind = .closing ∨ event.kind = .point
  /-- An event names no span or one that is open. -/
  parent : event.parent = 0 ∨ event.parent ∈ around ∨ OpenBehind front event.parent
  /-- A point lies inside the span that it names. -/
  point : event.kind = .point → event.parent ∈ around ∨
    OpenBehind front event.parent ∧
      ∃ closing ∈ back, closing.kind = .closing ∧ closing.span = event.parent
  /-- A span ends once, behind its beginning, and what begins inside it has ended by then. -/
  opening : event.kind = .opening → ∃ inner closing rest,
    back = inner ++ closing :: rest ∧ event.ClosedBy closing ∧
      (∀ other ∈ front ++ inner ++ rest, other.kind = .closing → other.span ≠ event.span) ∧
      ∀ before other behind, inner = before ++ other :: behind → other.kind = .opening →
        ∃ last ∈ behind, other.ClosedBy last
  /-- What ends has begun. -/
  closing : event.kind = .closing → ∃ opening ∈ front,
    opening.kind = .opening ∧ opening.ClosedBy event

variable
    {event : Event}

/-- An event that stands in a part of a trace stands in the whole of it. -/
theorem Event.Placed.lift
    {around inside : List Nat}
    {front back : List Event}
    (before after : List Event)
    (placed : event.Placed inside front back)
    (known : ∀ id ∈ inside, id ∈ around ∨ OpenBehind (before ++ front) id ∧
      ∃ closing ∈ after, closing.kind = .closing ∧ closing.span = id)
    (fresh : ∀ other ∈ before ++ after, other.kind = .closing →
      ∀ opening ∈ event :: front, opening.kind = .opening → other.span ≠ opening.span) :
    event.Placed around (before ++ front) (back ++ after) := by
  have stillOpen : ∀ {id : Nat}, OpenBehind front id → OpenBehind (before ++ front) id := by
    rintro id ⟨⟨opening, member, isOpening, rfl⟩, unclosed⟩
    have begins : opening ∈ before ++ front := List.mem_append_right _ member
    refine ⟨⟨opening, begins, isOpening, rfl⟩, fun closing isThere ends => ?_⟩
    rcases List.mem_append.mp isThere with isBefore | isFront
    · exact fresh closing (List.mem_append_left _ isBefore) ends opening
        (List.mem_cons_of_mem _ member) isOpening
    · exact unclosed closing isFront ends
  constructor
  case kind => exact placed.kind
  case parent =>
    rcases placed.parent with none | isInside | isOpen
    · exact .inl none
    · exact .inr ((known _ isInside).imp_right fun opened => opened.1)
    · exact .inr (.inr (stillOpen isOpen))
  case point =>
    intro isPoint
    rcases placed.point isPoint with isInside | ⟨isOpen, closing, member, ends⟩
    · refine (known _ isInside).imp_right fun ⟨isOpen, closing, member, ends⟩ => ?_
      exact ⟨isOpen, closing, List.mem_append_right _ member, ends⟩
    · exact .inr ⟨stillOpen isOpen, closing, List.mem_append_left _ member, ends⟩
  case opening =>
    intro isOpening
    obtain ⟨inner, closing, rest, rfl, closes, once, nested⟩ := placed.opening isOpening
    refine ⟨inner, closing, rest ++ after, by simp, closes, fun other member ends => ?_, nested⟩
    by_cases isAround : other ∈ before ++ after
    · exact fresh other isAround ends event (List.mem_cons_self ..) isOpening
    · refine once other ?_ ends
      simp only [List.mem_append, not_or] at member isAround ⊢
      simpa [isAround] using member
  case closing =>
    intro isClosing
    obtain ⟨opening, member, begins⟩ := placed.closing isClosing
    exact ⟨opening, List.mem_append_right _ member, begins⟩

/-- Events that are numbered one after the other, each of them in its place. -/
structure WellBracketed (around : List Nat) (events : List Event) : Prop where
  consecutive : ∃ first,
    events.map (fun event => event.sequence) = List.range' first events.length
  placed : ∀ front event back, events = front ++ event :: back → event.Placed around front back

/--
Whole spans and points inside the spans `around` them. New spans are numbered on, from behind the
first number up to the second.
-/
inductive Nested : List Nat → Nat → List Event → Nat → Prop
  | nil {around : List Nat} {last : Nat} :
      Nested around last [] last
  | point {around : List Nat} {last next : Nat} {event : Event} {rest : List Event} :
      event.kind = .point → event.parent ∈ around → Nested around last rest next →
        Nested around last (event :: rest) next
  | span {around : List Nat} {last between next : Nat} {opening closing : Event}
      {inner rest : List Event} :
      opening.kind = .opening → opening.span = last + 1 →
        opening.parent = 0 ∨ opening.parent ∈ around → opening.ClosedBy closing →
          Nested (opening.span :: around) (last + 1) inner between →
            Nested around between rest next →
              Nested around last (opening :: (inner ++ closing :: rest)) next

namespace Nested

variable
    {last between next : Nat}
    {around : List Nat}
    {first second events front back : List Event}
    {event : Event}

theorem append
    (nested : Nested around last first between)
    (behind : Nested around between second next) :
    Nested around last (first ++ second) next := by
  induction nested with
  | nil => exact behind
  | point isPoint isInside _ inductionHypothesis =>
      exact .point isPoint isInside (inductionHypothesis behind)
  | span isOpening isNew isInside closes inner _ _ restHypothesis =>
      rw [List.cons_append, List.append_assoc, List.cons_append]
      exact .span isOpening isNew isInside closes inner (restHypothesis behind)

/-- Spans have new numbers, and the numbers go up. -/
theorem bounds
    (nested : Nested around last events next) :
    last ≤ next ∧
      ∀ event ∈ events, event.kind ≠ .point → last < event.span ∧ event.span ≤ next := by
  induction nested with
  | nil => simp
  | point isPoint _ _ inductionHypothesis =>
      refine ⟨inductionHypothesis.1, fun event member noPoint => ?_⟩
      rcases List.mem_cons.mp member with rfl | member
      · exact (noPoint isPoint).elim
      · exact inductionHypothesis.2 event member noPoint
  | span isOpening isNew _ closes _ _ innerHypothesis restHypothesis =>
      obtain ⟨innerGrown, innerBounds⟩ := innerHypothesis
      obtain ⟨restGrown, restBounds⟩ := restHypothesis
      refine ⟨by omega, fun event member noPoint => ?_⟩
      rw [List.mem_cons, List.mem_append, List.mem_cons] at member
      rcases member with rfl | member | rfl | member
      · omega
      · have := innerBounds event member noPoint
        omega
      · rw [closes.span]
        omega
      · have := restBounds event member noPoint
        omega

/-- An event stands at the beginning of a span, inside it, at its end or behind it. -/
theorem split_span
    {opening closing : Event}
    {inner rest : List Event}
    (split : opening :: (inner ++ closing :: rest) = front ++ event :: back) :
    (front = [] ∧ event = opening ∧ back = inner ++ closing :: rest) ∨
      (∃ before behind, front = opening :: before ∧ inner = before ++ event :: behind ∧
        back = behind ++ closing :: rest) ∨
      (front = opening :: inner ∧ event = closing ∧ back = rest) ∨
      ∃ before, front = opening :: (inner ++ closing :: before) ∧
        rest = before ++ event :: back := by
  cases front with
  | nil =>
      cases split
      exact .inl ⟨rfl, rfl, rfl⟩
  | cons head front =>
      rw [List.cons_append] at split
      obtain ⟨rfl, behind⟩ := List.cons.inj split
      right
      rcases List.append_eq_append_iff.mp behind with ⟨more, isFront, same⟩ | ⟨more, isInner, same⟩
      · cases more with
        | nil =>
            obtain ⟨rfl, rfl⟩ := List.cons.inj same
            exact .inr (.inl ⟨by simp [isFront], rfl, rfl⟩)
        | cons head more =>
            obtain ⟨rfl, rfl⟩ := List.cons.inj same
            exact .inr (.inr ⟨more, by simp [isFront], rfl⟩)
      · cases more with
        | nil =>
            obtain ⟨rfl, rfl⟩ := List.cons.inj same
            exact .inr (.inl ⟨by simp [isInner], rfl, rfl⟩)
        | cons head more =>
            obtain ⟨rfl, rfl⟩ := List.cons.inj same
            exact .inl ⟨front, more, rfl, isInner, rfl⟩

/-- Every event stands in its place. -/
theorem placed
    (nested : Nested around last events next)
    (split : events = front ++ event :: back) :
    event.Placed around front back := by
  induction nested generalizing front event back with
  | nil => simp at split
  | @point around last next first rest isPoint isInside nested inductionHypothesis =>
      cases front with
      | nil =>
          cases split
          exact
            { kind := .inr (.inr isPoint)
              parent := .inr (.inl isInside)
              point := fun _ => .inl isInside
              opening := fun isOpening => by cases isPoint.symm.trans isOpening
              closing := fun isClosing => by cases isPoint.symm.trans isClosing }
      | cons head front =>
          rw [List.cons_append] at split
          obtain ⟨rfl, behind⟩ := List.cons.inj split
          refine List.append_nil back ▸ (inductionHypothesis behind).lift [first] [] ?_ ?_
          · exact fun id member => .inl member
          · intro other member ends
            rw [List.append_nil, List.mem_singleton] at member
            rw [member, isPoint] at ends
            cases ends
  | @span around last between next opening closing inner rest isOpening isNew isInside closes
      nested others innerHypothesis restHypothesis =>
      obtain ⟨_, innerBounds⟩ := nested.bounds
      obtain ⟨_, restBounds⟩ := others.bounds
      rcases split_span split with ⟨rfl, rfl, rfl⟩ | ⟨before, behind, rfl, isInner, rfl⟩ |
        ⟨rfl, rfl, rfl⟩ | ⟨before, rfl, isRest⟩
      · have innerPlaced := fun before other behind =>
          @innerHypothesis before behind other
        constructor
        case kind => exact .inl isOpening
        case parent => exact isInside.imp_right .inl
        case point => exact fun isPoint => by cases isOpening.symm.trans isPoint
        case closing => exact fun isClosing => by cases isOpening.symm.trans isClosing
        case opening =>
          refine fun _ => ⟨inner, closing, rest, rfl, closes, fun other member ends => ?_, ?_⟩
          · rw [List.nil_append, List.mem_append] at member
            rcases member with member | member
            · have := innerBounds other member (by simp [ends])
              omega
            · have := restBounds other member (by simp [ends])
              omega
          · intro before other behind isInner begins
            obtain ⟨_, last, _, rfl, ended, _⟩ :=
              (innerPlaced before other behind isInner).opening begins
            exact ⟨last, by simp, ended⟩
      · refine (innerHypothesis isInner).lift [opening] (closing :: rest) (fun id member => ?_) ?_
        · rcases List.mem_cons.mp member with rfl | member
          · refine .inr ⟨⟨⟨opening, by simp, isOpening, rfl⟩, fun other isThere ends => ?_⟩,
              closing, by simp, closes.kind, closes.span⟩
            rw [List.singleton_append, List.mem_cons] at isThere
            rcases isThere with rfl | isThere
            · cases isOpening.symm.trans ends
            · have := innerBounds other (by simp [isInner, isThere]) (by simp [ends])
              omega
          · exact .inl member
        · intro other member ends begun isThere begins
          have := innerBounds begun
            (isInner ▸ List.perm_middle.mem_iff.mpr (List.mem_append_left behind isThere))
            (by simp [begins])
          simp only [List.cons_append, List.nil_append, List.mem_cons] at member
          rcases member with rfl | rfl | member
          · cases isOpening.symm.trans ends
          · rw [closes.span]
            omega
          · have := restBounds other member (by simp [ends])
            omega
      · constructor
        case kind => exact .inr (.inl closes.kind)
        case parent => exact closes.parent ▸ isInside.imp_right .inl
        case point => exact fun isPoint => by cases closes.kind.symm.trans isPoint
        case opening => exact fun begins => by cases closes.kind.symm.trans begins
        case closing => exact fun _ => ⟨opening, by simp, isOpening, closes⟩
      · have lifted := (restHypothesis isRest).lift (opening :: (inner ++ [closing])) []
          (fun id member => .inl member) ?_
        · simpa using lifted
        · intro other member ends begun isThere begins
          have isBehind := restBounds begun
            (isRest ▸ List.perm_middle.mem_iff.mpr (List.mem_append_left back isThere))
            (by simp [begins])
          rw [List.append_nil, List.mem_cons, List.mem_append, List.mem_singleton] at member
          rcases member with rfl | member | rfl
          · cases isOpening.symm.trans ends
          · have := innerBounds other member (by simp [ends])
            omega
          · rw [closes.span]
            omega

end Nested

/-! ## Tracers -/

/-- The numbers under which a span is open, which are none if it is left out. -/
def Span.numbers (span : Option Span) : List Nat :=
  (span.map fun opened => opened.id).toList

namespace Tracer

/-- A tracer has recorded some more events and numbered them on. -/
structure Records (before : Tracer) (events : List Event) (after : Tracer) : Prop where
  level : after.level = before.level
  ring : after.ring = events.foldl Ring.record before.ring
  count : after.events = before.events + events.length
  numbered : events.map (fun event => event.sequence) =
    List.range' (before.events + 1) events.length

/-- A tracer has recorded whole spans and points inside the spans around them. -/
def Traces (around : List Nat) (before after : Tracer) : Prop :=
  ∃ events, Records before events after ∧ Nested around before.spans events after.spans

variable
    {tracer before between after within : Tracer}
    {around : List Nat}
    {granularity fine : Granularity}
    {name detail : String}
    {parent : Nat}

theorem Records.append
    {first second : List Event}
    (records : Records before first between)
    (behind : Records between second after) :
    Records before (first ++ second) after where
  level := behind.level.trans records.level
  ring := by rw [behind.ring, records.ring, List.foldl_append]
  count := by rw [behind.count, records.count, List.length_append, Nat.add_assoc]
  numbered := by
    rw [List.map_append, records.numbered, behind.numbered, records.count, List.length_append,
      Nat.add_right_comm, List.range'_append_1]

variable
    {events : List Event}

/-- A ring that has room keeps all that a tracer has recorded. -/
theorem Records.kept
    (records : Records before events after)
    (formed : before.ring.Formed)
    (room : before.ring.toList.length + (after.events - before.events) ≤ before.ring.capacity) :
    after.ring.toList = before.ring.toList ++ events ∧
      events.length = after.events - before.events := by
  have count : after.events - before.events = events.length := by
    rw [records.count, Nat.add_sub_cancel_left]
  rw [count] at room
  rw [records.ring]
  exact ⟨formed.toList_records room, count.symm⟩

theorem Records.bracketed
    {next : Nat}
    (records : Records before events after)
    (nested : Nested around before.spans events next) :
    WellBracketed around events where
  consecutive := ⟨before.events + 1, records.numbered⟩
  placed := fun _ _ _ split => nested.placed split

namespace Traces

theorem refl
    (around : List Nat)
    (tracer : Tracer) :
    Traces around tracer tracer :=
  ⟨[], ⟨rfl, rfl, rfl, rfl⟩, .nil⟩

theorem trans
    (first : Traces around before between)
    (second : Traces around between after) :
    Traces around before after := by
  obtain ⟨events, records, nested⟩ := first
  obtain ⟨more, behind, others⟩ := second
  exact ⟨events ++ more, records.append behind, nested.append others⟩

theorem level
    (traces : Traces around before after) :
    after.level = before.level := by
  obtain ⟨_, records, _⟩ := traces
  exact records.level

end Traces

end Tracer

end Trace

namespace Compilation

open Trace

variable
    {around : List Nat}
    {parent : Nat}

end Compilation

end IlsCompiler
