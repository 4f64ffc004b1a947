import IlsCompiler.Trace.Event

namespace IlsCompiler.Trace

/-!
# The ring of recent events

A ring keeps the newest events. Until it is full each event takes a new slot;
after that it takes the slot of the oldest one, which `head` points to.
-/

/-- The newest events in slots that are used in turn. -/
structure Ring where
  capacity : Nat
  slots : Array Event
  head : Nat
deriving DecidableEq, Repr, Inhabited

namespace Ring

/-- The capacity of a ring that was asked for without one. -/
def defaultCapacity : Nat := 4096

/-- An empty ring; a capacity that is not positive stands for the default. -/
def empty (capacity : Int) : Ring :=
  { capacity := if capacity ≤ 0 then defaultCapacity else capacity.toNat, slots := #[], head := 0 }

/-- Whether every slot is taken. -/
def isFull (ring : Ring) : Bool :=
  ring.capacity ≤ ring.slots.size

/-- Record an event, in place of the oldest one if the ring is full. -/
def record (ring : Ring) (event : Event) : Ring :=
  { ring with
    slots :=
      if ring.isFull then
        ring.slots.setIfInBounds ring.head event
      else
        ring.slots.push event
    head := (ring.head + 1) % ring.capacity }

/-- The events from the oldest to the newest. -/
def toList (ring : Ring) : List Event :=
  if ring.isFull then
    ring.slots.toList.drop ring.head ++ ring.slots.toList.take ring.head
  else
    ring.slots.toList

/-- The events as they are written. -/
def text (ring : Ring) (format : Format) : String :=
  String.join (ring.toList.map format.write)

/-- Change every event that is kept. -/
def map (change : Event → Event) (ring : Ring) : Ring :=
  { ring with slots := ring.slots.map change }

end Ring

/-!
## Tracers

A tracer numbers events and spans from one, keeps the newest events in a ring and,
unless it only waits for a failure, writes each event out at once.
-/

/-- What has been recorded, and how. -/
structure Tracer where
  level : Level
  format : Format
  ring : Ring
  streamed : String
  events : Nat
  spans : Nat
deriving Repr, Inhabited

/-- An open span. -/
structure Span where
  id : Nat
  parent : Nat
  granularity : Granularity
  name : String
  extras : List (String × String)
deriving DecidableEq, Repr, Inhabited

/-- The number by which events refer to a span; a span that is not recorded has none. -/
def Span.number : Option Span → Nat
  | some span => span.id
  | none => 0

namespace Tracer

/-- A tracer that has recorded nothing. -/
def start (level : Level) (format : Format) (path : String) (capacity : Int) : Tracer :=
  { level := level, format := format.forFile path, ring := .empty capacity, streamed := "",
    events := 0, spans := 0 }

/-- A tracer that records nothing. -/
def silent : Tracer :=
  start .off .automatic "" 0

/-- The ring, unless nothing is recorded. -/
def ring? (tracer : Tracer) : Option Ring :=
  if tracer.level.isOn then
    some tracer.ring
  else
    none

/-- Record an event that the level admits. -/
def emit (tracer : Tracer) (event : Event) : Tracer :=
  if tracer.level.admits event.granularity then
    { tracer with
      ring := tracer.ring.record event
      streamed :=
        if tracer.level.streams then
          tracer.streamed ++ tracer.format.write event
        else
          tracer.streamed }
  else
    tracer

/-- Open a span, unless the level leaves it out. -/
def openSpan (tracer : Tracer) (granularity : Granularity) (name : String) (parent : Nat) :
    Tracer × Option Span :=
  if tracer.level.admits granularity then
    let id := tracer.spans + 1
    let sequence := tracer.events + 1
    ({ tracer with spans := id, events := sequence }.emit
      { sequence := sequence, kind := .opening, granularity := granularity, span := id,
        parent := parent, name := name, detail := "" },
      some { id := id, parent := parent, granularity := granularity, name := name, extras := [] })
  else
    (tracer, none)

/-- Close a span; one that was left out stays so. -/
def closeSpan (tracer : Tracer) (span : Option Span) (detail : String) : Tracer :=
  match span with
  | none => tracer
  | some opened =>
      let sequence := tracer.events + 1
      { tracer with events := sequence }.emit
        { sequence := sequence, kind := .closing, granularity := opened.granularity,
          span := opened.id, parent := opened.parent, name := opened.name, detail := detail,
          extras := opened.extras }

/-- Record a single event. -/
def point (tracer : Tracer) (granularity : Granularity) (name detail : String) (parent : Nat) :
    Tracer :=
  if tracer.level.admits granularity then
    let sequence := tracer.events + 1
    { tracer with events := sequence }.emit
      { sequence := sequence, kind := .point, granularity := granularity, span := 0,
        parent := parent, name := name, detail := detail }
  else
    tracer

/-- Set the value of a key. -/
def setExtra (extras : List (String × String)) (key value : String) : List (String × String) :=
  extras.filter (fun pair => pair.1 != key) ++ [(key, value)]

/--
Attach a pair to a span. It shows in the event that closes the span, and in the ring
also in events that closed it before and already carried extras.
-/
def attach (tracer : Tracer) (span : Span) (key value : String) : Tracer × Span :=
  let after := { span with extras := setExtra span.extras key value }
  let amend := fun (event : Event) =>
    if event.span = span.id && event.kind = .closing && !event.extras.isEmpty then
      { event with extras := after.extras }
    else
      event
  ({ tracer with ring := tracer.ring.map amend }, after)

end Tracer

end IlsCompiler.Trace
