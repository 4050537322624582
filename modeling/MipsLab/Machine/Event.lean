import MipsLab.Machine.State

/-!
# Events

What observers of a machine are told, and the queues in which it waits for them. An observer may
bound its queue and then misses what finds the queue full. An observer that has left is forgotten at
the next event.
-/

namespace MipsLab

/-- What observers are told. -/
inductive Event
  | loaded (entry : Address)
  | executed (pc : Address)
  | heapGrew (old new : Address)
  | paused (reason : PauseReason)
  | halted (reason : HaltReason)
  | faulted (fault : Fault)
  | readCancelled (pc : Address)
  deriving DecidableEq, Repr

/-- The event of a machine at `pc` entering a state, if there is one. -/
def Event.ofState? (pc : Address) : ExecState → Option Event
  | .loaded | .running => none
  | .paused .readCancelled => some (readCancelled pc)
  | .paused reason => some (paused reason)
  | .halted reason => some (halted reason)
  | .faulted fault => some (faulted fault)

/-- An observer. -/
structure Subscriber where
  id : Nat
  /-- The greatest number of waiting events, if there is one. -/
  capacity : Option Nat
  /-- The waiting events, in order. -/
  queue : Array Event := #[]
  /-- Whether the observer has left. -/
  hasLeft : Bool := false
  deriving DecidableEq, Repr

namespace Subscriber

def hasRoom (s : Subscriber) : Bool := s.capacity.all (s.queue.size < ·)

/-- Puts an event into the queue, if there is room. -/
def offer (event : Event) (s : Subscriber) : Subscriber :=
  if s.hasRoom then { s with queue := s.queue.push event } else s

/-- Empties the queue for good. -/
def leave (s : Subscriber) : Subscriber := { s with queue := #[], hasLeft := true }

end Subscriber

/-- The observers of a machine. -/
structure EventBus where
  subscribers : List Subscriber := []
  /-- How many observers there have been. -/
  issued : Nat := 0
  deriving DecidableEq, Repr

namespace EventBus

/-- Adds an observer, and tells its number. -/
def subscribe (b : EventBus) (capacity : Option Nat) : Nat × EventBus :=
  (b.issued,
    { subscribers := b.subscribers ++ [{ id := b.issued, capacity }], issued := b.issued + 1 })

/-- Whether events are emitted to anybody, as far as is known. -/
def isObserved (b : EventBus) : Bool := !b.subscribers.isEmpty

/-- Tells an event to all observers, and forgets those that have left. -/
def emit (b : EventBus) (event : Event) : EventBus :=
  { b with subscribers := (b.subscribers.filter (!·.hasLeft)).map (Subscriber.offer event) }

def modify (b : EventBus) (id : Nat) (change : Subscriber → Subscriber) : EventBus :=
  { b with subscribers := b.subscribers.map fun s => if s.id = id then change s else s }

def leave (b : EventBus) (id : Nat) : EventBus := b.modify id Subscriber.leave

/-- The observer with a number, unless it has left. -/
def find? (b : EventBus) (id : Nat) : Option Subscriber :=
  b.subscribers.find? fun s => s.id = id && !s.hasLeft

/-- Takes all waiting events of an observer. -/
def drain (b : EventBus) (id : Nat) : Option (List Event) × EventBus :=
  ((b.find? id).map (·.queue.toList), b.modify id fun s => { s with queue := #[] })

/-- Takes the first waiting event of an observer. -/
def takeOne (b : EventBus) (id : Nat) : Option Event × EventBus :=
  ((b.find? id).bind (·.queue[0]?),
    b.modify id fun s => { s with queue := s.queue.extract 1 s.queue.size })

end EventBus

end MipsLab
