import MipsLab.Proofs.Delivery

/-!
# Subscriptions

Observers of an event bus come, take events and leave in any order, between events that are emitted.
What becomes of one of them depends on its own capacity, on the events emitted since it has come,
and on what it takes itself. It misses exactly the events that find its queue full.

1. `EventBus.Operation`, `EventBus.perform`: what may be done with a bus.
2. `Subscriber.after`: the same, for one observer alone.
3. `Subscriber.receives_append_queue`, `Subscriber.size_le_capacity`: what an observer gets.
4. `EventBus.find?_performAll`, `EventBus.receives_eq`: the bus does to each observer what is done
   to it alone.
5. `EventBus.performAll_isObserved`: how long the bus knows somebody.
6. `EventBus.subscriptions_exact`: all of it together.
-/

namespace MipsLab

namespace EventBus

/-! ## Operations -/

/-- What may be done with an event bus. -/
inductive Operation
  /-- An observer comes, with a bound or without. -/
  | subscribe (capacity : Option Nat)
  | leave (id : Nat)
  | emit (event : Event)
  /-- An observer takes all events that wait for it. -/
  | drain (id : Nat)
  /-- An observer takes the first event that waits for it. -/
  | takeOne (id : Nat)
  deriving DecidableEq, Repr

def Operation.emitted? : Operation → Option Event
  | emit event => some event
  | _ => none

def perform (b : EventBus) : Operation → EventBus
  | .subscribe capacity => (b.subscribe capacity).2
  | .leave id => b.leave id
  | .emit event => b.emit event
  | .drain id => (b.drain id).2
  | .takeOne id => (b.takeOne id).2

def performAll (b : EventBus) (operations : List Operation) : EventBus := operations.foldl perform b

/-- The events that an observer takes in an operation. -/
def taken (b : EventBus) (id : Nat) : Operation → List Event
  | .drain other => if other = id then (b.drain id).1.getD [] else []
  | .takeOne other => if other = id then (b.takeOne id).1.toList else []
  | .subscribe _ | .leave _ | .emit _ => []

/-- The events that an observer takes in some operations, in order. -/
def receives (id : Nat) : EventBus → List Operation → List Event
  | _, [] => []
  | b, operation :: rest => b.taken id operation ++ receives id (b.perform operation) rest

/-- The events that wait for an observer. -/
def held (b : EventBus) (id : Nat) : List Event :=
  ((b.find? id).map (·.queue.toList)).getD []

/-- The events that are emitted, each with the number of events that wait for an observer then. -/
def offers (id : Nat) : EventBus → List Operation → List (Event × Nat)
  | _, [] => []
  | b, operation :: rest =>
    (operation.emitted?.map fun event => (event, (b.held id).length)).toList ++
      offers id (b.perform operation) rest

end EventBus

/-! ## One observer -/

/-- What may happen to an observer that stays. -/
inductive Happening
  | told (event : Event)
  | drains
  | takesOne
  deriving DecidableEq, Repr

/-- What an operation on the bus is for an observer, if it is anything. -/
def EventBus.Operation.happening? (id : Nat) : Operation → Option Happening
  | emit event => some (.told event)
  | drain other => if other = id then some .drains else none
  | takeOne other => if other = id then some .takesOne else none
  | subscribe _ | leave _ => none

namespace Subscriber

def after (s : Subscriber) : Happening → Subscriber
  | .told event => s.offer event
  | .drains => { s with queue := #[] }
  | .takesOne => { s with queue := s.queue.extract 1 s.queue.size }

def afterAll (s : Subscriber) (happenings : List Happening) : Subscriber :=
  happenings.foldl after s

def takes (s : Subscriber) : Happening → List Event
  | .told _ => []
  | .drains => s.queue.toList
  | .takesOne => s.queue[0]?.toList

def receives : Subscriber → List Happening → List Event
  | _, [] => []
  | s, happening :: rest => s.takes happening ++ receives (s.after happening) rest

def offers : Subscriber → List Happening → List (Event × Nat)
  | _, [] => []
  | s, .told event :: rest => (event, s.queue.size) :: offers (s.offer event) rest
  | s, happening :: rest => offers (s.after happening) rest

variable {s : Subscriber}

theorem offer_capacity (s : Subscriber) (event : Event) :
    (s.offer event).capacity = s.capacity := by
  unfold offer
  split <;> rfl

theorem after_capacity (s : Subscriber) (happening : Happening) :
    (s.after happening).capacity = s.capacity := by
  cases happening with
  | told event => exact s.offer_capacity event
  | drains | takesOne => rfl

/-- An observer that takes an event takes the first. -/
theorem takesOne_append (s : Subscriber) :
    s.queue[0]?.toList ++ (s.queue.extract 1 s.queue.size).toList = s.queue.toList := by
  obtain ⟨id, capacity, ⟨queue⟩, hasLeft⟩ := s
  cases queue <;> simp

theorem offer_queue (s : Subscriber) (event : Event) :
    (s.offer event).queue.toList =
      s.queue.toList ++ if s.capacity.all (s.queue.size < ·) then [event] else [] := by
  unfold offer hasRoom
  split
  · exact Array.toList_push
  · exact (List.append_nil _).symm

/-- What an observer receives and what still waits for it are the events that have waited before,
and of those that it is told all that do not find its queue full. -/
theorem receives_append_queue (s : Subscriber) (happenings : List Happening) :
    s.receives happenings ++ (s.afterAll happenings).queue.toList =
      s.queue.toList ++
        ((s.offers happenings).filter fun offer => s.capacity.all (offer.2 < ·)).map Prod.fst := by
  induction happenings generalizing s with
  | nil => exact (List.append_nil _).symm
  | cons happening rest ih =>
    have hrest := ih (s.after happening)
    rw [after_capacity] at hrest
    have hsplit : s.receives (happening :: rest) ++ (s.afterAll (happening :: rest)).queue.toList =
        s.takes happening ++ ((s.after happening).receives rest ++
          ((s.after happening).afterAll rest).queue.toList) := List.append_assoc ..
    rw [hsplit, hrest, ← List.append_assoc]
    cases happening with
    | told event =>
      rw [takes, List.nil_append, after, offer_queue, offers, List.filter_cons, List.append_assoc]
      split <;> rfl
    | drains =>
      rw [takes, after, offers]
      · exact congrArg (· ++ _) (List.append_nil _)
      · nofun
    | takesOne =>
      rw [takes, after, offers]
      · exact congrArg (· ++ _) s.takesOne_append
      · nofun

theorem offer_size_le {capacity : Nat} (hcapacity : s.capacity = some capacity)
    (h : s.queue.size ≤ capacity) (event : Event) : (s.offer event).queue.size ≤ capacity := by
  unfold offer
  split
  · next hroom =>
    rw [hasRoom, hcapacity] at hroom
    rw [Array.size_push]
    exact of_decide_eq_true hroom
  · exact h

/-- A queue with a bound never holds more. -/
theorem size_le_capacity {capacity : Nat} (hcapacity : s.capacity = some capacity)
    (h : s.queue.size ≤ capacity) (happenings : List Happening) :
    (s.afterAll happenings).queue.size ≤ capacity := by
  unfold afterAll
  induction happenings generalizing s with
  | nil => exact h
  | cons happening rest ih =>
    refine ih ((s.after_capacity happening).trans hcapacity) ?_
    cases happening with
    | told event => exact offer_size_le hcapacity h event
    | drains => exact Nat.zero_le _
    | takesOne =>
      have hsize : (s.after .takesOne).queue.size = s.queue.size - 1 := by simp [after]
      rw [hsize]
      exact Nat.le_trans (Nat.sub_le _ _) h

/-- What an observer gets depends on its bound and its queue alone. -/
theorem receives_congr (s s' : Subscriber) (hcapacity : s'.capacity = s.capacity)
    (hqueue : s'.queue = s.queue) (happenings : List Happening) :
    s'.receives happenings = s.receives happenings ∧
      (s'.afterAll happenings).queue = (s.afterAll happenings).queue := by
  induction happenings generalizing s s' with
  | nil => exact ⟨rfl, hqueue⟩
  | cons happening rest ih =>
    have htakes : s'.takes happening = s.takes happening := by
      cases happening <;> simp only [takes, hqueue]
    have hnext : (s'.after happening).queue = (s.after happening).queue := by
      cases happening with
      | told event =>
        have hroom : s'.hasRoom = s.hasRoom := by rw [hasRoom, hasRoom, hcapacity, hqueue]
        show (s'.offer event).queue = (s.offer event).queue
        unfold offer
        rw [hroom]
        split
        · exact congrArg (·.push event) hqueue
        · exact hqueue
      | drains => rfl
      | takesOne => simp only [after, hqueue]
    have hrest := ih _ _ (by rw [after_capacity, after_capacity, hcapacity]) hnext
    exact ⟨by rw [receives, receives, htakes, hrest.1], hrest.2⟩

end Subscriber

namespace EventBus

variable {b : EventBus} {id : Nat} {s : Subscriber} {operations : List Operation}

/-! ## One observer among others -/

namespace Numbered

theorem perform (h : b.Numbered) (operation : Operation) : (b.perform operation).Numbered := by
  cases operation with
  | subscribe capacity => exact h.subscribe capacity
  | leave id => exact h.modify Subscriber.leave (fun _ => rfl) id
  | emit event => exact h.emit event
  | drain id => exact h.modify (·.after .drains) (fun _ => rfl) id
  | takeOne id => exact h.modify (·.after .takesOne) (fun _ => rfl) id

theorem performAll (h : b.Numbered) (operations : List Operation) :
    (b.performAll operations).Numbered := by
  unfold EventBus.performAll
  induction operations generalizing b with
  | nil => exact h
  | cons operation rest ih => exact ih (h.perform operation)

/-- There is nobody at first. -/
theorem empty : Numbered {} := nofun

end Numbered

/-- An observer notices what is done to it, and nothing that is done to another. -/
theorem find?_modify (change : Subscriber → Subscriber)
    (hchange : ∀ s, (change s).id = s.id ∧ (change s).hasLeft = s.hasLeft)
    (h : b.find? id = some s) (other : Nat) :
    (b.modify other change).find? id = some (if other = id then change s else s) := by
  split
  · next hother =>
    subst hother
    rw [find?_modify_self change hchange, h, Option.map_some]
  · next hother => exact (find?_modify_other change (fun s => (hchange s).1) hother b).trans h

/-- An operation does to an observer what it is for it. -/
theorem find?_perform (h : b.find? id = some s) {operation : Operation}
    (hstays : operation ≠ .leave id) :
    (b.perform operation).find? id = some ((operation.happening? id).elim s s.after) := by
  cases operation with
  | subscribe capacity => exact find?_subscribe capacity h
  | leave other =>
    have hne : other ≠ id := fun hother => hstays (congrArg Operation.leave hother)
    exact (find?_modify_other Subscriber.leave (fun _ => rfl) hne b).trans h
  | emit event => exact (find?_emit b event id).trans (congrArg _ h)
  | drain other =>
    refine (find?_modify (·.after .drains) (fun _ => ⟨rfl, rfl⟩) h other).trans ?_
    rw [Operation.happening?]
    split <;> rfl
  | takeOne other =>
    refine (find?_modify (·.after .takesOne) (fun _ => ⟨rfl, rfl⟩) h other).trans ?_
    rw [Operation.happening?]
    split <;> rfl

theorem taken_eq (h : b.find? id = some s) (operation : Operation) :
    b.taken id operation = ((operation.happening? id).map s.takes).getD [] := by
  cases operation with
  | subscribe capacity | leave other | emit event => rfl
  | drain other =>
    rw [taken, drain, Operation.happening?]
    split
    · rw [h]
      rfl
    · rfl
  | takeOne other =>
    rw [taken, takeOne, Operation.happening?]
    split
    · rw [h]
      rfl
    · rfl

theorem held_eq (h : b.find? id = some s) : b.held id = s.queue.toList := by
  rw [held, h]
  rfl

/-- While an observer stays, the bus does to it what is done to it alone. -/
theorem find?_performAll (h : b.find? id = some s) (hstays : .leave id ∉ operations) :
    (b.performAll operations).find? id =
      some (s.afterAll (operations.filterMap (·.happening? id))) := by
  unfold performAll
  induction operations generalizing b s with
  | nil => exact h
  | cons operation rest ih =>
    obtain ⟨hne, hrest⟩ := List.ne_and_not_mem_of_not_mem_cons hstays
    have hnext := ih (find?_perform h hne.symm) hrest
    rw [List.foldl_cons, hnext, List.filterMap_cons]
    cases operation.happening? id <;> rfl

theorem receives_eq (h : b.find? id = some s) (hstays : .leave id ∉ operations) :
    b.receives id operations = s.receives (operations.filterMap (·.happening? id)) := by
  induction operations generalizing b s with
  | nil => rfl
  | cons operation rest ih =>
    obtain ⟨hne, hrest⟩ := List.ne_and_not_mem_of_not_mem_cons hstays
    rw [receives, ih (find?_perform h hne.symm) hrest, taken_eq h, List.filterMap_cons]
    cases operation.happening? id <;> rfl

theorem offers_eq (h : b.find? id = some s) (hstays : .leave id ∉ operations) :
    b.offers id operations = s.offers (operations.filterMap (·.happening? id)) := by
  induction operations generalizing b s with
  | nil => rfl
  | cons operation rest ih =>
    obtain ⟨hne, hrest⟩ := List.ne_and_not_mem_of_not_mem_cons hstays
    rw [offers, ih (find?_perform h hne.symm) hrest, held_eq h, List.filterMap_cons]
    cases operation with
    | emit event => rfl
    | subscribe capacity | leave other => rfl
    | drain other | takeOne other =>
      rw [Operation.happening?]
      split <;> rfl

/-- The events that are emitted do not depend on the observers. -/
theorem map_fst_offers (id : Nat) (b : EventBus) (operations : List Operation) :
    (b.offers id operations).map Prod.fst = operations.filterMap (·.emitted?) := by
  induction operations generalizing b with
  | nil => rfl
  | cons operation rest ih =>
    rw [offers, List.map_append, ih, List.filterMap_cons]
    cases operation.emitted? <;> rfl

/-- The bus issues the numbers one after the other. -/
theorem exists_subscribe (hfrom : b.issued ≤ id) (h : id < (b.performAll operations).issued) :
    ∃ before capacity later, operations = before ++ .subscribe capacity :: later ∧
      (b.performAll before).issued = id := by
  unfold performAll at h ⊢
  induction operations generalizing b with
  | nil => exact absurd h (Nat.not_lt.mpr hfrom)
  | cons operation rest ih =>
    rw [List.foldl_cons] at h
    have hrest (hfrom : (b.perform operation).issued ≤ id) :
        ∃ before capacity later, operation :: rest = before ++ .subscribe capacity :: later ∧
          (before.foldl perform b).issued = id := by
      obtain ⟨before, capacity, later, rfl, hid⟩ := ih hfrom h
      exact ⟨operation :: before, capacity, later, rfl, hid⟩
    cases operation with
    | subscribe capacity =>
      rcases Nat.eq_or_lt_of_le hfrom with hid | hlt
      · exact ⟨[], capacity, rest, rfl, hid⟩
      · exact hrest hlt
    | leave | emit | drain | takeOne => exact hrest hfrom

/-! ## Being known -/

/-- Whether the observers of a number that the bus knows have left. There is one at most. -/
def standing (b : EventBus) (id : Nat) : List Bool :=
  (b.subscribers.filter (·.id = id)).map (·.hasLeft)

theorem standing_emit (b : EventBus) (event : Event) (id : Nat) :
    (b.emit event).standing id = (b.standing id).filter (!·) := by
  unfold standing emit
  simp only [List.filter_map, List.filter_filter, List.map_map, Function.comp_def, offer_id,
    offer_hasLeft, Bool.and_comm]

theorem standing_modify (change : Subscriber → Subscriber) (left : Bool → Bool)
    (hchange : ∀ s, (change s).id = s.id ∧ (change s).hasLeft = left s.hasLeft) (b : EventBus)
    (other id : Nat) :
    (b.modify other change).standing id =
      if other = id then (b.standing id).map left else b.standing id := by
  have hid (s : Subscriber) : (if s.id = other then change s else s).id = s.id := by
    split
    · exact (hchange s).1
    · rfl
  unfold standing modify
  simp only [List.filter_map, List.map_map, Function.comp_def, hid]
  split
  · next hother =>
    subst hother
    refine List.map_congr_left fun s hs => ?_
    have hs := of_decide_eq_true (List.mem_filter.mp hs).2
    rw [if_pos hs, (hchange s).2]
  · next hother =>
    refine List.map_congr_left fun s hs => ?_
    have hs := of_decide_eq_true (List.mem_filter.mp hs).2
    rw [if_neg fun h => hother (h.symm.trans hs)]

theorem standing_subscribe (capacity : Option Nat) (h : id < b.issued) :
    (b.subscribe capacity).2.standing id = b.standing id := by
  have hne : b.issued ≠ id := (Nat.ne_of_lt h).symm
  unfold standing subscribe
  simp [hne]

theorem standing_subscribe_new (h : b.Numbered) (capacity : Option Nat) :
    (b.subscribe capacity).2.standing b.issued = [false] := by
  have hnone : b.subscribers.filter (·.id = b.issued) = [] :=
    List.filter_eq_nil_iff.mpr fun s hs => by simp [Nat.ne_of_lt (h s hs)]
  unfold standing subscribe
  simp [hnone]

/-- What an operation does to the standing of a number that has been issued. -/
def Operation.onStanding (id : Nat) (known : List Bool) : Operation → List Bool
  | leave other => if other = id then known.map fun _ => true else known
  | emit _ => known.filter (!·)
  | subscribe _ | drain _ | takeOne _ => known

theorem standing_perform (h : id < b.issued) (operation : Operation) :
    (b.perform operation).standing id = operation.onStanding id (b.standing id) := by
  have htakes (change : Subscriber → Subscriber)
      (hchange : ∀ s, (change s).id = s.id ∧ (change s).hasLeft = s.hasLeft) (other : Nat) :
      (b.modify other change).standing id = b.standing id := by
    rw [standing_modify change (fun left => left) hchange, List.map_id', ite_self]
  cases operation with
  | subscribe capacity => exact standing_subscribe capacity h
  | leave other =>
    exact standing_modify Subscriber.leave (fun _ => true) (fun _ => ⟨rfl, rfl⟩) b other id
  | emit event => exact standing_emit b event id
  | drain other => exact htakes (·.after .drains) (fun _ => ⟨rfl, rfl⟩) other
  | takeOne other => exact htakes (·.after .takesOne) (fun _ => ⟨rfl, rfl⟩) other

theorem issued_le_perform (b : EventBus) (operation : Operation) :
    b.issued ≤ (b.perform operation).issued := by
  cases operation with
  | subscribe capacity => exact Nat.le_succ _
  | leave | emit | drain | takeOne => exact Nat.le_refl _

theorem standing_performAll (h : id < b.issued) (operations : List Operation) :
    (b.performAll operations).standing id =
      operations.foldl (Operation.onStanding id) (b.standing id) := by
  unfold performAll
  induction operations generalizing b with
  | nil => rfl
  | cons operation rest ih =>
    have hnext := ih (Nat.lt_of_lt_of_le h (b.issued_le_perform operation))
    rw [List.foldl_cons, hnext, standing_perform h, List.foldl_cons]

theorem foldl_onStanding_nil (id : Nat) (operations : List Operation) :
    operations.foldl (Operation.onStanding id) [] = [] := by
  induction operations with
  | nil => rfl
  | cons operation rest ih =>
    have hnext : operation.onStanding id [] = [] := by
      cases operation with
      | leave other => exact ite_self _
      | subscribe | emit | drain | takeOne => rfl
    rw [List.foldl_cons, hnext, ih]

/-- An observer that has left is forgotten at the next event. -/
theorem foldl_onStanding_left (id : Nat) (operations : List Operation) :
    operations.foldl (Operation.onStanding id) [true] = [] ↔ ∃ event, .emit event ∈ operations := by
  induction operations with
  | nil => simp
  | cons operation rest ih =>
    cases operation with
    | emit event =>
      exact iff_of_true (foldl_onStanding_nil id rest) ⟨event, List.mem_cons_self⟩
    | leave other =>
      have hnext : (Operation.leave other).onStanding id [true] = [true] := ite_self _
      rw [List.foldl_cons, hnext, ih]
      simp
    | subscribe | drain | takeOne =>
      refine ih.trans ?_
      simp

/-- An observer is forgotten among some operations: it leaves, and an event follows. -/
def Operation.Forgets (id : Nat) (operations : List Operation) : Prop :=
  ∃ earlier since, operations = earlier ++ .leave id :: since ∧ ∃ event, .emit event ∈ since

theorem Operation.Forgets.cons (operation : Operation) (h : Forgets id operations) :
    Forgets id (operation :: operations) := by
  obtain ⟨earlier, since, rfl, hsince⟩ := h
  exact ⟨operation :: earlier, since, rfl, hsince⟩

theorem foldl_onStanding_present (id : Nat) (operations : List Operation) :
    operations.foldl (Operation.onStanding id) [false] = [] ↔ Operation.Forgets id operations := by
  induction operations with
  | nil => exact iff_of_false nofun fun ⟨earlier, since, h, _⟩ => by simp at h
  | cons operation rest ih =>
    have hsame (hne : operation ≠ .leave id)
        (h : operation.onStanding id [false] = [false]) :
        (operation :: rest).foldl (Operation.onStanding id) [false] = [] ↔
          Operation.Forgets id (operation :: rest) := by
      rw [List.foldl_cons, h, ih]
      refine ⟨fun h => h.cons operation, fun ⟨earlier, since, hsplit, hsince⟩ => ?_⟩
      cases earlier with
      | nil => exact absurd (List.head_eq_of_cons_eq hsplit) hne
      | cons first earlier => exact ⟨earlier, since, List.tail_eq_of_cons_eq hsplit, hsince⟩
    cases operation with
    | leave other =>
      by_cases hother : other = id
      · subst hother
        have hnext : (Operation.leave other).onStanding other [false] = [true] := if_pos rfl
        rw [List.foldl_cons, hnext, foldl_onStanding_left]
        refine ⟨fun h => ⟨[], rest, rfl, h⟩, fun ⟨earlier, since, hsplit, event, hsince⟩ => ?_⟩
        cases earlier with
        | nil =>
          obtain rfl := List.tail_eq_of_cons_eq hsplit
          exact ⟨event, hsince⟩
        | cons first earlier =>
          have hrest : rest = earlier ++ .leave other :: since := List.tail_eq_of_cons_eq hsplit
          exact ⟨event, by simp [hrest, hsince]⟩
      · exact hsame (fun h => hother (Operation.leave.inj h)) (if_neg hother)
    | subscribe | emit | drain | takeOne => exact hsame nofun rfl

/-! ## Subscriptions -/

theorem performAll_append (b : EventBus) (before later : List Operation) :
    b.performAll (before ++ later) = (b.performAll before).performAll later := List.foldl_append ..

/-- The number of the observer that comes when some operations have been done. -/
def newcomer (before : List Operation) : Nat := (performAll {} before).issued

/-- The bus when an observer has come. -/
def joined (before : List Operation) (capacity : Option Nat) : EventBus :=
  performAll {} (before ++ [.subscribe capacity])

theorem joined_eq (before : List Operation) (capacity : Option Nat) :
    joined before capacity = ((performAll {} before).subscribe capacity).2 := performAll_append ..

theorem performAll_joined (before : List Operation) (capacity : Option Nat)
    (later : List Operation) :
    performAll {} (before ++ .subscribe capacity :: later) =
      (joined before capacity).performAll later := by
  rw [List.append_cons, performAll_append, joined]

theorem find?_joined (before : List Operation) (capacity : Option Nat) :
    (joined before capacity).find? (newcomer before) =
      some { id := newcomer before, capacity } := by
  rw [joined_eq]
  exact find?_subscribe_new (Numbered.empty.performAll before) capacity

/-- The bus knows an observer until it is forgotten. -/
theorem standing_joined (before : List Operation) (capacity : Option Nat)
    (later : List Operation) :
    ((joined before capacity).performAll later).standing (newcomer before) = [] ↔
      Operation.Forgets (newcomer before) later := by
  rw [joined_eq, newcomer, standing_performAll (Nat.lt_succ_self _),
    standing_subscribe_new (Numbered.empty.performAll before), foldl_onStanding_present]

theorem isObserved_eq_false : b.isObserved = false ↔ b.subscribers = [] := by
  rw [isObserved, Bool.not_eq_false', List.isEmpty_iff]

/-- Nobody observes when everybody who has come has been forgotten. -/
theorem performAll_isObserved (operations : List Operation) :
    (performAll {} operations).isObserved = false ↔
      ∀ before capacity later, operations = before ++ .subscribe capacity :: later →
        Operation.Forgets (newcomer before) later := by
  rw [isObserved_eq_false]
  constructor
  · rintro hnobody before capacity later rfl
    refine (standing_joined before capacity later).mp ?_
    rw [performAll_joined] at hnobody
    rw [standing, hnobody]
    rfl
  · intro hforgotten
    rw [List.eq_nil_iff_forall_not_mem]
    intro s hs
    obtain ⟨before, capacity, later, rfl, hid⟩ :=
      exists_subscribe (Nat.zero_le _) (Numbered.empty.performAll operations s hs)
    have hnone := (standing_joined before capacity later).mpr
      (hforgotten before capacity later rfl)
    rw [performAll_joined] at hs
    have hknown : s.hasLeft ∈ ((joined before capacity).performAll later).standing s.id :=
      List.mem_map_of_mem (List.mem_filter.mpr ⟨hs, decide_eq_true rfl⟩)
    rw [← hid] at hknown
    exact List.not_mem_nil (hnone ▸ hknown)

/-- An observer that has come and not left receives and holds what one alone would. -/
theorem receives_joined {before later : List Operation} (hstays : .leave (newcomer before) ∉ later)
    (capacity : Option Nat) :
    (joined before capacity).receives (newcomer before) later =
        Subscriber.receives { id := newcomer before, capacity }
          (later.filterMap (·.happening? (newcomer before))) ∧
      ((joined before capacity).performAll later).held (newcomer before) =
        (Subscriber.afterAll { id := newcomer before, capacity }
          (later.filterMap (·.happening? (newcomer before)))).queue.toList :=
  ⟨receives_eq (find?_joined before capacity) hstays,
    held_eq (find?_performAll (find?_joined before capacity) hstays)⟩

/-- Nothing is lost but what finds the queue full. -/
theorem receives_append_held {before later : List Operation}
    (hstays : .leave (newcomer before) ∉ later) (capacity : Option Nat) :
    (joined before capacity).receives (newcomer before) later ++
        ((joined before capacity).performAll later).held (newcomer before) =
      (((joined before capacity).offers (newcomer before) later).filter
        fun offer => capacity.all (offer.2 < ·)).map Prod.fst := by
  obtain ⟨hreceives, hheld⟩ := receives_joined hstays capacity
  rw [hreceives, hheld, offers_eq (find?_joined before capacity) hstays,
    Subscriber.receives_append_queue]
  rfl

/-- What a subscription delivers. An observer comes, with a bound or without, when some operations
have been done. Until it leaves, it receives and holds the events that are emitted since, in order:
all of them without a bound, and with a bound all but the ones emitted while it holds so many. It
makes no difference to it what other observers there are and what they do: it gets the same in any
other history that is the same for it. A bus that is not observed any more has emitted an event
after the leaving of everybody who had come. -/
theorem subscriptions_exact (operations : List Operation) :
    (∀ before capacity later, operations = before ++ .subscribe capacity :: later →
      let id := newcomer before
      let start := joined before capacity
      .leave id ∉ later →
        (capacity = none →
          start.receives id later ++ (performAll {} operations).held id =
            later.filterMap (·.emitted?)) ∧
        (∀ bound, capacity = some bound →
          ((performAll {} operations).held id).length ≤ bound ∧
          (start.offers id later).map Prod.fst = later.filterMap (·.emitted?) ∧
          start.receives id later ++ (performAll {} operations).held id =
            ((start.offers id later).filter fun offer => offer.2 < bound).map Prod.fst) ∧
        ∀ before' later',
          let id' := newcomer before'
          let start' := joined before' capacity
          later'.filterMap (·.happening? id') = later.filterMap (·.happening? id) →
          .leave id' ∉ later' →
            start'.receives id' later' = start.receives id later ∧
            (start'.performAll later').held id' = (performAll {} operations).held id) ∧
    ((performAll {} operations).isObserved = false ↔
      ∀ before capacity later, operations = before ++ .subscribe capacity :: later →
        ∃ earlier since, later = earlier ++ .leave (newcomer before) :: since ∧
          ∃ event, .emit event ∈ since) := by
  refine ⟨?_, performAll_isObserved operations⟩
  rintro before capacity later rfl id start hstays
  rw [performAll_joined]
  obtain ⟨hreceives, hheld⟩ := receives_joined hstays capacity
  have hdelivered := receives_append_held hstays capacity
  refine ⟨?_, ?_, ?_⟩
  · rintro rfl
    have hall : (start.offers id later).filter (fun _ => true) = start.offers id later :=
      List.filter_eq_self.mpr fun _ _ => rfl
    exact hdelivered.trans ((congrArg _ hall).trans (map_fst_offers id start later))
  · rintro bound rfl
    refine ⟨?_, map_fst_offers id start later, hdelivered⟩
    rw [hheld, Array.length_toList]
    exact Subscriber.size_le_capacity rfl (Nat.zero_le _) _
  · intro before' later' id' start' hsame hstays'
    obtain ⟨hreceives', hheld'⟩ := receives_joined hstays' capacity
    have hcongr := Subscriber.receives_congr { id, capacity } { id := id', capacity } rfl rfl
      (later.filterMap (·.happening? id))
    rw [hsame] at hreceives' hheld'
    refine ⟨hreceives'.trans (hcongr.1.trans hreceives.symm), ?_⟩
    rw [hheld', hheld, hcongr.2]

/-- One observer has room for one event. It misses the second, and gets the third since it has taken
the first by then. Another leaves, and is forgotten. -/
theorem subscriptions_exact_bounded :
    let told (n : Nat) : Operation := .emit (.executed (UInt32.ofNat n))
    let later := [told 0, .subscribe none, told 4, .takeOne 0, .leave 1, told 8]
    .leave (newcomer []) ∉ later ∧
      (joined [] (some 1)).receives 0 later ++ ((joined [] (some 1)).performAll later).held 0 =
        [.executed 0, .executed 8] := by
  intro told later
  have hstays : .leave (newcomer []) ∉ later := by decide
  obtain ⟨hexact, -⟩ := subscriptions_exact (.subscribe (some 1) :: later)
  obtain ⟨-, hbounded, -⟩ := hexact [] (some 1) later rfl hstays
  obtain ⟨-, -, hdelivered⟩ := hbounded 1 rfl
  exact ⟨hstays, hdelivered⟩

end EventBus

end MipsLab
