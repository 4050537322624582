import MipsLab.Proofs.Observers

/-!
# What an observer is told

An observer is found by its number. What happens to it depends on its own number alone: the events
that are emitted, what it takes, and whether it leaves. Other observers come, take and leave without
its noticing.

1. `EventBus.find?_emit`, `EventBus.find?_modify_other`, `EventBus.find?_modify_self`,
   `EventBus.find?_subscribe`: one observer after each change of the bus.
2. `EventBus.Waits`: the events that wait for an observer without a bound are the ones emitted that
   it has not taken.
-/

namespace MipsLab

namespace EventBus

variable {b : EventBus} {id other : Nat} {s : Subscriber}

/-! ## One observer among the others -/

theorem offer_id (event : Event) (s : Subscriber) : (s.offer event).id = s.id := by
  unfold Subscriber.offer
  split <;> rfl

theorem offer_hasLeft (event : Event) (s : Subscriber) :
    (s.offer event).hasLeft = s.hasLeft := by
  unfold Subscriber.offer
  split <;> rfl

/-- An event is offered to the observer of a number, whoever else is told it. -/
theorem find?_emit (b : EventBus) (event : Event) (id : Nat) :
    (b.emit event).find? id = (b.find? id).map (Subscriber.offer event) := by
  unfold emit find?
  simp only [List.find?_map, List.find?_filter, Function.comp_def, offer_id, offer_hasLeft]
  congr 2
  funext s
  cases s.hasLeft <;> simp

theorem find?_id (h : b.find? id = some s) : s.id = id := by
  have hs := List.find?_some h
  simp only [Bool.and_eq_true, decide_eq_true_eq] at hs
  exact hs.1

/-- What an observer does is not noticed by another. -/
theorem find?_modify_other (change : Subscriber → Subscriber) (hchange : ∀ s, (change s).id = s.id)
    (hne : other ≠ id) (b : EventBus) : (b.modify other change).find? id = b.find? id := by
  have hsame : ∀ s : Subscriber, s.id = id → (if s.id = other then change s else s) = s :=
    fun s hs => if_neg fun hother => hne (hother.symm.trans hs)
  unfold modify find?
  rw [List.find?_map]
  have hfind : (fun s : Subscriber => decide (s.id = id) && !s.hasLeft) ∘
      (fun s => if s.id = other then change s else s) =
        fun s => decide (s.id = id) && !s.hasLeft := by
    funext s
    by_cases hs : s.id = id
    · rw [Function.comp_apply, hsame s hs]
    · have hchanged : (if s.id = other then change s else s).id ≠ id := by
        split
        · rwa [hchange s]
        · exact hs
      simp [hs, hchanged]
  rw [hfind]
  cases hfound : b.find? id with
  | none =>
    unfold find? at hfound
    rw [hfound, Option.map_none]
  | some s =>
    have hs := find?_id hfound
    unfold find? at hfound
    rw [hfound, Option.map_some, hsame s hs]

/-- What an observer takes is taken from its own queue. -/
theorem find?_modify_self (change : Subscriber → Subscriber)
    (hchange : ∀ s, (change s).id = s.id ∧ (change s).hasLeft = s.hasLeft) (b : EventBus)
    (id : Nat) : (b.modify id change).find? id = (b.find? id).map change := by
  have hfind : (fun s : Subscriber => decide (s.id = id) && !s.hasLeft) ∘
      (fun s => if s.id = id then change s else s) =
        fun s => decide (s.id = id) && !s.hasLeft := by
    funext s
    by_cases hs : s.id = id <;> simp [hs, hchange s]
  cases hfound : b.find? id with
  | none =>
    unfold find? at hfound
    unfold modify find?
    rw [List.find?_map, hfind, hfound]
    rfl
  | some s =>
    have hs := find?_id hfound
    unfold find? at hfound
    unfold modify find?
    rw [List.find?_map, hfind, hfound, Option.map_some, if_pos hs, Option.map_some]

/-! ## Coming -/

/-- All observers, also those that have left, have numbers that have been issued. -/
def Numbered (b : EventBus) : Prop := ∀ s ∈ b.subscribers, s.id < b.issued

theorem find?_subscribe (capacity : Option Nat) (h : b.find? id = some s) :
    (b.subscribe capacity).2.find? id = some s := by
  unfold find? at h
  unfold subscribe find?
  rw [List.find?_append, h, Option.some_or]

/-- A new observer has a number that no other has. -/
theorem find?_subscribe_new (h : b.Numbered) (capacity : Option Nat) :
    (b.subscribe capacity).2.find? b.issued = some { id := b.issued, capacity } := by
  have hnone : b.subscribers.find? (fun s => decide (s.id = b.issued) && !s.hasLeft) = none := by
    refine List.find?_eq_none.mpr fun s hs => ?_
    simp [Nat.ne_of_lt (h s hs)]
  unfold subscribe find?
  rw [List.find?_append, hnone, Option.none_or]
  simp

namespace Numbered

theorem emit (h : b.Numbered) (event : Event) : (b.emit event).Numbered := by
  intro s hs
  obtain ⟨t, ht, rfl⟩ := List.mem_map.mp hs
  rw [offer_id]
  exact h t ((List.mem_filter.mp ht).1)

theorem emitAll (h : b.Numbered) (events : List Event) : (b.emitAll events).Numbered := by
  unfold EventBus.emitAll
  induction events generalizing b with
  | nil => exact h
  | cons event events ih => exact ih (h.emit event)

theorem modify (h : b.Numbered) (change : Subscriber → Subscriber)
    (hchange : ∀ s, (change s).id = s.id) (other : Nat) : (b.modify other change).Numbered := by
  intro s hs
  obtain ⟨t, ht, rfl⟩ := List.mem_map.mp hs
  have hid : (if t.id = other then change t else t).id = t.id := by
    split
    · exact hchange t
    · rfl
  rw [hid]
  exact h t ht

theorem subscribe (h : b.Numbered) (capacity : Option Nat) :
    (b.subscribe capacity).2.Numbered := by
  intro s hs
  rcases List.mem_append.mp hs with hs | hs
  · exact Nat.lt_succ_of_lt (h s hs)
  · obtain rfl := List.mem_singleton.mp hs
    exact Nat.lt_succ_self _

end Numbered

/-! ## What waits -/

/-- An observer without a bound has not left, and these are the events that wait for it. -/
def Waits (b : EventBus) (id : Nat) (waiting : List Event) : Prop :=
  ∃ s, b.find? id = some s ∧ s.capacity = none ∧ s.queue.toList = waiting

namespace Waits

variable {waiting : List Event}

theorem subscribed (h : b.Numbered) : (b.subscribe none).2.Waits b.issued [] :=
  ⟨_, find?_subscribe_new h none, rfl, rfl⟩

/-- There is always room in a queue without a bound. -/
theorem emit (h : b.Waits id waiting) (event : Event) :
    (b.emit event).Waits id (waiting ++ [event]) := by
  obtain ⟨s, hs, hcapacity, rfl⟩ := h
  have hroom : s.hasRoom = true := by rw [Subscriber.hasRoom, hcapacity]; rfl
  refine ⟨{ s with queue := s.queue.push event }, ?_, hcapacity, Array.toList_push⟩
  rw [find?_emit, hs, Option.map_some, Subscriber.offer, if_pos hroom]

theorem emitAll (h : b.Waits id waiting) (events : List Event) :
    (b.emitAll events).Waits id (waiting ++ events) := by
  unfold EventBus.emitAll
  induction events generalizing b waiting with
  | nil => rwa [List.append_nil]
  | cons event events ih =>
    have hrest := ih (h.emit event)
    rwa [List.append_assoc, List.singleton_append] at hrest

theorem subscribe (h : b.Waits id waiting) (capacity : Option Nat) :
    (b.subscribe capacity).2.Waits id waiting := by
  obtain ⟨s, hs, hrest⟩ := h
  exact ⟨s, find?_subscribe capacity hs, hrest⟩

theorem modify_other (change : Subscriber → Subscriber) (h : b.Waits id waiting)
    (hchange : ∀ s, (change s).id = s.id) (hne : other ≠ id) :
    (b.modify other change).Waits id waiting := by
  obtain ⟨s, hs, hrest⟩ := h
  exact ⟨s, (find?_modify_other change hchange hne b).trans hs, hrest⟩

theorem leave (h : b.Waits id waiting) (hne : other ≠ id) : (b.leave other).Waits id waiting :=
  h.modify_other Subscriber.leave (fun _ => rfl) hne

theorem drain_other (h : b.Waits id waiting) (hne : other ≠ id) :
    (b.drain other).2.Waits id waiting :=
  h.modify_other _ (fun _ => rfl) hne

theorem takeOne_other (h : b.Waits id waiting) (hne : other ≠ id) :
    (b.takeOne other).2.Waits id waiting :=
  h.modify_other _ (fun _ => rfl) hne

theorem requeue (h : b.Waits id waiting) (f : Array Event → Array Event) :
    (b.modify id fun s => { s with queue := f s.queue }).Waits id (f waiting.toArray).toList := by
  obtain ⟨s, hs, hcapacity, rfl⟩ := h
  refine ⟨{ s with queue := f s.queue }, ?_, hcapacity, by rw [Array.toArray_toList]⟩
  rw [find?_modify_self (fun s => { s with queue := f s.queue }) (fun _ => ⟨rfl, rfl⟩), hs,
    Option.map_some]

/-- Taking everything takes what waits. -/
theorem drain (h : b.Waits id waiting) :
    (b.drain id).1 = some waiting ∧ (b.drain id).2.Waits id [] := by
  refine ⟨?_, h.requeue fun _ => #[]⟩
  obtain ⟨s, hs, -, rfl⟩ := h
  rw [EventBus.drain, hs]
  rfl

/-- Taking one event takes the first. -/
theorem takeOne (h : b.Waits id waiting) :
    (b.takeOne id).1 = waiting.head? ∧ (b.takeOne id).2.Waits id waiting.tail := by
  constructor
  · obtain ⟨s, hs, -, rfl⟩ := h
    rw [EventBus.takeOne, hs, List.head?_eq_getElem?, Array.getElem?_toList]
    rfl
  · have htail := h.requeue fun queue => queue.extract 1 queue.size
    have hlist : (waiting.toArray.extract 1 waiting.toArray.size).toList = waiting.tail := by
      cases waiting <;> simp
    rwa [hlist] at htail

end Waits

end EventBus

end MipsLab
