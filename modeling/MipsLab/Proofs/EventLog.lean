import MipsLab.Proofs.Delivery
import MipsLab.Proofs.RunEvents

/-!
# The log of an observer

An observer without a bound, that comes before a program is loaded and does not leave, is told all
that happens from then on. From its events since the latest loading one can read which instructions
have been completed, in which order, how far the heap has grown, and where each step or run has come
to rest.

1. `Occurrence`: what may happen to a machine and its observers.
2. `Watched`: a machine, with what one observer has taken and what has been completed.
3. `Watched.Logged.perform`: what one occurrence adds to the log.
4. `Watched.eventLog_exact`: the log after any sequence of occurrences.
-/

namespace MipsLab

/-! ## Occurrences -/

/-- What may happen to a machine and its observers, of which there may be any number. -/
inductive Occurrence
  | operation (operation : Machine.Operation) (h : operation.keepsObservers = true)
  | load (p : Program)
  /-- An observer comes, with a bound or without. -/
  | subscribe (capacity : Option Nat)
  | leave (id : Nat)
  /-- An observer takes all events that wait for it. -/
  | drain (id : Nat)
  /-- An observer takes the first event that waits for it. -/
  | takeOne (id : Nat)

/-- Whether the machine is put to the start of a program. -/
def Occurrence.loads : Occurrence → Bool
  | operation o _ => o.restarts
  | load _ => true
  | _ => false

/-- Whether an observer does something, and not the machine. -/
def Occurrence.observes : Occurrence → Bool
  | operation _ _ | load _ => false
  | subscribe _ | leave _ | drain _ | takeOne _ => true

namespace Machine

/-- A machine after an occurrence. -/
def undergo (m : Machine) : Occurrence → Machine
  | .operation o _ => m.perform o
  | .load p => m.load p
  | .subscribe capacity => m.watchedBy (m.events.subscribe capacity).2
  | .leave id => m.watchedBy (m.events.leave id)
  | .drain id => m.watchedBy (m.events.drain id).2
  | .takeOne id => m.watchedBy (m.events.takeOne id).2

/-- The events that an observer takes in an occurrence. -/
def taken (m : Machine) (id : Nat) : Occurrence → List Event
  | .drain other => if other = id then (m.events.drain id).1.getD [] else []
  | .takeOne other => if other = id then (m.events.takeOne id).1.toList else []
  | _ => []

/-- What observers do takes nothing away from an observer but what it takes itself. -/
theorem undergo_waits {m : Machine} {id : Nat} {waiting : List Event} {occurrence : Occurrence}
    (h : m.events.Waits id waiting) (hobserves : occurrence.observes = true)
    (hstays : occurrence ≠ .leave id) :
    ∃ waiting', (m.undergo occurrence).events.Waits id waiting' ∧
      waiting = m.taken id occurrence ++ waiting' := by
  cases occurrence with
  | operation | load => exact nomatch hobserves
  | subscribe capacity => exact ⟨waiting, h.subscribe capacity, rfl⟩
  | leave other =>
    have hne : other ≠ id := fun heq => hstays (by rw [heq])
    exact ⟨waiting, h.leave hne, rfl⟩
  | drain other =>
    by_cases hother : other = id
    · subst hother
      obtain ⟨htaken, hwaits⟩ := h.drain
      refine ⟨[], hwaits, ?_⟩
      rw [taken, if_pos rfl, htaken, Option.getD_some, List.append_nil]
    · exact ⟨waiting, h.drain_other hother, by rw [taken, if_neg hother, List.nil_append]⟩
  | takeOne other =>
    by_cases hother : other = id
    · subst hother
      obtain ⟨htaken, hwaits⟩ := h.takeOne
      refine ⟨waiting.tail, hwaits, ?_⟩
      rw [taken, if_pos rfl, htaken]
      cases waiting <;> rfl
    · exact ⟨waiting, h.takeOne_other hother, by rw [taken, if_neg hother, List.nil_append]⟩

/-- The addresses of the instructions that are completed in an occurrence, in order. -/
def completedIn (m : Machine) : Occurrence → List Address
  | .operation o _ => completions (m.attempts o)
  | _ => []

theorem events_numbered_perform {m : Machine} (h : m.events.Numbered) {o : Operation}
    (hobservers : o.keepsObservers = true) : (m.perform o).events.Numbered := by
  cases hreset : o.restarts with
  | true =>
    cases o with
    | reset => exact h.emit _
    | _ => exact nomatch hreset
  | false =>
    obtain ⟨events, htold⟩ := m.perform_told hreset hobservers
    rw [htold.told]
    exact h.emitAll events

/-- The numbers of observers are given out one after the other. -/
theorem events_numbered_undergo {m : Machine} (h : m.events.Numbered) (occurrence : Occurrence) :
    (m.undergo occurrence).events.Numbered := by
  cases occurrence with
  | operation o hobservers => exact events_numbered_perform h hobservers
  | load p => exact h.emit _
  | subscribe capacity => exact h.subscribe capacity
  | leave id => exact h.modify Subscriber.leave (fun _ => rfl) id
  | drain id => exact h.modify (fun s => { s with queue := #[] }) (fun _ => rfl) id
  | takeOne id =>
    exact h.modify (fun s => { s with queue := s.queue.extract 1 s.queue.size }) (fun _ => rfl) id

/-- A new machine after some occurrences. -/
def history (flags : Flags) (occurrences : List Occurrence) : Machine :=
  occurrences.foldl undergo (create flags)

theorem events_numbered_history (flags : Flags) (occurrences : List Occurrence) :
    (history flags occurrences).events.Numbered := by
  have hstart : (create flags).events.Numbered := nofun
  unfold history
  generalize create flags = m at hstart
  induction occurrences generalizing m with
  | nil => exact hstart
  | cons occurrence occurrences ih => exact ih _ (events_numbered_undergo hstart occurrence)

end Machine

/-- A machine and one of its observers. -/
structure Watched where
  machine : Machine
  /-- What the observer has taken. -/
  taken : List Event := []
  /-- The addresses of the instructions that have been completed since the latest loading. -/
  completed : List Address := []

namespace Watched

/-- An occurrence, with what the observer `id` takes in it. -/
def perform (id : Nat) (w : Watched) (occurrence : Occurrence) : Watched where
  machine := w.machine.undergo occurrence
  taken := w.taken ++ w.machine.taken id occurrence
  completed :=
    if occurrence.loads then [] else w.completed ++ w.machine.completedIn occurrence

def after (id : Nat) (w : Watched) (occurrences : List Occurrence) : Watched :=
  occurrences.foldl (perform id) w

/-- All that the observer has been told: what it has taken, and what waits for it. -/
def log (id : Nat) (w : Watched) : List Event :=
  w.taken ++ ((w.machine.events.find? id).map (·.queue.toList)).getD []

/-- The observer is still there, has no bound, and has been told `log`. -/
def Hears (id : Nat) (w : Watched) (log : List Event) : Prop :=
  ∃ waiting, w.machine.events.Waits id waiting ∧ log = w.taken ++ waiting

/-- The observer has been told of the latest loading, and the events since then tell what has been
done since. -/
def Logged (id : Nat) (w : Watched) : Prop :=
  ∃ (told : List Event) (entry : Address) (since : List Event) (start : Machine),
    w.Hears id (told ++ .loaded entry :: since) ∧
      start.completed = 0 ∧ start.memory.brk = start.memory.heapStart ∧
      start.Tallies w.machine since w.completed

variable {id : Nat} {w : Watched} {log : List Event} {occurrence : Occurrence}

theorem Hears.log_eq (h : w.Hears id log) : w.log id = log := by
  obtain ⟨waiting, ⟨s, hs, -, rfl⟩, rfl⟩ := h
  rw [Watched.log, hs]
  rfl

/-- What is told to all observers is told to this one. -/
theorem Hears.emitAll {w' : Watched} {events : List Event} (h : w.Hears id log)
    (hevents : w'.machine.events = w.machine.events.emitAll events) (htaken : w'.taken = w.taken) :
    w'.Hears id (log ++ events) := by
  obtain ⟨waiting, hwaits, rfl⟩ := h
  refine ⟨waiting ++ events, ?_, ?_⟩
  · rw [hevents]
    exact hwaits.emitAll events
  · rw [htaken, List.append_assoc]

/-- A loading is told, and nothing else is. -/
theorem Hears.perform_loads (h : w.Hears id log) (hloads : occurrence.loads = true) :
    ∃ entry, (w.perform id occurrence).Hears id (log ++ [.loaded entry]) := by
  cases occurrence with
  | operation o hobservers =>
    cases o with
    | reset =>
      have htold : w.machine.reset.events = w.machine.events.emitAll [.loaded _] := rfl
      exact ⟨_, h.emitAll htold (List.append_nil _)⟩
    | _ => exact nomatch hloads
  | load p =>
    have htold : (w.machine.load p).events = w.machine.events.emitAll [.loaded _] := rfl
    exact ⟨_, h.emitAll htold (List.append_nil _)⟩
  | _ => exact nomatch hloads

/-- What observers do adds nothing to the log. -/
theorem Hears.perform_observes (h : w.Hears id log) (hobserves : occurrence.observes = true)
    (hstays : occurrence ≠ .leave id) : (w.perform id occurrence).Hears id log := by
  obtain ⟨waiting, hwaits, rfl⟩ := h
  obtain ⟨waiting', hwaits', rfl⟩ := Machine.undergo_waits hwaits hobserves hstays
  exact ⟨waiting', hwaits', (List.append_assoc _ _ _).symm⟩

/-- Any occurrence but a loading adds to the log what tells of it. -/
theorem Hears.perform (h : w.Hears id log) (hloads : occurrence.loads = false)
    (hstays : occurrence ≠ .leave id) :
    ∃ events, (w.perform id occurrence).Hears id (log ++ events) ∧
      w.machine.Tallies (w.machine.undergo occurrence) events
        (w.machine.completedIn occurrence) := by
  cases occurrence with
  | operation o hobservers =>
    obtain ⟨events, htold⟩ := w.machine.perform_told hloads hobservers
    exact ⟨events, h.emitAll htold.told (List.append_nil _), htold.toTallies⟩
  | load p => exact nomatch hloads
  | subscribe | leave | drain | takeOne =>
    refine ⟨[], ?_, .silent rfl ⟨rfl, rfl⟩⟩
    rw [List.append_nil]
    exact h.perform_observes rfl hstays

/-- The observer is told whatever happens. -/
theorem Hears.perform_any (h : w.Hears id log) (hstays : occurrence ≠ .leave id) :
    ∃ more, (w.perform id occurrence).Hears id (log ++ more) := by
  cases hloads : occurrence.loads with
  | true =>
    obtain ⟨entry, hears⟩ := h.perform_loads hloads
    exact ⟨_, hears⟩
  | false =>
    obtain ⟨events, hears, -⟩ := h.perform hloads hstays
    exact ⟨events, hears⟩

/-- A loading begins a new account. -/
theorem Hears.logged (h : w.Hears id log) (hloads : occurrence.loads = true) :
    (w.perform id occurrence).Logged id := by
  obtain ⟨entry, hears⟩ := h.perform_loads hloads
  obtain ⟨m, hundergo⟩ : ∃ m : Machine, w.machine.undergo occurrence = m.reset := by
    cases occurrence with
    | operation o hobservers =>
      cases o with
      | reset => exact ⟨w.machine, rfl⟩
      | _ => exact nomatch hloads
    | load p => exact ⟨{ w.machine with program := some p }, rfl⟩
    | _ => exact nomatch hloads
  have hmachine : (w.perform id occurrence).machine = m.reset := hundergo
  have hcompleted : (w.perform id occurrence).completed = [] := if_pos hloads
  refine ⟨log, entry, [], m.reset, hears, rfl, Nat.add_zero _, ?_⟩
  rw [hmachine, hcompleted]
  exact .silent rfl ⟨rfl, rfl⟩

/-- Any other occurrence is added to the account. -/
theorem Logged.perform (h : w.Logged id) (hstays : occurrence ≠ .leave id) :
    (w.perform id occurrence).Logged id := by
  obtain ⟨told, entry, since, start, hears, hcount, hbrk, htallies⟩ := h
  cases hloads : occurrence.loads with
  | true => exact hears.logged hloads
  | false =>
    obtain ⟨events, hears', htallies'⟩ := hears.perform hloads hstays
    refine ⟨told, entry, since ++ events, start, ?_, hcount, hbrk, ?_⟩
    · rwa [List.append_assoc] at hears'
    · have hcompleted : (w.perform id occurrence).completed =
          w.completed ++ w.machine.completedIn occurrence := by
        rw [Watched.perform, hloads, if_neg Bool.false_ne_true]
      rw [hcompleted]
      exact htallies.trans htallies'

/-- Induction on the occurrences: the account begins with the first loading at the latest. -/
theorem Hears.after_logged (h : w.Hears id log) {occurrences : List Occurrence}
    (hstays : ∀ occurrence ∈ occurrences, occurrence ≠ .leave id)
    (hloads : w.Logged id ∨ ∃ occurrence ∈ occurrences, occurrence.loads = true) :
    (w.after id occurrences).Logged id := by
  unfold Watched.after
  induction occurrences generalizing w log with
  | nil =>
    rcases hloads with hlogged | ⟨_, hmem, -⟩
    · exact hlogged
    · exact absurd hmem List.not_mem_nil
  | cons occurrence occurrences ih =>
    obtain ⟨hstay, hstays⟩ := List.forall_mem_cons.mp hstays
    obtain ⟨more, hears⟩ := h.perform_any hstay
    refine ih hears hstays ?_
    rcases hloads with hlogged | ⟨loading, hmem, hloads⟩
    · exact .inl (hlogged.perform hstay)
    · rcases List.mem_cons.mp hmem with rfl | hmem
      · exact .inl (h.logged hloads)
      · exact .inr ⟨loading, hmem, hloads⟩

theorem Hears.after (h : w.Hears id log) {occurrences : List Occurrence}
    (hstays : ∀ occurrence ∈ occurrences, occurrence ≠ .leave id) :
    ∃ log, (w.after id occurrences).Hears id log := by
  unfold Watched.after
  induction occurrences generalizing w log with
  | nil => exact ⟨log, h⟩
  | cons occurrence occurrences ih =>
    obtain ⟨hstay, hstays⟩ := List.forall_mem_cons.mp hstays
    obtain ⟨more, hears⟩ := h.perform_any hstay
    exact ih hears hstays

/-- An observer without a bound comes to a machine to which anything may have happened, and stays.
After any further occurrences, of which one is a loading, its events since the latest loading tell
which instructions have been completed, as many as the machine has counted; and the growths of the
heap lead without a gap from where it starts to where it ends. Each step or run of a machine that
has not ended adds what its instructions do, and when it returns one event more, which tells the
state that the machine has come to. If it waits, or has made all its attempts, it adds that event
when it has been gone on with and returns. An instruction that faults, or whose read is cancelled,
adds nothing. -/
theorem eventLog_exact (flags : Flags) (earlier later : List Occurrence)
    (hstays : ∀ occurrence ∈ later,
      occurrence ≠ .leave (Machine.history flags earlier).events.issued) :
    let before := Machine.history flags earlier
    let id := before.events.issued
    let w := Watched.after id { machine := before.undergo (.subscribe none) } later
    ((∃ occurrence ∈ later, occurrence.loads = true) →
      ∃ (told : List Event) (entry : Address) (since : List Event),
        w.log id = told ++ .loaded entry :: since ∧
          (∀ event ∈ since, event.isLoaded = false) ∧
          since.filterMap Event.executed? = w.completed ∧
          w.completed.length = w.machine.completed ∧
          Event.Grows (UInt32.ofNat w.machine.memory.heapStart) (since.filterMap Event.grown?)
            (UInt32.ofNat w.machine.memory.brk)) ∧
    (∀ (operation : Machine.Operation) (hobservers : operation.keepsObservers = true)
        (progress : Progress),
      w.machine.state.isTerminal = false → w.machine.leavesNoCall operation = false →
      w.machine.answer? operation = some progress →
      ∃ inner final,
        (w.perform id (.operation operation hobservers)).log id =
            w.log id ++ (inner ++ final) ∧
          (∀ event ∈ inner, event.isInner = true) ∧
          (inner ++ final).filterMap Event.executed? =
            Machine.completions (w.machine.attempts operation) ∧
          (w.machine.perform operation).ConcludedBy final progress) ∧
    (w.machine.step.1.isCompletion = false →
      w.machine.step.2.events = w.machine.events ∧
        w.machine.step.2.completed = w.machine.completed) := by
  intro before id w
  have hears : Hears id { machine := before.undergo (.subscribe none) } [] :=
    ⟨[], .subscribed (Machine.events_numbered_history flags earlier), rfl⟩
  obtain ⟨log, hlog⟩ := hears.after hstays
  refine ⟨fun hloads => ?_, fun operation hobservers progress hstate hleaves hanswer => ?_,
    Machine.step_silent⟩
  · obtain ⟨told, entry, since, start, hlog, hcount, hbrk, htallies⟩ :=
      hears.after_logged hstays (.inr hloads)
    refine ⟨told, entry, since, hlog.log_eq, htallies.notLoaded, htallies.executed, ?_, ?_⟩
    · rw [htallies.completed, hcount, Nat.zero_add]
    · rw [htallies.heapStart, ← hbrk]
      exact htallies.grown
  · obtain ⟨inner, final, htold, hinner, hfinal⟩ :=
      Machine.perform_accounts hstate hleaves hanswer
    have hafter : (w.perform id (.operation operation hobservers)).Hears id
        (log ++ (inner ++ final)) := hlog.emitAll htold.told (List.append_nil _)
    refine ⟨inner, final, ?_, hinner, htold.executed, hfinal⟩
    rw [hafter.log_eq, hlog.log_eq]

/-- A program that lets the heap grow twice and then faults; another observer has come before. Some
events are taken before the run ends. -/
theorem eventLog_exact_heap :
    let p := (assemble (.ofString
      "main: li $v0, 9\nli $a0, 8\nsyscall\nli $v0, 9\nsyscall\nlw $t0, 2($v0)")).program
    let before := Machine.history { stackBudget := 8 } [.subscribe (some 1)]
    let later : List Occurrence :=
      [.load p, .operation (.runLimited 4 9) rfl, .leave 0, .takeOne 1, .drain 1,
        .operation (.run 9) rfl]
    let w := Watched.after 1 { machine := before.undergo (.subscribe none) } later
    w.completed = [0x00400000, 0x00400004, 0x00400008, 0x0040000C, 0x00400010] ∧
      ∃ (told : List Event) (entry : Address) (since : List Event),
        w.log 1 = told ++ .loaded entry :: since ∧
          since.filterMap Event.executed? = w.completed ∧
          Event.Grows 0x10010000 (since.filterMap Event.grown?) 0x10010010 := by
  intro p before later w
  obtain ⟨hlog, -, -⟩ := eventLog_exact { stackBudget := 8 } [.subscribe (some 1)] later
    (by
      intro occurrence hmem heq
      subst heq
      simp [later, Machine.history, Machine.undergo, Machine.watchedBy, Machine.create,
        EventBus.subscribe] at hmem)
  obtain ⟨told, entry, since, hw, -, hexecuted, -, hgrown⟩ :=
    hlog ⟨.load p, List.mem_cons_self, rfl⟩
  have hstart : w.machine.memory.heapStart = 0x10010000 := by decide +kernel
  have hbrk : w.machine.memory.brk = 0x10010010 := by decide +kernel
  refine ⟨by decide +kernel, told, entry, since, hw, hexecuted, ?_⟩
  have hgrown : Event.Grows (UInt32.ofNat w.machine.memory.heapStart)
    (since.filterMap Event.grown?) (UInt32.ofNat w.machine.memory.brk) := hgrown
  rw [hstart, hbrk] at hgrown
  exact hgrown

end Watched

end MipsLab
