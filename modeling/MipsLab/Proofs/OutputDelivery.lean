import MipsLab.Proofs.SharedOutput

/-!
# Delivery of output

What is written to a channel reaches its sink once and in order, although another thread delivers
it, which may stop at any message. A flush that waits is told so in one of two ways: its marker is
reached when all before it has been delivered, or the marker is thrown away because the sink has
refused something.

1. `SharedOutput.Sound`: what each step of the threads keeps.
2. `Sound.called_isPrefix`, `Sound.offered_of_returns`: what has been delivered.
3. `Sound.progress`, `SharedOutput.Step.work_lt`: a call that has begun returns.
4. `SharedOutput.output_delivered`: all of it together.
-/

namespace MipsLab

namespace SharedOutput

variable {s t : SharedOutput}

/-! ## What each step keeps -/

/-- As long as the thread delivers, the chunks that the sink has taken and those that wait are the
ones written, and behind them is the marker of the flush that waits. When it has stopped, the sink
has been offered all of them up to one that it has refused. -/
structure Sound (s : SharedOutput) : Prop where
  isOpen : s.isOpen = !s.caller.hasClosed
  active : s.deliverer.isActive = true → ∃ taken waiting : List Chunk,
    s.offers = allTaken taken ∧ s.written = taken ++ waiting ∧
      s.pending = waiting.map .data ++ s.caller.mark s.reached ∧
      ∀ flush ∈ s.reached, s.caller = .awaiting flush → waiting = []
  stopped : s.deliverer.isActive = false →
    Offered s.written s.offers ∧ (s.HasRefused ∨ s.isOpen = false)
  ended : s.deliverer = .ended → s.queue = []
  closed : s.caller = .closed → s.deliverer = .ended
  reached_lt : ∀ flush ∈ s.reached, flush < s.flushes
  awaiting_lt : ∀ flush, s.caller = .awaiting flush → flush < s.flushes

theorem sound_empty : empty.Sound where
  isOpen := rfl
  active _ := ⟨[], [], rfl, rfl, rfl, fun _ hmem => absurd hmem List.not_mem_nil⟩
  stopped := nofun
  ended := nofun
  closed := nofun
  reached_lt _ hmem := absurd hmem List.not_mem_nil
  awaiting_lt := nofun

theorem DelivererStep.not_ended (h : s.DelivererStep t) : s.deliverer ≠ .ended := by
  cases h with
  | take hdeliverer _ | finish hdeliverer _ _ | accept hdeliverer | refuse hdeliverer
  | acknowledge hdeliverer | leave hdeliverer =>
    rw [hdeliverer]
    nofun

namespace Sound

/-- A flush whose marker has been thrown away has waited for a thread that has stopped. -/
theorem stopped_of_gone (hs : s.Sound) {flush : Nat} (hcaller : s.caller = .awaiting flush)
    (hnot : flush ∉ s.reached) (hgone : .marker flush ∉ s.pending) :
    s.deliverer.isActive = false := by
  cases hactive : s.deliverer.isActive with
  | false => rfl
  | true =>
    obtain ⟨taken, waiting, -, -, hpending, -⟩ := hs.active hactive
    rw [hcaller, Caller.mark_of_not_reached hnot] at hpending
    rw [hpending] at hgone
    exact absurd (List.mem_append_right _ (List.mem_singleton_self _)) hgone

/-- A step that leaves alone what is delivered, and at which no flush begins or ends to wait for a
marker. -/
theorem caller_only (hs : s.Sound) {caller : Caller} {isOpen : Bool}
    (hmark : caller.mark s.reached = s.caller.mark s.reached ∨ s.deliverer.isActive = false)
    (hcaller : ∀ flush, caller ≠ .awaiting flush) (hisOpen : isOpen = !caller.hasClosed)
    (hcloses : isOpen = false ∨ s.isOpen = true)
    (hclosed : caller = .closed → s.deliverer = .ended) : { s with caller, isOpen }.Sound where
  isOpen := hisOpen
  active hactive := by
    obtain ⟨taken, waiting, hoffers, hwritten, hpending, -⟩ := hs.active hactive
    have hstill : s.deliverer.isActive = true := hactive
    have hsame := hmark.resolve_right (by rw [hstill]; nofun)
    refine ⟨taken, waiting, hoffers, hwritten, ?_, fun flush _ hawaits => ?_⟩
    · rw [hsame]
      exact hpending
    · exact absurd hawaits (hcaller flush)
  stopped hstopped := by
    obtain ⟨hoffered, hwhy⟩ := hs.stopped hstopped
    refine ⟨hoffered, ?_⟩
    rcases hcloses with hclosed | hopen
    · exact .inr hclosed
    · exact .inl (hwhy.resolve_right (by rw [hopen]; nofun))
  ended := hs.ended
  closed := hclosed
  reached_lt := hs.reached_lt
  awaiting_lt flush hawaits := absurd hawaits (hcaller flush)

theorem callerStep (hs : s.Sound) (h : s.CallerStep t) : t.Sound := by
  have hopen : s.caller.hasClosed = false → s.isOpen = true := by
    intro hnot
    rw [hs.isOpen, hnot]
    rfl
  cases h with
  | write chunk hcaller =>
    exact hs.caller_only (.inl (by rw [hcaller]; rfl)) nofun (hopen (by rw [hcaller]; rfl))
      (.inr (hopen (by rw [hcaller]; rfl))) nofun
  | flush hcaller =>
    exact hs.caller_only (.inl (by rw [hcaller]; rfl)) nofun (hopen (by rw [hcaller]; rfl))
      (.inr (hopen (by rw [hcaller]; rfl))) nofun
  | noMark hcaller hended =>
    exact hs.caller_only (.inr (by rw [hended]; rfl)) nofun (hopen (by rw [hcaller]; rfl))
      (.inr (hopen (by rw [hcaller]; rfl))) nofun
  | reach hcaller hreached =>
    have hmark : s.caller.mark s.reached = [] := by rw [hcaller, Caller.mark_of_reached hreached]
    exact hs.caller_only (.inl hmark.symm) nofun (hopen (by rw [hcaller]; rfl))
      (.inr (hopen (by rw [hcaller]; rfl))) nofun
  | giveUp hcaller hnot hgone =>
    exact hs.caller_only (.inr (hs.stopped_of_gone hcaller hnot hgone)) nofun
      (hopen (by rw [hcaller]; rfl)) (.inr (hopen (by rw [hcaller]; rfl))) nofun
  | close hcaller =>
    exact hs.caller_only (.inl (by rw [hcaller]; rfl)) nofun rfl (.inl rfl) nofun
  | join hcaller hended =>
    have hclosed : s.isOpen = false := by
      rw [hs.isOpen, hcaller]
      rfl
    exact hs.caller_only (.inr (by rw [hended]; rfl)) nofun hclosed (.inl hclosed) fun _ => hended
  | @send chunk hcaller hthere =>
    have hmark : s.caller.mark s.reached = [] := by rw [hcaller]; rfl
    have hstillOpen : s.isOpen = true := hopen (by rw [hcaller]; rfl)
    refine ⟨hstillOpen, fun hactive => ?_, fun hstopped => ?_, fun hended => absurd hended hthere,
      nofun, hs.reached_lt, nofun⟩
    · obtain ⟨taken, waiting, hoffers, hwritten, hpending, -⟩ := hs.active hactive
      refine ⟨taken, waiting ++ [chunk], hoffers, ?_, ?_, nofun⟩
      · show s.written ++ [chunk] = _
        rw [hwritten, List.append_assoc]
      · show s.deliverer.inHand ++ (s.queue ++ [.data chunk]) = (waiting ++ [chunk]).map .data ++ []
        rw [← List.append_assoc, ← pending, hpending, hmark, List.map_append, List.append_nil,
          List.append_nil]
        rfl
    · obtain ⟨hoffered, hwhy⟩ := hs.stopped hstopped
      have hrefused : s.HasRefused := hwhy.resolve_right (by rw [hstillOpen]; nofun)
      exact ⟨hoffered.append hrefused [chunk], .inl hrefused⟩
  | @lose chunk hcaller hended =>
    have hstillOpen : s.isOpen = true := hopen (by rw [hcaller]; rfl)
    have hstopped : s.deliverer.isActive = false := by rw [hended]; rfl
    obtain ⟨hoffered, hwhy⟩ := hs.stopped hstopped
    have hrefused : s.HasRefused := hwhy.resolve_right (by rw [hstillOpen]; nofun)
    refine ⟨hstillOpen, fun hactive => ?_, fun _ => ?_, hs.ended, nofun, hs.reached_lt, nofun⟩
    · exact nomatch hstopped.symm.trans hactive
    · exact ⟨hoffered.append hrefused [chunk], .inl hrefused⟩
  | mark hcaller hthere =>
    have hmark : s.caller.mark s.reached = [] := by rw [hcaller]; rfl
    have hnew : s.flushes ∉ s.reached := fun hmem => Nat.lt_irrefl _ (hs.reached_lt _ hmem)
    refine ⟨hopen (by rw [hcaller]; rfl), fun hactive => ?_, hs.stopped,
      fun hended => absurd hended hthere, nofun,
      fun flush hmem => Nat.lt_succ_of_lt (hs.reached_lt _ hmem), fun flush hawaits => ?_⟩
    · obtain ⟨taken, waiting, hoffers, hwritten, hpending, -⟩ := hs.active hactive
      refine ⟨taken, waiting, hoffers, hwritten, ?_, fun flush hmem hawaits => ?_⟩
      · show s.deliverer.inHand ++ (s.queue ++ [.marker s.flushes]) =
          _ ++ (Caller.awaiting s.flushes).mark s.reached
        rw [Caller.mark_of_not_reached hnew, ← List.append_assoc, ← pending, hpending, hmark,
          List.append_nil]
      · exact absurd (Caller.awaiting.inj hawaits ▸ hmem) hnew
    · exact Caller.awaiting.inj hawaits ▸ Nat.lt_succ_self _

theorem delivererStep (hs : s.Sound) (h : s.DelivererStep t) : t.Sound := by
  have hnot : s.caller ≠ .closed := fun hcaller => h.not_ended (hs.closed hcaller)
  have hclosed {u : SharedOutput} : s.caller = .closed → u.deliverer = .ended :=
    fun hcaller => absurd hcaller hnot
  cases h with
  | @take message rest hdeliverer hqueue =>
    have hactive : s.deliverer.isActive = true := by rw [hdeliverer]; rfl
    refine ⟨hs.isOpen, fun _ => ?_, nofun, nofun, hclosed, hs.reached_lt, hs.awaiting_lt⟩
    obtain ⟨taken, waiting, hoffers, hwritten, hpending, hreached⟩ := hs.active hactive
    refine ⟨taken, waiting, hoffers, hwritten, ?_, hreached⟩
    unfold pending at hpending
    rw [hdeliverer, hqueue] at hpending
    exact hpending
  | finish hdeliverer hqueue hopen =>
    have hactive : s.deliverer.isActive = true := by rw [hdeliverer]; rfl
    refine ⟨hs.isOpen, nofun, fun _ => ⟨?_, .inr hopen⟩, nofun, hclosed, hs.reached_lt,
      hs.awaiting_lt⟩
    obtain ⟨taken, waiting, hoffers, hwritten, hpending, -⟩ := hs.active hactive
    unfold pending at hpending
    rw [hdeliverer, hqueue] at hpending
    obtain ⟨hnone, -⟩ := List.append_eq_nil_iff.mp hpending.symm
    obtain rfl := List.map_eq_nil_iff.mp hnone
    show Offered s.written s.offers
    rw [hoffers, hwritten, List.append_nil]
    exact offered_allTaken taken
  | @accept chunk hdeliverer =>
    have hactive : s.deliverer.isActive = true := by rw [hdeliverer]; rfl
    refine ⟨hs.isOpen, fun _ => ?_, nofun, nofun, hclosed, hs.reached_lt, hs.awaiting_lt⟩
    obtain ⟨taken, waiting, hoffers, hwritten, hpending, hreached⟩ := hs.active hactive
    unfold pending at hpending
    rw [hdeliverer] at hpending
    obtain ⟨waiting', rfl, hrest⟩ := Caller.waiting_of_data hpending
    refine ⟨taken ++ [chunk], waiting', ?_, ?_, hrest, fun flush hmem hawaits => ?_⟩
    · show s.offers ++ _ = _
      rw [hoffers, allTaken_concat]
    · rw [hwritten, List.append_assoc]
      rfl
    · exact nomatch hreached flush hmem hawaits
  | @refuse chunk hdeliverer =>
    have hactive : s.deliverer.isActive = true := by rw [hdeliverer]; rfl
    have hrefused : (⟨chunk, false⟩ : Offer) ∈ s.offers ++ [⟨chunk, false⟩] :=
      List.mem_append_right _ (List.mem_singleton_self _)
    refine ⟨hs.isOpen, nofun, fun _ => ⟨?_, .inl ⟨_, hrefused, rfl⟩⟩, nofun, hclosed, hs.reached_lt,
      hs.awaiting_lt⟩
    obtain ⟨taken, waiting, hoffers, hwritten, hpending, -⟩ := hs.active hactive
    unfold pending at hpending
    rw [hdeliverer] at hpending
    obtain ⟨waiting', rfl, -⟩ := Caller.waiting_of_data hpending
    show Offered s.written (s.offers ++ _)
    rw [hoffers, hwritten]
    exact offered_refused taken chunk waiting'
  | @acknowledge flush hdeliverer =>
    have hactive : s.deliverer.isActive = true := by rw [hdeliverer]; rfl
    obtain ⟨taken, waiting, hoffers, hwritten, hpending, -⟩ := hs.active hactive
    unfold pending at hpending
    rw [hdeliverer] at hpending
    obtain ⟨rfl, hqueue, hcaller⟩ := Caller.awaiting_of_marker hpending
    have hqueue : s.queue = [] := hqueue
    have hreached : flush ∈ s.reached ++ [flush] :=
      List.mem_append_right _ (List.mem_singleton_self _)
    refine ⟨hs.isOpen, fun _ => ⟨taken, [], hoffers, hwritten, ?_, fun _ _ _ => rfl⟩, nofun, nofun,
      hclosed, fun other hmem => ?_, hs.awaiting_lt⟩
    · show s.queue = [] ++ s.caller.mark (s.reached ++ [flush])
      rw [hqueue, hcaller, Caller.mark_of_reached hreached]
      rfl
    · rcases List.mem_append.mp hmem with hmem | hmem
      · exact hs.reached_lt other hmem
      · obtain rfl := List.mem_singleton.mp hmem
        exact hs.awaiting_lt _ hcaller
  | leave hdeliverer =>
    have hstopped : s.deliverer.isActive = false := by rw [hdeliverer]; rfl
    exact ⟨hs.isOpen, nofun, fun _ => hs.stopped hstopped, fun _ => rfl, hclosed, hs.reached_lt,
      hs.awaiting_lt⟩

theorem step (hs : s.Sound) (h : s.Step t) : t.Sound := by
  rcases h with h | h
  · exact hs.callerStep h
  · exact hs.delivererStep h

end Sound

theorem Reaches.sound (h : empty.Reaches s) : s.Sound := by
  induction h with
  | refl => exact sound_empty
  | tail _ hlast ih => exact ih.step hlast

/-! ## What has been delivered -/

/-- When the thread has stopped, no call of the sink is under way. -/
theorem called_of_stopped (h : s.deliverer.isActive = false) :
    s.called = s.offers.map Offer.chunk := by
  have hnone : s.deliverer.inHand = [] := by
    cases hdeliverer : s.deliverer with
    | receiving | leaving | ended => rfl
    | holding message =>
      rw [hdeliverer] at h
      exact nomatch h
  unfold called
  rw [hnone, List.filterMap_nil, List.append_nil]

namespace Sound

/-- The sink has been called with the first chunks that have been written. -/
theorem called_isPrefix (hs : s.Sound) : s.called <+: s.written := by
  cases hactive : s.deliverer.isActive with
  | true =>
    obtain ⟨taken, waiting, hoffers, hwritten, hpending, -⟩ := hs.active hactive
    unfold called pending at *
    rw [hoffers, hwritten, allTaken_chunks, List.prefix_append_right_inj]
    cases hdeliverer : s.deliverer with
    | receiving => exact List.nil_prefix
    | leaving | ended => exact List.nil_prefix
    | holding message =>
      rw [hdeliverer] at hpending
      cases message with
      | data chunk =>
        obtain ⟨waiting', rfl, -⟩ := Caller.waiting_of_data hpending
        exact List.prefix_append [chunk] waiting'
      | marker flush => exact List.nil_prefix
  | false =>
    rw [called_of_stopped hactive]
    exact (hs.stopped hactive).1.isPrefix

/-- A chunk that is refused is the last one with which the sink is called. -/
theorem refused_last (hs : s.Sound) {before after : List Offer} {chunk : Chunk}
    (hoffers : s.offers = before ++ ⟨chunk, false⟩ :: after) :
    after = [] ∧ s.deliverer.isActive = false := by
  cases hactive : s.deliverer.isActive with
  | false => exact ⟨(hs.stopped hactive).1.last hoffers, rfl⟩
  | true =>
    obtain ⟨taken, -, htaken, -⟩ := hs.active hactive
    have hmem : (⟨chunk, false⟩ : Offer) ∈ allTaken taken := by
      rw [← htaken, hoffers]
      exact List.mem_append_right _ List.mem_cons_self
    exact nomatch isTaken_of_mem_allTaken hmem

/-- When a flush returns or the output is closed, the sink has been offered all that has been
written, unless it has refused something. -/
theorem offered_of_returns (hs : s.Sound) (h : s.CallerStep t)
    (hcaller : s.caller.isEmptying = true) (hreturns : t.caller.isBusy = false) :
    Offered t.written t.offers := by
  cases h with
  | write _ hresting | flush hresting | close hresting =>
    rw [hresting] at hcaller
    exact nomatch hcaller
  | send hwriting _ | lose hwriting _ =>
    rw [hwriting] at hcaller
    exact nomatch hcaller
  | mark => exact nomatch hreturns
  | noMark _ hended | join _ hended => exact (hs.stopped (by rw [hended]; rfl)).1
  | giveUp hawaits hnot hgone => exact (hs.stopped (hs.stopped_of_gone hawaits hnot hgone)).1
  | @reach flush hawaits hreached =>
    show Offered s.written s.offers
    cases hactive : s.deliverer.isActive with
    | false => exact (hs.stopped hactive).1
    | true =>
      obtain ⟨taken, waiting, hoffers, hwritten, -, hall⟩ := hs.active hactive
      rw [hoffers, hwritten, hall flush hreached hawaits, List.append_nil]
      exact offered_allTaken taken

/-! ## Waiting -/

/-- A call goes on alone when the other thread has ended. -/
theorem goesOn_of_ended (hs : s.Sound) (hbusy : s.caller.isBusy = true)
    (hended : s.deliverer = .ended) : ∃ t, s.CallerStep t := by
  cases hcaller : s.caller with
  | resting | closed =>
    rw [hcaller] at hbusy
    exact nomatch hbusy
  | writing chunk => exact ⟨_, .lose hcaller hended⟩
  | flushing => exact ⟨_, .noMark hcaller hended⟩
  | joining => exact ⟨_, .join hcaller hended⟩
  | awaiting flush =>
    by_cases hreached : flush ∈ s.reached
    · exact ⟨_, .reach hcaller hreached⟩
    · have hnone : s.pending = [] := by
        unfold pending
        rw [hended, hs.ended hended]
        rfl
      exact ⟨_, .giveUp hcaller hreached (by rw [hnone]; exact List.not_mem_nil)⟩

/-- As long as a call has not returned, it can go on, or the other thread can. -/
theorem progress (hs : s.Sound) (hbusy : s.caller.isBusy = true) : ∃ t, s.Step t := by
  cases hdeliverer : s.deliverer with
  | holding message =>
    cases message with
    | data chunk => exact ⟨_, .inr (.accept hdeliverer)⟩
    | marker flush => exact ⟨_, .inr (.acknowledge hdeliverer)⟩
  | leaving => exact ⟨_, .inr (.leave hdeliverer)⟩
  | ended =>
    obtain ⟨t, hstep⟩ := hs.goesOn_of_ended hbusy hdeliverer
    exact ⟨t, .inl hstep⟩
  | receiving =>
    have hthere : s.deliverer ≠ .ended := by rw [hdeliverer]; nofun
    cases hqueue : s.queue with
    | cons message rest => exact ⟨_, .inr (.take hdeliverer hqueue)⟩
    | nil =>
      cases hcaller : s.caller with
      | resting | closed =>
        rw [hcaller] at hbusy
        exact nomatch hbusy
      | writing chunk => exact ⟨_, .inl (.send hcaller hthere)⟩
      | flushing => exact ⟨_, .inl (.mark hcaller hthere)⟩
      | joining =>
        have hclosed : s.isOpen = false := by
          rw [hs.isOpen, hcaller]
          rfl
        exact ⟨_, .inr (.finish hdeliverer hqueue hclosed)⟩
      | awaiting flush =>
        obtain ⟨taken, waiting, -, -, hpending, -⟩ := hs.active (by rw [hdeliverer]; rfl)
        unfold pending at hpending
        rw [hdeliverer, hqueue, hcaller] at hpending
        have hnone := (List.append_eq_nil_iff.mp hpending.symm).2
        by_cases hreached : flush ∈ s.reached
        · exact ⟨_, .inl (.reach hcaller hreached)⟩
        · rw [Caller.mark_of_not_reached hreached] at hnone
          exact nomatch hnone

end Sound

/-- A bound on the steps before a call returns. A message takes two steps to be dealt with. -/
def work (s : SharedOutput) : Nat := 2 * s.queue.length + s.deliverer.work + s.caller.work

theorem CallerStep.work_lt (h : s.CallerStep t) (hbusy : s.caller.isBusy = true) :
    t.work < s.work := by
  unfold work
  cases h with
  | write _ hcaller | flush hcaller | close hcaller =>
    rw [hcaller] at hbusy
    exact nomatch hbusy
  | send hcaller _ | mark hcaller _ =>
    simp only [hcaller, Caller.work, List.length_append, List.length_singleton]
    omega
  | lose hcaller _ | noMark hcaller _ | reach hcaller _ | giveUp hcaller _ _ | join hcaller _ =>
    simp only [hcaller, Caller.work]
    omega

theorem DelivererStep.work_lt (h : s.DelivererStep t) : t.work < s.work := by
  unfold work
  cases h with
  | take hdeliverer hqueue =>
    simp only [hdeliverer, hqueue, Deliverer.work, List.length_cons]
    omega
  | finish hdeliverer _ _ | accept hdeliverer | refuse hdeliverer | acknowledge hdeliverer =>
    simp only [hdeliverer, Deliverer.work]
    omega
  | leave hdeliverer =>
    simp only [hdeliverer, Deliverer.work, List.length_nil]
    omega

/-- Each step, of whichever thread, brings a call that has begun closer to its return. -/
theorem Step.work_lt (h : s.Step t) (hbusy : s.caller.isBusy = true) : t.work < s.work := by
  rcases h with h | h
  · exact h.work_lt hbusy
  · exact h.work_lt

/-! ## All of it together -/

/-- Threads share an output in any way. The sink is called with the first chunks that have been
written, each once and in order, and with none after one that it has refused; when the output has
been closed, it has been called with all of them up to that one. When a flush or the closing
returns, it has taken all that has been written before, or has refused something. A write never
waits, no call waits for a thread that has ended, and a call that has begun returns after a bounded
number of steps, of which the calls of the sink are some. What a channel of the program writes is
what a sink with its quota takes, and the threads can bring that about. -/
theorem output_delivered (hs : empty.Reaches s) :
    (s.called <+: s.written ∧
      ∀ before after chunk, s.offers = before ++ ⟨chunk, false⟩ :: after →
        after = [] ∧ s.called = s.offers.map Offer.chunk) ∧
    (s.caller = .closed → Offered s.written s.offers ∧ s.called = s.offers.map Offer.chunk) ∧
    (∀ t, s.CallerStep t → s.caller.isEmptying = true → t.caller.isBusy = false →
      Offered t.written t.offers ∧ (¬t.HasRefused → t.offers = allTaken t.written)) ∧
    ((∀ chunk, s.caller = .writing chunk → ∃ t, s.CallerStep t ∧ t.caller = .resting) ∧
      (s.caller.isBusy = true →
        (s.deliverer = .ended → ∃ t, s.CallerStep t) ∧
          (∃ t, s.Step t) ∧ ∀ t, s.Step t → t.work < s.work)) ∧
    ∀ c : Channel,
      (s.caller = .closed → Obeys c.quota s.offers →
        (c.writeAll s.written).output = c.output.writeAll (takenChunks s.offers)) ∧
      ∀ chunks, ∃ t, empty.Reaches t ∧ t.caller = .closed ∧ t.written = chunks ∧
        Obeys c.quota t.offers := by
  have hsound := hs.sound
  have hcalled : s.deliverer.isActive = false → s.called = s.offers.map Offer.chunk :=
    called_of_stopped
  refine ⟨⟨hsound.called_isPrefix, ?_⟩, ?_, ?_, ⟨?_, ?_⟩, fun c => ⟨?_, closes_with c.quota⟩⟩
  · intro before after chunk hoffers
    obtain ⟨hafter, hstopped⟩ := hsound.refused_last hoffers
    exact ⟨hafter, hcalled hstopped⟩
  · intro hclosed
    have hstopped : s.deliverer.isActive = false := by rw [hsound.closed hclosed]; rfl
    exact ⟨(hsound.stopped hstopped).1, hcalled hstopped⟩
  · intro t hstep hemptying hreturns
    have hoffered := hsound.offered_of_returns hstep hemptying hreturns
    exact ⟨hoffered, hoffered.eq_allTaken⟩
  · intro chunk hcaller
    by_cases hended : s.deliverer = .ended
    · exact ⟨_, .lose hcaller hended, rfl⟩
    · exact ⟨_, .send hcaller hended, rfl⟩
  · intro hbusy
    exact ⟨hsound.goesOn_of_ended hbusy, hsound.progress hbusy, fun t hstep => hstep.work_lt hbusy⟩
  · intro hclosed hobeys
    have hstopped : s.deliverer.isActive = false := by rw [hsound.closed hclosed]; rfl
    exact (hsound.stopped hstopped).1.output hobeys

/-- The sink takes one chunk, and refuses the next one when the marker of a flush is already behind
it. The flush returns because its marker is thrown away; what is written then is lost. -/
theorem output_delivered_refused :
    let first : Chunk := ⟨.stdout, [104, 105]⟩
    let second : Chunk := ⟨.stderr, [33]⟩
    let third : Chunk := ⟨.stdout, [10]⟩
    let s : SharedOutput :=
      { caller := .awaiting 0, deliverer := .ended, flushes := 1, written := [first, second]
        offers := [⟨first, true⟩, ⟨second, false⟩] }
    let t : SharedOutput :=
      { s with caller := .closed, isOpen := false, written := [first, second, third] }
    (empty.Reaches s ∧ s.CallerStep { s with caller := .resting } ∧
      Offered [first, second] [⟨first, true⟩, ⟨second, false⟩]) ∧
    empty.Reaches t ∧ Offered [first, second, third] [⟨first, true⟩, ⟨second, false⟩] ∧
      (Channel.writeAll { quota := some 1 } [first, second, third]).output =
        Output.writeAll {} [first] := by
  intro first second third s t
  have hs : empty.Reaches s :=
    .head (.inl (.write first rfl)) <| .head (.inl (.send rfl nofun)) <|
    .head (.inr (.take rfl rfl)) <| .head (.inl (.write second rfl)) <|
    .head (.inr (.accept rfl)) <| .head (.inl (.send rfl nofun)) <|
    .head (.inl (.flush rfl)) <| .head (.inr (.take rfl rfl)) <|
    .head (.inl (.mark rfl nofun)) <| .head (.inr (.refuse rfl)) <| .single (.inr (.leave rfl))
  have hreturn : s.CallerStep { s with caller := .resting } := .giveUp rfl nofun nofun
  have ht : empty.Reaches t :=
    hs.trans <| .head (.inl hreturn) <| .head (.inl (.write third rfl)) <|
    .head (.inl (.lose rfl rfl)) <| .head (.inl (.close rfl)) <| .single (.inl (.join rfl rfl))
  have hquota : Obeys (some 1) t.offers := by
    have hnone : Obeys (some 1) [] := nofun
    exact (hnone.append rfl).append rfl
  obtain ⟨-, -, hflush, -⟩ := output_delivered hs
  obtain ⟨-, hclosed, -, -, hchannel⟩ := output_delivered ht
  exact ⟨⟨hs, hreturn, (hflush _ hreturn rfl rfl).1⟩, ht, (hclosed rfl).1,
    (hchannel { quota := some 1 }).1 rfl hquota⟩

end SharedOutput

end MipsLab
