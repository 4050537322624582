import MipsLab.Proofs.ChannelSession

/-!
# Cancellation

A cancellation counts for the read that waits when it is made. The threads of a shared channel keep
to that although a call looks for a read first and sends its token later, so that the token may
come when the read is over: each read throws away the tokens that it finds, and holds the lock until
it has done so.

1. `Step.returned`, `Step.decides` and their like: what one step can do to a call, to the token and
   to the reads that are decided.
2. `Stale`: a call that had returned before a read started.
3. `Hits`: a call that began after a read had started.
4. `cancellation_hits_its_read`: a call of the first kind never cancels that read or a later one,
   and a call of the second kind is never lost on it.
-/

namespace MipsLab

/-- A read has been cancelled exactly if it has taken the token of a call. -/
def Reading.Attributed (r : Reading) : Prop := r.outcome = .failed .cancelled ↔ r.canceller ≠ none

theorem attributed_of_ne (kind : ReadKind) {outcome : ReadOutcome ReadValue}
    (h : outcome ≠ .failed .cancelled) : Reading.Attributed { kind, outcome } :=
  ⟨fun heq => absurd heq h, fun hne => absurd rfl hne⟩

namespace SharedChannel

/-- The read that has not been left yet has been cancelled. -/
def IsCancelled (s : SharedChannel) : Prop :=
  ∃ r, s.reader = .leaving r ∧ r.outcome = .failed .cancelled

variable {s t : SharedChannel} {k : Nat} {kind : ReadKind}

/-! ## Single steps -/

theorem call_ne {j : Nat} {a b : CancelCall} (hk : s.calls k = a) (hj : s.calls j = b)
    (hne : a ≠ b) : k ≠ j := by
  rintro rfl
  exact hne (hk.symm.trans hj)

/-- A call that has returned makes no more steps. -/
theorem Step.returned (h : s.Step t) (hcall : s.calls k = .returned) : t.calls k = .returned := by
  cases h with
  | @look j hlook _ =>
    have hne := call_ne hcall hlook nofun
    exact (Function.update_of_ne hne ..).trans hcall
  | @send j hsend =>
    have hne := call_ne hcall hsend nofun
    exact (Function.update_of_ne hne ..).trans hcall
  | _ => exact hcall

/-- A call that begins during a read finds the read, but not as long as the read keeps the lock. -/
theorem Step.fresh (h : s.Step t) (hcall : s.calls k = .fresh) (hreading : s.isReading = true) :
    t.calls k = .fresh ∨ t.calls k = .sending ∧ ∀ kind, t.reader ≠ .draining kind := by
  cases h with
  | @look j hlook hfree =>
    by_cases heq : k = j
    · subst heq
      right
      refine ⟨?_, hfree⟩
      show Function.update s.calls k (if s.isReading then .sending else .returned) k = .sending
      rw [Function.update_self, if_pos hreading]
    · exact .inl ((Function.update_of_ne heq ..).trans hcall)
  | @send j hsend =>
    have hne := call_ne hcall hsend nofun
    exact .inl ((Function.update_of_ne hne ..).trans hcall)
  | _ => exact .inl hcall

/-- When a call has sent its token, there is a token, if not its own. -/
theorem Step.sending (h : s.Step t) (hcall : s.calls k = .sending) :
    t.calls k = .sending ∨ t.token ≠ none := by
  cases h with
  | @look j hlook _ =>
    have hne := call_ne hcall hlook nofun
    exact .inl ((Function.update_of_ne hne ..).trans hcall)
  | @send j hsend =>
    right
    show s.token.or (some j) ≠ none
    cases s.token with
    | none => exact nofun
    | some _ => exact nofun
  | _ => exact .inl hcall

/-- Each token comes from a call that has just sent it. -/
theorem Step.token (h : s.Step t) (htoken : t.token = some k) :
    s.token = some k ∨ s.calls k = .sending ∧ t.calls k = .returned := by
  cases h with
  | drain | takeToken => exact nomatch htoken
  | @send j hsend =>
    cases hold : s.token with
    | none =>
      have heq : j = k := Option.some.inj ((congrArg (Option.or · (some j)) hold).symm.trans htoken)
      subst heq
      exact .inr ⟨hsend, Function.update_self ..⟩
    | some i =>
      have heq : some i = some k := (congrArg (Option.or · (some j)) hold).symm.trans htoken
      exact .inl heq
  | _ => exact .inl htoken

/-- A token stays until the start of a read or until a read takes it. -/
theorem Step.token_ne_none (h : s.Step t) (htoken : s.token ≠ none)
    (hfree : ∀ kind, s.reader ≠ .draining kind) : t.token ≠ none ∨ t.IsCancelled := by
  cases h with
  | drain hreader _ => exact absurd hreader (hfree _)
  | takeToken => exact .inr ⟨_, rfl, rfl⟩
  | @send j _ =>
    left
    show s.token.or (some j) ≠ none
    obtain ⟨i, hi⟩ := Option.ne_none_iff_exists'.mp htoken
    rw [hi]
    exact nofun
  | _ => exact .inl htoken

/-- A cancelled read stays cancelled until it is left. -/
theorem Step.isCancelled (h : s.Step t) (hcancelled : s.IsCancelled)
    (hreading : t.isReading = true) : t.IsCancelled := by
  obtain ⟨r, hleaving, houtcome⟩ := hcancelled
  cases h with
  | leave _ => exact nomatch hreading
  | look | send | arrive | close => exact ⟨r, hleaving, houtcome⟩
  | leftOver hreader | call hreader | start hreader | drain hreader | drained hreader
  | takeByte hreader | takeNewline hreader | keepByte hreader | lastLine hreader
  | noInput hreader | takeToken hreader => exact nomatch hreader.symm.trans hleaving

/-- A read does not wait before all tokens from before are thrown away. -/
theorem Step.waiting (h : s.Step t) (hreader : t.reader = .waiting kind) :
    (∃ kind, s.reader = .waiting kind) ∨ t.token = none := by
  cases h with
  | drained _ htoken => exact .inr htoken
  | leftOver hold | drain hold _ | keepByte hold _ _ _ => exact .inl ⟨_, hreader⟩
  | look | send | arrive | close => exact .inl ⟨_, hreader⟩
  | _ => exact nomatch hreader

/-- A read that counts as waiting is the same as before, unless it starts. -/
theorem Step.isReading (h : s.Step t) (hreading : t.isReading = true) :
    s.isReading = true ∧ t.started = s.started ∧
        ((∃ kind, t.reader = .draining kind) → ∃ kind, s.reader = .draining kind) ∨
      t.started = s.started + 1 := by
  cases h with
  | start _ => exact .inr rfl
  | leave _ => exact nomatch hreading
  | leftOver | drain | keepByte => exact .inl ⟨hreading, rfl, id⟩
  | look | send | arrive | close => exact .inl ⟨hreading, rfl, id⟩
  | _ =>
    refine .inl ⟨hreading, rfl, ?_⟩
    rintro ⟨_, hdraining⟩
    exact nomatch hdraining

/-- A step decides at most one read, which is cancelled exactly by taking a token as it waits. -/
theorem Step.decides (h : s.Step t) :
    t.decided = s.decided ∨ ∃ r, t.decided = s.decided ++ [r] ∧ r.Attributed ∧
      ∀ k, r.canceller = some k → s.token = some k ∧ ∃ kind, s.reader = .waiting kind := by
  cases h with
  | @leftOver b _ hreader _ =>
    refine .inr ⟨{ kind := .char, outcome := .done (.char b) }, ?_, attributed_of_ne .char nofun,
      nofun⟩
    rw [decided_eq_results hreader rfl]
    exact decided_eq_results hreader rfl
  | call hreader _ | start hreader | drained hreader _ =>
    left
    unfold decided
    rw [hreader]
    rfl
  | leave hreader =>
    left
    unfold decided
    rw [hreader]
    exact List.append_nil _
  | @takeByte b _ hreader _ =>
    rw [decided_eq_results hreader rfl]
    have hnot : ReadOutcome.done (ReadValue.char b) ≠ .failed .cancelled := nofun
    exact .inr ⟨_, rfl, attributed_of_ne .char hnot, nofun⟩
  | @takeNewline kind _ hreader _ _ | @lastLine kind hreader _ _ _ _ =>
    rw [decided_eq_results hreader rfl]
    exact .inr ⟨_, rfl, attributed_of_ne kind (kind.answer_done _).2, nofun⟩
  | @noInput kind hreader _ _ _ =>
    rw [decided_eq_results hreader rfl]
    have hnot : ReadOutcome.failed .closed ≠ (.failed .cancelled : ReadOutcome ReadValue) := nofun
    exact .inr ⟨_, rfl, attributed_of_ne kind hnot, nofun⟩
  | @takeToken kind k hreader htoken =>
    rw [decided_eq_results hreader rfl]
    refine .inr ⟨_, rfl, ⟨nofun, fun _ => rfl⟩, ?_⟩
    rintro k' hk'
    exact ⟨htoken.trans hk', kind, hreader⟩
  | drain | keepByte | look | send | arrive | close => exact .inl rfl

/-- The flag says whether a read has started and is not over. -/
theorem Step.flag (h : s.Step t) (hflag : s.isReading = s.reader.isInside) :
    t.isReading = t.reader.isInside := by
  cases h with
  | call hreader _ | drained hreader _ | takeByte hreader _ | takeNewline hreader _ _
  | lastLine hreader _ _ _ _ | noInput hreader _ _ _ | takeToken hreader _ =>
    rw [hreader] at hflag
    exact hflag
  | start | leave => rfl
  | leftOver | drain | keepByte | look | send | arrive | close => exact hflag

theorem Step.started_le (h : s.Step t) : s.started ≤ t.started := by
  cases h with
  | start => exact Nat.le_succ _
  | _ => exact Nat.le_refl _

theorem Step.results (h : s.Step t) : ∃ later, t.results = s.results ++ later := by
  cases h with
  | leftOver | leave => exact ⟨_, rfl⟩
  | _ => exact ⟨[], (List.append_nil _).symm⟩

/-! ## Tokens and reads -/

/-- The flag is right, and every token and every cancellation of a read comes from a call that has
returned. -/
structure Coherent (s : SharedChannel) : Prop where
  flag : s.isReading = s.reader.isInside
  token : ∀ k, s.token = some k → s.calls k = .returned
  decided : ∀ r ∈ s.decided, r.Attributed ∧ ∀ k, r.canceller = some k → s.calls k = .returned

theorem coherent_ofInput (input : List UInt8) : (ofInput input).Coherent :=
  ⟨rfl, nofun, nofun⟩

theorem Coherent.step (hs : s.Coherent) (h : s.Step t) : t.Coherent := by
  refine ⟨h.flag hs.flag, ?_, ?_⟩
  · intro k htoken
    rcases h.token htoken with hold | ⟨-, hsent⟩
    · exact h.returned (hs.token k hold)
    · exact hsent
  · have hold : ∀ r ∈ s.decided,
        r.Attributed ∧ ∀ k, r.canceller = some k → t.calls k = .returned := by
      intro r hr
      obtain ⟨hattributed, hcalls⟩ := hs.decided r hr
      exact ⟨hattributed, fun k hk => h.returned (hcalls k hk)⟩
    rcases h.decides with hsame | ⟨r, hnew, hattributed, htoken⟩
    · rwa [hsame]
    · intro r' hr'
      rw [hnew] at hr'
      rcases List.mem_append.mp hr' with hmem | hmem
      · exact hold r' hmem
      · obtain rfl := List.mem_singleton.mp hmem
        exact ⟨hattributed, fun k hk => h.returned (hs.token k (htoken k hk).1)⟩

/-! ## Calls from before a read -/

/-- A call has returned, its token is at most one that the next read throws away, and it has
cancelled none of the reads after the first ones. -/
structure Stale (k : Nat) (before : List Reading) (s : SharedChannel) : Prop where
  returned : s.calls k = .returned
  token : ∀ kind, s.reader = .waiting kind → s.token ≠ some k
  decided : ∃ later, s.decided = before ++ later ∧ ∀ r ∈ later, r.canceller ≠ some k

theorem Stale.step {before : List Reading} (hs : s.Stale k before) (h : s.Step t) :
    t.Stale k before := by
  refine ⟨h.returned hs.returned, ?_, ?_⟩
  · intro kind hreader htoken
    have hold : s.token = some k := by
      rcases h.token htoken with hold | ⟨hsending, -⟩
      · exact hold
      · exact nomatch hs.returned.symm.trans hsending
    rcases h.waiting hreader with ⟨kind', hwaiting⟩ | hnone
    · exact hs.token kind' hwaiting hold
    · exact nomatch hnone.symm.trans htoken
  · obtain ⟨later, hlater, hnot⟩ := hs.decided
    rcases h.decides with hsame | ⟨r, hnew, -, htoken⟩
    · exact ⟨later, hsame.trans hlater, hnot⟩
    · refine ⟨later ++ [r], by rw [hnew, hlater, List.append_assoc], ?_⟩
      intro r' hr' hk
      rcases List.mem_append.mp hr' with hmem | hmem
      · exact hnot r' hmem hk
      · obtain rfl := List.mem_singleton.mp hmem
        obtain ⟨hold, kind, hwaiting⟩ := htoken k hk
        exact hs.token kind hwaiting hold

/-! ## Calls within a read -/

/-- As long as the read goes on that has some number, a call that begins within it stays ahead of
it: it finds the read, and the token it sends is there until the read takes one. -/
structure Hits (k number : Nat) (s : SharedChannel) : Prop where
  number_le : number ≤ s.started
  hits : s.started = number → s.isReading = true → s.calls k = .fresh ∨
    (∀ kind, s.reader ≠ .draining kind) ∧
      (s.calls k = .sending ∨ s.token ≠ none ∨ s.IsCancelled)

theorem Hits.step {number : Nat} (hs : s.Hits k number) (h : s.Step t) : t.Hits k number := by
  refine ⟨?_, ?_⟩
  · exact Nat.le_trans hs.number_le h.started_le
  · intro hnumber hreading
    rcases h.isReading hreading with ⟨hold, hsame, hlock⟩ | hstarted
    · rcases hs.hits (hsame.symm.trans hnumber) hold with hfresh | ⟨hfree, hcases⟩
      · rcases h.fresh hfresh hold with hfresh | ⟨hsending, hfree⟩
        · exact .inl hfresh
        · exact .inr ⟨hfree, .inl hsending⟩
      · refine .inr ⟨?_, ?_⟩
        · intro kind hdraining
          obtain ⟨kind', hdraining'⟩ := hlock ⟨kind, hdraining⟩
          exact hfree kind' hdraining'
        · rcases hcases with hsending | htoken | hcancelled
          · rcases h.sending hsending with hsending | htoken
            · exact .inl hsending
            · exact .inr (.inl htoken)
          · exact .inr (h.token_ne_none htoken hfree)
          · exact .inr (.inr (h.isCancelled hcancelled hreading))
    · -- The read with the number is over when another one starts.
      have hle := hs.number_le
      omega

/-- When no read has started, a call that has returned is one from before all reads to come. -/
theorem stale_of_returned (hs : s.Coherent) (hcall : s.calls k = .returned)
    (hnot : s.isReading = false) : s.Stale k s.results := by
  have houtside : s.reader.isInside = false := hs.flag.symm.trans hnot
  refine ⟨hcall, ?_, [], ?_, nofun⟩
  · intro kind hreader
    rw [hreader] at houtside
    exact nomatch houtside
  · rw [List.append_nil]
    cases hreader : s.reader with
    | resting | called => exact decided_eq_results hreader rfl
    | draining | waiting | leaving =>
      rw [hreader] at houtside
      exact nomatch houtside

/-! ## Both -/

theorem Stale.results {before : List Reading} (ht : t.Stale k before)
    (hresults : ∃ later, t.results = before ++ later) :
    ∃ later, t.results = before ++ later ∧ ∀ r ∈ later, r.canceller ≠ some k := by
  obtain ⟨later, hlater⟩ := hresults
  obtain ⟨all, hall, hnot⟩ := ht.decided
  refine ⟨later, hlater, ?_⟩
  intro r hr
  have hsplit : before ++ (later ++ t.reader.decided) = before ++ all := by
    rw [← hall, ← List.append_assoc, ← hlater]
    rfl
  rw [← List.append_cancel_left hsplit] at hnot
  exact hnot r (List.mem_append_left _ hr)

theorem Reaches.results (h : s.Reaches t) : ∃ later, t.results = s.results ++ later := by
  refine h.kept (P := fun u => ∃ later, u.results = s.results ++ later) ?_
    ⟨[], (List.append_nil _).symm⟩
  rintro u v ⟨later, hlater⟩ hstep
  obtain ⟨more, hmore⟩ := hstep.results
  exact ⟨later ++ more, by rw [hmore, hlater, List.append_assoc]⟩

/-- Threads share a channel in any way. Every read that is cancelled has taken the token of a call
that has returned. A call that returned when no read was in progress never cancels one of the reads
that start afterwards. When a call begins and returns while a read is in progress, then from its
return on there is a token as long as the read is in progress and not cancelled; so a read that
waits can be cancelled. The channel of the program itself does nothing that the threads could not
do. -/
theorem cancellation_hits_its_read (input : List UInt8) (hs : (ofInput input).Reaches s) (k : Nat) :
    (∀ r ∈ s.results, (r.outcome = .failed .cancelled ↔ r.canceller ≠ none) ∧
      ∀ j, r.canceller = some j → s.calls j = .returned) ∧
    (s.calls k = .returned → s.isReading = false → ∀ t, s.Reaches t →
      ∃ later, t.results = s.results ++ later ∧ ∀ r ∈ later, r.canceller ≠ some k) ∧
    (s.calls k = .fresh → s.isReading = true → ∀ t, s.Reaches t →
      t.calls k = .returned → t.isReading = true → t.started = s.started →
        (t.token ≠ none ∨ t.IsCancelled) ∧
          ∀ kind, t.reader = .waiting kind → ∃ u, t.Step u ∧ u.IsCancelled) ∧
    ∀ events, ((ChannelSession.ofInput input).after events).ShownFrom (ofInput input) := by
  have hcoherent : s.Coherent := hs.kept Coherent.step (coherent_ofInput input)
  refine ⟨?_, ?_, ?_, ChannelSession.shows_after input⟩
  · intro r hr
    exact hcoherent.decided r (List.mem_append_left _ hr)
  · intro hcall hnot t hreach
    have hstale : t.Stale k s.results :=
      hreach.kept Stale.step (stale_of_returned hcoherent hcall hnot)
    exact hstale.results hreach.results
  · intro hcall hreading t hreach hreturned hreading' hsame
    have hhits : t.Hits k s.started :=
      hreach.kept Hits.step ⟨Nat.le_refl _, fun _ _ => .inl hcall⟩
    have hthere : t.token ≠ none ∨ t.IsCancelled := by
      rcases hhits.hits hsame hreading' with hfresh | ⟨-, hsending | hthere⟩
      · exact nomatch hfresh.symm.trans hreturned
      · exact nomatch hsending.symm.trans hreturned
      · exact hthere
    refine ⟨hthere, ?_⟩
    intro kind hwaiting
    rcases hthere with htoken | ⟨r, hleaving, -⟩
    · obtain ⟨j, hj⟩ := Option.ne_none_iff_exists'.mp htoken
      exact ⟨_, .takeToken hwaiting hj, _, rfl, rfl⟩
    · exact nomatch hwaiting.symm.trans hleaving

/-- A call finds a read, which is over when the token comes. The next read throws that token away,
and another call cancels it. -/
theorem cancellation_hits_its_read_late :
    let s : SharedChannel :=
      { toCome := [], token := some 0, started := 1
        calls := Function.update (Function.update (fun _ => .fresh) 0 .sending) 0 .returned
        results := [{ kind := .line, outcome := ReadKind.line.answer (.done (lineText [])) }] }
    let s' : SharedChannel := { s with reader := .draining .line, isReading := true, started := 2 }
    let t : SharedChannel :=
      { s' with
        reader := .waiting .line, token := some 1
        calls := Function.update (Function.update s.calls 1 .sending) 1 .returned }
    (ofInput [newlineByte]).Reaches s ∧ s.Reaches s' ∧ s'.Reaches t ∧
      (∃ later, t.results = s.results ++ later ∧ ∀ r ∈ later, r.canceller ≠ some 0) ∧
      ∃ u, t.Step u ∧ u.IsCancelled := by
  intro s s' t
  have hs : (ofInput [newlineByte]).Reaches s :=
    .head (@Step.call _ .line rfl nofun) <| .head (.start rfl) <| .head (.drained rfl rfl) <|
    .head (.look (k := 0) rfl nofun) <| .head (.arrive rfl) <| .head (.takeNewline rfl nofun rfl) <|
    .head (.leave rfl) <| .single (.send (k := 0) rfl)
  have hs' : s.Reaches s' := .head (@Step.call _ .line rfl nofun) <| .single (.start rfl)
  have ht : s'.Reaches t :=
    .head (.drain rfl nofun) <| .head (.drained rfl rfl) <| .head (.look (k := 1) rfl nofun) <|
    .single (.send (k := 1) rfl)
  obtain ⟨-, hstale, -⟩ := cancellation_hits_its_read [newlineByte] hs 0
  obtain ⟨-, -, hhit, -⟩ := cancellation_hits_its_read [newlineByte] (hs.trans hs') 1
  exact ⟨hs, hs', ht, hstale rfl rfl t (hs'.trans ht), (hhit rfl rfl t ht rfl rfl rfl).2 .line rfl⟩

end SharedChannel

end MipsLab
