import Mathlib.Data.List.Induction
import MipsLab.Proofs.SharedChannel

/-!
# Sessions

The channel of a console against the threads that share it. A channel of the program does in one go
what takes the threads many steps, and it takes a byte before a cancellation. Whatever happens to
it, the threads could have brought about as well.

1. `ChannelSession.after`: a console with its input and the reads that are tried.
2. `ChannelSession.Shows`: what a session and a shared channel have in common.
3. `ChannelSession.shows_after`: whatever happens in a session with a channel, the threads of a
   shared channel can bring about the same.
-/

namespace MipsLab

/-! ## Lines -/

theorem splitLine_eq_some {bytes line rest : List UInt8} (h : splitLine bytes = (line, some rest)) :
    newlineByte ∉ line ∧ bytes = line ++ newlineByte :: rest := by
  induction bytes generalizing line with
  | nil => exact nomatch h
  | cons b bytes ih =>
    unfold splitLine at h
    split at h
    · next hb =>
      cases h
      exact ⟨List.not_mem_nil, hb ▸ rfl⟩
    · next hb =>
      obtain ⟨first, after, hsplit⟩ : ∃ first after, splitLine bytes = (first, after) :=
        ⟨_, _, rfl⟩
      rw [hsplit] at h
      cases h
      obtain ⟨hnot, rfl⟩ := ih hsplit
      exact ⟨List.not_mem_cons_of_ne_of_not_mem (Ne.symm hb) hnot, rfl⟩

/-! ## Reads -/

namespace Channel

variable {c : Channel}

theorem start_start (c : Channel) : c.start.start = c.start := by
  unfold start
  split <;> rfl

/-- A read goes the same way if it has been started before. -/
theorem read_start {kind : ReadKind} (hpartial : kind = .char → c.partialLine = []) :
    (Console.channel c.start).read kind = (Console.channel c).read kind := by
  have hline : c.start.readLine = c.readLine := by
    unfold readLine
    rw [start_start]
  by_cases hkind : kind = .char
  · subst hkind
    have hnil := hpartial rfl
    have hchar : c.start.readChar = c.readChar := by
      unfold readChar
      rw [c.start_sameInput.partialLine, hnil, start_start]
    show (charAnswer c.start.readChar.1, Console.channel c.start.readChar.2) = _
    rw [hchar]
    rfl
  · rw [Console.channel_read_line hkind, Console.channel_read_line hkind, hline]

end Channel

/-! ## Channels of the program -/

/-- A console with the input that is still to come and the read that waits, if one does. -/
structure ChannelSession where
  console : Console
  toCome : List UInt8
  waiting : Option ReadKind := none
  results : List Result := []

namespace ChannelSession

/-- What can happen in a session. -/
inductive Event
  /-- A read is tried, or once more the one that waits. -/
  | read (kind : ReadKind)
  | cancelRead
  /-- Some more bytes of the input arrive. -/
  | arrive (count : Nat)
  /-- The input ends, if all of it has arrived. -/
  | close
  deriving DecidableEq, Repr

/-- A session with a channel of which some input is to come. -/
def ofInput (input : List UInt8) : ChannelSession := { console := .channel {}, toCome := input }

/-- Notes what has become of a read. -/
def note (t : ChannelSession) (kind : ReadKind) (found : ReadOutcome ReadValue × Console) :
    ChannelSession :=
  if found.1 = .waiting then { t with console := found.2, waiting := some kind }
  else
    { t with
      console := found.2, waiting := none, results := t.results ++ [(kind, found.1)] }

def perform (t : ChannelSession) : Event → ChannelSession
  | .read kind => t.note (t.waiting.getD kind) (t.console.read (t.waiting.getD kind))
  | .cancelRead => { t with console := t.console.cancelRead }
  | .arrive count =>
    { t with console := t.console.push (t.toCome.take count), toCome := t.toCome.drop count }
  | .close => if t.toCome.isEmpty then { t with console := t.console.closeInput } else t

def after (t : ChannelSession) (events : List Event) : ChannelSession := events.foldl perform t

/-- What a read has come to in a session, the threads of a shared channel have brought about. -/
structure Shows (t : ChannelSession) (c : Channel) (s : SharedChannel) : Prop where
  console : t.console = .channel c
  toCome : t.toCome = s.toCome
  results : t.results = s.results.map Reading.result
  reader : s.reader = t.waiting.elim .resting .waiting
  arrived : c.arrived = s.arrived
  isOpen : c.isOpen = s.isOpen
  partialLine : c.partialLine = s.partialLine
  flag : c.isReading = t.waiting.isSome
  isReading : s.isReading = t.waiting.isSome
  isCancelled : t.waiting ≠ none → c.isCancelled = s.token.isSome
  char : t.waiting = some .char → s.partialLine = []
  ended : s.isOpen = false → s.toCome = []
  fresh : ∃ n, ∀ k, n ≤ k → s.calls k = .fresh

/-- What happens in a session, the threads can bring about from where they are. -/
def ShownFrom (t : ChannelSession) (s : SharedChannel) : Prop := ∃ c s', s.Reaches s' ∧ t.Shows c s'

variable {t : ChannelSession} {c c' : Channel} {s s' : SharedChannel} {kind : ReadKind}

theorem ShownFrom.after (h : t.ShownFrom s') (hreach : s.Reaches s') : t.ShownFrom s := by
  obtain ⟨c, s'', hrest, hshows⟩ := h
  exact ⟨c, s'', hreach.trans hrest, hshows⟩

theorem note_waiting (console : Console) :
    t.note kind (.waiting, console) = { t with console, waiting := some kind } := if_pos rfl

theorem note_decided {outcome : ReadOutcome ReadValue} (h : outcome ≠ .waiting)
    (console : Console) :
    t.note kind (outcome, console) =
      { t with console, waiting := none, results := t.results ++ [(kind, outcome)] } := if_neg h

/-- What a session was about to note does not depend on its console. -/
theorem note_congr (console : Console) (waiting : Option ReadKind)
    (found : ReadOutcome ReadValue × Console) :
    { t with console, waiting }.note kind found = t.note kind found := by
  unfold note
  split <;> rfl

/-- Threads that have decided a read bring it to its end. -/
theorem Shows.leave (h : t.Shows c s) {arrived partialLine : List UInt8} {token : Option Nat}
    {reading : Reading}
    (hreach : s.Reaches { s with arrived, partialLine, token, reader := .leaving reading })
    (houtcome : reading.outcome ≠ .waiting) (harrived : c'.arrived = arrived)
    (hopen : c'.isOpen = c.isOpen) (hpartial : c'.partialLine = partialLine)
    (hflag : c'.isReading = false) :
    (t.note reading.kind (reading.outcome, .channel c')).ShownFrom s := by
  refine ⟨c', _, hreach.tail (.leave rfl), ?_⟩
  rw [note_decided houtcome]
  refine ⟨rfl, h.toCome, ?_, rfl, harrived, hopen.trans h.isOpen, hpartial, hflag, rfl,
    fun hnone => absurd rfl hnone, nofun, h.ended, h.fresh⟩
  rw [h.results, List.map_append]
  rfl

/-! ## A read that has started -/

theorem Shows.reader_waiting (h : t.Shows c s) (hwaiting : t.waiting = some kind) :
    s.reader = .waiting kind := by
  rw [h.reader, hwaiting]
  rfl

theorem Shows.start_eq (h : t.Shows c s) (hwaiting : t.waiting = some kind) : c.start = c := by
  unfold Channel.start
  rw [if_pos]
  rw [h.flag, hwaiting]
  rfl

/-- A read for which there is no input ends with it, or is cancelled, or waits. -/
theorem Shows.stall {α : Type} (h : t.Shows c s) (hwaiting : t.waiting = some kind)
    (harrived : c.arrived = []) (hnot : c.isOpen = true ∨ c.partialLine = [])
    {answer : ReadOutcome α → ReadOutcome ReadValue}
    (hfailed : ∀ e, answer (.failed e) = .failed e) (hwaits : answer .waiting = .waiting) :
    (t.note kind (answer c.stall.1, .channel (c.stall (α := α)).2)).ShownFrom s := by
  have hreader := h.reader_waiting hwaiting
  unfold Channel.stall
  cases hopen : c.isOpen with
  | false =>
    rw [Bool.not_false, if_pos rfl]
    have hnil : c.partialLine = [] := hnot.resolve_left (by rw [hopen]; nofun)
    have hnoInput : s.Step _ := .noInput hreader (h.arrived ▸ harrived) (h.isOpen ▸ hopen)
      (h.partialLine ▸ hnil)
    dsimp only
    rw [hfailed]
    exact h.leave (.single hnoInput) nofun h.arrived rfl h.partialLine rfl
  | true =>
    rw [Bool.not_true, if_neg nofun]
    have hcancelled := h.isCancelled (by rw [hwaiting]; nofun)
    cases htoken : s.token with
    | some k =>
      rw [hcancelled, htoken, Option.isSome_some, if_pos rfl]
      dsimp only
      rw [hfailed]
      exact h.leave (.single (.takeToken hreader htoken)) nofun h.arrived rfl h.partialLine rfl
    | none =>
      rw [hcancelled, htoken, Option.isSome_none, if_neg nofun]
      dsimp only
      rw [hwaits, note_waiting]
      refine ⟨c, s, .refl, ?_⟩
      have hsame : { t with console := .channel c, waiting := some kind } = t := by
        rw [← h.console, ← hwaiting]
      rwa [hsame]

/-- A read of a line that has started takes in the bytes that have arrived. -/
theorem Shows.readLine (h : t.Shows c s) (hwaiting : t.waiting = some kind)
    (hkind : kind ≠ .char) :
    (t.note kind (kind.answer c.readLine.1, .channel c.readLine.2)).ShownFrom s := by
  have hreader := h.reader_waiting hwaiting
  have hstart := h.start_eq hwaiting
  obtain ⟨line, after, hsplit⟩ : ∃ line after, splitLine c.arrived = (line, after) := ⟨_, _, rfl⟩
  cases after with
  | some rest =>
    obtain ⟨hline, hbytes⟩ := splitLine_eq_some hsplit
    have hbegun := SharedChannel.reaches_begun hreader hkind (h.arrived ▸ hbytes) hline
    rw [Channel.readLine_whole hsplit, h.partialLine]
    exact h.leave (hbegun.tail (.takeNewline hreader hkind rfl)) (kind.answer_done _).1 rfl
      c.start_sameInput.isOpen rfl rfl
  | none =>
    obtain ⟨rfl, hline⟩ := splitLine_none hsplit
    have hbytes : s.arrived = c.arrived ++ [] := by rw [List.append_nil, h.arrived]
    have hbegun := SharedChannel.reaches_begun hreader hkind hbytes hline
    by_cases hlast : c.isOpen = false ∧ c.partialLine ++ c.arrived ≠ []
    · obtain ⟨hclosed, hsome⟩ := hlast
      rw [Channel.readLine_last hsplit hclosed hsome, h.partialLine]
      rw [h.partialLine] at hsome
      exact h.leave (hbegun.tail (.lastLine hreader hkind rfl (h.isOpen ▸ hclosed) hsome))
        (kind.answer_done _).1 rfl c.start_sameInput.isOpen rfl rfl
    · have hnot : c.isOpen = true ∨ c.partialLine ++ c.arrived = [] := by
        rcases Decidable.not_and_iff_or_not.mp hlast with hopen | hnil
        · exact .inl (Bool.not_eq_false _ ▸ hopen)
        · exact .inr (Decidable.not_not.mp hnil)
      rw [Channel.readLine_none hsplit hnot, hstart]
      -- The bytes of the line that has been begun are taken in first.
      let begun : Channel := { c with arrived := [], partialLine := c.partialLine ++ c.arrived }
      have hshows : Shows { t with console := .channel begun } begun
          { s with arrived := [], partialLine := s.partialLine ++ c.arrived } := by
        refine ⟨rfl, h.toCome, h.results, h.reader, rfl, h.isOpen, ?_, h.flag, h.isReading,
          h.isCancelled, fun hchar => ?_, h.ended, h.fresh⟩
        · exact congrArg (· ++ c.arrived) h.partialLine
        · exact absurd (Option.some.inj (hwaiting ▸ hchar)) hkind
      have hstall := hshows.stall hwaiting rfl hnot kind.answer_failed kind.answer_waiting
      exact ShownFrom.after (note_congr .. ▸ hstall) hbegun

theorem Shows.readChar (h : t.Shows c s) (hwaiting : t.waiting = some .char) :
    (t.note .char (charAnswer c.readChar.1, .channel c.readChar.2)).ShownFrom s := by
  have hreader := h.reader_waiting hwaiting
  have hpartial : c.partialLine = [] := h.partialLine.trans (h.char hwaiting)
  have hstart := h.start_eq hwaiting
  cases harrived : c.arrived with
  | nil =>
    rw [Channel.readChar_none hpartial harrived, hstart]
    exact h.stall hwaiting harrived (.inr hpartial) (fun _ => rfl) rfl
  | cons b rest =>
    rw [Channel.readChar_arrived hpartial harrived]
    exact h.leave (.single (.takeByte hreader (h.arrived ▸ harrived))) nofun rfl
      c.start_sameInput.isOpen (c.start_sameInput.partialLine.trans h.partialLine) rfl

/-! ## Everything that can happen -/

theorem Shows.readWaiting (h : t.Shows c s) (hwaiting : t.waiting = some kind) :
    (t.note kind ((Console.channel c).read kind)).ShownFrom s := by
  by_cases hkind : kind = .char
  · subst hkind
    exact h.readChar hwaiting
  · rw [Console.channel_read_line hkind]
    exact h.readLine hwaiting hkind

/-- A read starts, unless it finds a byte that is left over. -/
theorem Shows.readResting (h : t.Shows c s) (hwaiting : t.waiting = none) (kind : ReadKind) :
    (t.note kind ((Console.channel c).read kind)).ShownFrom s := by
  have hreader : s.reader = .resting := by
    rw [h.reader, hwaiting]
    rfl
  have hflag : c.isReading = false := by
    rw [h.flag, hwaiting]
    rfl
  by_cases hpartial : kind = .char → c.partialLine = []
  · have hreach := SharedChannel.reaches_waiting hreader (h.partialLine ▸ hpartial)
    have hstart : c.start = { c with isReading := true, isCancelled := false } :=
      if_neg (by rw [hflag]; nofun)
    have hshows : Shows { t with console := .channel c.start, waiting := some kind } c.start
        { s with
          reader := .waiting kind, isReading := true, token := none
          started := s.started + 1 } := by
      rw [hstart]
      refine ⟨rfl, h.toCome, h.results, rfl, h.arrived, h.isOpen, h.partialLine, rfl, rfl,
        fun _ => rfl, fun hchar => ?_, h.ended, h.fresh⟩
      exact h.partialLine ▸ hpartial (Option.some.inj hchar)
    have hread := hshows.readWaiting rfl
    rw [Channel.read_start hpartial] at hread
    exact ShownFrom.after (note_congr .. ▸ hread) hreach
  · obtain ⟨hkind, hsome⟩ := Classical.not_imp.mp hpartial
    subst hkind
    obtain ⟨b, rest, hcons⟩ := List.exists_cons_of_ne_nil hsome
    have hleftOver : s.Step _ := .leftOver hreader (h.partialLine ▸ hcons)
    have hread : (Console.channel c).read .char =
        (.done (.char b), .channel { c with partialLine := rest }) := by
      show (charAnswer c.readChar.1, Console.channel c.readChar.2) = _
      rw [Channel.readChar_begun hcons]
      rfl
    have hdecided : ReadOutcome.done (ReadValue.char b) ≠ .waiting := nofun
    rw [hread, note_decided hdecided]
    refine ⟨_, _, .single hleftOver, rfl, h.toCome, ?_, hreader, h.arrived, h.isOpen, rfl, hflag,
      ?_, fun hnone => absurd rfl hnone, nofun, h.ended, h.fresh⟩
    · rw [h.results, List.map_append]
      rfl
    · rw [h.isReading, hwaiting]

theorem Shows.cancelRead (h : t.Shows c s) : (t.perform .cancelRead).ShownFrom s := by
  show ShownFrom { t with console := t.console.cancelRead } s
  rw [h.console]
  show ShownFrom { t with console := .channel c.cancelRead } s
  cases hwaiting : t.waiting with
  | none =>
    have hsame : c.cancelRead = c := if_neg (by rw [h.flag, hwaiting]; nofun)
    rw [hsame, ← h.console, ← hwaiting]
    exact ⟨c, s, .refl, h⟩
  | some kind =>
    have hcancelled : c.cancelRead = { c with isCancelled := true } :=
      if_pos (by rw [h.flag, hwaiting]; rfl)
    have hreading : s.isReading = true := by
      rw [h.isReading, hwaiting]
      rfl
    obtain ⟨n, hfresh⟩ := h.fresh
    have hreach := SharedChannel.reaches_cancelled (hfresh n (Nat.le_refl n))
      (h.reader_waiting hwaiting) hreading
    rw [hcancelled, ← hwaiting]
    refine ⟨_, _, hreach, rfl, h.toCome, h.results, h.reader, h.arrived, h.isOpen, h.partialLine,
      h.flag, h.isReading, fun _ => ?_, h.char, h.ended, n + 1, fun k hk => ?_⟩
    · show true = (s.token.or (some n)).isSome
      rw [Option.isSome_or, Option.isSome_some, Bool.or_true]
    · have hne : k ≠ n := Nat.ne_of_gt hk
      exact (Function.update_of_ne hne ..).trans (hfresh k (Nat.le_of_succ_le hk))

theorem Shows.arrive (h : t.Shows c s) (count : Nat) : (t.perform (.arrive count)).ShownFrom s := by
  show ShownFrom
    { t with console := t.console.push (t.toCome.take count), toCome := t.toCome.drop count } s
  rw [h.console]
  show ShownFrom
    { t with console := .channel (c.push (t.toCome.take count)), toCome := t.toCome.drop count } s
  cases hopen : c.isOpen with
  | true =>
    have hpush : c.push (t.toCome.take count) =
        { c with arrived := c.arrived ++ t.toCome.take count } := if_pos hopen
    have hreach := SharedChannel.reaches_arrived (s.toCome.take_append_drop count).symm
    rw [hpush, h.toCome]
    refine ⟨_, _, hreach, rfl, rfl, h.results, h.reader, ?_, h.isOpen, h.partialLine, h.flag,
      h.isReading, h.isCancelled, h.char, fun hclosed => ?_, h.fresh⟩
    · exact congrArg (· ++ s.toCome.take count) h.arrived
    · exact absurd (hopen.symm.trans (h.isOpen.trans hclosed)) nofun
  | false =>
    have hpush : c.push (t.toCome.take count) = c := if_neg (by rw [hopen]; nofun)
    have hnil : t.toCome = [] := h.toCome.trans (h.ended (h.isOpen ▸ hopen))
    rw [hpush, hnil, List.drop_nil, ← hnil, ← h.console]
    exact ⟨c, s, .refl, h⟩

theorem Shows.close (h : t.Shows c s) : (t.perform .close).ShownFrom s := by
  show ShownFrom (if t.toCome.isEmpty then { t with console := t.console.closeInput } else t) s
  split
  · next hempty =>
    have hnil : s.toCome = [] := h.toCome ▸ List.isEmpty_iff.mp hempty
    rw [h.console]
    exact ⟨c.close, _, .single (.close hnil), rfl, h.toCome, h.results, h.reader, h.arrived, rfl,
      h.partialLine, h.flag, h.isReading, h.isCancelled, h.char, fun _ => hnil, h.fresh⟩
  · exact ⟨c, s, .refl, h⟩

theorem Shows.perform (h : t.Shows c s) (event : Event) : (t.perform event).ShownFrom s := by
  cases event with
  | read kind =>
    show (t.note (t.waiting.getD kind) (t.console.read (t.waiting.getD kind))).ShownFrom s
    rw [h.console]
    cases hwaiting : t.waiting with
    | none => exact h.readResting hwaiting kind
    | some kind' => exact h.readWaiting hwaiting
  | cancelRead => exact h.cancelRead
  | arrive count => exact h.arrive count
  | close => exact h.close

/-- Whatever happens in a session, the threads of a shared channel can bring about the same. -/
theorem shows_after (input : List UInt8) (events : List Event) :
    ((ofInput input).after events).ShownFrom (SharedChannel.ofInput input) := by
  induction events using List.reverseRecOn with
  | nil =>
    refine ⟨{}, _, .refl, rfl, rfl, rfl, rfl, rfl, rfl, rfl, rfl, rfl, fun h => absurd rfl h, nofun,
      nofun, 0, fun _ _ => rfl⟩
  | append_singleton events event ih =>
    obtain ⟨c, s, hreach, hshows⟩ := ih
    have hafter : (ofInput input).after (events ++ [event]) =
        ((ofInput input).after events).perform event := List.foldl_append
    rw [hafter]
    exact (hshows.perform event).after hreach

end ChannelSession

end MipsLab
