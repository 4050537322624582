import MipsLab.Proofs.ChannelSession

/-!
# Kept input

Cancelling reads of a channel loses no input and reads none twice. What the reads give that are not
cancelled is what a buffer gives that has held all the input from the start, whatever the kinds of
the reads, wherever reads are cancelled and whenever input arrives: a part of a line that a
cancelled read has taken in goes to the next read.

1. `Console.readEach`: several reads in a row.
2. `Serves`: the reads of a buffer that have given some results, and what they have left.
3. `SharedChannel.Step.deeds`: each step of the threads of a shared channel does what the next read
   of the buffer does, or nothing that concerns it.
4. `cancellation_keeps_input`: the results are those of the buffer.
-/

namespace MipsLab

open Relation

/-! ## Several reads -/

namespace Console

variable {kind : ReadKind} {line rest : List UInt8}

/-- Reads one thing after the other. -/
def readEach (console : Console) : List ReadKind → List Result
  | [] => []
  | kind :: kinds => (kind, (console.read kind).1) :: readEach (console.read kind).2 kinds

def afterReads (console : Console) (kinds : List ReadKind) : Console :=
  kinds.foldl (fun console kind => (console.read kind).2) console

theorem readEach_append (console : Console) (kinds more : List ReadKind) :
    console.readEach (kinds ++ more) =
      console.readEach kinds ++ (console.afterReads kinds).readEach more := by
  induction kinds generalizing console with
  | nil => rfl
  | cons kind kinds ih =>
    rw [List.cons_append, readEach, readEach, ih, List.cons_append]
    rfl

theorem readEach_length (console : Console) (kinds : List ReadKind) :
    (console.readEach kinds).length = kinds.length := by
  induction kinds generalizing console with
  | nil => rfl
  | cons kind kinds ih => rw [readEach, List.length_cons, List.length_cons, ih]

/-! ## Buffers -/

theorem buffered_line (hkind : kind ≠ .char) (hline : newlineByte ∉ line) :
    (buffered { input := line ++ newlineByte :: rest }).read kind =
      (kind.answer (.done (lineText line)), buffered { input := rest }) := by
  have hsplit : splitLine (line ++ newlineByte :: rest) = (line, some rest) := by
    rw [splitLine_append hline, splitLine, if_pos rfl, List.append_nil]
  have hread : Buffer.readLine { input := line ++ newlineByte :: rest } =
      (.done (lineText line), { input := rest }) := by
    unfold Buffer.readLine
    rw [if_neg (by simp)]
    simp only [hsplit]
    rfl
  rw [buffered_read_line hkind, hread]

/-- The last line has no newline. -/
theorem buffered_last (hkind : kind ≠ .char) (hline : newlineByte ∉ line) (hsome : line ≠ []) :
    (buffered { input := line }).read kind =
      (kind.answer (.done (lineText line)), buffered { input := [] }) := by
  have hsplit : splitLine line = (line, none) := by
    have happend := splitLine_append hline []
    rwa [List.append_nil, show splitLine [] = ([], none) from rfl, List.append_nil] at happend
  have hread : Buffer.readLine { input := line } = (.done (lineText line), { input := [] }) := by
    unfold Buffer.readLine
    rw [if_neg (by simpa using hsome)]
    simp only [hsplit]
    rfl
  rw [buffered_read_line hkind, hread]

theorem buffered_closed (kind : ReadKind) :
    (buffered { input := [] }).read kind = (.failed .closed, buffered { input := [] }) := by
  cases kind <;> rfl

end Console

/-! ## What a buffer serves -/

/-- The results of the reads that have not been cancelled. -/
def answered (results : List Result) : List Result := results.filter (·.2 ≠ .failed .cancelled)

/-- The reads of a buffer with some input have the results given, cancellations apart, and leave
`rest`. -/
structure Serves (input : List UInt8) (results : List Result) (rest : List UInt8) : Prop where
  readEach : (Console.buffered { input }).readEach ((answered results).map Prod.fst) =
    answered results
  afterReads : (Console.buffered { input }).afterReads ((answered results).map Prod.fst) =
    .buffered { input := rest }

namespace Serves

variable {input rest rest' : List UInt8} {results : List Result}

theorem nil (input : List UInt8) : Serves input [] input := ⟨rfl, rfl⟩

theorem cancelled (h : Serves input results rest) (kind : ReadKind) :
    Serves input (results ++ [(kind, .failed .cancelled)]) rest := by
  have hsame : answered (results ++ [(kind, .failed .cancelled)]) = answered results := by
    unfold answered
    rw [List.filter_append]
    exact List.append_nil _
  exact ⟨by rw [hsame, h.readEach], by rw [hsame, h.afterReads]⟩

theorem read (h : Serves input results rest) {kind : ReadKind} {outcome : ReadOutcome ReadValue}
    (houtcome : outcome ≠ .failed .cancelled)
    (hread : (Console.buffered { input := rest }).read kind =
      (outcome, .buffered { input := rest' })) :
    Serves input (results ++ [(kind, outcome)]) rest' := by
  have hsame : answered (results ++ [(kind, outcome)]) = answered results ++ [(kind, outcome)] := by
    simp [answered, houtcome]
  refine ⟨?_, ?_⟩
  · rw [hsame, List.map_append, Console.readEach_append, h.readEach, h.afterReads]
    show _ ++ [(kind, ((Console.buffered { input := rest }).read kind).1)] = _
    rw [hread]
  · rw [hsame, List.map_append]
    unfold Console.afterReads
    rw [List.foldl_append]
    have hafter := h.afterReads
    unfold Console.afterReads at hafter
    rw [hafter]
    show ((Console.buffered { input := rest }).read kind).2 = _
    rw [hread]

/-- The first results do not depend on the reads that follow. -/
theorem before {more : List Result} (h : Serves input (results ++ more) rest) :
    answered results = (Console.buffered { input }).readEach ((answered results).map Prod.fst) := by
  have hall := h.readEach
  have hsplit : answered (results ++ more) = answered results ++ answered more :=
    List.filter_append ..
  rw [hsplit, List.map_append, Console.readEach_append] at hall
  have hlength := Console.readEach_length (Console.buffered { input })
    ((answered results).map Prod.fst)
  rw [List.length_map] at hlength
  exact (List.append_inj_left hall hlength).symm

end Serves

/-! ## The threads of a shared channel -/

/-- What is to be read by the read that is called and not decided. -/
def Reader.asked? : Reader → Option ReadKind
  | .called kind | .draining kind | .waiting kind => some kind
  | _ => none

namespace SharedChannel

/-- The input that no decided read has used, whether it has arrived or not. -/
def unread (s : SharedChannel) : List UInt8 := s.partialLine ++ (s.arrived ++ s.toCome)

/-- The start of a line is in its place: it has no newline, and no read of a byte passes it over. -/
structure InOrder (s : SharedChannel) : Prop where
  ended : s.isOpen = false → s.toCome = []
  noNewline : newlineByte ∉ s.partialLine
  char : s.reader.asked? = some .char → s.partialLine = []

variable {s t : SharedChannel}

theorem InOrder.step (hs : s.InOrder) (h : s.Step t) : t.InOrder := by
  cases h with
  | leftOver hreader hpartial =>
    refine ⟨hs.ended, ?_, ?_⟩
    · intro hmem
      exact hs.noNewline (hpartial ▸ List.mem_cons_of_mem _ hmem)
    · intro hasked
      have hnone : s.reader.asked? = none := by rw [hreader]; rfl
      exact nomatch hnone.symm.trans hasked
  | call _ hpartial =>
    exact ⟨hs.ended, hs.noNewline, fun hasked => hpartial (Option.some.inj hasked)⟩
  | start hreader | drained hreader _ =>
    refine ⟨hs.ended, hs.noNewline, fun hasked => hs.char ?_⟩
    rw [hreader]
    exact hasked
  | takeByte | noInput | takeToken | leave => exact ⟨hs.ended, hs.noNewline, nofun⟩
  | takeNewline | lastLine => exact ⟨hs.ended, List.not_mem_nil, nofun⟩
  | @keepByte kind _ _ hreader hkind harrived hbyte =>
    refine ⟨hs.ended, ?_, ?_⟩
    · intro hmem
      rcases List.mem_append.mp hmem with hmem | hmem
      · exact hs.noNewline hmem
      · exact hbyte (List.mem_singleton.mp hmem).symm
    · intro hasked
      have hkind' : s.reader.asked? = some kind := by rw [hreader]; rfl
      exact absurd (Option.some.inj (hkind'.symm.trans hasked)) hkind
  | drain | look | send => exact ⟨hs.ended, hs.noNewline, hs.char⟩
  | arrive htoCome =>
    refine ⟨fun hclosed => ?_, hs.noNewline, hs.char⟩
    exact nomatch (hs.ended hclosed).symm.trans htoCome
  | close htoCome => exact ⟨fun _ => htoCome, hs.noNewline, hs.char⟩

/-- A step decides no read and leaves the input alone, or it cancels a read, or it does what a read
of a buffer does that holds the input. -/
inductive Deeds (s t : SharedChannel) : Prop
  | nothing (hdecided : t.decided = s.decided) (hunread : t.unread = s.unread)
  | cancels (r : Reading) (hdecided : t.decided = s.decided ++ [r])
      (houtcome : r.outcome = .failed .cancelled) (hunread : t.unread = s.unread)
  | reads (r : Reading) (hdecided : t.decided = s.decided ++ [r])
      (houtcome : r.outcome ≠ .failed .cancelled)
      (hread : (Console.buffered { input := s.unread }).read r.kind =
        (r.outcome, .buffered { input := t.unread }))

theorem Step.deeds (h : s.Step t) (hs : s.InOrder) : s.Deeds t := by
  cases h with
  | @leftOver b rest hreader hpartial =>
    refine .reads { kind := .char, outcome := .done (.char b) } ?_ nofun ?_
    · rw [decided_eq_results hreader rfl]
      exact decided_eq_results hreader rfl
    · show (Console.buffered { input := s.partialLine ++ (s.arrived ++ s.toCome) }).read .char = _
      rw [hpartial]
      rfl
  | call hreader _ | start hreader | drained hreader _ =>
    refine .nothing ?_ rfl
    unfold decided
    rw [hreader]
    rfl
  | leave hreader =>
    refine .nothing ?_ rfl
    unfold decided
    rw [hreader]
    exact List.append_nil _
  | @takeByte b rest hreader harrived =>
    have hpartial : s.partialLine = [] := hs.char (by rw [hreader]; rfl)
    refine .reads { kind := .char, outcome := .done (.char b) } ?_ nofun ?_
    · rw [decided_eq_results hreader rfl]
      rfl
    · unfold unread
      rw [hpartial, harrived]
      rfl
  | @takeNewline kind rest hreader hkind harrived =>
    refine .reads { kind, outcome := _ } ?_ (kind.answer_done (lineText s.partialLine)).2 ?_
    · rw [decided_eq_results hreader rfl]
      rfl
    · unfold unread
      rw [harrived]
      exact Console.buffered_line hkind hs.noNewline
  | keepByte _ _ harrived _ =>
    refine .nothing rfl ?_
    unfold unread
    rw [harrived, List.append_assoc]
    rfl
  | @lastLine kind hreader hkind harrived hclosed hsome =>
    refine .reads { kind, outcome := _ } ?_ (kind.answer_done (lineText s.partialLine)).2 ?_
    · rw [decided_eq_results hreader rfl]
      rfl
    · unfold unread
      rw [harrived, hs.ended hclosed, List.append_nil, List.append_nil]
      exact Console.buffered_last hkind hs.noNewline hsome
  | @noInput kind hreader harrived hclosed hpartial =>
    refine .reads { kind, outcome := .failed .closed } ?_ nofun ?_
    · rw [decided_eq_results hreader rfl]
      rfl
    · unfold unread
      rw [hpartial, harrived, hs.ended hclosed]
      exact Console.buffered_closed kind
  | @takeToken kind k hreader _ =>
    refine .cancels { kind, outcome := .failed .cancelled, canceller := some k } ?_ rfl rfl
    rw [decided_eq_results hreader rfl]
    rfl
  | drain | look | send | close => exact .nothing rfl rfl
  | arrive htoCome =>
    refine .nothing rfl ?_
    unfold unread
    rw [htoCome, List.append_assoc]
    rfl

/-! ## Whole runs -/

/-- The reads that are decided are those of a buffer that has held all the input. -/
structure Kept (input : List UInt8) (s : SharedChannel) : Prop where
  inOrder : s.InOrder
  serves : Serves input (s.decided.map Reading.result) s.unread

theorem kept_ofInput (input : List UInt8) : (ofInput input).Kept input :=
  ⟨⟨nofun, List.not_mem_nil, nofun⟩, .nil input⟩

theorem Kept.step {input : List UInt8} (hs : s.Kept input) (h : s.Step t) : t.Kept input := by
  refine ⟨hs.inOrder.step h, ?_⟩
  cases h.deeds hs.inOrder with
  | nothing hdecided hunread =>
    rw [hdecided, hunread]
    exact hs.serves
  | cancels r hdecided houtcome hunread =>
    have hresult : r.result = (r.kind, .failed .cancelled) := congrArg (Prod.mk r.kind) houtcome
    rw [hdecided, hunread, List.map_append, List.map_singleton, hresult]
    exact hs.serves.cancelled r.kind
  | reads r hdecided houtcome hread =>
    rw [hdecided, List.map_append]
    exact hs.serves.read houtcome hread

theorem Kept.answered_eq {input : List UInt8} (hs : s.Kept input) :
    answered (s.results.map Reading.result) =
      (Console.buffered { input }).readEach
        ((answered (s.results.map Reading.result)).map Prod.fst) := by
  have hserves := hs.serves
  unfold decided at hserves
  rw [List.map_append] at hserves
  exact hserves.before

end SharedChannel

/-- Whatever the threads of a shared channel do with some input, and whatever happens in a session
with a channel of the program: apart from the reads that are cancelled, they give the results that
the same reads give on a buffer with all that input. -/
theorem cancellation_keeps_input (input : List UInt8) :
    (∀ s, (SharedChannel.ofInput input).Reaches s →
      let results := answered (s.results.map Reading.result)
      results = (Console.buffered { input }).readEach (results.map Prod.fst)) ∧
    ∀ events,
      let results := answered ((ChannelSession.ofInput input).after events).results
      results = (Console.buffered { input }).readEach (results.map Prod.fst) := by
  have hkept : ∀ s, (SharedChannel.ofInput input).Reaches s → s.Kept input := by
    intro s hreach
    exact hreach.kept SharedChannel.Kept.step (SharedChannel.kept_ofInput input)
  refine ⟨?_, ?_⟩
  · intro s hreach
    exact (hkept s hreach).answered_eq
  · intro events
    obtain ⟨c, s, hreach, hshows⟩ := ChannelSession.shows_after input events
    rw [hshows.results]
    exact (hkept s hreach).answered_eq

/-- A read of a line is cancelled after its first byte. The next read takes that byte, and a read of
a line the rest; then the input ends. -/
theorem cancellation_keeps_input_begun :
    let input : List UInt8 := [97, 98, newlineByte]
    let s : SharedChannel :=
      { toCome := [], isOpen := false, started := 3
        calls := Function.update (Function.update (fun _ => .fresh) 0 .sending) 0 .returned
        results :=
          [{ kind := .line, outcome := .failed .cancelled, canceller := some 0 },
            { kind := .char, outcome := .done (.char 97) },
            { kind := .line, outcome := ReadKind.line.answer (.done (lineText [98])) },
            { kind := .number, outcome := .failed .closed }] }
    (SharedChannel.ofInput input).Reaches s ∧
      answered (s.results.map Reading.result) =
        (Console.buffered { input }).readEach [.char, .line, .number] ∧
      answered (s.results.map Reading.result) =
        [(.char, .done (.char 97)), (.line, .done (.line "b")), (.number, .failed .closed)] := by
  intro input s
  have hs : (SharedChannel.ofInput input).Reaches s :=
    .head (.arrive rfl) <|
    .head (@SharedChannel.Step.call _ .line rfl nofun) <| .head (.start rfl) <|
    .head (.drained rfl rfl) <| .head (.keepByte rfl nofun rfl (by decide)) <|
    .head (.look (k := 0) rfl nofun) <| .head (.send (k := 0) rfl) <| .head (.takeToken rfl rfl) <|
    .head (.leave rfl) <|
    .head (.leftOver rfl rfl) <|
    .head (@SharedChannel.Step.call _ .line rfl nofun) <| .head (.start rfl) <|
    .head (.drained rfl rfl) <| .head (.arrive rfl) <|
    .head (.keepByte rfl nofun rfl (by decide)) <| .head (.arrive rfl) <|
    .head (.takeNewline rfl nofun rfl) <| .head (.leave rfl) <|
    .head (.close rfl) <|
    .head (@SharedChannel.Step.call _ .number rfl nofun) <| .head (.start rfl) <|
    .head (.drained rfl rfl) <| .head (.noInput rfl rfl rfl rfl) <| .single (.leave rfl)
  exact ⟨hs, (cancellation_keeps_input input).1 s hs, by decide +kernel⟩

end MipsLab
