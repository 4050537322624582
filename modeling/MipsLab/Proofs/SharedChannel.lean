import Mathlib.Logic.Function.Basic
import Mathlib.Logic.Relation
import MipsLab.Proofs.Foresight

/-!
# Shared channels

A channel as its threads see it. One thread reads, any number of calls cancel reads, and input
arrives; the single steps of all of them may follow each other in any order. A call that cancels
looks at the flag of a read in one step and sends its token in another, so the read that it has
seen may be over when the token is sent. The place for tokens holds one; a token that finds it taken
is lost. A read that finds a byte as well as a token may take either.

1. `ReadKind`, `Console.read`: the reads, in one form for all kinds.
2. `SharedChannel.Step`, `SharedChannel.Reaches`: the steps of the threads.
3. `SharedChannel.reaches_waiting` and what follows it: some steps in a row.
-/

namespace MipsLab

open Relation

/-! ## Reads -/

/-- What can be read from a console. -/
inductive ReadKind
  | line
  | char
  | number
  deriving DecidableEq, Repr

/-- What a read can give. -/
inductive ReadValue
  | line (text : String)
  | char (byte : UInt8)
  | number (value : Int)
  deriving DecidableEq, Repr

/-- What a read has come to, and what was to be read. -/
abbrev Result := ReadKind × ReadOutcome ReadValue

/-- Finds the answer to a read that takes a line. -/
def ReadKind.answer (kind : ReadKind) (outcome : ReadOutcome String) : ReadOutcome ReadValue :=
  match kind with
  | .number => (outcome.andThen integerOfLine).andThen fun n => .ok (.number n)
  | _ => outcome.andThen fun text => .ok (.line text)

/-- Finds the answer to a read that takes a byte. -/
def charAnswer (outcome : ReadOutcome UInt8) : ReadOutcome ReadValue :=
  outcome.andThen fun byte => .ok (.char byte)

namespace Console

def read (console : Console) : ReadKind → ReadOutcome ReadValue × Console
  | .line => (ReadKind.line.answer console.readLine.1, console.readLine.2)
  | .char => (charAnswer console.readChar.1, console.readChar.2)
  | .number => (console.readInt.1.andThen fun n => .ok (.number n), console.readInt.2)

variable {kind : ReadKind}

theorem buffered_read_line (hkind : kind ≠ .char) (b : Buffer) :
    (buffered b).read kind = (kind.answer b.readLine.1, .buffered b.readLine.2) := by
  cases kind with
  | line => rfl
  | char => exact absurd rfl hkind
  | number => rfl

theorem channel_read_line (hkind : kind ≠ .char) (c : Channel) :
    (channel c).read kind = (kind.answer c.readLine.1, .channel c.readLine.2) := by
  cases kind with
  | line => rfl
  | char => exact absurd rfl hkind
  | number => rfl

end Console

namespace ReadKind

variable {kind : ReadKind}

theorem answer_failed (kind : ReadKind) (e : ReadError) : kind.answer (.failed e) = .failed e := by
  cases kind <;> rfl

theorem answer_waiting (kind : ReadKind) : kind.answer .waiting = .waiting := by
  cases kind <;> rfl

/-- A line decides a read, and not in the way of a cancellation. -/
theorem answer_done (kind : ReadKind) (text : String) :
    kind.answer (.done text) ≠ .waiting ∧ kind.answer (.done text) ≠ .failed .cancelled := by
  cases kind with
  | line | char => constructor <;> (intro h; cases h)
  | number =>
    cases hresult : integerOfLine text with
    | ok n =>
      have hanswer : number.answer (.done text) = .done (.number n) := by
        simp only [answer, ReadOutcome.andThen, hresult]
      rw [hanswer]
      constructor <;> (intro h; cases h)
    | error e =>
      have hanswer : number.answer (.done text) = .failed e := by
        simp only [answer, ReadOutcome.andThen, hresult]
      rw [hanswer]
      constructor <;> intro h
      · cases h
      · apply Console.integerOfLine_ne_cancelled text
        rw [hresult, ReadOutcome.failed.inj h]

end ReadKind

/-! ## Threads -/

/-- A read that is decided. -/
structure Reading where
  kind : ReadKind
  outcome : ReadOutcome ReadValue
  /-- The call whose token the read has taken, if it has taken one. -/
  canceller : Option Nat := none

def Reading.result (r : Reading) : Result := (r.kind, r.outcome)

/-- Where the thread is that reads. -/
inductive Reader
  | resting
  /-- A read is about to start. -/
  | called (kind : ReadKind)
  /-- The read has started. It keeps the lock until no tokens from before are left. -/
  | draining (kind : ReadKind)
  /-- The read waits for a byte or a token. -/
  | waiting (kind : ReadKind)
  /-- The read is decided, but still counts as one that waits. -/
  | leaving (reading : Reading)

/-- Whether a read has started and is not over. -/
def Reader.isInside : Reader → Bool
  | resting | called _ => false
  | draining _ | waiting _ | leaving _ => true

/-- The read that is decided but still counts as one that waits. -/
def Reader.decided : Reader → List Reading
  | leaving reading => [reading]
  | _ => []

/-- Where a call is that cancels a read. -/
inductive CancelCall
  | fresh
  /-- It has seen that there is a read, and is about to send its token. -/
  | sending
  | returned
  deriving DecidableEq, Repr

/-- A channel that one thread reads, with the calls that cancel reads and the input to come. -/
structure SharedChannel where
  toCome : List UInt8
  arrived : List UInt8 := []
  isOpen : Bool := true
  /-- The start of a line that is being read, or was when the read was cancelled. -/
  partialLine : List UInt8 := []
  isReading : Bool := false
  /-- The call that has sent the token, if there is a token. -/
  token : Option Nat := none
  reader : Reader := .resting
  calls : Nat → CancelCall := fun _ => .fresh
  /-- How many reads have started. -/
  started : Nat := 0
  results : List Reading := []

namespace SharedChannel

/-- A channel of which some input is to come. -/
def ofInput (input : List UInt8) : SharedChannel := { toCome := input }

/-- All reads that are decided, in order. -/
def decided (s : SharedChannel) : List Reading := s.results ++ s.reader.decided

/-- What can happen next. -/
inductive Step (s : SharedChannel) : SharedChannel → Prop
  /-- A byte is read that is left over from a line. For that no read has to start. -/
  | leftOver {b : UInt8} {rest : List UInt8} (hreader : s.reader = .resting)
      (hpartial : s.partialLine = b :: rest) :
      Step s { s with
        partialLine := rest
        results := s.results ++ [{ kind := .char, outcome := .done (.char b) }] }
  | call {kind : ReadKind} (hreader : s.reader = .resting)
      (hpartial : kind = .char → s.partialLine = []) :
      Step s { s with reader := .called kind }
  | start {kind : ReadKind} (hreader : s.reader = .called kind) :
      Step s { s with reader := .draining kind, isReading := true, started := s.started + 1 }
  /-- A token from before the read is thrown away. -/
  | drain {kind : ReadKind} (hreader : s.reader = .draining kind) (htoken : s.token ≠ none) :
      Step s { s with token := none }
  | drained {kind : ReadKind} (hreader : s.reader = .draining kind) (htoken : s.token = none) :
      Step s { s with reader := .waiting kind }
  | takeByte {b : UInt8} {rest : List UInt8} (hreader : s.reader = .waiting .char)
      (harrived : s.arrived = b :: rest) :
      Step s { s with
        arrived := rest, reader := .leaving { kind := .char, outcome := .done (.char b) } }
  | takeNewline {kind : ReadKind} {rest : List UInt8} (hreader : s.reader = .waiting kind)
      (hkind : kind ≠ .char) (harrived : s.arrived = newlineByte :: rest) :
      Step s { s with
        arrived := rest, partialLine := []
        reader := .leaving { kind, outcome := kind.answer (.done (lineText s.partialLine)) } }
  /-- A byte within a line is taken. -/
  | keepByte {kind : ReadKind} {b : UInt8} {rest : List UInt8} (hreader : s.reader = .waiting kind)
      (hkind : kind ≠ .char) (harrived : s.arrived = b :: rest) (hbyte : b ≠ newlineByte) :
      Step s { s with arrived := rest, partialLine := s.partialLine ++ [b] }
  /-- There is no more input, but the start of a line, which is the last one. -/
  | lastLine {kind : ReadKind} (hreader : s.reader = .waiting kind) (hkind : kind ≠ .char)
      (harrived : s.arrived = []) (hclosed : s.isOpen = false) (hpartial : s.partialLine ≠ []) :
      Step s { s with
        partialLine := []
        reader := .leaving { kind, outcome := kind.answer (.done (lineText s.partialLine)) } }
  | noInput {kind : ReadKind} (hreader : s.reader = .waiting kind) (harrived : s.arrived = [])
      (hclosed : s.isOpen = false) (hpartial : s.partialLine = []) :
      Step s { s with reader := .leaving { kind, outcome := .failed .closed } }
  | takeToken {kind : ReadKind} {k : Nat} (hreader : s.reader = .waiting kind)
      (htoken : s.token = some k) :
      Step s { s with
        token := none
        reader := .leaving { kind, outcome := .failed .cancelled, canceller := some k } }
  | leave {reading : Reading} (hreader : s.reader = .leaving reading) :
      Step s { s with
        reader := .resting, isReading := false, results := s.results ++ [reading] }
  /-- A call looks whether there is a read. It cannot as long as the read keeps the lock. -/
  | look {k : Nat} (hcall : s.calls k = .fresh) (hfree : ∀ kind, s.reader ≠ .draining kind) :
      Step s { s with
        calls := Function.update s.calls k (if s.isReading then .sending else .returned) }
  | send {k : Nat} (hcall : s.calls k = .sending) :
      Step s { s with
        calls := Function.update s.calls k .returned, token := s.token.or (some k) }
  | arrive {b : UInt8} {rest : List UInt8} (htoCome : s.toCome = b :: rest) :
      Step s { s with toCome := rest, arrived := s.arrived ++ [b] }
  | close (htoCome : s.toCome = []) : Step s { s with isOpen := false }

abbrev Reaches : SharedChannel → SharedChannel → Prop := ReflTransGen Step

variable {s t : SharedChannel} {kind : ReadKind} {rest line : List UInt8}

/-- What holds now and is kept by each step holds from now on. -/
theorem Reaches.kept {P : SharedChannel → Prop} (hstep : ∀ {s t}, P s → s.Step t → P t)
    (h : s.Reaches t) (hs : P s) : P t := by
  induction h with
  | refl => exact hs
  | tail _ hlast ih => exact hstep ih hlast

theorem decided_eq_results {reader : Reader} (hreader : s.reader = reader)
    (h : reader.decided = []) : s.decided = s.results := by
  unfold decided
  rw [hreader, h, List.append_nil]

/-! ## What the threads can bring about -/

/-- A read can start, and is then not bothered by tokens from before. -/
theorem reaches_waiting (hreader : s.reader = .resting)
    (hpartial : kind = .char → s.partialLine = []) :
    s.Reaches { s with
      reader := .waiting kind, isReading := true, token := none, started := s.started + 1 } := by
  refine .head (.call hreader hpartial) (.head (.start rfl) ?_)
  by_cases htoken : s.token = none
  · refine .single ?_
    have hdrained := Step.drained (s := { s with
      reader := .draining kind, isReading := true, started := s.started + 1 }) rfl htoken
    rwa [← htoken]
  · exact .head (.drain rfl htoken) (.single (.drained rfl rfl))

/-- A read of a line can take in all bytes before the next newline. -/
theorem reaches_begun (hreader : s.reader = .waiting kind) (hkind : kind ≠ .char)
    (harrived : s.arrived = line ++ rest) (hline : newlineByte ∉ line) :
    s.Reaches { s with arrived := rest, partialLine := s.partialLine ++ line } := by
  induction line generalizing s with
  | nil =>
    rw [List.append_nil, ← show s.arrived = rest from harrived]
  | cons b line ih =>
    have hb : b ≠ newlineByte := fun heq => hline (heq ▸ List.mem_cons_self)
    refine .head (.keepByte hreader hkind harrived hb) ?_
    have hrest := ih (s := { s with arrived := line ++ rest, partialLine := s.partialLine ++ [b] })
      hreader rfl fun hmem => hline (List.mem_cons_of_mem b hmem)
    rwa [List.append_assoc] at hrest

/-- A call that finds a read can send its token at once. -/
theorem reaches_cancelled {k : Nat} (hcall : s.calls k = .fresh)
    (hreader : s.reader = .waiting kind) (hreading : s.isReading = true) :
    s.Reaches { s with
      calls := Function.update s.calls k .returned, token := s.token.or (some k) } := by
  have hlook : s.Step { s with calls := Function.update s.calls k .sending } := by
    have hlook := Step.look hcall (by rw [hreader]; nofun)
    rwa [if_pos hreading] at hlook
  refine .head hlook (.single ?_)
  have hsend := Step.send (s := { s with calls := Function.update s.calls k .sending })
    (Function.update_self ..)
  rwa [Function.update_idem] at hsend

theorem reaches_arrived {bytes : List UInt8} (htoCome : s.toCome = bytes ++ rest) :
    s.Reaches { s with toCome := rest, arrived := s.arrived ++ bytes } := by
  induction bytes generalizing s with
  | nil => rw [List.append_nil, ← show s.toCome = rest from htoCome]
  | cons b bytes ih =>
    refine .head (.arrive htoCome) ?_
    have hrest := ih (s := { s with toCome := bytes ++ rest, arrived := s.arrived ++ [b] }) rfl
    rwa [List.append_assoc] at hrest

end SharedChannel

end MipsLab
