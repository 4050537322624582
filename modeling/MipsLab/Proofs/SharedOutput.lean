import Mathlib.Data.List.Induction
import Mathlib.Logic.Relation
import MipsLab.Console.Channel

/-!
# Shared outputs

The output of a channel as its threads see it. One thread writes, flushes and closes; another one
takes what has been written from a queue and offers it to a sink, chunk by chunk, until the sink
refuses a chunk. A flush puts a marker into the queue and waits until the marker is reached. When
the other thread ends, what the queue still holds is thrown away, with the markers in it. The single
steps of both threads may follow each other in any order.

1. `Offered`: the calls of a sink, told without threads.
2. `Offered.output`: what a channel of the program writes is what a sink with its quota takes.
3. `SharedOutput.CallerStep`, `SharedOutput.DelivererStep`: the steps of the two threads.
4. `SharedOutput.closes_with`: the threads can write anything, whatever the quota of the sink.
-/

namespace MipsLab

open Relation

/-! ## Sinks -/

/-- Some bytes for a stream, which are written in one go. -/
structure Chunk where
  stream : Stream
  bytes : List UInt8
  deriving DecidableEq, Repr

/-- A call of a sink. -/
structure Offer where
  chunk : Chunk
  /-- Whether the sink has taken the chunk, or has failed. -/
  isTaken : Bool
  deriving DecidableEq, Repr

def allTaken (chunks : List Chunk) : List Offer := chunks.map (⟨·, true⟩)

/-- The calls of a sink to which chunks are offered: each chunk once and in order, up to and
including the first one that the sink refuses. -/
inductive Offered : List Chunk → List Offer → Prop
  | nil : Offered [] []
  | taken {chunk : Chunk} {chunks : List Chunk} {offers : List Offer} (h : Offered chunks offers) :
      Offered (chunk :: chunks) (⟨chunk, true⟩ :: offers)
  | refused (chunk : Chunk) (chunks : List Chunk) : Offered (chunk :: chunks) [⟨chunk, false⟩]

/-- The sink refuses exactly the chunks beyond a quota, if it has one. -/
def Obeys (quota : Option Nat) (offers : List Offer) : Prop :=
  ∀ i offer, offers[i]? = some offer → offer.isTaken = quota.all (i < ·)

def Output.writeAll (o : Output) (chunks : List Chunk) : Output :=
  chunks.foldl (fun o chunk => o.write chunk.stream chunk.bytes) o

def Channel.writeAll (c : Channel) (chunks : List Chunk) : Channel :=
  chunks.foldl (fun c chunk => c.write chunk.stream chunk.bytes) c

/-- The chunks that a sink has taken. -/
def takenChunks (offers : List Offer) : List Chunk := (offers.filter Offer.isTaken).map Offer.chunk

section Offers

variable {chunks : List Chunk} {offers : List Offer} {quota : Option Nat}

theorem allTaken_chunks (chunks : List Chunk) : (allTaken chunks).map Offer.chunk = chunks := by
  rw [allTaken, List.map_map]
  exact List.map_id chunks

theorem allTaken_concat (chunks : List Chunk) (chunk : Chunk) :
    allTaken (chunks ++ [chunk]) = allTaken chunks ++ [⟨chunk, true⟩] := List.map_append

theorem isTaken_of_mem_allTaken {offer : Offer} (h : offer ∈ allTaken chunks) :
    offer.isTaken = true := by
  obtain ⟨chunk, -, rfl⟩ := List.mem_map.mp h
  rfl

theorem offered_allTaken (chunks : List Chunk) : Offered chunks (allTaken chunks) := by
  induction chunks with
  | nil => exact .nil
  | cons chunk chunks ih => exact .taken ih

theorem offered_refused (before : List Chunk) (chunk : Chunk) (after : List Chunk) :
    Offered (before ++ chunk :: after) (allTaken before ++ [⟨chunk, false⟩]) := by
  induction before with
  | nil => exact .refused chunk after
  | cons first before ih => exact .taken ih

namespace Offered

/-- Nothing is offered to a sink that has refused a chunk. -/
theorem append (h : Offered chunks offers) (hrefused : ∃ offer ∈ offers, offer.isTaken = false)
    (more : List Chunk) : Offered (chunks ++ more) offers := by
  induction h with
  | nil =>
    obtain ⟨_, hmem, -⟩ := hrefused
    exact absurd hmem List.not_mem_nil
  | refused chunk chunks => exact .refused chunk (chunks ++ more)
  | taken _ ih =>
    obtain ⟨offer, hmem, hnot⟩ := hrefused
    rcases List.mem_cons.mp hmem with rfl | hmem
    · exact nomatch hnot
    · exact .taken (ih ⟨offer, hmem, hnot⟩)

theorem eq_allTaken (h : Offered chunks offers)
    (htaken : ¬∃ offer ∈ offers, offer.isTaken = false) : offers = allTaken chunks := by
  induction h with
  | nil => rfl
  | refused chunk chunks => exact absurd ⟨_, List.mem_cons_self, rfl⟩ htaken
  | taken _ ih =>
    rw [ih fun ⟨offer, hmem, hnot⟩ => htaken ⟨offer, List.mem_cons_of_mem _ hmem, hnot⟩]
    rfl

theorem isPrefix (h : Offered chunks offers) : offers.map Offer.chunk <+: chunks := by
  induction h with
  | nil => exact List.prefix_rfl
  | taken _ ih => exact List.cons_prefix_cons.mpr ⟨rfl, ih⟩
  | refused chunk chunks => exact List.prefix_append [chunk] chunks

/-- A refusal is the last call. -/
theorem last (h : Offered chunks offers) {before after : List Offer} {chunk : Chunk}
    (hoffers : offers = before ++ ⟨chunk, false⟩ :: after) : after = [] := by
  induction h generalizing before with
  | nil => exact absurd hoffers.symm (List.append_ne_nil_of_right_ne_nil _ (List.cons_ne_nil _ _))
  | taken _ ih =>
    cases before with
    | nil => exact nomatch hoffers
    | cons first before => exact ih (List.cons.inj hoffers).2
  | refused chunk chunks =>
    cases before with
    | nil => exact (List.cons.inj hoffers).2.symm
    | cons first before =>
      exact absurd (List.cons.inj hoffers).2.symm
        (List.append_ne_nil_of_right_ne_nil _ (List.cons_ne_nil _ _))

end Offered

theorem Obeys.append (h : Obeys quota offers) {offer : Offer}
    (hlast : offer.isTaken = quota.all (offers.length < ·)) : Obeys quota (offers ++ [offer]) := by
  intro i found hfound
  rcases Nat.lt_trichotomy i offers.length with hlt | rfl | hgt
  · rw [List.getElem?_append_left hlt] at hfound
    exact h i found hfound
  · rw [List.getElem?_concat_length] at hfound
    exact Option.some.inj hfound ▸ hlast
  · have hlength : (offers ++ [offer]).length ≤ i := by
      rw [List.length_append]
      exact hgt
    rw [List.getElem?_eq_none hlength] at hfound
    exact nomatch hfound

theorem Channel.writeAll_full {c : Channel} (h : c.quota = some 0) (chunks : List Chunk) :
    c.writeAll chunks = c := by
  induction chunks with
  | nil => rfl
  | cons chunk chunks ih =>
    have hwrite : c.write chunk.stream chunk.bytes = c := by rw [Channel.write, h]
    unfold writeAll at ih ⊢
    rw [List.foldl_cons, hwrite, ih]

/-- What a channel of the program writes is what a sink with its quota takes. -/
theorem Offered.output (h : Offered chunks offers) {c : Channel} (hobeys : Obeys c.quota offers) :
    (c.writeAll chunks).output = c.output.writeAll (takenChunks offers) := by
  induction h generalizing c with
  | nil => rfl
  | @taken chunk chunks offers _ ih =>
    have hfirst : true = c.quota.all (0 < ·) := hobeys 0 _ rfl
    have hrest : Obeys (c.write chunk.stream chunk.bytes).quota offers := by
      intro i offer hoffer
      have hquota := hobeys (i + 1) offer hoffer
      unfold Channel.write
      cases hc : c.quota with
      | none =>
        rw [hc] at hquota
        exact hquota.trans (by simp)
      | some left =>
        cases left with
        | zero => simp [hc] at hfirst
        | succ left =>
          rw [hc] at hquota
          simpa using hquota
    have hwrite : (c.write chunk.stream chunk.bytes).output =
        c.output.write chunk.stream chunk.bytes := by
      unfold Channel.write
      split
      · rfl
      · next hc => simp [hc] at hfirst
      · rfl
    have hafter := ih hrest
    rw [hwrite] at hafter
    exact hafter
  | refused chunk chunks =>
    have hfirst : false = c.quota.all (0 < ·) := hobeys 0 _ rfl
    have hquota : c.quota = some 0 := by
      cases hc : c.quota with
      | none => simp [hc] at hfirst
      | some left => simpa [hc] using hfirst.symm
    rw [Channel.writeAll_full hquota]
    rfl

end Offers

/-! ## Threads -/

/-- What the queue of an output holds. -/
inductive Message
  | data (chunk : Chunk)
  /-- The marker of a flush, by the number of the flush. -/
  | marker (flush : Nat)
  deriving DecidableEq, Repr

def Message.chunk? : Message → Option Chunk
  | data chunk => some chunk
  | marker _ => none

/-- Where the thread is that writes. -/
inductive Caller
  | resting
  /-- A chunk is about to be sent. -/
  | writing (chunk : Chunk)
  /-- A marker is about to be sent. -/
  | flushing
  /-- The marker of this number has been sent, and the flush waits for it to be reached. -/
  | awaiting (flush : Nat)
  /-- The output has been closed, and the call waits for the other thread to end. -/
  | joining
  | closed
  deriving DecidableEq, Repr

namespace Caller

/-- Whether a call has begun and not returned. -/
def isBusy : Caller → Bool
  | resting | closed => false
  | writing _ | flushing | awaiting _ | joining => true

/-- Whether a call has begun that returns when all output is delivered. -/
def isEmptying : Caller → Bool
  | flushing | awaiting _ | joining => true
  | resting | writing _ | closed => false

def hasClosed : Caller → Bool
  | joining | closed => true
  | resting | writing _ | flushing | awaiting _ => false

/-- How many steps the call has to make, with those that its message gives to the other thread. -/
def work : Caller → Nat
  | resting | closed => 0
  | awaiting _ | joining => 1
  | writing _ => 3
  | flushing => 4

end Caller

/-- Where the thread is that delivers. -/
inductive Deliverer
  /-- It waits for a message. -/
  | receiving
  /-- It has taken a message. If that is a chunk, the sink is called with it. -/
  | holding (message : Message)
  /-- It has stopped, but messages can still be sent. -/
  | leaving
  | ended
  deriving DecidableEq, Repr

namespace Deliverer

def isActive : Deliverer → Bool
  | receiving | holding _ => true
  | leaving | ended => false

def inHand : Deliverer → List Message
  | holding message => [message]
  | receiving | leaving | ended => []

def work : Deliverer → Nat
  | ended => 0
  | leaving => 1
  | receiving => 2
  | holding _ => 3

end Deliverer

/-! ## Markers -/

/-- The marker of a flush that waits, as long as it has not been reached. -/
def Caller.mark (reached : List Nat) : Caller → List Message
  | awaiting flush => if flush ∈ reached then [] else [.marker flush]
  | resting | writing _ | flushing | joining | closed => []

namespace Caller

variable {caller : Caller} {reached : List Nat}

theorem mark_of_reached {flush : Nat} (h : flush ∈ reached) : (awaiting flush).mark reached = [] :=
  if_pos h

theorem mark_of_not_reached {flush : Nat} (h : flush ∉ reached) :
    (awaiting flush).mark reached = [.marker flush] := if_neg h

/-- A chunk in front is one that waits. -/
theorem waiting_of_data {chunk : Chunk} {rest : List Message} {waiting : List Chunk}
    (h : .data chunk :: rest = waiting.map .data ++ caller.mark reached) :
    ∃ waiting', waiting = chunk :: waiting' ∧
      rest = waiting'.map .data ++ caller.mark reached := by
  cases waiting with
  | nil =>
    cases caller with
    | awaiting flush =>
      by_cases hreached : flush ∈ reached
      · rw [mark_of_reached hreached] at h
        exact nomatch h
      · rw [mark_of_not_reached hreached] at h
        exact nomatch h
    | resting | writing | flushing | joining | closed => exact nomatch h
  | cons first waiting =>
    obtain ⟨hfirst, hrest⟩ := List.cons.inj h
    obtain rfl := Message.data.inj hfirst
    exact ⟨waiting, rfl, hrest⟩

/-- A marker in front is that of the flush that waits, and nothing is behind it. -/
theorem awaiting_of_marker {flush : Nat} {rest : List Message} {waiting : List Chunk}
    (h : .marker flush :: rest = waiting.map .data ++ caller.mark reached) :
    waiting = [] ∧ rest = [] ∧ caller = .awaiting flush := by
  cases waiting with
  | nil =>
    cases caller with
    | awaiting other =>
      by_cases hreached : other ∈ reached
      · rw [mark_of_reached hreached] at h
        exact nomatch h
      · rw [mark_of_not_reached hreached] at h
        obtain ⟨hflush, hrest⟩ := List.cons.inj h
        rw [Message.marker.inj hflush]
        exact ⟨rfl, hrest, rfl⟩
    | resting | writing | flushing | joining | closed => exact nomatch h
  | cons first waiting => exact nomatch h

end Caller

/-! ## Steps -/

/-- An output that one thread writes and another delivers. -/
structure SharedOutput where
  queue : List Message := []
  /-- Whether more can be written. -/
  isOpen : Bool := true
  caller : Caller := .resting
  deliverer : Deliverer := .receiving
  /-- How many flushes have sent a marker. -/
  flushes : Nat := 0
  /-- The flushes whose markers have been reached. -/
  reached : List Nat := []
  /-- All chunks that have been written, in order. -/
  written : List Chunk := []
  /-- All calls of the sink that have returned, in order. -/
  offers : List Offer := []

namespace SharedOutput

/-- An output to which nothing has been written. -/
def empty : SharedOutput := {}

/-- The messages that have not been dealt with. -/
def pending (s : SharedOutput) : List Message := s.deliverer.inHand ++ s.queue

/-- All chunks with which the sink has been called, also if the call has not returned. -/
def called (s : SharedOutput) : List Chunk :=
  s.offers.map Offer.chunk ++ s.deliverer.inHand.filterMap Message.chunk?

def HasRefused (s : SharedOutput) : Prop := ∃ offer ∈ s.offers, offer.isTaken = false

/-- What the thread that writes can do next. -/
inductive CallerStep (s : SharedOutput) : SharedOutput → Prop
  | write (chunk : Chunk) (hcaller : s.caller = .resting) :
      CallerStep s { s with caller := .writing chunk }
  | send {chunk : Chunk} (hcaller : s.caller = .writing chunk) (hthere : s.deliverer ≠ .ended) :
      CallerStep s { s with
        caller := .resting, written := s.written ++ [chunk], queue := s.queue ++ [.data chunk] }
  /-- Nobody is left to take the chunk. -/
  | lose {chunk : Chunk} (hcaller : s.caller = .writing chunk) (hended : s.deliverer = .ended) :
      CallerStep s { s with caller := .resting, written := s.written ++ [chunk] }
  | flush (hcaller : s.caller = .resting) : CallerStep s { s with caller := .flushing }
  | mark (hcaller : s.caller = .flushing) (hthere : s.deliverer ≠ .ended) :
      CallerStep s { s with
        caller := .awaiting s.flushes, flushes := s.flushes + 1
        queue := s.queue ++ [.marker s.flushes] }
  /-- Nobody is left to reach a marker. -/
  | noMark (hcaller : s.caller = .flushing) (hended : s.deliverer = .ended) :
      CallerStep s { s with caller := .resting }
  | reach {flush : Nat} (hcaller : s.caller = .awaiting flush) (hreached : flush ∈ s.reached) :
      CallerStep s { s with caller := .resting }
  /-- The marker has not been reached, and has been thrown away. -/
  | giveUp {flush : Nat} (hcaller : s.caller = .awaiting flush) (hnot : flush ∉ s.reached)
      (hgone : .marker flush ∉ s.pending) : CallerStep s { s with caller := .resting }
  | close (hcaller : s.caller = .resting) :
      CallerStep s { s with caller := .joining, isOpen := false }
  | join (hcaller : s.caller = .joining) (hended : s.deliverer = .ended) :
      CallerStep s { s with caller := .closed }

/-- What the thread that delivers can do next. Whether the sink takes a chunk is its own matter. -/
inductive DelivererStep (s : SharedOutput) : SharedOutput → Prop
  | take {message : Message} {rest : List Message} (hdeliverer : s.deliverer = .receiving)
      (hqueue : s.queue = message :: rest) :
      DelivererStep s { s with deliverer := .holding message, queue := rest }
  /-- The queue is empty, and nothing can come any more. -/
  | finish (hdeliverer : s.deliverer = .receiving) (hqueue : s.queue = [])
      (hclosed : s.isOpen = false) : DelivererStep s { s with deliverer := .leaving }
  | accept {chunk : Chunk} (hdeliverer : s.deliverer = .holding (.data chunk)) :
      DelivererStep s { s with
        deliverer := .receiving, offers := s.offers ++ [⟨chunk, true⟩] }
  | refuse {chunk : Chunk} (hdeliverer : s.deliverer = .holding (.data chunk)) :
      DelivererStep s { s with
        deliverer := .leaving, offers := s.offers ++ [⟨chunk, false⟩] }
  | acknowledge {flush : Nat} (hdeliverer : s.deliverer = .holding (.marker flush)) :
      DelivererStep s { s with deliverer := .receiving, reached := s.reached ++ [flush] }
  /-- What the queue holds is thrown away. -/
  | leave (hdeliverer : s.deliverer = .leaving) :
      DelivererStep s { s with deliverer := .ended, queue := [] }

/-- What can happen next. -/
def Step (s t : SharedOutput) : Prop := s.CallerStep t ∨ s.DelivererStep t

abbrev Reaches : SharedOutput → SharedOutput → Prop := ReflTransGen Step

/-! ## What the threads can bring about -/

variable {s : SharedOutput} {quota : Option Nat} {chunks : List Chunk}

/-- Some chunks have been written, and nothing of them is left to be delivered. -/
structure Settled (quota : Option Nat) (chunks : List Chunk) (s : SharedOutput) : Prop where
  caller : s.caller = .resting
  written : s.written = chunks
  obeys : Obeys quota s.offers
  deliverer : s.deliverer = .receiving ∧ s.queue = [] ∨ s.deliverer = .ended

theorem settled_empty (quota : Option Nat) : empty.Settled quota [] :=
  ⟨rfl, rfl, nofun, .inl ⟨rfl, rfl⟩⟩

/-- A chunk can be written and delivered, or refused, or lost, before anything else is written. -/
theorem Settled.write (h : s.Settled quota chunks) (chunk : Chunk) :
    ∃ t, s.Reaches t ∧ t.Settled quota (chunks ++ [chunk]) := by
  have hwritten : s.written ++ [chunk] = chunks ++ [chunk] := by rw [h.written]
  have hwrite : s.Step { s with caller := .writing chunk } := .inl (.write chunk h.caller)
  rcases h.deliverer with ⟨hreceiving, hqueue⟩ | hended
  · have hsend : Step { s with caller := .writing chunk } { s with
        caller := .resting, written := s.written ++ [chunk], queue := s.queue ++ [.data chunk] } :=
      .inl (.send rfl (by rw [show ({ s with caller := .writing chunk } : SharedOutput).deliverer =
        .receiving from hreceiving]; nofun))
    have htake : Step { s with
        caller := .resting, written := s.written ++ [chunk], queue := s.queue ++ [.data chunk] }
        { s with
          caller := .resting, written := s.written ++ [chunk], queue := []
          deliverer := .holding (.data chunk) } :=
      .inr (.take hreceiving (by rw [hqueue]; rfl))
    have hsofar := (ReflTransGen.single hwrite).tail hsend |>.tail htake
    cases htaken : quota.all (s.offers.length < ·) with
    | true => exact ⟨_, hsofar.tail (.inr (.accept rfl)), rfl, hwritten,
        h.obeys.append htaken.symm, .inl ⟨rfl, rfl⟩⟩
    | false => exact ⟨_, (hsofar.tail (.inr (.refuse rfl))).tail (.inr (.leave rfl)), rfl, hwritten,
        h.obeys.append htaken.symm, .inr rfl⟩
  · exact ⟨_, (ReflTransGen.single hwrite).tail (.inl (.lose rfl hended)), rfl, hwritten, h.obeys,
      .inr hended⟩

theorem settles_with (quota : Option Nat) (chunks : List Chunk) :
    ∃ s, empty.Reaches s ∧ s.Settled quota chunks := by
  induction chunks using List.reverseRecOn with
  | nil => exact ⟨empty, .refl, settled_empty quota⟩
  | append_singleton chunks chunk ih =>
    obtain ⟨s, hreach, hsettled⟩ := ih
    obtain ⟨t, hmore, hsettled'⟩ := hsettled.write chunk
    exact ⟨t, hreach.trans hmore, hsettled'⟩

/-- Any chunks can be written and the output be closed, whatever the quota of the sink. -/
theorem closes_with (quota : Option Nat) (chunks : List Chunk) :
    ∃ s, empty.Reaches s ∧ s.caller = .closed ∧ s.written = chunks ∧ Obeys quota s.offers := by
  obtain ⟨s, hreach, hsettled⟩ := settles_with quota chunks
  have hclose := hreach.tail (.inl (.close hsettled.caller))
  rcases hsettled.deliverer with ⟨hreceiving, hqueue⟩ | hended
  · have hleave := (hclose.tail (.inr (.finish hreceiving hqueue rfl))).tail (.inr (.leave rfl))
    exact ⟨_, hleave.tail (.inl (.join rfl rfl)), rfl, hsettled.written, hsettled.obeys⟩
  · exact ⟨_, hclose.tail (.inl (.join rfl hended)), rfl, hsettled.written, hsettled.obeys⟩

end SharedOutput

end MipsLab
