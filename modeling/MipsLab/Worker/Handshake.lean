import MipsLab.Worker

/-!
# Handshakes

How a controller waits for the worker. It sends a command, and then lets the worker move until the
worker has counted the command and shows a state that the controller waits for. A controller that
waits for a pause or for the end cancels the read that keeps the worker from looking at its
commands; one that waits for a step or a run leaves the read alone, and comes back without an answer
if there is no input.

A machine may run for ever, so waiting is given a number of turns.
-/

namespace MipsLab.Worker

/-! ## Waiting -/

/-- What a controller waits for: that some commands have been handled, and a state. -/
structure Wish where
  handled : Nat
  state : ExecState → Bool := fun _ => true

/-- Whether a wish is fulfilled. Nothing more can be wished of a worker that has ended. -/
def fulfils (w : Worker) (wish : Wish) : Bool :=
  w.phase = .ended || wish.handled ≤ w.status.handled && wish.state w.state

/-- Cancels the read that waits for input. -/
def cancelRead (w : Worker) : Worker := w.after .cancelRead

/-- Lets the worker move until a wish is fulfilled or it rests, for at most `fuel` turns. -/
def await (wish : Wish) : Nat → Worker → Worker
  | 0, w => w
  | fuel + 1, w => if w.fulfils wish || w.isResting then w else await wish fuel w.turn

/-- Lets the worker move until a wish is fulfilled or it rests, cancelling every waiting read. -/
def awaitCancelling (wish : Wish) : Nat → Worker → Worker
  | 0, w => w
  | fuel + 1, w =>
    if w.fulfils wish then w
    else
      let w := w.cancelRead
      if w.isResting then w else awaitCancelling wish fuel w.turn

/-! ## Commands with an answer -/

/-- The wish that all commands so far are handled and the machine is at rest. -/
def atRest (w : Worker) : Wish := { handled := w.sent, state := (· ≠ .running) }

/-- Waits until the machine is at rest. -/
def wait (w : Worker) (fuel : Nat) : Worker := w.await w.atRest fuel

def step (w : Worker) (fuel : Nat) : Worker := (w.send .step).wait fuel

/-- Ends a run before its next instruction. -/
def pause (w : Worker) (fuel : Nat) : Worker :=
  let w := w.send .pause
  w.awaitCancelling w.atRest fuel

def stop (w : Worker) (fuel : Nat) : Worker :=
  let w := w.send .stop
  w.awaitCancelling { handled := w.sent, state := ExecState.isTerminal } fuel

/-- Ends a run before its next instruction, and then the worker. -/
def join (w : Worker) (fuel : Nat) : Worker :=
  let w := w.send .shutdown
  w.awaitCancelling { handled := w.sent } fuel

/-- Leaves the worker to itself until it rests, which ends it. -/
def detach (w : Worker) (fuel : Nat) : Worker :=
  let w := w.after .detach
  w.await { handled := w.sent + 1 } fuel

end MipsLab.Worker
