import Sluice.Loader.Waiting
import Sluice.Pipeline.Outcome

/-
  The loading half of a pipeline. Rows come to it through a channel; while it is ready it does
  the first of these that it can, over and over: stop because the gate has tripped, take a row,
  flush because the timer is due. During the wait of a timer flush it takes no rows. Once it has
  stopped it asks the reading half to stop, and counts the rows that still come without loading
  them. It breaks off where it would have to wait beyond the end of the clock.
-/

namespace Sluice

/-- The loading half of a pipeline. -/
structure Loading (δ : Type) where
  loader : Loader δ
  /-- The rows the channel holds at most. -/
  capacity : Nat
  /-- The rows that were read and not yet taken. -/
  channel : List Row := []
  /-- When the wait of a timer flush ends at the latest, while there is one. -/
  flushWait : Option Nat := none
  /-- Why loading has stopped, once it has. -/
  reason : Option StopReason := none
  /-- Whether the reading half is asked to stop, by the operator or because loading has. -/
  stopRequested : Bool := false
  /-- Whether the operator had asked to stop when loading stopped. -/
  interrupted : Bool := false
  /-- The rows taken, to be loaded. -/
  rowsRead : Nat := 0
  /-- The rows that came after loading had stopped. -/
  unloaded : Nat := 0
  deriving DecidableEq

namespace Loading

variable {δ : Type}

/-- Whether rows are taken and the timer is watched. -/
def isReady (w : Loading δ) : Bool :=
  w.reason.isNone && w.flushWait.isNone

/-- Does something if it is ready. -/
def ifReady (f : Loading δ → Loading δ) (w : Loading δ) : Loading δ :=
  if w.isReady then f w else w

/-- Stops loading. -/
def stop (reason : StopReason) (w : Loading δ) : Loading δ :=
  { w with
    reason := some reason
    flushWait := none
    interrupted := w.stopRequested
    stopRequested := true }

/-- Stops loading if the gate has tripped. -/
def checkGate (w : Loading δ) : Loading δ :=
  match w.loader.gate.trip with
  | some trip => w.stop trip.reason
  | none => w

/-- Stops loading if the clock cannot tell when the timer flushes next. -/
def checkClock (w : Loading δ) : Loading δ :=
  if w.loader.flushDeadline < clockEnd then w else w.stop .overflow

/-- Begins the next round, unless the gate has tripped or the clock cannot tell when the timer
flushes next. -/
def nextRound (w : Loading δ) : Loading δ :=
  w.checkGate.ifReady checkClock

/-- Goes on with a loader after it was given something to do, which may have failed. -/
def afterCall (w : Loading δ) (call : Except Failure Unit × Loader δ) : Loading δ :=
  match call with
  | (.ok _, loader) => { w with loader := loader }
  | (.error f, loader) => { w with loader := loader }.stop (.transport f.message)

/-- Takes a row and loads it. -/
def takeRow [DatabaseClient δ] (w : Loading δ) (row : Row) : Loading δ :=
  ({ w with rowsRead := w.rowsRead + 1 }.afterCall (w.loader.insert row)).ifReady nextRound

/-- Takes the rows of the channel as long as loading goes on. -/
def takeRows [DatabaseClient δ] : List Row → Loading δ → Loading δ
  | [], w => { w with channel := [] }
  | row :: rest, w =>
    if w.isReady then takeRows rest (w.takeRow row) else { w with channel := row :: rest }

/-- Ends the wait of a timer flush if it is over. -/
def endFlushWait (w : Loading δ) : Loading δ :=
  match w.flushWait with
  | some deadline =>
    if w.loader.isSettled || deadline ≤ w.loader.now then { w with flushWait := none }.nextRound
    else w
  | none => w

/-- Begins the wait of a timer flush, if the clock can tell its end. -/
def beginFlushWait (w : Loading δ) : Loading δ :=
  { w with flushWait := some (w.loader.now + w.loader.flushInterval) }.checkClock.endFlushWait

/-- Flushes if the timer is due, and begins to wait for answers. -/
def flushByTimer [DatabaseClient δ] (w : Loading δ) : Loading δ :=
  if w.loader.isFlushDue then (w.afterCall w.loader.flush).ifReady beginFlushWait else w

/-- Counts the rows of the channel that will not be loaded, once loading has stopped. -/
def drain (w : Loading δ) : Loading δ :=
  if w.reason.isSome then { w with unloaded := w.unloaded + w.channel.length, channel := [] } else w

/-- Takes all rows it can. -/
def takeChannel [DatabaseClient δ] (w : Loading δ) : Loading δ :=
  (w.endFlushWait.ifReady nextRound).ifReady fun w => takeRows w.channel w

/-- Does all it can before time passes or something happens. -/
def settle [DatabaseClient δ] (w : Loading δ) : Loading δ :=
  (w.takeChannel.ifReady flushByTimer).drain

/-- Lets a millisecond pass, or less if the gate trips before that. -/
def tick [DatabaseClient δ] (w : Loading δ) : Loading δ :=
  { w with loader := w.loader.waitUntil (fun l => l.gate.tripped) (w.loader.now + 1) }.settle

/-- Lets so many milliseconds pass, until the reading half is asked to stop. -/
def ticks [DatabaseClient δ] : Nat → Loading δ → Loading δ
  | 0, w => w
  | n + 1, w => if w.stopRequested then w else ticks n w.tick

/-- Releases the oldest held answers. -/
def release [DatabaseClient δ] (n : Nat) (w : Loading δ) : Loading δ :=
  { w with loader := w.loader.release n }.settle

/-- Lets time pass to the end of the wait of a timer flush, if there is one. -/
def passFlushWait (w : Loading δ) : Loading δ :=
  match w.flushWait with
  | some deadline =>
    { w with loader := w.loader.waitUntil Loader.isSettled deadline }
  | none => w

/-- Waits until the channel is empty if it is full. -/
def makeRoom [DatabaseClient δ] (w : Loading δ) : Loading δ :=
  if w.channel.length < w.capacity then w else w.takeChannel.passFlushWait.takeChannel.drain

/-- Sends a row through the channel. -/
def send [DatabaseClient δ] (row : Row) (w : Loading δ) : Loading δ :=
  { w.makeRoom with channel := w.makeRoom.channel ++ [row] }

/-- Comes to the end of the rows: the reading half has ended. -/
def finish [DatabaseClient δ] (w : Loading δ) : Loading δ :=
  (w.passFlushWait.takeChannel.ifReady (stop .endOfInput)).drain

end Loading

end Sluice
