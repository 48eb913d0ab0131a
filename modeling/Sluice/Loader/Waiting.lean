import Sluice.Loader.Basic

/-
  The loader and time. Time passes from one answer to the next while the loader waits, and never
  past the end of a wait. A timer flush waits until every row is answered, the gate trips or one
  flush interval is over; closing waits until every row is answered or the drain timeout is over.
  The clock has an end, and a call that is to wait beyond it does not return: it breaks off where
  the wait would begin.
-/

namespace Sluice.Loader

variable {δ : Type}

/-- Takes the answers due up to a time, earliest first, as long as a wait is not over; the answers
due at one time all come, and then it is looked whether the wait is over. -/
def pass (isOver : Loader δ → Bool) (deadline : Nat) : List (Nat × Answer) → Loader δ → Loader δ
  | [], l => if isOver l then l else { l with now := max l.now deadline }
  | (due, a) :: rest, l =>
    if due ≤ l.now then
      pass isOver deadline rest ({ l with inFlight := { l.inFlight with timed := rest } }.answer a)
    else if isOver l then l
    else if due ≤ deadline then
      pass isOver deadline rest
        ({ l with now := due, inFlight := { l.inFlight with timed := rest } }.answer a)
    else { l with now := max l.now deadline }

/-- Lets time pass until a wait is over or its deadline has come. -/
def waitUntil (l : Loader δ) (isOver : Loader δ → Bool) (deadline : Nat) : Loader δ :=
  pass isOver deadline l.inFlight.timed l

/-- Lets so many milliseconds pass. -/
def advance (l : Loader δ) (ms : Nat) : Loader δ :=
  l.waitUntil (fun _ => false) (l.now + ms)

/-- Whether the clock can tell the end of a wait that begins now. -/
def canWait (l : Loader δ) (span : Nat) : Bool :=
  l.now + span < clockEnd

/-- Waits until no row is outstanding, at most for so long; tells whether that came about. There is
no reply if the clock cannot tell the end of the wait. -/
def waitIdle (l : Loader δ) (timeout : Nat) : Option Bool × Loader δ :=
  if l.canWait timeout then
    let l := l.waitUntil isIdle (l.now + timeout)
    (some l.isIdle, l)
  else (none, l)

/-- Whether a timer flush has nothing more to wait for. -/
def isSettled (l : Loader δ) : Bool :=
  l.isIdle || l.gate.tripped

/-- Flushes by the timer: submits what waits for its batch, then waits for answers. There is no
reply if the clock cannot tell the end of the wait. -/
def periodicFlush [DatabaseClient δ] (l : Loader δ) : Option (Except Failure Unit) × Loader δ :=
  if l.closed then (some (.ok ()), l)
  else match l.flush with
    | (.ok _, l) =>
      if l.canWait l.flushInterval then
        (some (.ok ()), l.waitUntil isSettled (l.now + l.flushInterval))
      else (none, l)
    | (.error f, l) => (some (.error f), l)

/-- Takes no more rows, submits what waits for its batch, and waits for answers. There is no reply
if the clock cannot tell the end of the wait. -/
def close [DatabaseClient δ] (l : Loader δ) : Option (Except Failure Unit) × Loader δ :=
  if l.closed then (some (.ok ()), l)
  else
    let (flushed, l) := { l with closed := true }.flush
    let (idle, l) := l.waitIdle l.drainTimeout
    (idle.map fun _ => flushed, l)

/-- Releases the oldest held answers. -/
def release (l : Loader δ) (n : Nat) : Loader δ :=
  (l.inFlight.held.take n).foldl answer
    { l with inFlight := { l.inFlight with held := l.inFlight.held.drop n } }

end Sluice.Loader
