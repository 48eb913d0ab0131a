import Sluice.Config.LoadConfig
import Sluice.Database.Client
import Sluice.Gate

/-
  The loader: rows go to the database in batches of a fixed size, or one by one to a procedure.
  It keeps account of every row it was given. The answers to submitted rows are counted as they
  come; a row that failed is recorded among the dead letters and counted at the gate. Once the
  gate has tripped no row is submitted any more, and rows are dropped instead.
-/

namespace Sluice

/-- Answers that are still to come. -/
structure InFlight where
  /-- Those that wait to be released, the oldest first. -/
  held : List Answer := []
  /-- Those with a time of their own, the earliest first. -/
  timed : List (Nat × Answer) := []
  deriving DecidableEq, Repr

/-- Puts an answer behind those due at the same time or earlier. -/
def InFlight.insertTimed (due : Nat) (a : Answer) : List (Nat × Answer) → List (Nat × Answer)
  | [] => [(due, a)]
  | (d, b) :: rest => if due < d then (due, a) :: (d, b) :: rest else (d, b) :: insertTimed due a rest

/-- The rows a loader was given, by what became of them. -/
structure LoadStats where
  submitted : Nat := 0
  loaded : Nat := 0
  rejected : Nat := 0
  /-- The rows that were never submitted. -/
  dropped : Nat := 0
  deriving DecidableEq, Repr

/-- A loader with its database connection, its gate and its clock. Times are in milliseconds. -/
structure Loader (δ : Type) where
  client : δ
  target : Target
  /-- The rows of a full batch. -/
  batchSize : Nat
  flushInterval : Nat
  drainTimeout : Nat
  gate : Gate
  letters : DeadLetters := {}
  now : Nat := 0
  lastFlush : Nat := 0
  /-- The rows that wait for their batch to fill. -/
  pending : List Row := []
  inFlight : InFlight := {}
  /-- The submitted rows not yet answered. -/
  outstanding : Nat := 0
  stats : LoadStats := {}
  closed : Bool := false
  deriving DecidableEq

/-- The seconds up to which the clock counts; it starts with the loader. -/
def clockSeconds : Nat := 0x7FFFFFFFFFFFFFFF

/-- The end of the clock, in milliseconds. -/
def clockEnd : Nat := clockSeconds * 1000

/-- The bytes that can be addressed. -/
def addressableBytes : Nat := 0x7FFFFFFFFFFFFFFF

/-- The bytes a row takes in a batch. -/
def rowBytes : Nat := 56

namespace Loader

variable {δ : Type}

/-- Whether room for a batch can be addressed; no loader can be made otherwise. Only a table takes
batches. -/
def holdsBatch (target : Target) (batchSize : Nat) : Bool :=
  !target.isBatched || batchSize * rowBytes ≤ addressableBytes

/-- A loader for a target; only a table takes batches, and of one row at least. -/
def start (client : δ) (target : Target) (batchSize flushInterval drainTimeout : Nat)
    (gate : Gate) : Loader δ :=
  { client := client
    target := target
    batchSize := if target.isBatched then max batchSize 1 else 1
    flushInterval := flushInterval
    drainTimeout := drainTimeout
    gate := gate }

/-- Counts a row that was loaded. -/
def countLoaded (l : Loader δ) : Loader δ :=
  { l with stats := { l.stats with loaded := l.stats.loaded + 1 } }

/-- Counts a row that failed, records it, and tells the gate. -/
def countRejected (l : Loader δ) (a : Answer) : Loader δ :=
  { l with
    stats := { l.stats with rejected := l.stats.rejected + 1 }
    letters := l.letters.report a
    gate := (l.gate.record a.status).2 }

/-- Takes the answer to a row; the row is outstanding until all else is done. -/
def answer (l : Loader δ) (a : Answer) : Loader δ :=
  let l := if a.status.isSuccess then l.countLoaded else l.countRejected a
  { l with outstanding := l.outstanding - 1 }

/-- Takes an answer now or puts it off, as planned. -/
def expect (l : Loader δ) (p : PlannedAnswer) : Loader δ :=
  match p.timing with
  | .atOnce => l.answer p.answer
  | .after delay =>
    { l with inFlight := { l.inFlight with
        timed := InFlight.insertTimed (l.now + delay) p.answer l.inFlight.timed } }
  | .onRelease => { l with inFlight := { l.inFlight with held := l.inFlight.held ++ [p.answer] } }

/-- The loader in a call that hands so many rows to the database: they are outstanding, and answers
are taken as the database plans them. -/
def during (l : Loader δ) (rows : Nat) (planned : List PlannedAnswer) (client : δ) : Loader δ :=
  planned.foldl expect { l with client := client, outstanding := l.outstanding + rows }

/-- Hands rows to the database. Rows it refuses are in no account once the call is over. -/
def submit [DatabaseClient δ] (l : Loader δ) (s : Submission) : Except Failure Unit × Loader δ :=
  let rows := s.rows.length
  match DatabaseClient.submit s l.client with
  | (.refused f planned, client) =>
    let l := l.during rows planned client
    (.error f, { l with outstanding := l.outstanding - rows })
  | (.accepted planned, client) =>
    let l := l.during rows planned client
    (.ok (), { l with stats := { l.stats with submitted := l.stats.submitted + rows } })

/-- Counts rows that will never be submitted. -/
def drop (l : Loader δ) (rows : Nat) : Loader δ :=
  { l with stats := { l.stats with dropped := l.stats.dropped + rows } }

/-- Submits the rows that wait, or drops them if the gate has tripped. The flush timer starts
anew in any case. -/
def flush [DatabaseClient δ] (l : Loader δ) : Except Failure Unit × Loader δ :=
  let l := { l with lastFlush := l.now }
  if l.pending.isEmpty then (.ok (), l)
  else if l.gate.hasReachedLimit then (.ok (), { l with pending := [] }.drop l.pending.length)
  else match l.target with
    | .table name => { l with pending := [] }.submit (.batch name l.pending)
    | .procedure _ => (.ok (), l)

/-- Takes a row: submits it, or lets it wait for its batch to fill. -/
def insert [DatabaseClient δ] (l : Loader δ) (row : Row) : Except Failure Unit × Loader δ :=
  if l.closed then (.error .loaderClosed, l)
  else if l.gate.hasReachedLimit then (.ok (), l.drop 1)
  else match l.target with
    | .procedure name => l.submit (.call name row)
    | .table _ =>
      let l := { l with pending := l.pending ++ [row] }
      if l.batchSize ≤ l.pending.length then l.flush else (.ok (), l)

/-- When the timer flushes next, if the clock can tell. -/
def flushDeadline (l : Loader δ) : Nat :=
  l.lastFlush + l.flushInterval

/-- Whether the timer should flush. -/
def isFlushDue (l : Loader δ) : Bool :=
  l.flushDeadline ≤ l.now

/-- Whether no row is outstanding. -/
def isIdle (l : Loader δ) : Bool :=
  l.outstanding == 0

end Loader

end Sluice
