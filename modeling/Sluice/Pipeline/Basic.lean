import Sluice.Pipeline.Run

/-
  A pipeline: from a queue through rows into a database, once. Running it connects, streams until
  the rows end or loading stops, drains what is left, and closes the parts in order: the queue,
  the loader, the database. Running it again gives the same outcome and touches nothing. A run that
  comes to a limit of the machine breaks off there: it has no outcome, and closes nothing.
-/

namespace Sluice

/-- A pipeline with its parts. -/
structure Pipeline (δ : Type) where
  config : LoadConfig
  parts : Run δ
  /-- The states entered after idle, in order. -/
  entered : List PipelineState := []
  /-- How it ended, once it has. -/
  outcome : Option Outcome := none

/-- What running a pipeline gives. -/
inductive RunResult where
  /-- The settings are unusable, or the queue was taken by another run; nothing was touched. -/
  | refused (f : Failure)
  | ended (o : Outcome)
  /-- A call on the queue was never answered. -/
  | stuck
  /-- The run broke off at a limit of the machine. What the reading half has done since is not told:
  nothing stops it before it next sends a row. -/
  | crashed
  deriving DecidableEq, Repr

/-- The rows that a channel can be made for, at most. -/
def maxChannelCapacity : Nat := 0x1FFFFFFFFFFFFFFF

/-- Whether the parts of a load can be made in memory. -/
def LoadConfig.fitsMemory (c : LoadConfig) : Bool :=
  Loader.holdsBatch c.target c.batchSize && c.channelCapacity ≤ maxChannelCapacity

namespace Pipeline

variable {δ : Type}

/-- A pipeline at rest. -/
def start (config : LoadConfig) (client : δ) (script : List QueueEvent)
    (faults : List CallFault := []) : Pipeline δ :=
  { config := config
    parts :=
      { loading :=
          { loader := Loader.start client config.target config.batchSize config.flushInterval
              config.drainTimeout (Gate.ofMaxErrors config.maxErrors)
            capacity := config.channelCapacity }
        queue := { inner := { pending := [] }, faults := faults }
        script := script } }

/-- The state it is in. -/
def state (p : Pipeline δ) : PipelineState :=
  p.entered.getLastD .idle

/-- Whether it has been asked to stop. -/
def isStopped (p : Pipeline δ) : Bool :=
  p.parts.loading.stopRequested

/-- Asks it to stop. -/
def stop (p : Pipeline δ) : Pipeline δ :=
  { p with parts := p.parts.mapLoading fun w => { w with stopRequested := true } }

/-- Enters a state. -/
def enter (p : Pipeline δ) (s : PipelineState) : Pipeline δ :=
  { p with entered := p.entered ++ [s] }

/-- Changes the loader. -/
def withLoader (p : Pipeline δ) (loader : Loader δ) : Pipeline δ :=
  { p with parts := p.parts.mapLoading fun w => { w with loader := loader } }

/-- Changes the database connection. -/
def withClient (p : Pipeline δ) (client : δ) : Pipeline δ :=
  p.withLoader { p.parts.loading.loader with client := client }

/-- Closes the database connection; a failure to do so changes nothing. -/
def closeClient [DatabaseClient δ] (p : Pipeline δ) : Pipeline δ :=
  p.withClient (DatabaseClient.close p.parts.loading.loader.client).2

/-- Ends, for a reason. -/
def conclude (p : Pipeline δ) (reason : StopReason) (rowsRead : Nat) : RunResult × Pipeline δ :=
  let loader := p.parts.loading.loader
  let outcome :=
    { state := reason.finalState, reason := reason, rowsRead := rowsRead
      failures := loader.gate.failures, stats := loader.stats }
  (.ended outcome, { p.enter reason.finalState with outcome := some outcome })

/-- The reason to report when reading has ended: a failure of the reading half counts only if
loading stopped for the end of the rows, and so does a stop by the operator. -/
def readReason (reason : StopReason) (readFailure : Option Failure) (interrupted : Bool) :
    StopReason :=
  match reason, readFailure with
  | .endOfInput, some (.parse row text) => .parse (Failure.parse row text).message
  | .endOfInput, some f => .transport f.message
  | .endOfInput, none => if interrupted then .interrupted else .endOfInput
  | reason, _ => reason

/-- The reason to report when the loader is closed: its failure counts unless another came
before. -/
def closeReason (reason : StopReason) (closed : Except Failure Unit) : StopReason :=
  match closed with
  | .error f => if reason.isFailure then reason else .transport f.message
  | .ok _ => reason

/-- Drains and closes the loader, then the database. -/
def drain [DatabaseClient δ] (p : Pipeline δ) (readFailure : Option Failure) :
    RunResult × Pipeline δ :=
  let p := p.enter .draining
  let w := p.parts.loading
  let reason := readReason (w.reason.getD .endOfInput) readFailure w.interrupted
  match (w.loader.drop w.unloaded).close with
  | (some closed, loader) =>
    (p.withLoader loader).closeClient.conclude (closeReason reason closed) (w.rowsRead + w.unloaded)
  | (none, loader) => (.crashed, p.withLoader loader)

/-- Takes the rows that are left once the reading half has ended, and closes everything. -/
def windUp [DatabaseClient δ] (p : Pipeline δ) (readFailure : Option Failure) :
    RunResult × Pipeline δ :=
  let p := { p with parts := p.parts.mapLoading Loading.finish }
  if p.parts.loading.reason = some .overflow then (.crashed, p) else p.drain readFailure

/-- Runs with a database connection. -/
def stream [DatabaseClient δ] (p : Pipeline δ) : RunResult × Pipeline δ :=
  let p := p.enter .streaming
  match p.parts.readOut p.config with
  | (some readFailure, parts) => { p with parts := parts }.windUp readFailure
  | (none, parts) =>
    (if parts.loading.reason = some .overflow then .crashed else .stuck, { p with parts := parts })

/-- Connects to the database and runs. -/
def connect [DatabaseClient δ] (p : Pipeline δ) : RunResult × Pipeline δ :=
  let p := p.enter .connecting
  match DatabaseClient.connect p.config.database p.parts.loading.loader.client with
  | (.ok _, client) =>
    let p := p.withClient client
    if p.config.fitsMemory then p.stream else (.crashed, p)
  | (.error f, client) => (p.withClient client).closeClient.conclude (.transport f.message) 0

/-- The failure of a run that finds the queue taken. -/
def queueTaken : Failure :=
  .config "pipeline has no queue consumer"

/-- Runs the pipeline to its end, unless it has already run. The first run takes the queue. -/
def run [DatabaseClient δ] (p : Pipeline δ) : RunResult × Pipeline δ :=
  match p.outcome with
  | some outcome => (.ended outcome, p)
  | none => match p.config.validate with
    | .error fault => (.refused fault.failure, p)
    | .ok _ => if p.entered.isEmpty then p.connect else (.refused queueTaken, p)

end Pipeline

end Sluice
