import Sluice.CommandLine.Scan
import Sluice.Database.Printing
import Sluice.Pipeline.Basic

/-
  The program: from arguments to an exit code. It replays recorded messages through a pipeline
  and prints the rows that were accepted. What it needs of its surroundings are files and the
  standard input; `Directory` is a surrounding that holds a few files and nothing else.
-/

namespace Sluice.CommandLine

/-- The surroundings of the program, with their effects in `m`. -/
structure Surroundings (m : Type → Type) where
  /-- Adds bytes to a file, which is made if it is not there; tells whether that was possible. -/
  append : String → Bytes → m Bool
  /-- The bytes of a file that can be read. -/
  contents : String → m (Option Bytes)
  /-- The bytes of the standard input. -/
  input : m Bytes

/-- What the program leaves behind. -/
structure Report where
  exitCode : Nat
  /-- The bytes printed. -/
  output : Bytes := []
  deriving DecidableEq, Repr

/-- The line that names the program and its version. -/
def versionLine : String := "rmq_bulk_loader 0.1.0\n"

/-- The report on arguments that come to no settings. -/
def UsageError.report : UsageError → Report
  | .helpRequested => { exitCode := 0 }
  | .versionRequested => { exitCode := 0, output := Utf8.ofString versionLine }
  | _ => { exitCode := 2 }

/-- The report on a failure before anything was loaded. -/
def Report.failed : Report :=
  { exitCode := 1 }

/-- The exit code of a run that breaks off at a limit of the machine. -/
def limitCode : Nat := 101

namespace Settings

/-- Whether loading cannot begin: the first flush lies beyond the clock, or a batch beyond
memory. -/
def passesLimits (s : Settings) : Bool :=
  clockSeconds ≤ s.flush || s.table.isSome && addressableBytes < s.batch * rowBytes

/-- Whether closing cannot begin to wait: its end lies beyond the clock. -/
def drainsBeyondClock (s : Settings) : Bool :=
  s.drainTimeout.any (clockSeconds ≤ ·)

end Settings

/-- The exit code of a run. -/
def exitCode : RunResult → Nat
  | .ended o => o.exitCode
  | .crashed => limitCode
  | .refused _ | .stuck => 1

/-- Loads recorded messages: what is printed, and the records of rejected rows. -/
def load (config : LoadConfig) (messages : List Bytes) : Report × DeadLetters :=
  let (result, p) := (Pipeline.start config ({} : Printing) (messages.map .message)).run
  let loader := p.parts.loading.loader
  ({ exitCode := exitCode result, output := loader.client.printed }, loader.letters)

/-- Whether a path is a dash, with nothing behind it but steps that stay there. -/
def isDash (path : String) : Bool :=
  match path.toList.splitOn '/' with
  | first :: steps => first = ['-'] && steps.all fun step => step = [] || step = ['.']
  | [] => false

/-- The bytes to replay: those of a file, or of the standard input for a dash. -/
def replayed {m : Type → Type} [Monad m] (e : Surroundings m) (path : String) :
    m (Option Bytes) := do
  if isDash path then return some (← e.input)
  e.contents path

/-- Runs with a load configuration. Without a replay there is no queue to read from. -/
def runWith {m : Type → Type} [Monad m] (e : Surroundings m) (s : Settings)
    (config : LoadConfig) : m Report := do
  if let some path := s.rejected then
    unless ← e.append path [] do return .failed
  let some path := s.replay | return .failed
  let some bytes ← replayed e path | return .failed
  match Replay.ofLines bytes with
  | .error _ => return .failed
  | .ok replay =>
    let (report, letters) := load config replay.pending
    if let some path := s.rejected then
      discard <| e.append path letters.contents
    return report

/-- Runs the program. -/
def run {m : Type → Type} [Monad m] (e : Surroundings m) (args : List String) : m Report :=
  match parse args with
  | .error u => pure u.report
  | .ok s => match s.loadConfig with
    | .error _ => pure .failed
    | .ok config => runWith e s config

/-- A directory of files. -/
structure Directory where
  files : List (String × Bytes) := []
  deriving DecidableEq, Repr

namespace Directory

/-- The longest name of a file, in bytes. -/
def maxNameLength : Nat := 255

/-- A path without the steps that stay in the directory. -/
def strip : List Char → List Char
  | '.' :: '/' :: rest => strip (rest.dropWhile (· = '/'))
  | cs => cs
termination_by cs => cs.length
decreasing_by
  have := (List.dropWhile_suffix (l := rest) (· = '/')).length_le
  simp only [List.length_cons]
  omega

/-- The name a path has in the directory, if it is that of a file there. -/
def name? (path : String) : Option String :=
  let cs := strip path.toList
  if cs.isEmpty || cs.contains '/' || cs = ['.'] || cs = ['.', '.']
    || maxNameLength < (Utf8.encode cs).length then none
  else some (String.ofList cs)

/-- Puts bytes at the end of a file. -/
def extend (name : String) (bs : Bytes) : List (String × Bytes) → List (String × Bytes)
  | [] => [(name, bs)]
  | (n, old) :: rest => if n = name then (n, old ++ bs) :: rest else (n, old) :: extend name bs rest

/-- Adds bytes to the file at a path. -/
def append (path : String) (bs : Bytes) (d : Directory) : Bool × Directory :=
  match name? path with
  | some name => (true, { files := extend name bs d.files })
  | none => (false, d)

/-- The bytes of the file at a path. -/
def contents (path : String) (d : Directory) : Option Bytes :=
  (name? path).bind fun name => d.files.lookup name

/-- A directory as the surroundings of the program, with bytes on the standard input. -/
def surroundings (input : Bytes) : Surroundings (StateM Directory) where
  append path bs := fun d => d.append path bs
  contents path := fun d => (d.contents path, d)
  input := pure input

/-- Runs the program in a directory. -/
def run (d : Directory) (input : Bytes) (args : List String) : Report × Directory :=
  CommandLine.run (surroundings input) args d

end Directory

end Sluice.CommandLine
