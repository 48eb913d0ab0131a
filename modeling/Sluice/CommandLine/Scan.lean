import Sluice.CommandLine.Settings

/-
  Reading the arguments of a command line. An option is written `--name value`, `--name=value`,
  `-n value`, `-nvalue` or `-n=value`; short options without values may share one dash. What
  begins with a dash is no value, a negative number where one is allowed excepted, and a dash
  alone is. After `--` every argument is positional; the one positional argument is the table. A
  value is looked at when the next argument shows that it is complete, so an unknown argument is
  reported before the value in front of it.
-/

namespace Sluice.CommandLine

/-- Whether a text is a number as it may follow a minus sign: digits, among which there may be
one point after the first and then an exponent sign that is not the last. -/
def isUnsignedNumber (cs : List Char) : Bool :=
  let rec go : (first point exponent : Bool) → List Char → Bool
    | _, _, _, [] => true
    | first, point, exponent, c :: rest =>
      if c.isDigit then go false point exponent rest
      else if c = '.' && !point && !exponent && !first then go false true exponent rest
      else if c = 'e' && !exponent && !first && !rest.isEmpty then go false point true rest
      else false
  go true false false cs

/-- A command line read in part. -/
structure Scan where
  settings : Settings := {}
  /-- The options set so far. -/
  seen : List Opt := []
  /-- An option that was named, with its value if that has come. -/
  awaiting : Option (Opt × Option String) := none
  /-- Whether every further argument is positional. -/
  onlyPositional : Bool := false
  deriving DecidableEq, Repr

namespace Scan

/-- Notes that an option is set, which most may be only once. -/
def note (s : Scan) (o : Opt) : Except UsageError Scan :=
  if s.seen.contains o && !o.isRepeatable then .error .conflict
  else .ok { s with seen := o :: s.seen }

/-- Sets an option to a value. -/
def assign (s : Scan) (o : Opt) (value : String) : Except UsageError Scan := do
  let s ← s.note o
  pure { s with settings := ← s.settings.assign o value }

/-- Sets the option that was named with its value. -/
def resolve (s : Scan) : Except UsageError Scan :=
  match s.awaiting with
  | none => .ok s
  | some (_, none) => .error .missingValue
  | some (o, some value) => { s with awaiting := none }.assign o value

/-- Sets an option to a value written in the same argument. -/
def assignNow (s : Scan) (o : Opt) (value : String) : Except UsageError Scan := do
  (← s.resolve).assign o value

/-- Sets an option without a value. -/
def turnOn (s : Scan) (o : Opt) : Except UsageError Scan := do
  let s ← (← s.resolve).note o
  pure { s with settings := ← s.settings.turnOn o }

/-- Names an option whose value is the next argument. -/
def await (s : Scan) (o : Opt) : Except UsageError Scan := do
  pure { (← s.resolve) with awaiting := some (o, none) }

/-- Reads what follows two dashes. -/
def long (s : Scan) (cs : List Char) : Except UsageError Scan :=
  match Opt.ofName? (String.ofList (cs.takeWhile (· ≠ '='))), cs.dropWhile (· ≠ '=') with
  | none, _ => .error .unknownArgument
  | some o, _ :: value =>
    if o.takesValue then s.assignNow o (String.ofList value) else .error .unexpectedValue
  | some o, [] => if o.takesValue then s.await o else s.turnOn o

/-- Reads what follows one dash. -/
def short (s : Scan) : List Char → Except UsageError Scan
  | [] => .ok s
  | c :: rest => match Opt.ofLetter? c with
    | none => .error .unknownArgument
    | some o =>
      if o.takesValue then match rest with
        | [] => s.await o
        | '=' :: value => s.assignNow o (String.ofList value)
        | value => s.assignNow o (String.ofList value)
      else do (← s.turnOn o).short rest

/-- Reads a positional argument. -/
def positional (s : Scan) (arg : String) : Except UsageError Scan :=
  if s.settings.table.isSome then .error .unknownArgument
  else do
    let s ← s.resolve
    pure { s with settings := { s.settings with table := some arg } }

/-- Reads an argument that is no option: a value if one is awaited. -/
def plain (s : Scan) (arg : String) : Except UsageError Scan :=
  match s.awaiting with
  | some (o, none) => .ok { s with awaiting := some (o, some arg) }
  | _ => s.positional arg

/-- Whether an argument with a dash is the awaited value nevertheless. -/
def isAwaitedNumber (s : Scan) (cs : List Char) : Bool :=
  match s.awaiting with
  | some (o, none) => o.allowsNegative && isUnsignedNumber cs
  | _ => false

/-- Reads an argument. -/
def argument (s : Scan) (arg : String) : Except UsageError Scan :=
  if s.onlyPositional then s.positional arg
  else match arg.toList with
    | ['-', '-'] => .ok { s with onlyPositional := true }
    | '-' :: '-' :: cs => s.long cs
    | '-' :: c :: cs => if s.isAwaitedNumber (c :: cs) then s.plain arg else s.short (c :: cs)
    | _ => s.plain arg

/-- Reads arguments in turn. -/
def arguments (s : Scan) : List String → Except UsageError Scan
  | [] => s.resolve
  | arg :: rest => do (← s.argument arg).arguments rest

end Scan

/-- The settings of a command line. -/
def parse (args : List String) : Except UsageError Settings := do
  let s := (← Scan.arguments {} args).settings
  if s.table.isSome && s.procedure.isSome then throw .conflict
  if s.table.isNone && s.procedure.isNone then throw .missingTarget
  pure s

end Sluice.CommandLine
