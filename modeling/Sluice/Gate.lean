import Sluice.Status

/-
  The budget of failed rows. Every failure is counted; the gate trips, for good, with the first
  failure past the ceiling or with the first fatal status, whichever comes first. A tripped
  gate stops the loading.
-/

namespace Sluice

/-- Why a gate has tripped. -/
inductive GateTrip where
  /-- More failures than the ceiling allows. -/
  | budgetExhausted
  /-- A status that is not tolerated. -/
  | fatalStatus
  deriving DecidableEq, Repr

/-- A count of failures against a ceiling. -/
structure Gate where
  /-- The failures tolerated; none stands for any number. -/
  ceiling : Option Nat
  failures : Nat := 0
  /-- Whether a fatal status was counted. -/
  fatal : Bool := false
  /-- Whether those who wait for a trip have been woken. -/
  tripped : Bool := false
  deriving DecidableEq, Repr

namespace Gate

/-- A gate that tolerates so many failures; zero or less stands for any number. -/
def ofMaxErrors (maxErrors : Int) : Gate :=
  { ceiling := if 0 < maxErrors then some maxErrors.toNat else none }

/-- Whether a number of failures is past the ceiling. -/
def exceeds (g : Gate) (count : Nat) : Bool :=
  g.ceiling.any (· < count)

/-- Why the gate has tripped, if it has; a fatal status weighs more. -/
def trip (g : Gate) : Option GateTrip :=
  if g.fatal then some .fatalStatus
  else if g.exceeds g.failures then some .budgetExhausted
  else none

/-- Whether the gate has tripped. -/
def hasReachedLimit (g : Gate) : Bool :=
  g.trip.isSome

/-- Counts a failure; tells whether loading must stop because of it. -/
def record (g : Gate) (s : Status) : Bool × Gate :=
  let stop := s.isFatal || g.exceeds (g.failures + 1)
  (stop, { g with
    failures := g.failures + 1
    fatal := g.fatal || s.isFatal
    tripped := g.tripped || stop })

/-- Counts failures one after another; tells for each whether loading must stop. -/
def recordAll (g : Gate) : List Status → List Bool × Gate
  | [] => ([], g)
  | s :: rest =>
    let (stop, g) := g.record s
    let (stops, g) := g.recordAll rest
    (stop :: stops, g)

end Gate

end Sluice
