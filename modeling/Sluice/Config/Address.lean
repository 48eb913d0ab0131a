import Sluice.Text.Blank
import Sluice.Text.Numeral

/-
  Addresses of the form `host` or `host:port`. Blanks around one are dropped first; the port
  is what follows the last colon, and no other colon may occur.
-/

namespace Sluice

/-- A host, and a port where one is given. -/
structure Address where
  host : String
  port : Option UInt16 := none
  deriving DecidableEq, Repr

namespace Address

/-- The port, or the given one where the address has none. -/
def portOr (a : Address) (default : UInt16) : UInt16 :=
  a.port.getD default

instance : ToString Address where
  toString a := match a.port with
    | some port => a.host ++ ":" ++ toString port.toNat
    | none => a.host

/-- What stands before and after the last colon of a text, if it has one. -/
def splitLastColon (cs : List Char) : Option (List Char × List Char) :=
  if cs.contains ':' then
    let rear := cs.reverse
    some ((rear.dropWhile (· != ':')).tail.reverse, (rear.takeWhile (· != ':')).reverse)
  else none

/-- The address a text without blanks around it stands for. -/
def ofTrimmed? (cs : List Char) : Option Address := do
  let (host, port) ← match splitLastColon cs with
    | some (host, port) => (Text.port? (String.ofList port)).map fun p => (host, some p)
    | none => some (cs, none)
  if host.isEmpty || host.contains ':' then none
  else some { host := String.ofList host, port := port }

/-- Reads an address; the error is worded with the trimmed text. -/
def parse (s : String) : Except String Address :=
  match ofTrimmed? (Text.trim s).toList with
  | some a => .ok a
  | none => .error ("Bad host specifier: " ++ Text.trim s)

end Address

end Sluice
