/-
  Decimal numerals as they are accepted in settings: one sign at most, at least one digit,
  leading zeros allowed, and a bound on the value.
-/

namespace Sluice.Text

/-- The value of a non-empty string of the digits 0 to 9. -/
def digits? (cs : List Char) : Option Nat :=
  if cs.isEmpty || !cs.all Char.isDigit then none
  else some (cs.foldl (fun n c => n * 10 + (c.toNat - '0'.toNat)) 0)

/-- A numeral without a minus sign and with a value of at most `bound`. -/
def unsigned? (bound : Nat) (s : String) : Option Nat :=
  let digits := match s.toList with
    | '+' :: cs => cs
    | cs => cs
  (digits? digits).filter (· ≤ bound)

/-- A numeral with a value between `low` and `high`. -/
def signed? (low high : Int) (s : String) : Option Int :=
  let value := match s.toList with
    | '-' :: cs => (digits? cs).map fun n => -(n : Int)
    | '+' :: cs => (digits? cs).map Int.ofNat
    | cs => (digits? cs).map Int.ofNat
  value.filter fun n => low ≤ n && n ≤ high

/-- The greatest number of 16 bits. -/
def maxWord16 : Nat := 0xFFFF

/-- The greatest number of 64 bits. -/
def maxWord64 : Nat := 0xFFFFFFFFFFFFFFFF

/-- A port: a numeral of 16 bits. -/
def port? (s : String) : Option UInt16 :=
  (unsigned? maxWord16 s).map Nat.toUInt16

end Sluice.Text
