/-
  Where rows are loaded: a table takes them in batches, a procedure one by one.
-/

namespace Sluice

/-- The place rows are loaded into. -/
inductive Target where
  | table (name : String)
  | procedure (name : String)
  deriving DecidableEq, Repr

namespace Target

/-- The name of the table or procedure. -/
def name : Target → String
  | .table name | .procedure name => name

/-- Which of the two it is, in a word. -/
def kind : Target → String
  | .table _ => "table"
  | .procedure _ => "procedure"

/-- Whether rows go out in batches. -/
def isBatched : Target → Bool
  | .table _ => true
  | .procedure _ => false

instance : ToString Target where
  toString t := t.kind ++ ": " ++ t.name

end Target

end Sluice
