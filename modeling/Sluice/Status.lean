/-
  The status a database reports for one submitted row. Only a user abort and a graceful
  failure can be tolerated; every other status that is not a success is fatal.
-/

namespace Sluice

/-- The outcome of one row. -/
inductive Status where
  | success
  | userAbort
  | gracefulFailure
  | unexpectedFailure
  | connectionLost
  | serverUnavailable
  | connectionTimeout
  | responseUnknown
  | txnRestart
  | operationalFailure
  /-- A code without a meaning of its own. -/
  | other (code : Int8)
  deriving DecidableEq, Repr

namespace Status

/-- The status with a given code. -/
def ofCode (code : Int8) : Status :=
  if code = 1 then .success
  else if code = -1 then .userAbort
  else if code = -2 then .gracefulFailure
  else if code = -3 then .unexpectedFailure
  else if code = -4 then .connectionLost
  else if code = -5 then .serverUnavailable
  else if code = -6 then .connectionTimeout
  else if code = -7 then .responseUnknown
  else if code = -8 then .txnRestart
  else if code = -9 then .operationalFailure
  else .other code

/-- The code of a status. -/
def code : Status → Int8
  | .success => 1
  | .userAbort => -1
  | .gracefulFailure => -2
  | .unexpectedFailure => -3
  | .connectionLost => -4
  | .serverUnavailable => -5
  | .connectionTimeout => -6
  | .responseUnknown => -7
  | .txnRestart => -8
  | .operationalFailure => -9
  | .other code => code

/-- Whether the row was loaded. -/
def isSuccess (s : Status) : Bool :=
  s == .success

/-- Whether the status halts loading whatever the budget. -/
def isFatal : Status → Bool
  | .success | .userAbort | .gracefulFailure => false
  | _ => true

/-- The name of a status. -/
def name : Status → String
  | .success => "Success"
  | .userAbort => "UserAbort"
  | .gracefulFailure => "GracefulFailure"
  | .unexpectedFailure => "UnexpectedFailure"
  | .connectionLost => "ConnectionLost"
  | .serverUnavailable => "ServerUnavailable"
  | .connectionTimeout => "ConnectionTimeout"
  | .responseUnknown => "ResponseUnknown"
  | .txnRestart => "TxnRestart"
  | .operationalFailure => "OperationalFailure"
  | .other code => "Other(" ++ toString code.toInt ++ ")"

instance : ToString Status where
  toString s := s.name ++ "(" ++ toString s.code.toInt ++ ")"

end Status

end Sluice
