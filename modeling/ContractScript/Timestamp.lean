import ContractScript.Calendar
import ContractScript.Decimal

/-!
# Points of time in universal time

A timestamp is a point of time split into calendar fields, down to the
millisecond. The year is kept in 32 bits and begins again after that; all other
fields are exact for every number of seconds. The text has fixed columns as long
as the year has four digits.
-/

namespace ContractScript

/-- A point of time by calendar fields. -/
structure Timestamp where
  year : UInt32
  month : Nat
  day : Nat
  hour : Nat
  minute : Nat
  second : Nat
  millisecond : Nat
  deriving DecidableEq

namespace Timestamp

/-- The point of time that many seconds after 1970-01-01. -/
def ofUnix (seconds millisecond : Nat) : Timestamp :=
  let date := Calendar.Date.ofDayNumber (seconds / 86400)
  { year := UInt32.ofNat date.year
    month := date.month
    day := date.day
    hour := seconds / 3600 % 24
    minute := seconds / 60 % 60
    second := seconds % 60
    millisecond := millisecond }

/-- The point of time that a clock shows, in whole milliseconds; a clock set before
1970 shows the beginning of 1970. -/
def ofClock (seconds : Int) (nanoseconds : Nat) : Timestamp :=
  if seconds < 0 then ofUnix 0 0 else ofUnix seconds.toNat (nanoseconds / 1000000)

/-- The text of a point of time. -/
def text (stamp : Timestamp) : String :=
  Decimal.padded 4 stamp.year.toNat ++ "-" ++ Decimal.padded 2 stamp.month ++ "-" ++
    Decimal.padded 2 stamp.day ++ " " ++ Decimal.padded 2 stamp.hour ++ ":" ++
    Decimal.padded 2 stamp.minute ++ ":" ++ Decimal.padded 2 stamp.second ++ "." ++
    Decimal.padded 3 stamp.millisecond

end Timestamp

end ContractScript
