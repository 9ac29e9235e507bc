import ContractScript.Log.Level
import ContractScript.Timestamp

/-!
# Log records and their lines

A record is a level and a message. Its line is the point of time if one is shown,
the level in a column of five characters, and the message. On a terminal the line
stands between a colour for its level and a reset.
-/

namespace ContractScript.Log

/-- One message with its level. -/
structure Record where
  level : Level
  message : String
  deriving DecidableEq

/-- The terminal codes that reset all colours. -/
def reset : String := "\x1b[0m"

/-- The terminal codes for the lines of a level. -/
def Level.colour : Level → String
  | debug => "\x1b[36m"
  | info => ""
  | warn => "\x1b[1m\x1b[33m"
  | error => "\x1b[1m\x1b[31m"

namespace Record

/-- The line of a record, with the point of time if one is given. -/
def line (record : Record) (stamp : Option Timestamp) : String :=
  let time := match stamp with
    | some stamp => stamp.text ++ " "
    | none => ""
  time ++ "[" ++ Text.padRight 5 record.level.text ++ "] " ++ record.message ++ "\n"

/-- A line between the colour of its level and a reset. -/
def coloured (record : Record) (line : String) : String :=
  reset ++ record.level.colour ++ line ++ reset

end Record

end ContractScript.Log
