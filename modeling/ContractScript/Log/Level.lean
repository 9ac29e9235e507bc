import ContractScript.Text

/-!
# Levels of log records

Four levels in rising order. A level is read by its name in any case of ASCII
letters, with `warning` as a second name for `warn`; a name that is not known is
reported in lower case.
-/

namespace ContractScript.Log

/-- How much a log record matters. -/
inductive Level
  | debug | info | warn | error
  deriving DecidableEq

/-- A text that names no level, in lower case. -/
structure UnknownLevel where
  name : String
  deriving DecidableEq

/-- The text shown for a text that names no level. -/
def UnknownLevel.message (unknown : UnknownLevel) : String :=
  "unknown log level '" ++ unknown.name ++ "'"

namespace Level

/-- The place of a level in the rising order. -/
def rank : Level → Nat
  | debug => 0
  | info => 1
  | warn => 2
  | error => 3

/-- Levels are ordered by rank. -/
instance : LE Level :=
  ⟨fun lower upper => lower.rank ≤ upper.rank⟩

/-- The order of levels can be checked. -/
instance (lower upper : Level) : Decidable (lower ≤ upper) :=
  inferInstanceAs (Decidable (lower.rank ≤ upper.rank))

/-- The name of a level in a log line. -/
def text : Level → String
  | debug => "DEBUG"
  | info => "INFO"
  | warn => "WARN"
  | error => "ERROR"

/-- The level that a text names. -/
def ofText (text : String) : Except UnknownLevel Level :=
  match Text.lower text with
  | "debug" => .ok debug
  | "info" => .ok info
  | "warn" => .ok warn
  | "warning" => .ok warn
  | "error" => .ok error
  | other => .error ⟨other⟩

end Level

end ContractScript.Log
