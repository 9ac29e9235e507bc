import ContractScript.Log.Record

/-!
# Settings of the log

The settings are the lowest level that is written and whether lines show the point
of time. They start at `info` with the time shown. Two environment variables
change them: the level is read first and takes effect even if the other variable
is then refused; a level that is refused leaves both settings as they were.

The settings decide which records are written and how; they never decide anything
else.
-/

namespace ContractScript.Log

/-- The variable that names the lowest level. -/
def levelVariable : String := "NEO_SCRIPT_LOG"

/-- The variable that says whether lines show the point of time. -/
def timestampVariable : String := "NEO_SCRIPT_LOG_TIMESTAMP"

/-- The two variables, where they are set. -/
structure Environment where
  level : Option String
  timestamps : Option String

/-- The reasons why a variable is refused. -/
inductive SettingsError
  | level (unknown : UnknownLevel)
  | timestamps (value : String)
  deriving DecidableEq

/-- The text shown for a variable that is refused. -/
def SettingsError.message : SettingsError → String
  | level unknown => levelVariable ++ ": " ++ unknown.message
  | timestamps value => timestampVariable ++ ": expected 0 or 1, got '" ++ value ++ "'"

/-- What the log writes and how. -/
structure Settings where
  /-- The lowest level that is written. -/
  level : Level
  /-- Lines show the point of time. -/
  timestamps : Bool
  deriving DecidableEq

/-- The choice that the text of the second variable stands for. -/
def choice? : String → Option Bool
  | "0" | "false" => some false
  | "1" | "true" => some true
  | _ => none

namespace Settings

/-- The settings before any change. -/
def initial : Settings :=
  ⟨.info, true⟩

/-- The settings after the first variable was read. -/
def readLevel (settings : Settings) : Option String → Except SettingsError Settings
  | none => .ok settings
  | some text =>
    match Level.ofText text with
    | .ok level => .ok { settings with level := level }
    | .error unknown => .error (.level unknown)

/-- The settings after the second variable was read. -/
def readTimestamps (settings : Settings) : Option String → Except SettingsError Settings
  | none => .ok settings
  | some text =>
    match choice? text with
    | some shown => .ok { settings with timestamps := shown }
    | none => .error (.timestamps text)

/-- The settings after both variables were read, and the fault if one was refused. -/
def configure (settings : Settings) (environment : Environment) :
    Settings × Option SettingsError :=
  match settings.readLevel environment.level with
  | .error fault => (settings, some fault)
  | .ok levelled =>
    match levelled.readTimestamps environment.timestamps with
    | .error fault => (levelled, some fault)
    | .ok configured => (configured, none)

/-- Records of this level are written. -/
def admits (settings : Settings) (level : Level) : Bool :=
  settings.level ≤ level

/-- What is written for a record at a point of time: nothing if its level is too low. -/
def write (settings : Settings) (now : Timestamp) (coloured : Bool) (record : Record) : String :=
  if settings.admits record.level then
    let line := record.line (if settings.timestamps then some now else none)
    if coloured then record.coloured line else line
  else ""

end Settings

/-- What can be done to a log: changes of the settings, and writing a record. -/
inductive Action
  | setLevel (level : Level)
  | setTimestamps (shown : Bool)
  | configure (environment : Environment)
  | write (record : Record)

/-- The settings after an action. -/
def Settings.after (settings : Settings) : Action → Settings
  | .setLevel level => { settings with level := level }
  | .setTimestamps shown => { settings with timestamps := shown }
  | .configure environment => (settings.configure environment).1
  | .write _ => settings

end ContractScript.Log
