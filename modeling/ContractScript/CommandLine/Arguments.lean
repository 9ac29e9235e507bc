/-!
# Flags and values among arguments

An argument list is read from the left into flags and values. A form says which
flags a command knows, how many values it needs, and whether further values may
follow. Once a value beyond the needed ones was read, all remaining arguments are
values as they stand, even if they look like flags; the same holds behind `--`,
which is itself dropped. Where further values may follow and all needed ones are
there, an argument that looks like a flag but is none is a value, too. Everywhere
else it is refused. No flag may be given twice.

Which values a command makes of the list, and whether there are enough of them, is
left to the commands.
-/

namespace ContractScript.CommandLine

/-- The flags of all commands together. -/
inductive Flag
  | verbose | tailCall | withoutArguments | listed | hashed | help | version
  deriving DecidableEq

namespace Flag

/-- The name of a flag, which follows two hyphens. -/
def name : Flag → String
  | verbose => "verbose"
  | tailCall => "tail-call"
  | withoutArguments => "no-args"
  | listed => "disasm"
  | hashed => "compress"
  | help => "help"
  | version => "version"

/-- The letter of a flag, which follows one hyphen, alone or among others. -/
def letter? : Flag → Option Char
  | verbose => some 'v'
  | help => some 'h'
  | version => some 'V'
  | _ => none

end Flag

/-- What the arguments of a command may be. -/
structure Form where
  flags : List Flag
  /-- The number of values that are needed. -/
  needed : Nat
  /-- Further values may follow the needed ones. -/
  openEnded : Bool

/-- The meaning of one argument where flags are recognised. -/
inductive Token
  | flags (given : List Flag)
  | value
  /-- All further arguments are values. -/
  | valuesOnly
  /-- Refused, behind flags that the same argument gives. -/
  | refused (behind : List Flag)
  deriving DecidableEq

/-- The flags and the values read so far, each in their order. -/
structure Arguments where
  flags : List Flag
  values : List String
  deriving DecidableEq

/-- Nothing read so far. -/
def Arguments.none : Arguments :=
  ⟨[], []⟩

/-- Add flags to those already given. A flag that is repeated is refused, and so is
a request for help. -/
def Arguments.withFlags? (arguments : Arguments) : List Flag → Option Arguments
  | [] => some arguments
  | flag :: others =>
    if flag ∈ arguments.flags ∨ flag = .help then Option.none
    else withFlags? { arguments with flags := arguments.flags ++ [flag] } others

namespace Form

/-- The flag of that name, if the form knows it. -/
def named? (form : Form) (name : List Char) : Option Flag :=
  form.flags.find? fun flag => flag.name.toList == name

/-- The flag of that letter, if the form knows it. -/
def lettered? (form : Form) (letter : Char) : Option Flag :=
  form.flags.find? fun flag => flag.letter? == some letter

/-- The flags of the letters in front of the first one that the form does not know. -/
def knownFront (form : Form) : List Char → List Flag
  | [] => []
  | letter :: letters =>
    match form.lettered? letter with
    | some flag => flag :: form.knownFront letters
    | none => []

/-- The meaning of an argument that looks like a flag and is none, behind some values
and with known letters at its front. -/
def unknown (form : Form) (values : Nat) (known : List Flag) : Token :=
  if form.openEnded ∧ form.needed ≤ values then .value else .refused known

/-- The meaning of an argument behind some values. A single hyphen is a value, and a
known flag takes no text behind an equals sign. -/
def token (form : Form) (values : Nat) (argument : String) : Token :=
  match argument.toList with
  | ['-', '-'] => .valuesOnly
  | '-' :: '-' :: word =>
    let name := word.takeWhile (· != '=')
    match form.named? name with
    | some flag => if name = word then .flags [flag] else .refused []
    | none => form.unknown values []
  | '-' :: letter :: letters =>
    match (letter :: letters).mapM form.lettered? with
    | some given => .flags given
    | none => form.unknown values (form.knownFront (letter :: letters))
  | _ => .value

/-- Read arguments behind those already read. -/
def readOnto (form : Form) (before : Arguments) : List String → Option Arguments
  | [] => some before
  | argument :: rest =>
    if form.needed < before.values.length then
      some { before with values := before.values ++ argument :: rest }
    else match form.token before.values.length argument with
      | .value => form.readOnto { before with values := before.values ++ [argument] } rest
      | .valuesOnly => some { before with values := before.values ++ rest }
      | .flags given =>
        match before.withFlags? given with
        | some after => form.readOnto after rest
        | none => none
      | .refused _ => none

/-- Read an argument list into flags and values. -/
def read (form : Form) (arguments : List String) : Option Arguments :=
  form.readOnto .none arguments

end Form

end ContractScript.CommandLine
