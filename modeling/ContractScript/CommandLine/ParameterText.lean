import ContractScript.CommandLine.CommandError
import ContractScript.Decimal

/-!
# Parameters as texts

A parameter is written as its kind, a colon and its value. The kind is a full name
or a short one, in any case of ASCII letters; the first colon ends it, and later
ones belong to the value. Integers of 64 bits are written in decimal, truth values
as `true` and `false`, byte strings in hexadecimal, and texts as they are. Arrays
and kinds without values cannot be written.
-/

namespace ContractScript.CommandLine

/-- The kind that a short name stands for, in any case. -/
def shortKind? (name : String) : Option Parameter.Kind :=
  match Text.lower name with
  | "int" => some .integer
  | "bool" => some .boolean
  | "str" => some .string
  | "bytes" => some .byteArray
  | "pubkey" => some .publicKey
  | "sig" => some .signature
  | _ => none

/-- The kind that a short or a full name stands for. -/
def kindOfName (name : String) : Except CommandError Parameter.Kind :=
  match shortKind? name with
  | some kind => .ok kind
  | none => (Parameter.Kind.ofName name).mapError .unknownKind

/-- The texts in front of the first colon and behind it. -/
def splitAtColon? (text : String) : Option (String × String) :=
  match text.toList.dropWhile (· != ':') with
  | [] => none
  | _ :: value => some (String.ofList (text.toList.takeWhile (· != ':')), String.ofList value)

/-- The truth value that a text stands for. -/
def truth? : String → Option Bool
  | "true" => some true
  | "false" => some false
  | _ => none

/-- The 64-bit integer that a text stands for. -/
def int64? (text : String) : Option Int64 :=
  (Decimal.within? Int64.minValue.toInt Int64.maxValue.toInt text).map Int64.ofInt

/-- The parameter of a kind whose value is written as a text. -/
def parameterOfValue (kind : Parameter.Kind) (value : String) : Except CommandError Parameter :=
  match kind with
  | .integer =>
    match int64? value with
    | some number => .ok (.integer number)
    | none => .error (.invalidValue kind value)
  | .boolean =>
    match truth? value with
    | some truth => .ok (.boolean truth)
    | none => .error (.invalidValue kind value)
  | .string => .ok (.string value)
  | .byteArray => (hexBytes value).map .byteArray
  | .hash160 => (hexBytes value).map .hash160
  | .hash256 => (hexBytes value).map .hash256
  | .publicKey => (hexBytes value).map .publicKey
  | .signature => (hexBytes value).map .signature
  | .array | .interopInterface | .void => .error (.unsupportedKind kind)

/-- The parameter that a text stands for. -/
def parameterOfText (text : String) : Except CommandError Parameter :=
  match splitAtColon? text with
  | none => .error (.malformedParameter text)
  | some (name, value) =>
    match kindOfName name with
    | .ok kind => parameterOfValue kind value
    | .error fault => .error fault

/-- The text of a parameter with the full name of its kind. Arrays and parameters
without a value have none. -/
def textOfParameter? : Parameter → Option String
  | .integer value => some ("Integer:" ++ Decimal.integer value.toInt)
  | .boolean value => some ("Boolean:" ++ if value then "true" else "false")
  | .string text => some ("String:" ++ text)
  | .byteArray data => some ("ByteArray:" ++ Hex.encode data)
  | .hash160 data => some ("Hash160:" ++ Hex.encode data)
  | .hash256 data => some ("Hash256:" ++ Hex.encode data)
  | .publicKey data => some ("PublicKey:" ++ Hex.encode data)
  | .signature data => some ("Signature:" ++ Hex.encode data)
  | .array _ | .unset _ => none

end ContractScript.CommandLine
