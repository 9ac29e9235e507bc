import ContractScript.Hex
import ContractScript.Text

/-!
# Kinds of contract parameters

Every parameter carries the kind of its value, which is written as one byte or as
a name. Names are looked up without regard to the case of ASCII letters. What is
no kind is reported with the tag that was looked up: the text as it was given, or
the byte in hexadecimal.
-/

namespace ContractScript.Parameter

/-- What a contract parameter or result can be. -/
inductive Kind
  | signature | boolean | integer | hash160 | hash256 | byteArray | publicKey | string | array
  | interopInterface | void
  deriving DecidableEq

/-- A tag that is looked up and is no kind. -/
structure UnknownKind where
  tag : String
  deriving DecidableEq

/-- The text shown for a tag that is no kind. -/
def UnknownKind.message (unknown : UnknownKind) : String :=
  "unknown contract parameter type: " ++ unknown.tag

namespace Kind

/-- Every kind, in the order of the bytes. -/
def all : List Kind :=
  [signature, boolean, integer, hash160, hash256, byteArray, publicKey, string, array,
    interopInterface, void]

/-- The byte that stands for a kind. -/
def byte : Kind → UInt8
  | signature => 0x00
  | boolean => 0x01
  | integer => 0x02
  | hash160 => 0x03
  | hash256 => 0x04
  | byteArray => 0x05
  | publicKey => 0x06
  | string => 0x07
  | array => 0x10
  | interopInterface => 0xf0
  | void => 0xff

/-- The name of a kind. -/
def name : Kind → String
  | signature => "Signature"
  | boolean => "Boolean"
  | integer => "Integer"
  | hash160 => "Hash160"
  | hash256 => "Hash256"
  | byteArray => "ByteArray"
  | publicKey => "PublicKey"
  | string => "String"
  | array => "Array"
  | interopInterface => "InteropInterface"
  | void => "Void"

/-- The kind that a byte stands for. -/
def ofByte (byte : UInt8) : Except UnknownKind Kind :=
  match all.find? fun kind => kind.byte == byte with
  | some kind => .ok kind
  | none => .error ⟨"0x" ++ Hex.encode [byte]⟩

/-- The kind that a name stands for, in any case. -/
def ofName (name : String) : Except UnknownKind Kind :=
  match all.find? fun kind => Text.sameName kind.name name with
  | some kind => .ok kind
  | none => .error ⟨name⟩

/-- The list misses no kind. -/
theorem mem_all (kind : Kind) : kind ∈ all := by
  cases kind <;> decide

/-- Every kind is found by its byte. -/
theorem ofByte_byte (kind : Kind) : ofByte kind.byte = .ok kind := by
  cases kind <;> rfl

end Kind

end ContractScript.Parameter
