import ContractScript.Hex
import ContractScript.ScriptError

/-!
# Identifiers of fixed width

A contract is named by 20 bytes and a transaction, block or asset by 32. An
identifier is a byte string of exactly its width, so a value of the type needs no
further check. Identifiers are written in lower-case hexadecimal, in the order of
the bytes, and read with or without a leading `0x`. They are ordered by their
first differing byte.
-/

namespace ContractScript

/-- A byte string of a fixed width. -/
structure Identifier (width : Nat) where
  bytes : List UInt8
  length_bytes : bytes.length = width
  deriving DecidableEq

/-- The name of a contract: the hash of its script. -/
abbrev Hash160 := Identifier 20

/-- The name of a transaction, a block or an asset. -/
abbrev Hash256 := Identifier 32

/-- The reasons why a text is no identifier. -/
inductive IdentifierTextError
  | notHex
  | wrongLength (cause : ScriptError)
  deriving DecidableEq

/-- The text shown for a text that is no identifier. -/
def IdentifierTextError.message : IdentifierTextError → String
  | notHex => "invalid hex string"
  | wrongLength cause => cause.message

namespace Identifier

/-- The identifier of zero bytes only. -/
def zero (width : Nat) : Identifier width :=
  ⟨List.replicate width 0, by simp⟩

/-- The identifier of given bytes, which have to be as many as its width. -/
def ofBytes (width : Nat) (bytes : List UInt8) : Except ScriptError (Identifier width) :=
  if exactly : bytes.length = width then .ok ⟨bytes, exactly⟩
  else .error (.identifierLength width bytes.length)

/-- The lower-case digits of an identifier. -/
def text {width : Nat} (identifier : Identifier width) : String :=
  Hex.encode identifier.bytes

/-- The identifier that a text denotes. -/
def ofText (width : Nat) (text : String) : Except IdentifierTextError (Identifier width) :=
  match Hex.ofText? text with
  | none => .error .notHex
  | some bytes => (ofBytes width bytes).mapError .wrongLength

/-- An identifier as a natural number, its first byte being the most significant. -/
def number {width : Nat} (identifier : Identifier width) : Nat :=
  identifier.bytes.foldl (fun high byte => 256 * high + byte.toNat) 0

/-- The order of two identifiers by their first differing byte. -/
def order {width : Nat} (first second : Identifier width) : Ordering :=
  compare first.bytes second.bytes

/-- The bytes of an identifier give it back. -/
theorem ofBytes_bytes {width : Nat} (identifier : Identifier width) :
    ofBytes width identifier.bytes = .ok identifier := by
  simp [ofBytes, identifier.length_bytes]

/-- Only bytes of the right count are an identifier, and they are kept. -/
theorem ofBytes_eq_ok_iff {width : Nat} {bytes : List UInt8} {identifier : Identifier width} :
    ofBytes width bytes = .ok identifier ↔ identifier.bytes = bytes := by
  constructor
  · intro accepted
    unfold ofBytes at accepted
    split at accepted
    · cases accepted
      rfl
    · cases accepted
  · rintro rfl
    exact ofBytes_bytes identifier

end Identifier

end ContractScript
