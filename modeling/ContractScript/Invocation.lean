import ContractScript.Packing
import ContractScript.Sha256

/-!
# Invoking contracts and services

Invoking an operation of a contract packs the arguments, pushes the name of the
operation and enters the contract. An invocation without an argument list writes
nothing at all, whatever the other values; one with an empty list still packs the
empty array. The contract is checked before anything is written.

A service of the host is called by name, or by the first four bytes of the digest
of its name. A name that is written out has at most 252 bytes; a hashed one may be
of any length. Neither may be empty.
-/

namespace ContractScript

namespace Emission

/-- Invoke an operation of the contract named by `hash`, if there are arguments. -/
def invocation (hash : List UInt8) (operation : String) (arguments : Option (List Parameter))
    (mode : CallMode) : Emission :=
  match arguments with
  | none => nothing
  | some arguments =>
    match Identifier.ofBytes 20 hash with
    | .error failure => failed failure
    | .ok contract =>
      ((packed arguments).andThen (pushText operation)).andThen (contractCall contract mode)

end Emission

/-- The longest service name that is written out, in bytes. -/
def longestServiceName : Nat := 252

/-- The four bytes that stand for the name of a service. -/
def serviceIdentifier (name : String) : List UInt8 :=
  (Sha256.digest (Text.utf8 name)).take 4

namespace Emission

/-- Call a service by what stands for its name. -/
def callByName (name : List UInt8) : Emission :=
  instruction ⟨.serviceCall, UInt8.ofNat name.length :: name⟩

/-- Call a service of the host, by its name or by its hashed name. -/
def serviceCall (name : String) (hashed : Bool) : Emission :=
  if name.isEmpty then failed .serviceNameEmpty
  else if hashed then callByName (serviceIdentifier name)
  else if longestServiceName < (Text.utf8 name).length then
    failed (.serviceNameTooLong (Text.utf8 name).length)
  else callByName (Text.utf8 name)

end Emission

end ContractScript
