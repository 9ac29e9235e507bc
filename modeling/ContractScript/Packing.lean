import ContractScript.Emission
import ContractScript.Parameter

/-!
# Pushing contract parameters

An array is packed from the stack: its elements are pushed from the last to the
first, then their count, and the packing operator takes that many items off, so
that the first element comes off first. A parameter that cannot be pushed stops
the work; what was pushed before it stays.
-/

namespace ContractScript.Emission

/-- Pack as many items from the stack as given into an array. -/
def pack (count : Nat) : Emission :=
  (pushInteger count).andThen (opcode (.plain .pack))

mutual

/-- Push one parameter. -/
def pushParameter : Parameter → Emission
  | .signature data | .byteArray data | .publicKey data => pushData data
  | .boolean value => pushBoolean value
  | .integer value => pushInteger value.toInt
  | .hash160 data => pushIdentifier 20 data
  | .hash256 data => pushIdentifier 32 data
  | .string text => pushText text
  | .array elements => (pushLastToFirst elements).andThen (pack elements.length)
  | .unset _ => failed .valueMissing

/-- Push a list of parameters, the last one first. -/
def pushLastToFirst : List Parameter → Emission
  | [] => nothing
  | first :: later => (pushLastToFirst later).andThen (pushParameter first)

end

/-- Push a list of parameters as one array. -/
def packed (elements : List Parameter) : Emission :=
  (pushLastToFirst elements).andThen (pack elements.length)

/-- An array is pushed as the list of its elements. -/
theorem pushParameter_array (elements : List Parameter) :
    pushParameter (.array elements) = packed elements := by
  rw [pushParameter, packed]

end ContractScript.Emission
