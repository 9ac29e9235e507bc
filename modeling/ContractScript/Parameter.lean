import ContractScript.Parameter.Kind

/-!
# Contract parameters

A parameter is a typed value handed to a contract operation. Hashes are carried as
plain bytes; their width is checked only when the parameter is written into a
script. A parameter that was declared and never given a value is a value of its
own, which no script can hold. Arrays nest to any depth, so functions on
parameters come in pairs, one for a parameter and one for a list of them.
-/

namespace ContractScript

/-- A typed argument of a contract operation. -/
inductive Parameter
  | signature (data : List UInt8)
  | boolean (value : Bool)
  | integer (value : Int64)
  | hash160 (data : List UInt8)
  | hash256 (data : List UInt8)
  | byteArray (data : List UInt8)
  | publicKey (data : List UInt8)
  | string (text : String)
  /-- The elements in the order in which the contract sees them. -/
  | array (elements : List Parameter)
  /-- A parameter of this kind that was never given a value. -/
  | unset (kind : Parameter.Kind)

namespace Parameter

/-- The kind of a parameter; one without a value has the kind it was declared with. -/
def kind : Parameter → Kind
  | signature _ => .signature
  | boolean _ => .boolean
  | integer _ => .integer
  | hash160 _ => .hash160
  | hash256 _ => .hash256
  | byteArray _ => .byteArray
  | publicKey _ => .publicKey
  | string _ => .string
  | array _ => .array
  | unset kind => kind

mutual

/-- Two parameters have the same kind and the same value. -/
def same : Parameter → Parameter → Bool
  | signature first, signature second => first == second
  | boolean first, boolean second => first == second
  | integer first, integer second => first == second
  | hash160 first, hash160 second => first == second
  | hash256 first, hash256 second => first == second
  | byteArray first, byteArray second => first == second
  | publicKey first, publicKey second => first == second
  | string first, string second => first == second
  | array first, array second => sameList first second
  | unset first, unset second => first == second
  | _, _ => false

/-- Two lists have the same parameters in the same order. -/
def sameList : List Parameter → List Parameter → Bool
  | [], [] => true
  | first :: firstRest, second :: secondRest => same first second && sameList firstRest secondRest
  | _, _ => false

end

mutual

/-- The comparison tells parameters apart exactly where they differ. -/
theorem same_iff (first second : Parameter) : same first second = true ↔ first = second := by
  cases first with
  | array elements =>
    cases second with
    | array others => simp [same, sameList_iff elements others]
    | _ => simp [same]
  | _ => cases second <;> simp [same]

/-- The comparison tells lists of parameters apart exactly where they differ. -/
theorem sameList_iff (first second : List Parameter) :
    sameList first second = true ↔ first = second := by
  cases first with
  | nil => cases second <;> simp [sameList]
  | cons parameter parameters =>
    cases second with
    | nil => simp [sameList]
    | cons other others =>
      simp [sameList, same_iff parameter other, sameList_iff parameters others]

end

/-- Equality of parameters can be checked. -/
instance : DecidableEq Parameter := fun first second =>
  decidable_of_iff _ (same_iff first second)

end Parameter

end ContractScript
