import ContractScript.Machine
import ContractScript.Parameter

/-!
# What a contract sees of a parameter

The item of a parameter forgets how it was declared: truth values and small
integers become numbers, zero and false the empty byte string, and all other
values their bytes. Several parameters may have the same item. A parameter
without a value has none.

A parameter is encodable when it has a value everywhere, its hashes have their
widths, and no payload is too long for a script; the count of an array's elements
is a payload as well. Two parameters have the same shape when they differ only in
the contents of payloads of equal length.
-/

namespace ContractScript.Parameter

/-- The item of an integer. -/
def integerItem (number : Int) : Item :=
  if number = 0 then .bytes []
  else if -1 ≤ number ∧ number ≤ 16 then .number number
  else .bytes (SignedBytes.encode number)

mutual

/-- The item that a contract sees for a parameter. -/
def item? : Parameter → Option Item
  | signature data | hash160 data | hash256 data | byteArray data | publicKey data =>
    some (.bytes data)
  | boolean value => some (if value then .number 1 else .bytes [])
  | integer value => some (integerItem value.toInt)
  | string text => some (.bytes (Text.utf8 text))
  | array elements => (items? elements).map .array
  | unset _ => none

/-- The items that a contract sees for a list of parameters, in their order. -/
def items? : List Parameter → Option (List Item)
  | [] => some []
  | first :: later =>
    match item? first, items? later with
    | some item, some items => some (item :: items)
    | _, _ => none

end

/-- The lengths that a push can announce lie below this one. -/
def payloadLimit : Nat := LengthField.four.limit

/-- An array of so many elements can be packed: the count is written as a payload of
its own, which has to be short enough for one. Every count of a machine word is. -/
def Packable (count : Nat) : Prop :=
  (SignedBytes.encode count).length < payloadLimit

/-- Whether so many elements can be packed can be checked. -/
instance (count : Nat) : Decidable (Packable count) :=
  inferInstanceAs (Decidable (_ < _))

mutual

/-- A parameter can be pushed. -/
def Encodable : Parameter → Prop
  | signature data | byteArray data | publicKey data => data.length < payloadLimit
  | hash160 data => data.length = 20
  | hash256 data => data.length = 32
  | boolean _ | integer _ => True
  | string text => (Text.utf8 text).length < payloadLimit
  | array elements => Packable elements.length ∧ EncodableAll elements
  | unset _ => False

/-- All parameters of a list can be pushed. -/
def EncodableAll : List Parameter → Prop
  | [] => True
  | first :: later => Encodable first ∧ EncodableAll later

end

mutual

/-- Whether a parameter can be pushed can be checked. -/
def decideEncodable : (parameter : Parameter) → Decidable (Encodable parameter)
  | signature data | byteArray data | publicKey data =>
    inferInstanceAs (Decidable (data.length < payloadLimit))
  | hash160 data => inferInstanceAs (Decidable (data.length = 20))
  | hash256 data => inferInstanceAs (Decidable (data.length = 32))
  | boolean _ | integer _ => .isTrue trivial
  | string text => inferInstanceAs (Decidable ((Text.utf8 text).length < payloadLimit))
  | array elements =>
    have : Decidable (EncodableAll elements) := decideEncodableAll elements
    inferInstanceAs (Decidable (Packable elements.length ∧ EncodableAll elements))
  | unset _ => .isFalse id

/-- Whether all parameters of a list can be pushed can be checked. -/
def decideEncodableAll : (parameters : List Parameter) → Decidable (EncodableAll parameters)
  | [] => .isTrue trivial
  | first :: later =>
    have : Decidable (Encodable first) := decideEncodable first
    have : Decidable (EncodableAll later) := decideEncodableAll later
    inferInstanceAs (Decidable (Encodable first ∧ EncodableAll later))

end

/-- Encodability can be checked. -/
instance : DecidablePred Encodable := decideEncodable

/-- Encodability of a list can be checked. -/
instance : DecidablePred EncodableAll := decideEncodableAll

mutual

/-- Two parameters differ only in the contents of payloads of equal length. -/
def SameShape : Parameter → Parameter → Prop
  | signature first, signature second | hash160 first, hash160 second
  | hash256 first, hash256 second | byteArray first, byteArray second
  | publicKey first, publicKey second => first.length = second.length
  | boolean first, boolean second => first = second
  | integer first, integer second => first = second
  | string first, string second => (Text.utf8 first).length = (Text.utf8 second).length
  | array first, array second => SameShapes first second
  | unset _, unset _ => True
  | _, _ => False

/-- Two lists have the same length, and the same shape at every place. -/
def SameShapes : List Parameter → List Parameter → Prop
  | [], [] => True
  | first :: firstLater, second :: secondLater =>
    SameShape first second ∧ SameShapes firstLater secondLater
  | _, _ => False

end

/-- All parameters of a list can be pushed exactly when each of them can. -/
theorem encodableAll_iff (parameters : List Parameter) :
    EncodableAll parameters ↔ ∀ parameter ∈ parameters, Encodable parameter := by
  induction parameters with
  | nil => simp [EncodableAll]
  | cons first later inductionHypothesis => simp [EncodableAll, inductionHypothesis]

end ContractScript.Parameter
