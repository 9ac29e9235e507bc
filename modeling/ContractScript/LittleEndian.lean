/-!
# Little-endian fields

A natural number in a field of fixed width, least significant byte first. The
writer keeps as many bytes as the field has, so it is exact where the number lies
below the limit of the field; the reader takes a field of any width. Callers choose
a width that fits.
-/

namespace ContractScript.LittleEndian

/-- The `width` least significant bytes of a number, lowest first. -/
def bytes : Nat → Nat → List UInt8
  | 0, _ => []
  | width + 1, number => UInt8.ofNat number :: bytes width (number / 256)

/-- The number that a field holds. -/
def value : List UInt8 → Nat
  | [] => 0
  | byte :: rest => byte.toNat + 256 * value rest

/-- The numbers below this one fit a field of that width. -/
def limit : Nat → Nat
  | 0 => 1
  | width + 1 => 256 * limit width

/-- A field has the width it was asked for. -/
@[simp] theorem length_bytes (width number : Nat) : (bytes width number).length = width := by
  induction width generalizing number with
  | zero => rfl
  | succ width inductionHypothesis => simp [bytes, inductionHypothesis]

/-- A field holds a number below its limit. -/
theorem value_lt (field : List UInt8) : value field < limit field.length := by
  induction field with
  | nil => decide
  | cons byte rest inductionHypothesis =>
    have bounded := byte.toNat_lt
    simp only [value, List.length_cons, limit]
    omega

/-- A number that fits its field is read back. The lowest byte is the remainder by 256;
the quotient fits a field that is one byte narrower. -/
theorem value_bytes (width number : Nat) (fits : number < limit width) :
    value (bytes width number) = number := by
  induction width generalizing number with
  | zero =>
    have zero : number = 0 := by
      simp only [limit] at fits
      omega
    subst zero
    rfl
  | succ width inductionHypothesis =>
    have smaller : number / 256 < limit width := by
      simp only [limit] at fits
      omega
    simp only [bytes, value, inductionHypothesis _ smaller, UInt8.toNat_ofNat']
    omega

/-- A field is the field of the number it holds, so at a given width the number determines
every byte, leading zeros included. -/
theorem bytes_value (field : List UInt8) : bytes field.length (value field) = field := by
  induction field with
  | nil => rfl
  | cons byte rest inductionHypothesis =>
    have bounded := byte.toNat_lt
    have low : UInt8.ofNat (byte.toNat + 256 * value rest) = byte := by
      apply UInt8.toNat_inj.mp
      rw [UInt8.toNat_ofNat']
      omega
    have high : (byte.toNat + 256 * value rest) / 256 = value rest := by omega
    simp only [value, List.length_cons, bytes, low, high, inductionHypothesis]

end ContractScript.LittleEndian
