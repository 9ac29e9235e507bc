import ContractScript.Identifier
import ContractScript.Proofs.Digits
import Mathlib.Data.String.Basic

/-!
# The order of identifiers

The first differing byte orders identifiers, and two other orders agree with it. A byte is a
high and a low half, and the high one decides before the low one; digits are ordered as the
halves they stand for, although the letters do not follow the decimal digits directly. So the
texts of identifiers are ordered as their bytes, character by character and also byte by byte.
An identifier read as a number has its first byte on top, which decides before all the others.

All three rest on one fact about numbers in some base: what stands above the last digit
decides first. Texts need no assumption on the lengths; numbers do, and identifiers of one
type are equally long.
-/

namespace ContractScript

/-- Of two numbers, what stands above the last digit decides before the last digit. If the
upper parts differ, they differ by a whole base at least, and a digit is smaller than
that. -/
theorem compare_above_then_last {base last otherLast : Nat} (fits : last < base)
    (otherFits : otherLast < base) (above otherAbove : Nat) :
    compare (base * above + last) (base * otherAbove + otherLast) =
      (compare above otherAbove).then (compare last otherLast) := by
  rcases Nat.lt_trichotomy above otherAbove with smaller | rfl | greater
  · have step : base * (above + 1) ≤ base * otherAbove := Nat.mul_le_mul_left base smaller
    rw [Nat.mul_succ] at step
    rw [Nat.compare_eq_lt.mpr smaller, Nat.compare_eq_lt.mpr (by omega), Ordering.lt_then]
  · rw [Nat.compare_eq_eq.mpr rfl, Ordering.eq_then, Nat.compare_eq_ite_lt, Nat.compare_eq_ite_lt]
    simp only [Nat.add_lt_add_iff_left]
  · have step : base * (otherAbove + 1) ≤ base * above := Nat.mul_le_mul_left base greater
    rw [Nat.mul_succ] at step
    rw [Nat.compare_eq_gt.mpr greater, Nat.compare_eq_gt.mpr (by omega), Ordering.gt_then]

namespace Text

/-- Rows of characters are compared by their first difference, as the order of rows has
it. By induction on both rows, with the three ways in which the first characters can
compare. -/
theorem compare_chars (first second : List Char) :
    compare first second = compareOfLessAndEq first second := by
  induction first generalizing second with
  | nil => cases second <;> rfl
  | cons char later inductionHypothesis =>
    cases second with
    | nil => rfl
    | cons other otherLater =>
      rw [List.compare_cons_cons, inductionHypothesis,
        LinearOrder.compare_eq_compareOfLessAndEq char other]
      rcases lt_trichotomy char other with smaller | rfl | greater
      · simp [compareOfLessAndEq, List.cons_lt_cons_iff, smaller]
      · simp [compareOfLessAndEq]
      · simp [compareOfLessAndEq, List.cons_lt_cons_iff, greater.ne', greater.not_gt]

/-- The bytes of a text are those of its characters, one character after the other. -/
theorem utf8_ofList (chars : List Char) :
    utf8 (String.ofList chars) = chars.flatMap String.utf8EncodeChar := by
  simp [utf8, List.utf8Encode]

/-- Texts are compared by their characters. -/
theorem compare_toList (first second : String) :
    compare first.toList second.toList = compare first second := by
  rw [compare_chars, LinearOrder.compare_eq_compareOfLessAndEq first second]
  simp only [compareOfLessAndEq, String.lt_iff, String.toList_inj]

end Text

namespace Hex

/-- Each half of a byte written in a code, the high one first. -/
def inCode {α : Type} (code : Nat → α) (bytes : List UInt8) : List α :=
  bytes.flatMap fun byte => [code (byte.toNat / 16), code (byte.toNat % 16)]

/-- A code that is ordered as the halves of a byte orders rows as their bytes. By
induction on the rows: the first byte decides by its high half, by its low half and then
by the rest. The code may go to characters or to bytes, so both orders of texts are cases
of this law. -/
theorem compare_inCode {α : Type} [Ord α] {code : Nat → α}
    (ordered : ∀ half other : Fin 16, compare (code half.val) (code other.val) =
      compare half.val other.val) (bytes others : List UInt8) :
    compare (inCode code bytes) (inCode code others) = compare bytes others := by
  induction bytes generalizing others with
  | nil => cases others <;> rfl
  | cons byte later inductionHypothesis =>
    cases others with
    | nil => rfl
    | cons other otherLater =>
      have bounded := byte.toNat_lt
      have otherBounded := other.toNat_lt
      have high := ordered ⟨byte.toNat / 16, by omega⟩ ⟨other.toNat / 16, by omega⟩
      have low := ordered ⟨byte.toNat % 16, by omega⟩ ⟨other.toNat % 16, by omega⟩
      -- A byte is a number of two digits to the base 16, so its halves decide its place.
      have whole := compare_above_then_last (Nat.mod_lt byte.toNat (by decide : 0 < 16))
        (Nat.mod_lt other.toNat (by decide : 0 < 16)) (byte.toNat / 16) (other.toNat / 16)
      rw [Nat.div_add_mod, Nat.div_add_mod, ← UInt8.compare_eq_toNat_compare_toNat] at whole
      calc compare (inCode code (byte :: later)) (inCode code (other :: otherLater))
          = (compare (code (byte.toNat / 16)) (code (other.toNat / 16))).then
              ((compare (code (byte.toNat % 16)) (code (other.toNat % 16))).then
                (compare (inCode code later) (inCode code otherLater))) := by
            simp only [inCode, List.flatMap_cons, List.cons_append, List.nil_append,
              List.compare_cons_cons]
        _ = (compare byte other).then (compare later otherLater) := by
            rw [high, low, inductionHypothesis, whole, Ordering.then_assoc]
        _ = compare (byte :: later) (other :: otherLater) := List.compare_cons_cons.symm

/-- The bytes of a text of digits are those of its digits, one each, because digits are
ASCII characters. -/
theorem utf8_encode (bytes : List UInt8) :
    Text.utf8 (encode bytes) = inCode (fun half => (Nat.digitChar half).toUInt8) bytes := by
  have single : ∀ half : Fin 16, String.utf8EncodeChar (Nat.digitChar half.val) =
      [(Nat.digitChar half.val).toUInt8] := by decide
  rw [encode, Text.utf8_ofList, digits, List.flatMap_assoc]
  apply List.flatMap_congr
  intro byte _
  have bounded := byte.toNat_lt
  have high := single ⟨byte.toNat / 16, by omega⟩
  have low := single ⟨byte.toNat % 16, by omega⟩
  rw [byteDigits, List.flatMap_cons, List.flatMap_singleton, high, low, List.singleton_append]

/-- Texts of digits are ordered as the bytes they stand for. -/
theorem compare_encode (bytes others : List UInt8) :
    compare (encode bytes) (encode others) = compare bytes others := by
  rw [← Text.compare_toList, encode, encode, String.toList_ofList, String.toList_ofList]
  exact compare_inCode (by decide) bytes others

/-- The bytes of texts of digits are ordered as the bytes that the digits stand for. -/
theorem compare_utf8_encode (bytes others : List UInt8) :
    compare (Text.utf8 (encode bytes)) (Text.utf8 (encode others)) = compare bytes others := by
  rw [utf8_encode, utf8_encode]
  exact compare_inCode (by decide) bytes others

end Hex

namespace Identifier

section Order

variable {width : Nat}

/-- Two numbers are continued by byte strings of the same length: the numbers decide
first, and the bytes behind them second. With strings of different lengths the longer one
would multiply its number more often, and this could decide. -/
theorem compare_foldl {bytes others : List UInt8} (length : bytes.length = others.length)
    (above otherAbove : Nat) :
    compare (bytes.foldl (fun high byte => 256 * high + byte.toNat) above)
        (others.foldl (fun high byte => 256 * high + byte.toNat) otherAbove) =
      (compare above otherAbove).then (compare bytes others) := by
  -- Both numbers vary in the induction: with one byte more, each is above the bytes that remain.
  induction bytes generalizing others above otherAbove with
  | nil =>
    obtain rfl : others = [] := List.eq_nil_of_length_eq_zero length.symm
    exact Ordering.then_eq.symm
  | cons byte later inductionHypothesis =>
    cases others with
    | nil => cases length
    | cons other otherLater =>
      rw [List.foldl_cons, List.foldl_cons, inductionHypothesis (Nat.succ.inj length),
        compare_above_then_last byte.toNat_lt other.toNat_lt, List.compare_cons_cons,
        Ordering.then_assoc, UInt8.compare_eq_toNat_compare_toNat]

/-- Identifiers are ordered as the numbers they are. -/
theorem compare_number (first second : Identifier width) :
    compare first.number second.number = first.order second :=
  compare_foldl (first.length_bytes.trans second.length_bytes.symm) 0 0

/-- Only an identifier itself is neither before nor behind it. -/
theorem order_eq_iff {first second : Identifier width} :
    first.order second = .eq ↔ first = second := by
  obtain ⟨bytes, _⟩ := first
  obtain ⟨others, _⟩ := second
  simp [order]

/-- An identifier is determined by its text. -/
theorem text_inj {first second : Identifier width} :
    first.text = second.text ↔ first = second := by
  obtain ⟨bytes, _⟩ := first
  obtain ⟨others, _⟩ := second
  rw [text, text, mk.injEq]
  exact ⟨Hex.encode_injective, congrArg Hex.encode⟩

end Order

/-- Identifiers of one width have one order. Their bytes, their texts and their numbers
compare alike, the texts by their characters as well as by their bytes, and only equal
identifiers have equal texts. Therefore identifiers are in order if their texts are, and
sorting them first and writing them then gives the same row of texts as writing them first
and sorting then.

Every comparison is an equation with the order of the bytes. Sorting commutes with writing
because it only asks for comparisons, and these have the same answers before and after. -/
theorem identifiers_sort_as_texts_and_numbers (width : Nat) :
    (∀ first second : Identifier width,
      first.order second = compare first.text second.text ∧
      first.order second = compare (Text.utf8 first.text) (Text.utf8 second.text) ∧
      first.order second = compare first.number second.number ∧
      (first.order second = .eq ↔ first = second) ∧
      (first = second ↔ first.text = second.text)) ∧
    ∀ identifiers : List (Identifier width),
      (identifiers.Pairwise (fun first second => (first.order second).isLE) ↔
        (identifiers.map text).Pairwise fun first second => (compare first second).isLE) ∧
      (identifiers.mergeSort fun first second => (first.order second).isLE).map text =
        (identifiers.map text).mergeSort fun first second => (compare first second).isLE := by
  have texts (first second : Identifier width) :
      first.order second = compare first.text second.text :=
    (Hex.compare_encode first.bytes second.bytes).symm
  refine ⟨?_, ?_⟩
  · intro first second
    exact ⟨texts first second, (Hex.compare_utf8_encode first.bytes second.bytes).symm,
      (compare_number first second).symm, order_eq_iff, text_inj.symm⟩
  · intro identifiers
    constructor
    · simp only [List.pairwise_map, texts]
    · apply List.map_mergeSort
      intro first _ second _
      rw [texts]

/-- Letters come behind the decimal digits, as they do in the values of the digits. -/
example : order (⟨[0x9f], rfl⟩ : Identifier 1) ⟨[0xa0], rfl⟩ = .lt ∧ "9f" < "a0" := by
  decide

end Identifier

end ContractScript
