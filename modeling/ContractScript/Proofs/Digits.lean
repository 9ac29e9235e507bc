import ContractScript.Decimal
import ContractScript.Hex
import ContractScript.Text

/-!
# What is written in digits is read back

Numbers and byte strings are determined by their digits, and the characters of their
texts are digits only, apart from the sign of a negative number. A text of hexadecimal
digits never begins with `0x`, so dropping such a beginning leaves it as it is.

Offsets are written in hexadecimal with zeros in front, up to a given width. The
notation is fixed here without the writer: which characters may occur, which number they
denote, and how many there are. A text that is read has at least as many bytes as it
denotes.
-/

namespace ContractScript

namespace Text

end Text

namespace Decimal

/-- Every decimal digit is that of a number below ten, namely of its distance from the
zero. -/
theorem exists_digitChar {char : Char} (digit : char.isDigit = true) :
    ∃ value < 10, char = Nat.digitChar value := by
  have all : ∀ value : Fin 10, Char.ofNat (48 + value.val) = Nat.digitChar value.val := by decide
  simp [Char.isDigit, UInt32.le_iff_toNat_le] at digit
  have found := all ⟨char.toNat - 48, by omega⟩
  rw [Nat.add_sub_cancel' digit.1, Char.ofNat_toNat] at found
  exact ⟨char.toNat - 48, by omega, found⟩

/-- The digits of a natural number denote it, so two numbers with the same text are read
back as the same number. -/
theorem natural_injective {first second : Nat} (same : natural first = natural second) :
    first = second := by
  have digits : Nat.toDigits 10 first = Nat.toDigits 10 second := String.ofList_injective same
  have read := congrArg (fun text => Nat.ofDigitChars 10 text 0) digits
  simpa only [Nat.ofDigitChars_ten_toDigits] using read

/-- The text of a natural number consists of decimal digits. -/
theorem isDigit_of_mem_natural {number : Nat} {digit : Char}
    (member : digit ∈ (natural number).toList) : digit.isDigit = true := by
  rw [natural, String.toList_ofList] at member
  exact Nat.isDigit_of_mem_toDigits (by decide) (by decide) member

/-- Every natural number takes a digit. -/
theorem natural_ne_nil (number : Nat) : (natural number).toList ≠ [] := by
  rw [natural, String.toList_ofList]
  exact Nat.toDigits_ne_nil

/-- The text of an integer is the text of its magnitude, behind a sign if it is negative. -/
theorem toList_integer (number : Int) : (integer number).toList =
    (if number < 0 then ['-'] else []) ++ (natural number.natAbs).toList := by
  unfold integer
  split
  · rw [String.toList_append]
    rfl
  · rfl

/-- An integer is determined by its text. The sign is no digit, so it tells the negative
numbers from the others; among numbers of one sign the magnitudes have the same digits. -/
theorem integer_injective {first second : Int} (same : integer first = integer second) :
    first = second := by
  have lists := congrArg String.toList same
  rw [toList_integer, toList_integer] at lists
  -- A digit cannot stand where the other text has its sign.
  have unsigned (number : Nat) (rest : List Char) :
      (natural number).toList ≠ '-' :: rest := by
    intro signed
    have member : '-' ∈ (natural number).toList := signed ▸ List.mem_cons_self
    exact absurd (isDigit_of_mem_natural member) (by decide)
  have magnitude {left right : Nat} (equal : (natural left).toList = (natural right).toList) :
      left = right :=
    natural_injective (String.toList_injective equal)
  split at lists <;> split at lists
  · have same := magnitude (List.cons.inj lists).2
    omega
  · exact absurd lists.symm (unsigned _ _)
  · exact absurd lists (unsigned _ _)
  · have same := magnitude lists
    omega

end Decimal

namespace Hex

/-- The digits that bytes and offsets are written with. -/
def lowerDigits : List Char :=
  ['0', '1', '2', '3', '4', '5', '6', '7', '8', '9', 'a', 'b', 'c', 'd', 'e', 'f']

/-- Every half byte has its digit among them. -/
theorem digitChar_mem_lowerDigits {nibble : Nat} (small : nibble < 16) :
    Nat.digitChar nibble ∈ lowerDigits := by
  have all : ∀ half : Fin 16, Nat.digitChar half.val ∈ lowerDigits := by decide
  exact all ⟨nibble, small⟩

/-- Decimal digits are among them. -/
theorem mem_lowerDigits_of_isDigit {char : Char} (digit : char.isDigit = true) :
    char ∈ lowerDigits := by
  obtain ⟨value, small, rfl⟩ := Decimal.exists_digitChar digit
  exact digitChar_mem_lowerDigits (by omega)

/-- Bytes are written in lower case. -/
theorem mem_lowerDigits_of_mem_digits {bytes : List UInt8} {digit : Char}
    (member : digit ∈ digits bytes) : digit ∈ lowerDigits := by
  obtain ⟨byte, _, member⟩ := List.mem_flatMap.mp member
  have bounded := byte.toNat_lt
  simp only [byteDigits, List.mem_cons, List.not_mem_nil, or_false] at member
  rcases member with rfl | rfl
  · exact digitChar_mem_lowerDigits (by omega)
  · exact digitChar_mem_lowerDigits (by omega)

/-- Bytes take digits. -/
theorem digits_ne_nil {bytes : List UInt8} (present : bytes ≠ []) : digits bytes ≠ [] := by
  intro nothing
  have none := congrArg List.length nothing
  rw [length_digits] at none
  have some := List.length_pos_iff.mpr present
  simp only [List.length_nil] at none
  omega

/-- Bytes are determined by their digits. -/
theorem encode_injective {first second : List UInt8} (same : encode first = encode second) :
    first = second := by
  have read := congrArg decode? (String.ofList_injective same)
  rw [decode?_digits, decode?_digits] at read
  exact Option.some.inj read

/-- Nothing is dropped from the digits of bytes: the second of them is a digit and
therefore no `x`, so they never look like a marked text. -/
theorem unprefixed_digits (bytes : List UInt8) : unprefixed (digits bytes) = digits bytes := by
  unfold unprefixed
  split
  next rest marked =>
    have member : 'x' ∈ digits bytes := by
      rw [marked]
      exact List.mem_cons_of_mem _ List.mem_cons_self
    exact absurd (mem_lowerDigits_of_mem_digits member) (by decide)
  · rfl

/-- The text of bytes denotes them. -/
theorem ofText?_encode (bytes : List UInt8) : ofText? (encode bytes) = some bytes := by
  rw [ofText?, encode, String.toList_ofList, unprefixed_digits, decode?_digits]

/-- The number that digits of either case denote, the most significant first. -/
def number? (digits : List Char) : Option Nat :=
  digits.foldlM (fun high digit => (digitValue? digit).map (16 * high + ·)) 0

/-- These characters write a number in at least `width` lower-case digits, and in no more
than the number takes or the width demands. The four conditions leave no choice of
digits. -/
structure Writes (width number : Nat) (digits : List Char) : Prop where
  lowerCase : ∀ digit ∈ digits, digit ∈ lowerDigits
  denoted : number? digits = some number
  wide : width ≤ digits.length
  unpadded : width < digits.length → digits.head? ≠ some '0'

/-- The last digit is the least significant: what stands in front of it counts sixteen
times. -/
theorem number?_append_digit {front : List Char} {high low : Nat}
    (denoted : number? front = some high) (small : low < 16) :
    number? (front ++ [Nat.digitChar low]) = some (16 * high + low) := by
  have read : front.foldlM (fun high digit => (digitValue? digit).map (16 * high + ·)) 0 =
      some high := denoted
  simp [number?, List.foldlM_append, read, digitValue?_digitChar low small]

/-- A zero in front does not count. -/
theorem number?_zero_cons (digits : List Char) : number? ('0' :: digits) = number? digits := by
  have zero : digitValue? '0' = some 0 := by decide
  simp [number?, zero]

/-- The digits of a number, without zeros in front: they are in lower case and denote it,
and only zero begins with a zero.

The induction is on the size of the number and splits the last digit off. Below sixteen
there is one digit only; otherwise the quotient is not zero, and the first digit is the
first one of the quotient. -/
theorem toDigits_spec (number : Nat) :
    (∀ digit ∈ Nat.toDigits 16 number, digit ∈ lowerDigits) ∧
      number? (Nat.toDigits 16 number) = some number ∧
      (0 < number → (Nat.toDigits 16 number).head? ≠ some '0') := by
  induction number using Nat.strongRecOn with
  | ind number inductionHypothesis =>
    rw [Nat.toDigits_eq_if (by decide)]
    split
    next small =>
      have digit := digitChar_mem_lowerDigits small
      have empty : number? [] = some 0 := rfl
      have denoted := number?_append_digit empty small
      refine ⟨by simpa using digit, by simpa using denoted, ?_⟩
      have all : ∀ half : Fin 16, 0 < half.val → Nat.digitChar half.val ≠ '0' := by decide
      intro positive
      simpa using all ⟨number, small⟩ positive
    next large =>
      have smaller : number / 16 < number := by omega
      obtain ⟨lowerCase, denoted, leading⟩ := inductionHypothesis (number / 16) smaller
      have low : number % 16 < 16 := by omega
      refine ⟨?_, ?_, ?_⟩
      · intro digit member
        rcases List.mem_append.mp member with member | member
        · exact lowerCase digit member
        · rw [List.mem_singleton.mp member]
          exact digitChar_mem_lowerDigits low
      · have joined : 16 * (number / 16) + number % 16 = number := by omega
        rw [number?_append_digit denoted low, joined]
      · intro _
        have leading := leading (by omega)
        cases written : Nat.toDigits 16 (number / 16) with
        | nil => exact absurd written Nat.toDigits_ne_nil
        | cons first later =>
          rw [written] at leading
          exact leading

/-- Zeros in front do not count. -/
theorem number?_replicate_append (count : Nat) (digits : List Char) :
    number? (List.replicate count '0' ++ digits) = number? digits := by
  induction count with
  | zero => rfl
  | succ count inductionHypothesis =>
    rw [List.replicate_succ, List.cons_append, number?_zero_cons, inductionHypothesis]

/-- Padding to a width writes the number in this width, or in as many digits as it takes.
The zeros in front do not count. If the text is longer than the width, there are none of
them, and the number is not zero, so it does not begin with a zero. -/
theorem padded_writes {width : Nat} (positive : 0 < width) (number : Nat) :
    Writes width number (padded width number).toList := by
  obtain ⟨lowerCase, denoted, leading⟩ := toDigits_spec number
  rw [padded, String.toList_ofList, List.leftpad]
  refine ⟨?_, ?_, ?_, ?_⟩
  · intro digit member
    rcases List.mem_append.mp member with member | member
    · rw [List.eq_of_mem_replicate member]
      exact List.mem_cons_self
    · exact lowerCase digit member
  · rw [number?_replicate_append, denoted]
  · simp only [List.length_append, List.length_replicate]
    omega
  · intro longer
    simp only [List.length_append, List.length_replicate] at longer
    have unneeded : width - (Nat.toDigits 16 number).length = 0 := by omega
    rw [unneeded, List.replicate_zero, List.nil_append]
    apply leading
    -- Zero takes one digit, and no width is smaller than that.
    apply Nat.pos_of_ne_zero
    rintro rfl
    rw [Nat.toDigits_zero, List.length_singleton] at longer
    omega

end Hex

end ContractScript
