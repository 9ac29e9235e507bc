import ContractScript.LittleEndian
import ContractScript.SignedBytes

/-!
# Signed byte strings hold their integers

Reading the bytes written for an integer gives that integer, whatever its size,
and an integer takes no more bytes than its range needs: one byte up to 127 on
either side of zero, and one more each time the range grows by a factor of 256. A byte
string of some length stands for a number in the range of that length, so none that stands
for the integer is shorter; only zero also has the empty one.

The writer splits low bytes off and passes on the quotient, which the division
rounds down. A negative number therefore keeps its sign, and its remainder is the
unsigned low byte that reading adds back.
-/

namespace ContractScript.SignedBytes

/-- Reading a lower byte behind a number that was read. -/
def step (high : Int) (byte : UInt8) : Int :=
  256 * high + byte.toNat

/-- A number of one byte is read back with its sign. Both conversions keep the eight bits,
and within the range of a signed byte these bits stand for the number itself. -/
theorem toInt_ofInt {number : Int} (lower : -128 ≤ number) (upper : number < 128) :
    (UInt8.ofInt number).toInt8.toInt = number := by
  have bits : (UInt8.ofInt number).toInt8.toBitVec = BitVec.ofInt 8 number := by
    apply BitVec.eq_of_toNat_eq
    rw [UInt8.toBitVec_toInt8, UInt8.toNat_toBitVec, BitVec.toNat_ofInt]
    simp only [UInt8.ofInt, UInt8.toNat_ofNat']
    omega
  rw [← Int8.toInt_toBitVec, bits]
  exact BitVec.toInt_ofInt_eq_self (by decide) lower upper

/-- The low byte of a number is its remainder, which is never negative, also where the
number is. -/
theorem toNat_ofInt (number : Int) : ((UInt8.ofInt number).toNat : Int) = number % 256 := by
  simp only [UInt8.ofInt, UInt8.toNat_ofNat']
  omega

/-- Reading what was written in front of lower bytes gives the number, followed by the
lower bytes.

Follow the writer: it ends at a number of one byte, which carries the sign, or it writes
the quotient in front of the remainder, and reading joins the two again. -/
theorem value_encodeOnto (lower : List UInt8) (number : Int) :
    value (encodeOnto lower number) = lower.foldl step number := by
  induction lower, number using encodeOnto.induct with
  | case1 lower number small =>
    rw [encodeOnto, if_pos small]
    simp only [value, toInt_ofInt small.1 small.2]
    rfl
  | case2 lower number large inductionHypothesis =>
    have joined : step (number / 256) (UInt8.ofInt number) = number := by
      rw [step, toNat_ofInt]
      omega
    rw [encodeOnto, if_neg large, inductionHypothesis, List.foldl_cons, joined]

/-- Every integer is read back from its bytes. -/
theorem value_encode (number : Int) : value (encode number) = number := by
  rw [encode, value_encodeOnto, List.foldl_nil]

/-- One more byte is needed on each side as soon as the sign would be lost. -/
example : encode 127 = [0x7f] ∧ encode 128 = [0x00, 0x80] ∧ encode (-128) = [0x80] ∧
    encode (-129) = [0xff, 0x7f] := by
  decide +kernel

/-- A number in the range of `width + 1` bytes takes at most that many in front of lower
ones. Induct over the width: either the number already fits a byte, or the quotient lies
in the range of one byte less and the remainder joins the lower bytes. -/
theorem length_encodeOnto_le {width : Nat} {number : Int} (lower : List UInt8)
    (above : -(128 * LittleEndian.limit width : Int) ≤ number)
    (below : number < (128 * LittleEndian.limit width : Int)) :
    (encodeOnto lower number).length ≤ lower.length + width + 1 := by
  induction width generalizing lower number with
  | zero =>
    have small : -128 ≤ number ∧ number < 128 := by
      simp only [LittleEndian.limit] at above below
      omega
    rw [encodeOnto, if_pos small]
    simp
  | succ width inductionHypothesis =>
    rw [encodeOnto]
    split
    · simp only [List.length_cons]
      omega
    · simp only [LittleEndian.limit] at above below
      have quotientAbove : -(128 * LittleEndian.limit width : Int) ≤ number / 256 := by omega
      have quotientBelow : number / 256 < (128 * LittleEndian.limit width : Int) := by omega
      have shorter :=
        inductionHypothesis (UInt8.ofInt number :: lower) quotientAbove quotientBelow
      simp only [List.length_cons] at shorter
      omega

/-- A number in the range of `width + 1` bytes takes at most that many. -/
theorem length_encode_le {width : Nat} {number : Int}
    (above : -(128 * LittleEndian.limit width : Int) ≤ number)
    (below : number < (128 * LittleEndian.limit width : Int)) :
    (encode number).length ≤ width + 1 := by
  have bounded := length_encodeOnto_le [] above below
  rw [List.length_nil, Nat.zero_add] at bounded
  exact bounded

/-- Every byte string that is written has a first byte, because the writer ends only by
writing one. -/
theorem length_encodeOnto_pos (lower : List UInt8) (number : Int) :
    0 < (encodeOnto lower number).length := by
  induction lower, number using encodeOnto.induct with
  | case1 lower number small =>
    rw [encodeOnto, if_pos small]
    exact Nat.succ_pos lower.length
  | case2 lower number large inductionHypothesis =>
    rw [encodeOnto, if_neg large]
    exact inductionHypothesis

/-- Each byte read behind a number widens the range around zero that the number lies in by
a factor of 256. Induct over the bytes for every range: the first byte is below 256, so
that it moves no number out of the widened range. -/
theorem foldl_step_bounds (bound : Nat) {high : Int} (lower : List UInt8)
    (above : -(bound : Int) ≤ high) (below : high < bound) :
    -((bound * LittleEndian.limit lower.length : Nat) : Int) ≤ lower.foldl step high ∧
      lower.foldl step high < (bound * LittleEndian.limit lower.length : Nat) := by
  induction lower generalizing bound high with
  | nil =>
    rw [List.length_nil, LittleEndian.limit, Nat.mul_one]
    exact ⟨above, below⟩
  | cons byte rest inductionHypothesis =>
    have digit := byte.toNat_lt
    have stepAbove : -((256 * bound : Nat) : Int) ≤ step high byte := by
      simp only [step]
      omega
    have stepBelow : step high byte < (256 * bound : Nat) := by
      simp only [step]
      omega
    have widened : 256 * bound * LittleEndian.limit rest.length =
        bound * LittleEndian.limit (byte :: rest).length := by
      rw [List.length_cons, LittleEndian.limit, Nat.mul_comm 256 bound, Nat.mul_assoc]
    rw [← widened]
    exact inductionHypothesis (256 * bound) stepAbove stepBelow

/-- No byte string that stands for a number is shorter than the one that is written,
unless it is empty. Its first byte lies in the range of a signed byte and the others widen
this range, which bounds the bytes that the number needs. -/
theorem length_encode_le_of_value {data : List UInt8} (present : data ≠ []) :
    (encode (value data)).length ≤ data.length := by
  cases data with
  | nil => exact absurd rfl present
  | cons first rest =>
    have signAbove := first.toInt8.le_toInt
    have signBelow := first.toInt8.toInt_lt
    obtain ⟨above, below⟩ := foldl_step_bounds 128 rest signAbove signBelow
    rw [Int.natCast_mul] at above below
    exact length_encode_le above below

end ContractScript.SignedBytes
