/-!
# Hexadecimal text of bytes

Bytes are written as two lower-case digits each, the high half first. Reading
takes digits of either case and refuses an odd count or any other character;
`ofText?` also drops one leading `0x`. Two laws fix the pair: reading what was
written gives the bytes back, and what can be read has twice as many digits as
bytes. Error texts belong to the callers, who know what the digits stand for.
-/

namespace ContractScript.Hex

/-- The two digits of a byte, high half first. -/
def byteDigits (byte : UInt8) : List Char :=
  [Nat.digitChar (byte.toNat / 16), Nat.digitChar (byte.toNat % 16)]

/-- The lower-case digits of a byte string. -/
def digits (bytes : List UInt8) : List Char :=
  bytes.flatMap byteDigits

/-- The lower-case text of a byte string. -/
def encode (bytes : List UInt8) : String :=
  String.ofList (digits bytes)

/-- The value of one digit of either case; no other character has one. -/
def digitValue? (digit : Char) : Option Nat :=
  if '0' ≤ digit ∧ digit ≤ '9' then some (digit.toNat - '0'.toNat)
  else if 'a' ≤ digit ∧ digit ≤ 'f' then some (digit.toNat - 'a'.toNat + 10)
  else if 'A' ≤ digit ∧ digit ≤ 'F' then some (digit.toNat - 'A'.toNat + 10)
  else none

/-- Decode digit pairs behind bytes already decoded, which are held newest first
so that a long text needs no stack. -/
def decodeOnto (decoded : List UInt8) : List Char → Option (List UInt8)
  | [] => some decoded.reverse
  | [_] => none
  | high :: low :: rest =>
    match digitValue? high, digitValue? low with
    | some upper, some lower => decodeOnto (UInt8.ofNat (16 * upper + lower) :: decoded) rest
    | _, _ => none

/-- The bytes that a digit list denotes, if it has an even count of digits and
nothing else. -/
def decode? (digits : List Char) : Option (List UInt8) :=
  decodeOnto [] digits

/-- A text without one leading `0x`; a second one is not dropped. -/
def unprefixed : List Char → List Char
  | '0' :: 'x' :: rest => rest
  | text => text

/-- The bytes that a text denotes, with or without one leading `0x`. -/
def ofText? (text : String) : Option (List UInt8) :=
  decode? (unprefixed text.toList)

/-- A natural number in lower-case digits, zero-padded to at least `width`. -/
def padded (width number : Nat) : String :=
  String.ofList ((Nat.toDigits 16 number).leftpad width '0')

/-- The digits of a half byte read back. -/
theorem digitValue?_digitChar (nibble : Nat) (small : nibble < 16) :
    digitValue? (Nat.digitChar nibble) = some nibble := by
  have all : ∀ half : Fin 16, digitValue? (Nat.digitChar half.val) = some half.val := by decide
  exact all ⟨nibble, small⟩

/-- Bytes decoded earlier stand in front of those decoded later, so decoding behind them
is decoding alone with a front.

Pairs leave the text two at a time, so the induction is on a bound of its length. It is
stated for decoded bytes in two parts, since each further pair goes to the newer part and
the older one has to stay as it is. -/
theorem decodeOnto_eq (decoded : List UInt8) (text : List Char) :
    decodeOnto decoded text = (decode? text).map (decoded.reverse ++ ·) := by
  suffices general : ∀ (length : Nat) (text : List Char), text.length ≤ length →
      ∀ earlier decoded : List UInt8, decodeOnto (decoded ++ earlier) text =
        (decodeOnto decoded text).map (earlier.reverse ++ ·) by
    simpa [decode?] using general text.length text (Nat.le_refl _) decoded []
  intro length
  induction length with
  | zero =>
    intro text empty earlier decoded
    have nothing : text = [] := List.eq_nil_of_length_eq_zero (by omega)
    subst nothing
    simp [decodeOnto]
  | succ length inductionHypothesis =>
    intro text bounded earlier decoded
    match text with
    | [] => simp [decodeOnto]
    | [_] => simp [decodeOnto]
    | high :: low :: rest =>
      have shorter : rest.length ≤ length := by simp at bounded; omega
      simp only [decodeOnto]
      split
      · exact inductionHypothesis rest shorter earlier (_ :: decoded)
      · rfl

/-- Reading written bytes gives them back: the halves of a byte are read digit by digit,
and sixteen times the high one with the low one is the byte again. -/
theorem decode?_digits (bytes : List UInt8) : decode? (digits bytes) = some bytes := by
  induction bytes with
  | nil => rfl
  | cons byte bytes inductionHypothesis =>
    have bounded := byte.toNat_lt
    have high := digitValue?_digitChar (byte.toNat / 16) (by omega)
    have low := digitValue?_digitChar (byte.toNat % 16) (by omega)
    have whole : 16 * (byte.toNat / 16) + byte.toNat % 16 = byte.toNat := by omega
    change decodeOnto [] (Nat.digitChar (byte.toNat / 16) ::
      Nat.digitChar (byte.toNat % 16) :: digits bytes) = _
    simp [decodeOnto, high, low, whole, decodeOnto_eq, inductionHypothesis]

/-- Two digits stand for each byte. -/
theorem length_digits (bytes : List UInt8) : (digits bytes).length = 2 * bytes.length := by
  induction bytes with
  | nil => rfl
  | cons byte bytes inductionHypothesis =>
    simp only [digits, List.flatMap_cons, List.length_append] at inductionHypothesis ⊢
    simp [byteDigits, inductionHypothesis]
    omega

end ContractScript.Hex
