import ContractScript.Identifier
import ContractScript.Proofs.Notations

/-!
# The texts of identifiers

An identifier is written with two digits for each of its bytes, in lower case. A text is
read after at most one `0x` was taken off its front, and what remains decides: as many
digits as the identifier has are the identifier, another even count of digits is an
identifier of another width, and everything else is no hexadecimal text. Digits of either
case are read, so a text and the text of what was read agree up to case.
-/

namespace ContractScript

namespace Hex

/-- A hexadecimal digit, as a number or as a letter of either case. -/
def IsDigit (char : Char) : Prop :=
  ('0' ≤ char ∧ char ≤ '9') ∨ ('a' ≤ char ∧ char ≤ 'f') ∨ ('A' ≤ char ∧ char ≤ 'F')

/-- Whether a character is a digit can be checked. -/
instance (char : Char) : Decidable (IsDigit char) :=
  inferInstanceAs (Decidable (_ ∨ _ ∨ _))

/-- These characters are as many hexadecimal digits and nothing else. -/
def Consists (count : Nat) (chars : List Char) : Prop :=
  chars.length = count ∧ ∀ char ∈ chars, IsDigit char

/-- The characters of a text without the `0x` that it begins with, if it does. -/
def bare (text : String) : List Char :=
  if text.toList.take 2 = ['0', 'x'] then text.toList.drop 2 else text.toList

/-- A digit has a value. As codes, the three ranges of digits are the three ranges in
which a value is found, each with its own offset. -/
theorem isDigit_iff {char : Char} : IsDigit char ↔ ∃ value, Digit char value := by
  have codes : IsDigit char ↔ (48 ≤ char.toNat ∧ char.toNat ≤ 57) ∨
      (97 ≤ char.toNat ∧ char.toNat ≤ 102) ∨ (65 ≤ char.toNat ∧ char.toNat ≤ 70) := Iff.rfl
  simp only [codes, digit_iff]
  constructor
  · rintro (decimal | small | capital)
    · exact ⟨char.toNat - 48, by omega⟩
    · exact ⟨char.toNat - 87, by omega⟩
    · exact ⟨char.toNat - 55, by omega⟩
  · rintro ⟨value, denoted⟩
    omega

/-- A digit in lower case is the one that its value is written with, since letters of both
cases stand for the same values. -/
theorem Digit.toLower_eq {char : Char} {value : Nat} (digit : Digit char value) :
    char.toLower = Nat.digitChar value := by
  have all : ∀ half : Fin 16, (Nat.digitChar half.val).toLower = Nat.digitChar half.val := by
    decide
  rw [← Text.toLower_eq_iff.mpr digit.2]
  exact all ⟨value, digit.1⟩

/-- Digits in pairs are two for each byte, and nothing else. -/
theorem Pairs.consists {chars : List Char} {bytes : List UInt8} (denoted : Pairs chars bytes) :
    Consists (2 * bytes.length) chars := by
  induction denoted with
  | nil => exact ⟨rfl, by simp⟩
  | cons upperHalf lowerHalf _ inductionHypothesis =>
    obtain ⟨length, digits⟩ := inductionHypothesis
    refine ⟨by simp only [List.length_cons]; omega, ?_⟩
    simp only [List.forall_mem_cons]
    exact ⟨isDigit_iff.mpr ⟨_, upperHalf⟩, isDigit_iff.mpr ⟨_, lowerHalf⟩, digits⟩

/-- An even count of digits denotes half as many bytes. By induction on the count of
bytes: two digits are taken off the front, and each has a value. -/
theorem Consists.exists_pairs {count : Nat} {chars : List Char}
    (digits : Consists (2 * count) chars) :
    ∃ bytes : List UInt8, bytes.length = count ∧ Pairs chars bytes := by
  induction count generalizing chars with
  | zero =>
    obtain rfl : chars = [] := List.eq_nil_of_length_eq_zero digits.1
    exact ⟨[], rfl, .nil⟩
  | succ count inductionHypothesis =>
    obtain ⟨length, all⟩ := digits
    match chars with
    | [] | [_] =>
      simp only [List.length_cons, List.length_nil] at length
      omega
    | high :: low :: later =>
      simp only [List.length_cons] at length
      simp only [List.forall_mem_cons, isDigit_iff] at all
      obtain ⟨⟨upper, upperHalf⟩, ⟨lower, lowerHalf⟩, rest⟩ := all
      obtain ⟨bytes, counted, denoted⟩ :=
        inductionHypothesis ⟨by omega, fun char member => isDigit_iff.mpr (rest char member)⟩
      exact ⟨_ :: bytes, congrArg (· + 1) counted, .cons upperHalf lowerHalf denoted⟩

/-- Bytes are written as the digits that denote them, in lower case. By induction on the
pairs: the halves of a byte are the two values of its pair, and each is written as its
digit in lower case. -/
theorem Pairs.digits_eq {chars : List Char} {bytes : List UInt8} (denoted : Pairs chars bytes) :
    digits bytes = chars.map Char.toLower := by
  induction denoted with
  | nil => rfl
  | @cons high low upper lower later bytes upperHalf lowerHalf _ inductionHypothesis =>
    have smallUpper := upperHalf.1
    have smallLower := lowerHalf.1
    have byte : (UInt8.ofNat (16 * upper + lower)).toNat = 16 * upper + lower := by
      rw [UInt8.toNat_ofNat']
      omega
    have highHalf : (16 * upper + lower) / 16 = upper := by omega
    have lowHalf : (16 * upper + lower) % 16 = lower := by omega
    have pair : byteDigits (UInt8.ofNat (16 * upper + lower)) = [high.toLower, low.toLower] := by
      rw [byteDigits, byte, highHalf, lowHalf, upperHalf.toLower_eq, lowerHalf.toLower_eq]
    have written : digits (UInt8.ofNat (16 * upper + lower) :: bytes) =
        byteDigits (UInt8.ofNat (16 * upper + lower)) ++ digits bytes := List.flatMap_cons
    rw [written, pair, inductionHypothesis]
    rfl

/-- Reading takes the same `0x` off. The reader looks at the front of the text by its
form, and `bare` by its first two characters. -/
theorem unprefixed_toList (text : String) : unprefixed text.toList = bare text := by
  unfold unprefixed bare
  split
  next rest marked => simp [marked]
  next unmarked =>
    rw [if_neg]
    intro marked
    apply unmarked (text.toList.drop 2)
    rw [← List.take_append_drop 2 text.toList, marked]
    rfl

/-- A text is read as the bytes that its digits denote. -/
theorem ofText?_eq_some_iff_bare {text : String} {bytes : List UInt8} :
    ofText? text = some bytes ↔ Pairs (bare text) bytes := by
  rw [ofText?, unprefixed_toList, decode?_eq_some_iff]

/-- A text is refused if its digits cannot be paired: their count is odd, or another
character is among them.

If neither holds, all characters are digits and their count is even, so they denote bytes
and the text is read. Conversely, characters that denote bytes are digits, two for each
byte. -/
theorem ofText?_eq_none_iff_bare {text : String} :
    ofText? text = none ↔
      (bare text).length % 2 = 1 ∨ ∃ char ∈ bare text, ¬IsDigit char := by
  simp only [Option.eq_none_iff_forall_ne_some, ne_eq, ofText?_eq_some_iff_bare]
  constructor
  · intro refused
    by_cases odd : (bare text).length % 2 = 1
    · exact .inl odd
    · right
      apply Classical.byContradiction
      intro none
      have all : ∀ char ∈ bare text, IsDigit char := by
        intro char member
        apply Classical.byContradiction
        intro other
        exact none ⟨char, member, other⟩
      have even : (bare text).length = 2 * ((bare text).length / 2) := by omega
      obtain ⟨bytes, _, denoted⟩ := Consists.exists_pairs ⟨even, all⟩
      exact refused bytes denoted
  · rintro (odd | ⟨char, member, other⟩) bytes denoted
    · have even := denoted.consists.1
      omega
    · exact other (denoted.consists.2 char member)

end Hex

namespace Identifier

section Reading

variable {width : Nat} {text : String}

/-- Bytes that a text denotes are those of the identifier, if they are as many as its width. -/
theorem ofText_of_pairs {bytes : List UInt8} (denoted : Hex.Pairs (Hex.bare text) bytes) :
    ofText width text = (ofBytes width bytes).mapError .wrongLength := by
  rw [ofText, Hex.ofText?_eq_some_iff_bare.mpr denoted]

/-- A text is no identifier of this width if it has an odd count of digits or another
character among them. Otherwise it denotes bytes, and their count decides. The four
equivalences below follow from these three cases, because their outcomes exclude one
another. -/
theorem ofText_cases (width : Nat) (text : String) :
    (((Hex.bare text).length % 2 = 1 ∨ ∃ char ∈ Hex.bare text, ¬Hex.IsDigit char) ∧
        ofText width text = .error .notHex) ∨
      ∃ bytes, Hex.Pairs (Hex.bare text) bytes ∧
        ((∃ exactly : bytes.length = width, ofText width text = .ok ⟨bytes, exactly⟩) ∨
          (bytes.length ≠ width ∧ ofText width text =
            .error (.wrongLength (.identifierLength width bytes.length)))) := by
  cases read : Hex.ofText? text with
  | none =>
    refine .inl ⟨Hex.ofText?_eq_none_iff_bare.mp read, ?_⟩
    rw [ofText, read]
  | some bytes =>
    have denoted := Hex.ofText?_eq_some_iff_bare.mp read
    refine .inr ⟨bytes, denoted, ?_⟩
    rw [ofText_of_pairs denoted]
    by_cases exactly : bytes.length = width
    · exact .inl ⟨exactly, by rw [ofBytes, dif_pos exactly]; rfl⟩
    · exact .inr ⟨exactly, by rw [ofBytes, dif_neg exactly]; rfl⟩

/-- A text is an identifier if its digits denote the bytes of the identifier. Of the three
cases only one accepts, and an identifier has the width already. -/
theorem ofText_eq_ok_iff_pairs {identifier : Identifier width} :
    ofText width text = .ok identifier ↔ Hex.Pairs (Hex.bare text) identifier.bytes := by
  constructor
  · intro accepted
    rcases ofText_cases width text with ⟨_, read⟩ | ⟨bytes, denoted, ⟨exactly, read⟩ | ⟨_, read⟩⟩
    · simp [read] at accepted
    · rw [read] at accepted
      cases accepted
      exact denoted
    · simp [read] at accepted
  · intro denoted
    rw [ofText_of_pairs denoted, ofBytes_bytes]
    rfl

/-- The identifier that a text denotes is written as the digits of the text in lower case.
So the text determines the identifier and, up to case and mark, the identifier the text.

From left to right, the bytes are those that the digits denote. From right to left, the
digits denote some bytes, and these are written alike, so they are those of the
identifier. -/
theorem ofText_eq_ok_iff_text {identifier : Identifier width} :
    ofText width text = .ok identifier ↔ Hex.Consists (2 * width) (Hex.bare text) ∧
      identifier.text = Text.lower (String.ofList (Hex.bare text)) := by
  have written : identifier.text = Text.lower (String.ofList (Hex.bare text)) ↔
      Hex.digits identifier.bytes = (Hex.bare text).map Char.toLower := by
    rw [Identifier.text, Hex.encode, Text.lower, String.toList_ofList, String.ofList_inj]
  rw [ofText_eq_ok_iff_pairs, written]
  constructor
  · intro denoted
    have counted := denoted.consists
    rw [identifier.length_bytes] at counted
    exact ⟨counted, denoted.digits_eq⟩
  · rintro ⟨digits, same⟩
    obtain ⟨bytes, _, denoted⟩ := digits.exists_pairs
    rw [← denoted.digits_eq] at same
    have bytesSame : identifier.bytes = bytes := Hex.encode_injective (congrArg String.ofList same)
    rwa [bytesSame]

/-- Texts with as many digits as an identifier of the width has are one. -/
theorem exists_ofText_iff :
    (∃ identifier, ofText width text = .ok identifier) ↔
      Hex.Consists (2 * width) (Hex.bare text) := by
  constructor
  · rintro ⟨identifier, read⟩
    exact (ofText_eq_ok_iff_text.mp read).1
  · intro digits
    obtain ⟨bytes, exactly, denoted⟩ := digits.exists_pairs
    exact ⟨⟨bytes, exactly⟩, ofText_eq_ok_iff_pairs.mpr denoted⟩

/-- A text is an identifier of another width if it has an even count of digits that is not
the one of this width. The fault names both widths. -/
theorem ofText_eq_wrongLength_iff {fault : ScriptError} :
    ofText width text = .error (.wrongLength fault) ↔
      ∃ count, count ≠ width ∧ Hex.Consists (2 * count) (Hex.bare text) ∧
        fault = .identifierLength width count := by
  constructor
  · intro refused
    rcases ofText_cases width text with ⟨_, read⟩ | ⟨bytes, denoted, ⟨_, read⟩ | ⟨other, read⟩⟩
    · simp [read] at refused
    · simp [read] at refused
    · rw [read] at refused
      cases refused
      exact ⟨bytes.length, other, denoted.consists, rfl⟩
  · rintro ⟨count, other, digits, rfl⟩
    obtain ⟨bytes, rfl, denoted⟩ := digits.exists_pairs
    rw [ofText_of_pairs denoted, ofBytes, dif_neg other]
    rfl

/-- A text is no hexadecimal text if it has an odd count of digits, or another character among
them. -/
theorem ofText_eq_notHex_iff :
    ofText width text = .error .notHex ↔
      (Hex.bare text).length % 2 = 1 ∨ ∃ char ∈ Hex.bare text, ¬Hex.IsDigit char := by
  constructor
  · intro refused
    rcases ofText_cases width text with ⟨unread, _⟩ | ⟨_, _, ⟨_, read⟩ | ⟨_, read⟩⟩
    · exact unread
    · simp [read] at refused
    · simp [read] at refused
  · intro unread
    rw [ofText, Hex.ofText?_eq_none_iff_bare.mpr unread]

end Reading

/-- The digits of an identifier stand in its text as they are, also behind a `0x`. -/
theorem bare_text {width : Nat} (identifier : Identifier width) :
    Hex.bare identifier.text = Hex.digits identifier.bytes ∧
      Hex.bare ("0x" ++ identifier.text) = Hex.digits identifier.bytes := by
  constructor
  · rw [← Hex.unprefixed_toList, text, Hex.encode, String.toList_ofList, Hex.unprefixed_digits]
  · simp [Hex.bare, text, Hex.encode]

/-- The text of an identifier is read as the identifier, with or without `0x`. In both
cases the digits of the text are those of the bytes, and digits that were written are
paired. -/
theorem ofText_text {width : Nat} (identifier : Identifier width) :
    ofText width identifier.text = .ok identifier ∧
      ofText width ("0x" ++ identifier.text) = .ok identifier := by
  have denoted : Hex.Pairs (Hex.digits identifier.bytes) identifier.bytes :=
    Hex.decode?_eq_some_iff.mp (Hex.decode?_digits identifier.bytes)
  obtain ⟨plain, marked⟩ := bare_text identifier
  exact ⟨ofText_eq_ok_iff_pairs.mpr (plain ▸ denoted),
    ofText_eq_ok_iff_pairs.mpr (marked ▸ denoted)⟩

/-- A `0x` of another case, or a second one, makes a text no hexadecimal text. -/
theorem ofText_of_strange_mark (width : Nat) (later : String) :
    ofText width ("0X" ++ later) = .error .notHex ∧
      ofText width ("0x0x" ++ later) = .error .notHex := by
  have capital : ¬Hex.IsDigit 'X' := by decide
  have small : ¬Hex.IsDigit 'x' := by decide
  constructor
  · exact ofText_eq_notHex_iff.mpr (.inr ⟨'X', by simp [Hex.bare], capital⟩)
  · exact ofText_eq_notHex_iff.mpr (.inr ⟨'x', by simp [Hex.bare], small⟩)

/-- The text form of identifiers of every width. What remains of a text without one `0x`
in front decides how it is read: two digits of either case for each byte of the width are
the identifier that is written as these digits in lower case; digits for another number of
bytes, which may be none, are an identifier of a wrong length; and an odd count, or any
other character, a capital `0X` and a second `0x` among them, is no hexadecimal text. The
text of an identifier is read as the identifier, also behind `0x`.

The three outcomes are stated as equivalences, so that together they say for every text
what is read and which fault it has. -/
theorem identifier_texts_are_read_and_written (width : Nat) :
    (∀ text : String,
      let digits := Hex.bare text
      ((∃ identifier, ofText width text = .ok identifier) ↔ Hex.Consists (2 * width) digits) ∧
      (∀ identifier, ofText width text = .ok identifier ↔ Hex.Consists (2 * width) digits ∧
        identifier.text = Text.lower (String.ofList digits)) ∧
      (∀ fault, ofText width text = .error (.wrongLength fault) ↔
        ∃ count, count ≠ width ∧ Hex.Consists (2 * count) digits ∧
          fault = .identifierLength width count) ∧
      (ofText width text = .error .notHex ↔
        digits.length % 2 = 1 ∨ ∃ char ∈ digits, ¬Hex.IsDigit char)) ∧
    (∀ later : String, ofText width ("0X" ++ later) = .error .notHex ∧
      ofText width ("0x0x" ++ later) = .error .notHex) ∧
    ∀ identifier : Identifier width, ofText width identifier.text = .ok identifier ∧
      ofText width ("0x" ++ identifier.text) = .ok identifier := by
  refine ⟨?_, ofText_of_strange_mark width, ofText_text⟩
  intro text
  exact ⟨exists_ofText_iff, fun _ => ofText_eq_ok_iff_text, fun _ => ofText_eq_wrongLength_iff,
    ofText_eq_notHex_iff⟩

/-- A lone `0x` is the beginning of an identifier without any bytes. -/
example : ofText 20 "0x" = .error (.wrongLength (.identifierLength 20 0)) := by
  cbv

end Identifier

end ContractScript
