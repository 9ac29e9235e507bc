import ContractScript.Proofs.Digits
import Mathlib.Data.List.Forall2
import Mathlib.Data.List.Induction

/-!
# Names, numbers and bytes as they are written

The notations of single values, stated without the functions that read them: names whose
letters may be of either case, integers in decimal digits behind at most one sign, and bytes
in pairs of hexadecimal digits behind at most one `0x`. Each notation is a relation between
characters and what they denote, and reading finds a value exactly if this value is denoted.
So a text that denotes nothing is refused, and no text denotes two values.
-/

namespace ContractScript

namespace Text

/-- The two cases of an ASCII letter. -/
def LetterPair (upper lower : Char) : Prop :=
  'A' ≤ upper ∧ upper ≤ 'Z' ∧ lower.toNat = upper.toNat + 32

/-- Two characters are equal, or they are the two cases of an ASCII letter. -/
def SameLetter (first second : Char) : Prop :=
  first = second ∨ LetterPair first second ∨ LetterPair second first

/-- Two texts agree character by character up to the case of ASCII letters. -/
def SameLetters (first second : String) : Prop :=
  List.Forall₂ SameLetter first.toList second.toList

/-- The two cases of a letter by their codes. -/
theorem letterPair_iff {upper lower : Char} :
    LetterPair upper lower ↔
      65 ≤ upper.toNat ∧ upper.toNat ≤ 90 ∧ lower.toNat = upper.toNat + 32 :=
  Iff.rfl

/-- The code of a character in lower case. The sum that makes it does not wrap around,
since only codes of capital letters are added to. -/
theorem toNat_toLower (char : Char) :
    char.toLower.toNat =
      if 65 ≤ char.toNat ∧ char.toNat ≤ 90 then char.toNat + 32 else char.toNat := by
  unfold Char.toLower
  split
  next capital =>
    have codes : 65 ≤ char.toNat ∧ char.toNat ≤ 90 := capital
    have sum : (char.val + ('a'.val - 'A'.val)).toNat = (char.toNat + 32) % UInt32.size :=
      UInt32.toNat_add _ _
    rw [if_pos codes]
    change (char.val + ('a'.val - 'A'.val)).toNat = _
    rw [sum]
    exact Nat.mod_eq_of_lt (by simp only [UInt32.size]; omega)
  next other =>
    have codes : ¬(65 ≤ char.toNat ∧ char.toNat ≤ 90) := other
    rw [if_neg codes]

/-- Characters agree in lower case exactly if they are the same letter. -/
theorem toLower_eq_iff {first second : Char} :
    first.toLower = second.toLower ↔ SameLetter first second := by
  simp only [SameLetter, letterPair_iff, ← Char.toNat_inj, toNat_toLower]
  split <;> split <;> omega

/-- Looking up a name compares it letter by letter. Lowering a text lowers each of its
characters, so equal lowered texts agree at every place, and have the same length. -/
theorem sameName_iff {first second : String} :
    sameName first second = true ↔ SameLetters first second := by
  rw [sameName, beq_iff_eq, lower, lower, String.ofList_inj, ← List.forall₂_eq_eq_eq,
    List.forall₂_map_left_iff, List.forall₂_map_right_iff]
  simp only [toLower_eq_iff, SameLetters]

/-- Texts that agree are the same in lower case. -/
theorem SameLetters.lower_eq {first second : String} (same : SameLetters first second) :
    lower first = lower second :=
  beq_iff_eq.mp (sameName_iff.mpr same)

/-- A text in lower case agrees with the text, since lowering twice is lowering once: no
capital letter is left by it. -/
theorem SameLetters.lower (text : String) : SameLetters (lower text) text := by
  rw [SameLetters, Text.lower, String.toList_ofList, List.forall₂_map_left_iff, List.forall₂_same]
  intro char _
  have noCapital : ¬(65 ≤ char.toLower.toNat ∧ char.toLower.toNat ≤ 90) := by
    rw [toNat_toLower]
    split <;> omega
  rw [← toLower_eq_iff, ← Char.toNat_inj, toNat_toLower char.toLower, if_neg noCapital]

end Text

namespace Decimal

/-- Digits denote a natural number: there is at least one, and the last one counts the ones.
Zeros in front are allowed. -/
inductive Digits : List Char → Nat → Prop
  | single {digit : Nat} (small : digit < 10) : Digits [Nat.digitChar digit] digit
  | more {front : List Char} {high digit : Nat} (before : Digits front high)
      (small : digit < 10) : Digits (front ++ [Nat.digitChar digit]) (10 * high + digit)

/-- Characters denote an integer: digits behind at most one sign. -/
inductive Numeral : List Char → Int → Prop
  | unsigned {digits : List Char} {number : Nat} (denoted : Digits digits number) :
      Numeral digits number
  | plus {digits : List Char} {number : Nat} (denoted : Digits digits number) :
      Numeral ('+' :: digits) number
  | minus {digits : List Char} {number : Nat} (denoted : Digits digits number) :
      Numeral ('-' :: digits) (-number)

/-- Digits are read as their fold if there are some and nothing else. -/
theorem natural?_eq_some_iff_foldl {digits : List Char} {number : Nat} :
    natural? digits = some number ↔
      digits ≠ [] ∧ (∀ digit ∈ digits, digit.isDigit = true) ∧
        digits.foldl (fun number digit => 10 * number + (digit.toNat - '0'.toNat)) 0 = number := by
  unfold natural?
  rw [← List.all_eq_true, ne_eq, ← List.isEmpty_iff]
  cases digits.isEmpty <;> cases digits.all Char.isDigit <;> simp

/-- Digits are read as the number that they denote.

The fold of the reader goes from the left, and a notation grows on the right. So the
induction of the first direction takes the last digit off, which is what the fold adds at
the end; the other direction follows the notation. -/
theorem natural?_eq_some_iff {digits : List Char} {number : Nat} :
    natural? digits = some number ↔ Digits digits number := by
  have zeroCode : '0'.toNat = 48 := rfl
  rw [natural?_eq_some_iff_foldl]
  constructor
  · rintro ⟨present, all, rfl⟩
    induction digits using List.reverseRecOn with
    | nil => exact absurd rfl present
    | append_singleton front last inductionHypothesis =>
      rw [List.forall_mem_append, List.forall_mem_singleton] at all
      obtain ⟨digit, small, rfl⟩ := exists_digitChar all.2
      rw [List.foldl_append, List.foldl_cons, List.foldl_nil, zeroCode,
        Nat.toNat_digitChar_sub_48_of_lt_ten small]
      cases front with
      | nil =>
        rw [List.nil_append, List.foldl_nil, Nat.mul_zero, Nat.zero_add]
        exact .single small
      | cons first later =>
        exact .more (inductionHypothesis (List.cons_ne_nil _ _) all.1) small
  · intro denoted
    induction denoted with
    | single small =>
      have digit := Nat.isDigit_digitChar.trans (decide_eq_true small)
      refine ⟨List.cons_ne_nil _ _, List.forall_mem_singleton.mpr digit, ?_⟩
      rw [List.foldl_cons, List.foldl_nil, zeroCode, Nat.toNat_digitChar_sub_48_of_lt_ten small]
      exact Nat.zero_add _
    | more before small inductionHypothesis =>
      obtain ⟨_, digits, read⟩ := inductionHypothesis
      have digit := Nat.isDigit_digitChar.trans (decide_eq_true small)
      refine ⟨List.append_ne_nil_of_right_ne_nil _ (List.cons_ne_nil _ _), ?_, ?_⟩
      · exact List.forall_mem_append.mpr ⟨digits, List.forall_mem_singleton.mpr digit⟩
      · rw [List.foldl_append, read, List.foldl_cons, List.foldl_nil, zeroCode,
          Nat.toNat_digitChar_sub_48_of_lt_ten small]

/-- A sign is no digit. -/
theorem Digits.head?_ne {digits : List Char} {number : Nat} (denoted : Digits digits number)
    {sign : Char} (nonDigit : sign.isDigit = false) : digits.head? ≠ some sign := by
  intro first
  obtain ⟨_, all, _⟩ := natural?_eq_some_iff_foldl.mp (natural?_eq_some_iff.mpr denoted)
  have digit := all sign (List.mem_of_mem_head? first)
  rw [nonDigit] at digit
  cases digit

/-- A magnitude is read from digits and given its sign. All three forms of an integer are
read so, with different signs. -/
theorem signed_eq_some_iff {digits : List Char} {number : Int} {signed : Int → Int} :
    (do let magnitude ← natural? digits; pure (magnitude : Int) : Option Int).map signed =
        some number ↔
      ∃ magnitude : Nat, Digits digits magnitude ∧ signed magnitude = number := by
  simp [Option.bind_eq_some_iff, natural?_eq_some_iff]

/-- Characters are read as the integer that they denote. The reader distinguishes the same
three forms as the notation, by the first character. Only for unsigned digits is there
something to show: they do not begin with a sign and are not taken for one of the other
forms. -/
theorem integer?_eq_some_iff {chars : List Char} {number : Int} :
    integer? chars = some number ↔ Numeral chars number := by
  unfold integer?
  constructor
  · intro read
    split at read
    next digits =>
      obtain ⟨magnitude, denoted, rfl⟩ := signed_eq_some_iff.mp read
      exact .minus denoted
    next digits =>
      obtain ⟨magnitude, denoted, rfl⟩ := signed_eq_some_iff.mp read
      exact .plus denoted
    · obtain ⟨magnitude, denoted, rfl⟩ := signed_eq_some_iff.mp read
      exact .unsigned denoted
  · rintro (denoted | denoted | denoted)
    · split
      · exact absurd rfl (denoted.head?_ne (by decide))
      · exact absurd rfl (denoted.head?_ne (by decide))
      · exact signed_eq_some_iff.mpr ⟨_, denoted, rfl⟩
    · exact signed_eq_some_iff.mpr ⟨_, denoted, rfl⟩
    · exact signed_eq_some_iff.mpr ⟨_, denoted, rfl⟩

/-- A text is read as the number that it denotes, if this lies between the limits. -/
theorem within?_eq_some_iff {lowest highest number : Int} {text : String} :
    within? lowest highest text = some number ↔
      Numeral text.toList number ∧ lowest ≤ number ∧ number ≤ highest := by
  rw [within?, Option.filter_eq_some_iff, integer?_eq_some_iff, decide_eq_true_iff]

/-- A text is refused if it denotes no number between the limits, be it that it denotes
none at all or one outside them. -/
theorem within?_eq_none_iff {lowest highest : Int} {text : String} :
    within? lowest highest text = none ↔
      ∀ number, Numeral text.toList number → number < lowest ∨ highest < number := by
  simp only [Option.eq_none_iff_forall_ne_some, ne_eq, within?_eq_some_iff]
  constructor
  · intro refused number denoted
    apply Classical.byContradiction
    intro within
    exact refused number ⟨denoted, by omega, by omega⟩
  · rintro refused number ⟨denoted, above, below⟩
    have outside := refused number denoted
    omega

/-- The digits that a natural number is written with denote it. The induction is on the
size of the number: a single digit denotes itself, and others are those of the quotient by
ten with the last one behind them. -/
theorem digits_toDigits (number : Nat) : Digits (Nat.toDigits 10 number) number := by
  induction number using Nat.strongRecOn with
  | ind number inductionHypothesis =>
    rw [Nat.toDigits_eq_if (by decide)]
    split
    next small => exact .single small
    next large =>
      have joined : 10 * (number / 10) + number % 10 = number := by omega
      have written := Digits.more (inductionHypothesis (number / 10) (by omega))
        (by omega : number % 10 < 10)
      rwa [joined] at written

/-- The text of an integer denotes it: with a sign exactly if the number is negative, and
with the digits of its magnitude. -/
theorem numeral_integer (number : Int) : Numeral (integer number).toList number := by
  have magnitude : Digits (natural number.natAbs).toList number.natAbs := by
    rw [natural, String.toList_ofList]
    exact digits_toDigits _
  rw [toList_integer]
  split
  next negative =>
    have signed := Numeral.minus magnitude
    rwa [(by omega : -(number.natAbs : Int) = number)] at signed
  next positive =>
    have unsigned := Numeral.unsigned magnitude
    rwa [(by omega : (number.natAbs : Int) = number)] at unsigned

end Decimal

namespace Hex

/-- A hexadecimal digit of either case with its value. -/
def Digit (char : Char) (value : Nat) : Prop :=
  value < 16 ∧ Text.SameLetter (Nat.digitChar value) char

/-- Digits denote bytes: a pair of them for each byte, the high half first. -/
inductive Pairs : List Char → List UInt8 → Prop
  | nil : Pairs [] []
  | cons {high low : Char} {upper lower : Nat} {digits : List Char} {bytes : List UInt8}
      (upperHalf : Digit high upper) (lowerHalf : Digit low lower) (later : Pairs digits bytes) :
      Pairs (high :: low :: digits) (UInt8.ofNat (16 * upper + lower) :: bytes)

/-- Characters denote bytes: pairs of digits behind at most one `0x`. -/
inductive Written : List Char → List UInt8 → Prop
  | plain {digits : List Char} {bytes : List UInt8} (denoted : Pairs digits bytes) :
      Written digits bytes
  | prefixed {digits : List Char} {bytes : List UInt8} (denoted : Pairs digits bytes) :
      Written ('0' :: 'x' :: digits) bytes

/-- The codes of the digits of half bytes. -/
theorem toNat_digitChar {value : Nat} (small : value < 16) :
    (Nat.digitChar value).toNat = if value < 10 then 48 + value else 87 + value := by
  have all : ∀ half : Fin 16, (Nat.digitChar half.val).toNat =
      if half.val < 10 then 48 + half.val else 87 + half.val := by decide
  exact all ⟨value, small⟩

/-- The digits by their codes: those of decimal notation, and letters of either case. In
this form questions about digits are questions about numbers. -/
theorem digit_iff {char : Char} {value : Nat} :
    Digit char value ↔ (value < 10 ∧ char.toNat = 48 + value) ∨
      (10 ≤ value ∧ value < 16 ∧ (char.toNat = 87 + value ∨ char.toNat = 55 + value)) := by
  rw [Digit, Text.SameLetter, Text.letterPair_iff, Text.letterPair_iff, ← Char.toNat_inj]
  by_cases small : value < 16
  · rw [toNat_digitChar small]
    split <;> omega
  · omega

/-- The value of a digit by its code. -/
theorem digitValue?_eq (char : Char) :
    digitValue? char =
      if 48 ≤ char.toNat ∧ char.toNat ≤ 57 then some (char.toNat - 48)
      else if 97 ≤ char.toNat ∧ char.toNat ≤ 102 then some (char.toNat - 97 + 10)
      else if 65 ≤ char.toNat ∧ char.toNat ≤ 70 then some (char.toNat - 65 + 10)
      else none :=
  rfl

/-- A character is read as a digit if it is one. The three ranges in which the reader
finds values are those of the codes, and behind them no digit is left. -/
theorem digitValue?_eq_some_iff {char : Char} {value : Nat} :
    digitValue? char = some value ↔ Digit char value := by
  rw [digitValue?_eq, digit_iff]
  split
  · rw [Option.some_inj]
    omega
  · split
    · rw [Option.some_inj]
      omega
    · split
      · rw [Option.some_inj]
        omega
      · simp only [reduceCtorEq, false_iff]
        omega

/-- A pair of digits is read in front of those that follow. The reader itself collects
bytes in reverse; here it is stated so that induction on the characters can use it. -/
theorem decode?_cons_cons (high low : Char) (digits : List Char) :
    decode? (high :: low :: digits) =
      match digitValue? high, digitValue? low with
      | some upper, some lower =>
        (decode? digits).map (UInt8.ofNat (16 * upper + lower) :: ·)
      | _, _ => none := by
  rw [decode?, decodeOnto]
  cases digitValue? high with
  | none => rfl
  | some upper =>
    cases digitValue? low with
    | none => rfl
    | some lower => exact decodeOnto_eq _ _

/-- Characters are read as the bytes that they denote in pairs. In both directions by
induction, first on the characters in steps of two, then on the pairs; an odd character at
the end is not read and not denoted. -/
theorem decode?_eq_some_iff {digits : List Char} {bytes : List UInt8} :
    decode? digits = some bytes ↔ Pairs digits bytes := by
  constructor
  · intro read
    induction digits using List.twoStepInduction generalizing bytes with
    | nil =>
      cases read
      exact .nil
    | singleton char => cases read
    | cons_cons high low digits inductionHypothesis _ =>
      rw [decode?_cons_cons] at read
      split at read
      next upper lower upperHalf lowerHalf =>
        obtain ⟨later, denoted, rfl⟩ := Option.map_eq_some_iff.mp read
        exact .cons (digitValue?_eq_some_iff.mp upperHalf) (digitValue?_eq_some_iff.mp lowerHalf)
          (inductionHypothesis denoted)
      · cases read
  · intro denoted
    induction denoted with
    | nil => rfl
    | cons upperHalf lowerHalf _ inductionHypothesis =>
      rw [decode?_cons_cons, digitValue?_eq_some_iff.mpr upperHalf,
        digitValue?_eq_some_iff.mpr lowerHalf, inductionHypothesis]
      rfl

/-- Pairs of digits do not begin with `0x`, because the second one would not be a digit.
So at most one such mark is dropped from what is written. -/
theorem Pairs.unprefixed_eq {digits : List Char} {bytes : List UInt8}
    (denoted : Pairs digits bytes) : unprefixed digits = digits := by
  unfold unprefixed
  split
  next digits =>
    cases denoted with
    | cons _ lowerHalf _ =>
      rw [digit_iff] at lowerHalf
      have code : 'x'.toNat = 120 := rfl
      omega
  · rfl

/-- A text is read as the bytes that it denotes. What is left of it without a mark is in
pairs; so the text is plain or prefixed, as reading has found it. -/
theorem ofText?_eq_some_iff {text : String} {bytes : List UInt8} :
    ofText? text = some bytes ↔ Written text.toList bytes := by
  rw [ofText?, decode?_eq_some_iff]
  constructor
  · intro denoted
    generalize text.toList = chars at denoted
    unfold unprefixed at denoted
    split at denoted
    · exact .prefixed denoted
    · exact .plain denoted
  · intro written
    generalize text.toList = chars at written
    cases written with
    | plain denoted => rwa [denoted.unprefixed_eq]
    | prefixed denoted => exact denoted

/-- A text is refused if it denotes no bytes. -/
theorem ofText?_eq_none_iff {text : String} :
    ofText? text = none ↔ ∀ bytes, ¬Written text.toList bytes := by
  simp only [Option.eq_none_iff_forall_ne_some, ne_eq, ofText?_eq_some_iff]

end Hex

end ContractScript
