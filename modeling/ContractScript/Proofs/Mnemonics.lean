import ContractScript.Opcode
import ContractScript.Proofs.Digits
import Mathlib.Data.List.Nodup

/-!
# Every opcode has a name of its own

A mnemonic consists of capital letters and decimal digits, and no two opcodes share one.
The pushes with a count are told apart by the stem of their name and by the count, which
is written behind it; the front without digits of any other name is none of these stems.
All other names are fixed texts, so that it is enough to look at their list once.
-/

namespace ContractScript

namespace Text

/-- A text up to the first character that is not allowed: the front, if all of it is
allowed and nothing that follows it begins with an allowed character. What follows may be
empty. -/
theorem takeWhile_front {allowed : Char → Bool} {front rest : List Char}
    (frontAllowed : ∀ char ∈ front, allowed char = true)
    (ends : ∀ char ∈ rest.head?, allowed char = false) :
    (front ++ rest).takeWhile allowed = front := by
  rw [List.takeWhile_append_of_pos frontAllowed]
  cases rest with
  | nil => simp
  | cons char later =>
    have stops : allowed char = false := ends char rfl
    simp [stops]

/-- Two texts that are equal have equal fronts and rests, if the same characters are
allowed in both fronts and neither rest begins with one of them. The fronts are found
again by taking characters as long as they are allowed. -/
theorem append_inj_of_front {allowed : Char → Bool} {front other rest otherRest : List Char}
    (frontAllowed : ∀ char ∈ front, allowed char = true)
    (otherAllowed : ∀ char ∈ other, allowed char = true)
    (ends : ∀ char ∈ rest.head?, allowed char = false)
    (otherEnds : ∀ char ∈ otherRest.head?, allowed char = false)
    (same : front ++ rest = other ++ otherRest) : front = other ∧ rest = otherRest := by
  have fronts : front = other := by
    rw [← takeWhile_front frontAllowed ends, same, takeWhile_front otherAllowed otherEnds]
  subst fronts
  exact ⟨rfl, List.append_cancel_left same⟩

end Text

namespace Opcode

/-- The mnemonic of an opcode without the count behind it. -/
def stem : Opcode → String
  | pushBytes count => if count.val = 0 then "PUSH" else "PUSHBYTES"
  | pushCounted _ => "PUSHDATA"
  | pushNumber _ => "PUSH"
  | other => other.mnemonic

/-- The count behind the stem of a mnemonic. -/
def count? : Opcode → Option Nat
  | pushBytes count => some count
  | pushCounted field => some field.width
  | pushNumber predecessor => some (predecessor + 1)
  | _ => none

/-- The stems that have a count behind them. -/
def countedStems : List String :=
  ["PUSH", "PUSHBYTES", "PUSHDATA"]

/-- The opcodes without a count. -/
def uncounted : List Opcode :=
  [.pushMinusOne, .jump .always, .jump .ifTrue, .jump .ifFalse, .jump .subroutine,
    .contractCall .call, .serviceCall, .contractCall .tailCall] ++ Operator.all.map .plain

/-- The list misses no opcode without a count. -/
theorem mem_uncounted {opcode : Opcode} (none : opcode.count? = none) : opcode ∈ uncounted := by
  cases opcode with
  | pushBytes _ | pushCounted _ | pushNumber _ => cases none
  | pushMinusOne | serviceCall => simp [uncounted]
  | jump kind => cases kind <;> simp [uncounted]
  | contractCall mode => cases mode <;> simp [uncounted]
  | plain operator => simp [uncounted, Operator.mem_all]

/-- The names without a count are distinct. -/
theorem nodup_uncounted : (uncounted.map mnemonic).Nodup := by
  decide +kernel

/-- No name without a count has the stem of one with a count in front of its digits. -/
theorem stem_of_mem_uncounted : ∀ opcode ∈ uncounted,
    String.ofList (opcode.mnemonic.toList.takeWhile fun char => !char.isDigit) ∉
      countedStems := by
  decide +kernel

/-- Names without a count are written in capital letters and digits. -/
theorem plain_of_mem_uncounted : ∀ opcode ∈ uncounted,
    opcode.mnemonic.toList ≠ [] ∧
      opcode.mnemonic.toList.all fun char => char.isUpper || char.isDigit := by
  decide +kernel

/-- Stems with a count behind them are written in capital letters. -/
theorem upper_of_mem_countedStems : ∀ stem ∈ countedStems,
    stem.toList.all Char.isUpper := by
  decide +kernel

/-- A capital letter is no digit. -/
theorem not_isDigit_of_isUpper {char : Char} (upper : char.isUpper = true) :
    char.isDigit = false := by
  obtain ⟨bounds, _⟩ : 'A'.val ≤ char.val ∧ char.val ≤ 'Z'.val := of_decide_eq_true upper
  simp [Char.isDigit, UInt32.le_iff_toNat_le] at bounds ⊢
  omega

/-- A mnemonic with a count is one of the stems and the digits of the count. The empty
push is the one inline push that has the stem of the numbers. -/
theorem mnemonic_of_count? {opcode : Opcode} {count : Nat}
    (counted : opcode.count? = some count) :
    opcode.stem ∈ countedStems ∧ opcode.mnemonic = opcode.stem ++ Decimal.natural count := by
  cases opcode with
  | pushBytes bytes =>
    cases counted
    by_cases empty : bytes.val = 0
    · simp only [stem, mnemonic, empty, if_pos]
      decide
    · simp [stem, mnemonic, empty, countedStems]
  | pushCounted field | pushNumber predecessor =>
    cases counted
    simp [stem, mnemonic, countedStems]
  | _ => cases counted

/-- The front without digits of a mnemonic with a count is its stem, because stems have no
digits and counts have nothing else. -/
theorem takeWhile_mnemonic {opcode : Opcode} {count : Nat}
    (counted : opcode.count? = some count) :
    opcode.mnemonic.toList.takeWhile (fun char => !char.isDigit) = opcode.stem.toList := by
  obtain ⟨known, joined⟩ := mnemonic_of_count? counted
  have upper := List.all_eq_true.mp (upper_of_mem_countedStems _ known)
  rw [joined, String.toList_append]
  apply Text.takeWhile_front
  · intro char member
    rw [not_isDigit_of_isUpper (upper char member), Bool.not_false]
  · intro char first
    rw [Decimal.isDigit_of_mem_natural (List.mem_of_mem_head? first), Bool.not_true]

/-- The opcode of a stem and a count: of those with the plain stem, zero is the empty push
and every other count a number. -/
def ofStem? (stem : String) (count : Nat) : Option Opcode :=
  if stem = "PUSH" then
    if empty : count = 0 then some (pushBytes ⟨count, by omega⟩)
    else if numbered : count - 1 < 16 then some (pushNumber ⟨count - 1, numbered⟩)
    else none
  else if stem = "PUSHBYTES" then
    if short : count < 76 then some (pushBytes ⟨count, short⟩) else none
  else
    ([.one, .two, .four].find? fun field => field.width == count).map pushCounted

/-- An opcode with a count is found by its stem and count. The count of a number is at
least one, so zero behind the same stem is free for the empty push. -/
theorem ofStem?_stem {opcode : Opcode} {count : Nat} (counted : opcode.count? = some count) :
    ofStem? opcode.stem count = some opcode := by
  cases opcode with
  | pushBytes bytes =>
    cases counted
    by_cases empty : bytes.val = 0
    · have zero : bytes = 0 := Fin.ext empty
      subst zero
      rfl
    · simp [ofStem?, stem, empty]
  | pushCounted field =>
    cases counted
    cases field <;> rfl
  | pushNumber predecessor =>
    cases counted
    simp [ofStem?, stem]
  | _ => cases counted

/-- An opcode is determined by its mnemonic.

Either both have a count, and then equal stems and equal counts, by which the opcode is
found; or neither has, and the names are distinct. One with a count and one without differ
in the front of their names. -/
theorem mnemonic_injective {first second : Opcode} (same : first.mnemonic = second.mnemonic) :
    first = second := by
  -- The stem of a name with a count is found in no name without one.
  have apart {left right : Opcode} {count : Nat} (counted : left.count? = some count)
      (none : right.count? = none) : left.mnemonic ≠ right.mnemonic := by
    intro equal
    have front := takeWhile_mnemonic counted
    rw [equal] at front
    have other := stem_of_mem_uncounted _ (mem_uncounted none)
    rw [front, String.ofList_toList] at other
    exact other (mnemonic_of_count? counted).1
  cases firstCount : first.count? with
  | none =>
    cases secondCount : second.count? with
    | none =>
      exact List.inj_on_of_nodup_map nodup_uncounted (mem_uncounted firstCount)
        (mem_uncounted secondCount) same
    | some count => exact absurd same.symm (apart secondCount firstCount)
  | some count =>
    cases secondCount : second.count? with
    | none => exact absurd same (apart firstCount secondCount)
    | some otherCount =>
      have stems : first.stem = second.stem := by
        apply String.toList_injective
        rw [← takeWhile_mnemonic firstCount, same, takeWhile_mnemonic secondCount]
      have counts : count = otherCount := by
        apply Decimal.natural_injective
        rw [(mnemonic_of_count? firstCount).2, (mnemonic_of_count? secondCount).2, stems] at same
        exact String.append_right_inj _ |>.mp same
      have found := ofStem?_stem firstCount
      rw [stems, counts, ofStem?_stem secondCount] at found
      exact (Option.some.inj found).symm

/-- Every mnemonic is written in capital letters and digits: a fixed name by looking at
the list of them, and a stem with a count because its stem and its digits are. -/
theorem plain_mnemonic (opcode : Opcode) :
    opcode.mnemonic.toList ≠ [] ∧
      ∀ char ∈ opcode.mnemonic.toList, char.isUpper = true ∨ char.isDigit = true := by
  cases counted : opcode.count? with
  | none =>
    obtain ⟨nonempty, plain⟩ := plain_of_mem_uncounted _ (mem_uncounted counted)
    refine ⟨nonempty, ?_⟩
    intro char member
    simpa using List.all_eq_true.mp plain char member
  | some count =>
    obtain ⟨known, joined⟩ := mnemonic_of_count? counted
    rw [joined, String.toList_append]
    constructor
    · exact List.append_ne_nil_of_right_ne_nil _ (Decimal.natural_ne_nil count)
    · intro char member
      rcases List.mem_append.mp member with member | member
      · exact .inl (List.all_eq_true.mp (upper_of_mem_countedStems _ known) char member)
      · exact .inr (Decimal.isDigit_of_mem_natural member)

end Opcode

end ContractScript
