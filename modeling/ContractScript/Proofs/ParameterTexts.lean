import ContractScript.Proofs.InvokeCommand
import ContractScript.Proofs.Notations
import Mathlib.Data.List.TakeWhile

/-!
# The texts of parameters

What a text of a parameter stands for is stated here as a grammar, without the functions that
read it: the first colon ends the name, the name selects a kind, and the kind says how the
value is written. Every rule of the grammar ends with a parameter or with the fault that is
reported, so the grammar covers all texts, those that are refused included.

Reading a text gives exactly what the grammar says. Each of the three stages is compared on
its own, and each has one rule for every way in which it can end. A parameter that is no array
and has a value is read back from its text, whatever name of its kind stands in front.
-/

namespace ContractScript

namespace Parameter.Kind

/-- The names of a kind: most have a short one, and all have a full one. -/
def names : Kind → List String
  | signature => ["sig", "Signature"]
  | boolean => ["bool", "Boolean"]
  | integer => ["int", "Integer"]
  | hash160 => ["Hash160"]
  | hash256 => ["Hash256"]
  | byteArray => ["bytes", "ByteArray"]
  | publicKey => ["pubkey", "PublicKey"]
  | string => ["str", "String"]
  | array => ["Array"]
  | interopInterface => ["InteropInterface"]
  | void => ["Void"]

/-- A text names a kind if it agrees with one of its names up to the case of ASCII letters. -/
def Named (kind : Kind) (text : String) : Prop :=
  ∃ name ∈ kind.names, Text.SameLetters name text

/-- The parameter of given bytes, for the kinds whose values are bytes. -/
def parameterOfBytes? : Kind → Option (List UInt8 → Parameter)
  | byteArray => some Parameter.byteArray
  | hash160 => some Parameter.hash160
  | hash256 => some Parameter.hash256
  | publicKey => some Parameter.publicKey
  | signature => some Parameter.signature
  | _ => none

/-- The kinds whose values have no text. -/
def Unwritten (kind : Kind) : Prop :=
  kind = array ∨ kind = interopInterface ∨ kind = void

end Parameter.Kind

namespace CommandLine

open Parameter (Kind)

/-- What the text of a value stands for, if its kind is known. -/
inductive ReadsValue : Kind → String → Except CommandError Parameter → Prop
  | integer {value : String} {number : Int} (denoted : Decimal.Numeral value.toList number)
      (above : -9223372036854775808 ≤ number) (below : number ≤ 9223372036854775807) :
      ReadsValue .integer value (.ok (.integer (Int64.ofInt number)))
  | noInteger {value : String} (refused : ∀ number, Decimal.Numeral value.toList number →
        number < -9223372036854775808 ∨ 9223372036854775807 < number) :
      ReadsValue .integer value (.error (.invalidValue .integer value))
  | trueValue : ReadsValue .boolean "true" (.ok (.boolean true))
  | falseValue : ReadsValue .boolean "false" (.ok (.boolean false))
  | noBoolean {value : String} (notTrue : value ≠ "true") (notFalse : value ≠ "false") :
      ReadsValue .boolean value (.error (.invalidValue .boolean value))
  | text {value : String} : ReadsValue .string value (.ok (.string value))
  | bytes {kind : Kind} {carry : List UInt8 → Parameter} {value : String} {bytes : List UInt8}
      (carried : kind.parameterOfBytes? = some carry) (denoted : Hex.Written value.toList bytes) :
      ReadsValue kind value (.ok (carry bytes))
  | noBytes {kind : Kind} {carry : List UInt8 → Parameter} {value : String}
      (carried : kind.parameterOfBytes? = some carry)
      (refused : ∀ bytes, ¬Hex.Written value.toList bytes) :
      ReadsValue kind value (.error (.invalidHex value))
  | unwritten {kind : Kind} {value : String} (textless : kind.Unwritten) :
      ReadsValue kind value (.error (.unsupportedKind kind))

/-- What the text of a parameter stands for. -/
inductive Reads : String → Except CommandError Parameter → Prop
  | noColon {text : String} (joined : ':' ∉ text.toList) :
      Reads text (.error (.malformedParameter text))
  | noKind {name value : String} (first : ':' ∉ name.toList)
      (unnamed : ∀ kind : Kind, ¬kind.Named name) :
      Reads (name ++ ":" ++ value) (.error (.unknownKind ⟨name⟩))
  | value {name value : String} {kind : Kind} {outcome : Except CommandError Parameter}
      (first : ':' ∉ name.toList) (named : kind.Named name)
      (read : ReadsValue kind value outcome) :
      Reads (name ++ ":" ++ value) outcome

/-- The characters in front of a colon are those that are none. -/
theorem forall_bne_iff {chars : List Char} :
    (∀ char ∈ chars, (char != ':') = true) ↔ ':' ∉ chars := by
  constructor
  · intro others colon
    exact absurd (others ':' colon) (by decide)
  · intro free char member
    exact bne_iff_ne.mpr fun same => free (same ▸ member)

/-- A text is split at its first colon.

What is in front of the split has no colon, because it was taken as long as there was
none, and what stops the taking is a colon. Conversely a name without colons is taken as a
whole, and the colon behind it ends it. -/
theorem splitAtColon?_eq_some_iff {text name value : String} :
    splitAtColon? text = some (name, value) ↔
      ':' ∉ name.toList ∧ text = name ++ ":" ++ value := by
  constructor
  · intro found
    unfold splitAtColon? at found
    split at found
    · cases found
    next colon rest dropped =>
      cases found
      have stops := List.head?_dropWhile_not (· != ':') text.toList
      rw [dropped] at stops
      have stops : colon = ':' := bne_eq_false_iff_eq.mp stops
      have whole : text.toList.takeWhile (· != ':') ++ text.toList.dropWhile (· != ':') =
          text.toList := List.takeWhile_append_dropWhile
      rw [dropped, stops] at whole
      constructor
      · rw [String.toList_ofList]
        exact forall_bne_iff.mp fun _ => List.mem_takeWhile_imp
      · apply String.toList_injective
        simp [whole]
  · rintro ⟨first, rfl⟩
    have others := forall_bne_iff.mpr first
    have joined : (name ++ ":" ++ value).toList = name.toList ++ ':' :: value.toList := by
      simp
    rw [splitAtColon?, joined, List.dropWhile_append_of_pos others,
      List.takeWhile_append_of_pos others]
    simp

/-- A text that is not split has no colon. -/
theorem splitAtColon?_eq_none_iff {text : String} :
    splitAtColon? text = none ↔ ':' ∉ text.toList := by
  rw [← forall_bne_iff, ← List.dropWhile_eq_nil_iff, splitAtColon?]
  split
  next dropped => simp [dropped]
  next dropped => simp [dropped]

/-- Only the letters of a name matter, not their case. The fault of an unknown name
repeats it as it was given, so it is left out here. -/
theorem toOption_kindOfName_congr {first second : String}
    (same : Text.SameLetters first second) :
    (kindOfName first).toOption = (kindOfName second).toOption := by
  have lowered := same.lower_eq
  have short : shortKind? first = shortKind? second := by
    rw [shortKind?, shortKind?, lowered]
  have full : Kind.all.find? (fun kind => Text.sameName kind.name first) =
      Kind.all.find? (fun kind => Text.sameName kind.name second) := by
    simp only [Text.sameName, lowered]
  rw [kindOfName, kindOfName, short]
  cases shortKind? second with
  | some kind => rfl
  | none =>
    rw [Kind.ofName, Kind.ofName, full]
    cases Kind.all.find? (fun kind => Text.sameName kind.name second) <;> rfl

/-- Every name of a kind selects it. -/
theorem kindOfName_of_mem {kind : Kind} {name : String} (member : name ∈ kind.names) :
    kindOfName name = .ok kind := by
  have all : ∀ kind ∈ Kind.all, ∀ name ∈ kind.names, kindOfName name = .ok kind := by
    decide +kernel
  exact all kind (Kind.mem_all kind) name member

/-- A short name in any case names the kind that it stands for. -/
theorem named_of_shortKind? {name : String} {kind : Kind} (found : shortKind? name = some kind) :
    kind.Named name := by
  -- The name in lower case is the short name itself.
  refine ⟨Text.lower name, ?_, .lower name⟩
  unfold shortKind? at found
  split at found <;> cases found
  all_goals
    next short =>
      rw [short]
      exact List.mem_cons_self

/-- A full name in any case names the kind that is found by it: what is found agrees with
the text letter by letter. -/
theorem named_of_ofName {name : String} {kind : Kind} (found : Kind.ofName name = .ok kind) :
    kind.Named name := by
  have full : kind.name ∈ kind.names := by cases kind <;> decide
  unfold Kind.ofName at found
  split at found
  next first =>
    cases found
    have same := List.find?_some first
    exact ⟨kind.name, full, Text.sameName_iff.mp same⟩
  · cases found

/-- A name selects the kind that it names.

A kind is found by its short name or by its full one, and both are among its names.
Conversely each of these names selects its kind when it is written as it stands, and the
case of letters does not matter. -/
theorem kindOfName_eq_ok_iff {name : String} {kind : Kind} :
    kindOfName name = .ok kind ↔ kind.Named name := by
  constructor
  · intro selected
    unfold kindOfName at selected
    split at selected
    next found =>
      cases selected
      exact named_of_shortKind? found
    · cases found : Kind.ofName name with
      | ok full =>
        rw [found] at selected
        cases selected
        exact named_of_ofName found
      | error unknown =>
        rw [found] at selected
        cases selected
  · rintro ⟨full, member, same⟩
    have selected := toOption_kindOfName_congr same
    rw [kindOfName_of_mem member] at selected
    cases found : kindOfName name with
    | ok other =>
      rw [found] at selected
      cases selected
      rfl
    | error fault =>
      rw [found] at selected
      cases selected

/-- A name that selects no kind is reported as it was given. There is one fault only, so
it is known as soon as no kind is selected. -/
theorem kindOfName_eq_error_iff {name : String} {fault : CommandError} :
    kindOfName name = .error fault ↔
      (∀ kind : Kind, ¬kind.Named name) ∧ fault = .unknownKind ⟨name⟩ := by
  simp only [← kindOfName_eq_ok_iff]
  have reported {other : CommandError} (failed : kindOfName name = .error other) :
      other = .unknownKind ⟨name⟩ := by
    unfold kindOfName Kind.ofName at failed
    split at failed
    · cases failed
    · split at failed <;> cases failed
      rfl
  constructor
  · intro failed
    refine ⟨?_, reported failed⟩
    intro kind selected
    rw [failed] at selected
    cases selected
  · rintro ⟨unnamed, rfl⟩
    cases failed : kindOfName name with
    | ok kind => exact absurd failed (unnamed kind)
    | error other => rw [reported failed]

/-- No name of a kind has a colon, whatever the case of its letters. So a name ends at the
colon that is written behind it. -/
theorem colon_not_mem_of_named {kind : Kind} {name : String} (named : kind.Named name) :
    ':' ∉ name.toList := by
  have all : ∀ kind ∈ Kind.all, ∀ name ∈ kind.names, ':' ∉ (Text.lower name).toList := by
    decide +kernel
  obtain ⟨full, member, same⟩ := named
  have free := all kind (Kind.mem_all kind) full member
  rw [same.lower_eq, Text.lower, String.toList_ofList] at free
  intro colon
  exact free (List.mem_map_of_mem colon)

/-- Bytes are read in the same way for every kind whose values are bytes, and differ only
in the parameter that carries them. -/
theorem parameterOfValue_of_bytes {kind : Kind} {carry : List UInt8 → Parameter}
    (carried : kind.parameterOfBytes? = some carry) (value : String) :
    parameterOfValue kind value = (hexBytes value).map carry := by
  cases kind <;> cases carried <;> rfl

/-- Integers are read between the limits of 64 bits. -/
theorem int64?_eq (value : String) :
    int64? value =
      (Decimal.within? (-9223372036854775808) 9223372036854775807 value).map Int64.ofInt :=
  rfl

/-- Two texts stand for truth values, and they are taken letter by letter. -/
theorem truth?_eq_none_iff {value : String} :
    truth? value = none ↔ value ≠ "true" ∧ value ≠ "false" := by
  unfold truth?
  split <;> simp_all

/-- What the text of a value is read as follows from a rule of the grammar.

By cases of the kind, those whose values are bytes together. Each way in which reading can
end is one rule: a value was denoted, or none was, and the laws on notations say which. -/
theorem readsValue_parameterOfValue (kind : Kind) (value : String) :
    ReadsValue kind value (parameterOfValue kind value) := by
  cases carried : kind.parameterOfBytes? with
  | some carry =>
    rw [parameterOfValue_of_bytes carried, hexBytes]
    cases read : Hex.ofText? value with
    | some bytes => exact .bytes carried (Hex.ofText?_eq_some_iff.mp read)
    | none => exact .noBytes carried (Hex.ofText?_eq_none_iff.mp read)
  | none =>
    cases kind with
    | byteArray | hash160 | hash256 | publicKey | signature => cases carried
    | integer =>
      rw [parameterOfValue, int64?_eq]
      cases read : Decimal.within? (-9223372036854775808) 9223372036854775807 value with
      | some number =>
        obtain ⟨denoted, above, below⟩ := Decimal.within?_eq_some_iff.mp read
        exact .integer denoted above below
      | none => exact .noInteger (Decimal.within?_eq_none_iff.mp read)
    | boolean =>
      rw [parameterOfValue]
      split
      next truth read =>
        unfold truth? at read
        split at read <;> cases read
        · exact .trueValue
        · exact .falseValue
      next read =>
        obtain ⟨notTrue, notFalse⟩ := truth?_eq_none_iff.mp read
        exact .noBoolean notTrue notFalse
    | string => exact .text
    | array => exact .unwritten (.inl rfl)
    | interopInterface => exact .unwritten (.inr (.inl rfl))
    | void => exact .unwritten (.inr (.inr rfl))

/-- The text of a value is read as the grammar of its kind says, and every rule of the
grammar is what reading does. The second half makes the grammar unambiguous: two outcomes
of one text would both be the one that is read. -/
theorem parameterOfValue_iff {kind : Kind} {value : String}
    {outcome : Except CommandError Parameter} :
    parameterOfValue kind value = outcome ↔ ReadsValue kind value outcome := by
  constructor
  · rintro rfl
    exact readsValue_parameterOfValue kind value
  · intro read
    cases read with
    | integer denoted above below =>
      rw [parameterOfValue, int64?_eq, Decimal.within?_eq_some_iff.mpr ⟨denoted, above, below⟩]
      rfl
    | noInteger refused =>
      rw [parameterOfValue, int64?_eq, Decimal.within?_eq_none_iff.mpr refused]
      rfl
    | trueValue => rfl
    | falseValue => rfl
    | noBoolean notTrue notFalse =>
      rw [parameterOfValue, truth?_eq_none_iff.mpr ⟨notTrue, notFalse⟩]
    | text => rfl
    | bytes carried denoted =>
      rw [parameterOfValue_of_bytes carried, hexBytes, Hex.ofText?_eq_some_iff.mpr denoted]
      rfl
    | noBytes carried refused =>
      rw [parameterOfValue_of_bytes carried, hexBytes, Hex.ofText?_eq_none_iff.mpr refused]
      rfl
    | unwritten textless =>
      rcases textless with rfl | rfl | rfl <;> rfl

/-- The text of a parameter is read as the grammar says.

The three stages of reading are those of the grammar: the split at the first colon, the
kind of the name in front of it, and the value behind it. Each of them has its
equivalence, so the rule follows from the stage at which reading ends, and reading from
the rule. -/
theorem parameterOfText_iff {text : String} {outcome : Except CommandError Parameter} :
    parameterOfText text = outcome ↔ Reads text outcome := by
  constructor
  · rintro rfl
    unfold parameterOfText
    split
    next unsplit => exact .noColon (splitAtColon?_eq_none_iff.mp unsplit)
    next name value split =>
      obtain ⟨first, rfl⟩ := splitAtColon?_eq_some_iff.mp split
      split
      next kind selected =>
        exact .value first (kindOfName_eq_ok_iff.mp selected) (parameterOfValue_iff.mp rfl)
      next fault unselected =>
        obtain ⟨unnamed, rfl⟩ := kindOfName_eq_error_iff.mp unselected
        exact .noKind first unnamed
  · intro read
    cases read with
    | noColon joined => rw [parameterOfText, splitAtColon?_eq_none_iff.mpr joined]
    | noKind first unnamed =>
      simp only [parameterOfText, splitAtColon?_eq_some_iff.mpr ⟨first, rfl⟩,
        kindOfName_eq_error_iff.mpr ⟨unnamed, rfl⟩]
    | value first named read =>
      simp only [parameterOfText, splitAtColon?_eq_some_iff.mpr ⟨first, rfl⟩,
        kindOfName_eq_ok_iff.mpr named]
      exact parameterOfValue_iff.mpr read

/-- The text of a parameter that is no array and has a value begins with the full name of
its kind, and what follows the colon stands for the parameter. One case for each kind:
integers are written in numerals that denote them, and bytes in digits that denote
them. -/
theorem exists_textOfParameter? {parameter : Parameter} (single : parameter.Single) :
    ∃ value, textOfParameter? parameter = some (parameter.kind.name ++ ":" ++ value) ∧
      ReadsValue parameter.kind value (.ok parameter) := by
  have bytes {kind : Kind} {carry : List UInt8 → Parameter}
      (carried : kind.parameterOfBytes? = some carry) (data : List UInt8) :
      ReadsValue kind (Hex.encode data) (.ok (carry data)) :=
    .bytes carried (Hex.ofText?_eq_some_iff.mp (Hex.ofText?_encode data))
  cases parameter with
  | array _ | unset _ => cases single
  | integer number =>
    have above := Int64.le_toInt number
    have below := Int64.toInt_lt number
    have read := ReadsValue.integer (Decimal.numeral_integer number.toInt) (by omega) (by omega)
    rw [Int64.ofInt_toInt] at read
    exact ⟨Decimal.integer number.toInt, rfl, read⟩
  | boolean truth =>
    cases truth
    · exact ⟨"false", rfl, .falseValue⟩
    · exact ⟨"true", rfl, .trueValue⟩
  | string text => exact ⟨text, rfl, .text⟩
  | byteArray data => exact ⟨Hex.encode data, rfl, bytes rfl data⟩
  | hash160 data => exact ⟨Hex.encode data, rfl, bytes rfl data⟩
  | hash256 data => exact ⟨Hex.encode data, rfl, bytes rfl data⟩
  | publicKey data => exact ⟨Hex.encode data, rfl, bytes rfl data⟩
  | signature data => exact ⟨Hex.encode data, rfl, bytes rfl data⟩

/-- Every text is read as the grammar says, whether it is accepted or refused. So a
parameter that is no array and has a value is read back from its text, and from the text
that has another name of the kind in front, in any case of its letters.

The second part needs nothing about the reader any more: the value is written so that the
grammar gives the parameter, and any name of the kind may stand in front of it. -/
theorem parameter_texts_are_read_by_their_grammar :
    (∀ text outcome, parameterOfText text = outcome ↔ Reads text outcome) ∧
      ∀ parameter : Parameter, parameter.Single →
        ∃ value, textOfParameter? parameter = some (parameter.kind.name ++ ":" ++ value) ∧
          ∀ name, parameter.kind.Named name →
            parameterOfText (name ++ ":" ++ value) = .ok parameter := by
  refine ⟨fun _ _ => parameterOfText_iff, ?_⟩
  intro parameter single
  obtain ⟨value, written, read⟩ := exists_textOfParameter? single
  refine ⟨value, written, ?_⟩
  intro name named
  exact parameterOfText_iff.mpr (.value (colon_not_mem_of_named named) named read)

/-- The lowest integer is read back behind a short name in mixed case, and a text with colons
of its own behind a full one. -/
theorem parameter_texts_of_lowest_integer_and_colons :
    (∃ value, textOfParameter? (.integer Int64.minValue) = some ("Integer" ++ ":" ++ value) ∧
      parameterOfText ("iNT" ++ ":" ++ value) = .ok (.integer Int64.minValue)) ∧
    (∃ value, textOfParameter? (.string "a:b:") = some ("String" ++ ":" ++ value) ∧
      parameterOfText ("STRING" ++ ":" ++ value) = .ok (.string "a:b:")) := by
  have short : Kind.integer.Named "iNT" :=
    ⟨"int", by decide, Text.sameName_iff.mp (by decide +kernel)⟩
  have full : Kind.string.Named "STRING" :=
    ⟨"String", by decide, Text.sameName_iff.mp (by decide +kernel)⟩
  obtain ⟨number, numberWritten, numberRead⟩ :=
    parameter_texts_are_read_by_their_grammar.2 (.integer Int64.minValue) trivial
  obtain ⟨text, textWritten, textRead⟩ :=
    parameter_texts_are_read_by_their_grammar.2 (.string "a:b:") trivial
  exact ⟨⟨number, numberWritten, numberRead "iNT" short⟩,
    ⟨text, textWritten, textRead "STRING" full⟩⟩

end CommandLine

end ContractScript
