import ContractScript.CommandLine.Session

/-!
# Where the flags of an invocation may stand

Up to its first parameter, an invocation takes its flags and the texts for hash and operation
in any mixture: what is read are the flags in their order and the texts in theirs. From the
first parameter on nothing is a flag any more. So the request depends on which flags are given
and on the texts, and not on the places of the flags.

Reading is followed one argument at a time. A flag is recognised by its name or its letter,
a text without a hyphen in front is a value, and where parameters may stand, so is a hyphen
with a digit behind it. The first parameter puts more values behind the reader than are
needed, and everything after it is taken as it is.
-/

namespace ContractScript.CommandLine

/-- A text begins with a hyphen. -/
def Hyphened (text : String) : Prop :=
  text.toList.head? = some '-'

/-- Whether a text begins with a hyphen can be checked. -/
instance (text : String) : Decidable (Hyphened text) :=
  inferInstanceAs (Decidable (_ = _))

/-- A text begins with a hyphen and a digit, like a negative number. -/
def LooksNegative (text : String) : Prop :=
  ∃ digit later, text.toList = '-' :: digit :: later ∧ digit.isDigit = true

/-- A text that is taken as a parameter even where flags are recognised. -/
def ParameterLike (text : String) : Prop :=
  ¬Hyphened text ∨ LooksNegative text

namespace Flag

/-- The texts that give a flag: its name behind two hyphens, or its letter behind one. -/
def texts (flag : Flag) : List String :=
  ("--" ++ flag.name) :: flag.letter?.toList.map fun letter => String.ofList ['-', letter]

/-- Flags are told apart by their names. -/
theorem name_injective {first second : Flag} (same : first.name = second.name) :
    first = second := by
  cases first <;> cases second <;> revert same <;> decide

/-- Flags are told apart by their letters. -/
theorem letter?_injective {first second : Flag} {letter : Char}
    (given : first.letter? = some letter) (same : second.letter? = some letter) :
    first = second := by
  rw [← given] at same
  cases first <;> cases second <;> revert given same <;> simp [letter?]

end Flag

/-- Flags and texts mixed in one argument list, which has the flags in one order and the texts
in another, both given. -/
inductive Mixed : List Flag → List String → List String → Prop
  | nil : Mixed [] [] []
  | flag {flag : Flag} {text : String} {flags : List Flag} {values arguments : List String}
      (gives : text ∈ flag.texts) (later : Mixed flags values arguments) :
      Mixed (flag :: flags) values (text :: arguments)
  | value {flags : List Flag} {values arguments : List String} (value : String)
      (later : Mixed flags values arguments) : Mixed flags (value :: values) (value :: arguments)

/-- What alone satisfies a test is what the test finds, wherever it stands in the list. -/
theorem find?_eq_some_of_unique {α : Type} {test : α → Bool} {list : List α} {sought : α}
    (member : sought ∈ list) (passes : test sought = true)
    (unique : ∀ other, test other = true → other = sought) : list.find? test = some sought := by
  cases found : list.find? test with
  | none => exact absurd passes (List.find?_eq_none.mp found sought member)
  | some other => rw [unique other (List.find?_some found)]

namespace Form

section Tokens

variable {form : Form}

/-- A flag of the form is found by its name. -/
theorem named?_name {flag : Flag} (known : flag ∈ form.flags) :
    form.named? flag.name.toList = some flag := by
  refine find?_eq_some_of_unique known (beq_iff_eq.mpr rfl) fun other same => ?_
  rw [beq_iff_eq, String.toList_inj] at same
  exact Flag.name_injective same

/-- A flag of the form is found by its letter. -/
theorem lettered?_letter {flag : Flag} {letter : Char} (known : flag ∈ form.flags)
    (lettered : flag.letter? = some letter) : form.lettered? letter = some flag := by
  refine find?_eq_some_of_unique known (beq_iff_eq.mpr lettered) fun other same => ?_
  exact Flag.letter?_injective (beq_iff_eq.mp same) lettered

/-- No flag has a digit for its letter. Therefore a text like that of a negative number is
never taken for letters of flags. -/
theorem lettered?_digit {digit : Char} (isDigit : digit.isDigit = true) :
    form.lettered? digit = none := by
  apply List.find?_eq_none.mpr
  intro flag _ same
  rw [beq_iff_eq] at same
  cases flag <;> cases same <;> cases isDigit

/-- A text that gives a flag of the form is recognised, whatever stands in front of it. By
its name, which is looked up up to an equals sign and has none; or by its letter, which is
no hyphen, so the text is not taken for a name. -/
theorem token_of_mem_texts {flag : Flag} {text : String} (known : flag ∈ form.flags)
    (gives : text ∈ flag.texts) (values : Nat) : form.token values text = .flags [flag] := by
  rw [Flag.texts, List.mem_cons, List.mem_map] at gives
  rcases gives with rfl | ⟨letter, lettered, rfl⟩
  · have chars : ("--" ++ flag.name).toList = '-' :: '-' :: flag.name.toList := by simp
    -- No name is empty or has an equals sign, so all of it is looked up.
    obtain ⟨whole, nonempty⟩ : flag.name.toList.takeWhile (· != '=') = flag.name.toList ∧
        flag.name.toList ≠ [] := by cases flag <;> decide
    have found := named?_name known
    obtain ⟨first, later, spelled⟩ := List.exists_cons_of_ne_nil nonempty
    rw [spelled] at chars whole found
    simp [token, chars, whole, found]
  · rw [Option.mem_toList] at lettered
    have found := lettered?_letter known lettered
    have other : letter ≠ '-' := by
      rintro rfl
      cases flag <;> cases lettered
    simp [token, found, other]

/-- A text without a hyphen in front is a value: the other forms of an argument begin with
one. -/
theorem token_of_not_hyphened {text : String} (plain : ¬Hyphened text) (values : Nat) :
    form.token values text = .value := by
  unfold token
  split
  next chars => exact absurd (congrArg List.head? chars) plain
  next chars => exact absurd (congrArg List.head? chars) plain
  next chars => exact absurd (congrArg List.head? chars) plain
  · rfl

/-- Where parameters may stand, a text that looks like one is a value. A text like that of
a negative number is no name and gives no known flag, and unknown ones are values
there. -/
theorem token_of_parameterLike {text : String} (looks : ParameterLike text)
    (openEnded : form.openEnded = true) {values : Nat} (enough : form.needed ≤ values) :
    form.token values text = .value := by
  rcases looks with plain | ⟨digit, later, chars, isDigit⟩
  · exact token_of_not_hyphened plain values
  · have other : digit ≠ '-' := by
      rintro rfl
      cases isDigit
    simp [token, chars, other, lettered?_digit isDigit, unknown, openEnded, enough]

end Tokens

section Reading

variable {form : Form} {before : Arguments} {rest : List String}

/-- One more flag is read where no value is beyond the needed ones, if it was not given
before and is no request for help. Behind more values than are needed it would be a
value. -/
theorem readOnto_flag {flag : Flag} {text : String} (known : flag ∈ form.flags)
    (gives : text ∈ flag.texts) (room : before.values.length ≤ form.needed)
    (fresh : flag ∉ before.flags) (useful : flag ≠ .help) :
    form.readOnto before (text :: rest) =
      form.readOnto ⟨before.flags ++ [flag], before.values⟩ rest := by
  rw [readOnto, if_neg (Nat.not_lt.mpr room), token_of_mem_texts known gives]
  simp [Arguments.withFlags?, fresh, useful]

/-- One more value is read, if it is one where it stands. -/
theorem readOnto_value {value : String} (room : before.values.length ≤ form.needed)
    (plain : form.token before.values.length value = .value) :
    form.readOnto before (value :: rest) =
      form.readOnto ⟨before.flags, before.values ++ [value]⟩ rest := by
  rw [readOnto, if_neg (Nat.not_lt.mpr room), plain]

/-- Behind a value that is not needed, everything is a value. -/
theorem readOnto_beyond (beyond : form.needed < before.values.length) :
    form.readOnto before rest = some ⟨before.flags, before.values ++ rest⟩ := by
  cases rest with
  | nil => rw [readOnto, List.append_nil]
  | cons argument later => rw [readOnto, if_pos beyond]

/-- A mixture of flags and needed values is read into both, each in its order.

By induction on the mixture, for any arguments that were read before. A flag is new,
because all flags together are distinct, and is put behind those read; a value is still
needed, so the reader goes on recognising flags. At the end nothing of the mixture is left
to read. -/
theorem readOnto_mixed {flags : List Flag} {values arguments : List String}
    (mixed : Mixed flags values arguments) (before : Arguments)
    (room : before.values.length + values.length ≤ form.needed)
    (distinct : (before.flags ++ flags).Nodup)
    (known : ∀ flag ∈ flags, flag ∈ form.flags ∧ flag ≠ .help)
    (plain : ∀ value ∈ values, ¬Hyphened value) :
    form.readOnto before (arguments ++ rest) =
      form.readOnto ⟨before.flags ++ flags, before.values ++ values⟩ rest := by
  induction mixed generalizing before with
  | nil => simp
  | @flag flag text flags values arguments gives later inductionHypothesis =>
    obtain ⟨⟨knownFlag, useful⟩, knownLater⟩ := List.forall_mem_cons.mp known
    -- The flags read before and those to come are told apart, so this one is no repetition.
    have fresh : flag ∉ before.flags := fun member =>
      (List.nodup_append.mp distinct).2.2 flag member flag List.mem_cons_self rfl
    rw [List.append_cons] at distinct
    have read := inductionHypothesis ⟨before.flags ++ [flag], before.values⟩ room distinct
      knownLater plain
    rw [List.cons_append, readOnto_flag knownFlag gives (by omega) fresh useful, read,
      List.append_cons before.flags flag flags]
  | @value flags values arguments value later inductionHypothesis =>
    obtain ⟨plainValue, plainLater⟩ := List.forall_mem_cons.mp plain
    rw [List.length_cons] at room
    have roomLater : (before.values ++ [value]).length + values.length ≤ form.needed := by
      rw [List.length_append, List.length_singleton]
      omega
    have read := inductionHypothesis ⟨before.flags, before.values ++ [value]⟩ roomLater distinct
      known plainLater
    rw [List.cons_append, readOnto_value (by omega) (token_of_not_hyphened plainValue _), read,
      List.append_cons before.values value values]

/-- Behind all needed values, parameters are read as they stand if the first one is taken
as a value. With it there are more values than needed, and nothing behind it is looked
at. -/
theorem readOnto_parameters {parameters : List String} (openEnded : form.openEnded = true)
    (full : before.values.length = form.needed)
    (first : ∀ parameter ∈ parameters.head?, ParameterLike parameter) :
    form.readOnto before parameters = some ⟨before.flags, before.values ++ parameters⟩ := by
  cases parameters with
  | nil => rw [readOnto, List.append_nil]
  | cons parameter later =>
    have value := token_of_parameterLike (first parameter rfl) openEnded (Nat.le_of_eq full.symm)
    rw [readOnto_value (Nat.le_of_eq full) value,
      readOnto_beyond (by simp only [List.length_append, List.length_singleton]; omega),
      ← List.append_cons]

/-- A mixture of flags and all needed values, and parameters behind it, are read into the
flags and all the texts: first the mixture, which leaves the reader with as many values as
needed, and then the parameters. -/
theorem read_mixed {flags : List Flag} {values arguments parameters : List String}
    (mixed : Mixed flags values arguments) (openEnded : form.openEnded = true)
    (full : values.length = form.needed) (distinct : flags.Nodup)
    (known : ∀ flag ∈ flags, flag ∈ form.flags ∧ flag ≠ .help)
    (plain : ∀ value ∈ values, ¬Hyphened value)
    (first : ∀ parameter ∈ parameters.head?, ParameterLike parameter) :
    form.read (arguments ++ parameters) = some ⟨flags, values ++ parameters⟩ := by
  have room : Arguments.none.values.length + values.length ≤ form.needed :=
    Nat.le_of_eq ((Nat.zero_add _).trans full)
  rw [read, readOnto_mixed mixed .none room distinct known plain]
  exact readOnto_parameters openEnded full first

end Reading

end Form

namespace Demand

/-- The verbose flag in front of a command is noted, and the command is read behind it.
There is at most one such flag, because none is given twice. -/
theorem readFrom_leading {front : List Flag} {leading : List String}
    (leads : Mixed front [] leading) (loud : ∀ flag ∈ front, flag = .verbose)
    (distinct : front.Nodup) (rest : List String) :
    readFrom false (leading ++ rest) = readFrom (decide (.verbose ∈ front)) rest := by
  cases leads with
  | nil => rfl
  | @flag flag text flags _ arguments gives later =>
    obtain ⟨rfl, others⟩ := List.forall_mem_cons.mp loud
    have token := Form.token_of_mem_texts (by decide : Flag.verbose ∈ leadingForm.flags) gives 0
    cases later with
    | nil =>
      rw [List.cons_append, readFrom, token]
      rfl
    | @flag other =>
      obtain rfl := others other List.mem_cons_self
      simp at distinct

/-- Behind its name, an invocation is made of the flags and the texts that are read. The
flag against arguments is excluded, so the parameters are not refused. -/
theorem readFrom_invoke {rest parameters : List String} {flags : List Flag}
    {hash operation : String} (verbose : Bool)
    (read : CommandName.invoke.form.read rest = some ⟨flags, hash :: operation :: parameters⟩)
    (complete : .withoutArguments ∉ flags) :
    readFrom verbose ("invoke" :: rest) = some (.request
      ⟨verbose || decide (.verbose ∈ flags), .invoke hash operation parameters
        (if .tailCall ∈ flags then .tailCall else .call) true (decide (.listed ∈ flags))⟩) := by
  have value : leadingForm.token 0 "invoke" = .value := Form.token_of_not_hyphened (by decide) 0
  have named : CommandName.ofText? "invoke" = some .invoke := rfl
  simp [readFrom, value, named, read, CommandName.command?, complete]

end Demand

/-- An invocation as an argument list: flags, each of them once, are mixed with the texts
for hash and operation, or stand in front of the name of the command if they are the
verbose flag. The parameters follow behind all of them. The flags need not be given in the
order in which they stand. -/
inductive InvocationLine (given : List Flag) (hash operation : String)
    (parameters : List String) : List String → Prop
  | intro {front behind : List Flag} {leading mixture : List String}
      (all : (front ++ behind).Perm given) (loud : ∀ flag ∈ front, flag = .verbose)
      (leads : Mixed front [] leading) (mixed : Mixed behind [hash, operation] mixture) :
      InvocationLine given hash operation parameters
        (leading ++ "invoke" :: (mixture ++ parameters))

/-- The request for an invocation with these flags. -/
def Request.invocation (given : List Flag) (hash operation : String) (parameters : List String) :
    Request :=
  ⟨decide (.verbose ∈ given), .invoke hash operation parameters
    (if .tailCall ∈ given then .tailCall else .call) true (decide (.listed ∈ given))⟩

/-- An invocation asks for what its flags and texts say, wherever the flags stand.

The flags in front of the name are read by the line, and those behind it by the command;
only the verbose flag can be among the former. The request looks at flags by membership
alone, and it joins both places where the verbose flag may stand. So all flags together,
in any order, give the same request. -/
theorem InvocationLine.ofArguments?_eq {given : List Flag} {hash operation : String}
    {parameters arguments : List String}
    (line : InvocationLine given hash operation parameters arguments) (distinct : given.Nodup)
    (known : ∀ flag ∈ given, flag ∈ [.verbose, .tailCall, .listed])
    (plainHash : ¬Hyphened hash) (plainOperation : ¬Hyphened operation)
    (first : ∀ parameter ∈ parameters.head?, ParameterLike parameter) :
    Demand.ofArguments? arguments =
      some (.request (.invocation given hash operation parameters)) := by
  obtain @⟨front, behind, leading, mixture, all, loud, leads, mixed⟩ := line
  have members (flag : Flag) : flag ∈ given ↔ flag ∈ front ∨ flag ∈ behind := by
    rw [← all.mem_iff, List.mem_append]
  -- Only the verbose flag can stand in front, so every other one is read by the command.
  have behindOnly {flag : Flag} (other : flag ≠ .verbose) : flag ∈ given ↔ flag ∈ behind := by
    rw [members, or_iff_right fun member => other (loud flag member)]
  have useful : ∀ flag ∈ [Flag.verbose, .tailCall, .listed],
      flag ∈ CommandName.invoke.form.flags ∧ flag ≠ .help ∧ flag ≠ .withoutArguments := by decide
  have usefulBehind (flag : Flag) (member : flag ∈ behind) :=
    useful flag (known flag ((members flag).mpr (.inr member)))
  obtain ⟨frontDistinct, behindDistinct, _⟩ := List.nodup_append.mp (all.nodup_iff.mpr distinct)
  have read : CommandName.invoke.form.read (mixture ++ parameters) =
      some ⟨behind, hash :: operation :: parameters⟩ := by
    apply Form.read_mixed mixed rfl rfl behindDistinct
    · intro flag member
      exact ⟨(usefulBehind flag member).1, (usefulBehind flag member).2.1⟩
    · simp [plainHash, plainOperation]
    · exact first
  have complete : .withoutArguments ∉ behind := fun member => (usefulBehind _ member).2.2 rfl
  rw [Demand.ofArguments?, Demand.readFrom_leading leads loud frontDistinct,
    Demand.readFrom_invoke _ read complete, Request.invocation]
  simp only [members .verbose, behindOnly (by decide : Flag.tailCall ≠ .verbose),
    behindOnly (by decide : Flag.listed ≠ .verbose), Bool.decide_or]

/-- Flags of an invocation may stand anywhere before its first parameter, in any order.
Let the flags be some of those for logging everything, for the tail call and for the
listing; let the texts for hash and operation not begin with a hyphen, and the first
parameter, if there is one, only in front of a digit. Then the argument list is accepted,
and it is answered as the request for this invocation with these flags: with its exit
code, its printed text and its log, and with the parameters as they stand, even if they
look like flags. So all argument lists with the same flags and texts are answered alike.

Without the conditions on the texts this would not hold, since a text that begins with a
hyphen may be taken for a flag, or refused. -/
theorem flags_stand_anywhere_before_parameters {given : List Flag} {hash operation : String}
    {parameters arguments : List String} (distinct : given.Nodup)
    (known : ∀ flag ∈ given, flag ∈ [.verbose, .tailCall, .listed])
    (plainHash : ¬Hyphened hash) (plainOperation : ¬Hyphened operation)
    (first : ∀ parameter ∈ parameters.head?, ParameterLike parameter)
    (line : InvocationLine given hash operation parameters arguments) :
    let request := Request.invocation given hash operation parameters
    Demand.ofArguments? arguments = some (.request request) ∧
      ∀ environment,
        respond? arguments environment = some (request.respond environment) ∧
        session? arguments environment = some (request.session environment) ∧
        ∀ others, InvocationLine given hash operation parameters others →
          respond? others environment = respond? arguments environment := by
  intro request
  have demand {others : List String}
      (line : InvocationLine given hash operation parameters others) :
      Demand.ofArguments? others = some (.request request) :=
    line.ofArguments?_eq distinct known plainHash plainOperation first
  refine ⟨demand line, ?_⟩
  intro environment
  refine ⟨?_, ?_, ?_⟩
  · rw [respond?, demand line]
  · rw [session?, demand line]
  · intro others otherLine
    rw [respond?, respond?, demand line, demand otherLine]

/-- All three flags at three places, and parameters that look like a number and like flags. -/
theorem flags_stand_anywhere_around_texts :
    let hash := "0x0101010101010101010101010101010101010101"
    let arguments := ["-v", "invoke", "--disasm", hash, "--tail-call", "mint",
      "-5", "--disasm", "-v"]
    InvocationLine [.tailCall, .listed, .verbose] hash "mint" ["-5", "--disasm", "-v"] arguments ∧
      Demand.ofArguments? arguments = some (.request
        ⟨true, .invoke hash "mint" ["-5", "--disasm", "-v"] .tailCall true true⟩) := by
  intro hash arguments
  have leads : Mixed [.verbose] [] ["-v"] := .flag (by decide) .nil
  have mixed : Mixed [.listed, .tailCall] [hash, "mint"]
      ["--disasm", hash, "--tail-call", "mint"] :=
    .flag (by decide) (.value _ (.flag (by decide) (.value _ .nil)))
  have line : InvocationLine [.tailCall, .listed, .verbose] hash "mint" ["-5", "--disasm", "-v"]
      arguments := .intro (by decide) (by decide) leads mixed
  have negative : LooksNegative "-5" := ⟨'5', [], by decide, by decide⟩
  have first : ∀ parameter ∈ ["-5", "--disasm", "-v"].head?, ParameterLike parameter := by
    rintro _ ⟨⟩
    exact .inr negative
  exact ⟨line, (flags_stand_anywhere_before_parameters (by decide) (by decide) (by decide)
    (by decide) first line).1⟩

end ContractScript.CommandLine
