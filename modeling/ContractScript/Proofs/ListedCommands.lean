import ContractScript.Proofs.Alignment
import ContractScript.Proofs.InvokeCommand
import ContractScript.Proofs.Listings
import Mathlib.Data.List.DropRight

/-!
# Asking for a listing changes nothing else

Every script that a command assembles is whole, so it has a listing. A command that is
asked for it therefore fails exactly where it fails without it, and with the same fault;
otherwise it prints the same digits and behind them what the listing command prints for
these digits.

Printed text loses its blanks at the end. Digits and lines end with a character that is
no blank, in any script, so only line feeds are lost.
-/

namespace ContractScript

namespace Text

/-- The last character of a text is no blank, if there is one. -/
def EndsVisibly (text : List Char) : Prop :=
  ∀ last ∈ text.getLast?, isBlank last = false

/-- Capital letters are no blanks. -/
theorem isBlank_of_isUpper {char : Char} (upper : char.isUpper = true) : isBlank char = false := by
  obtain ⟨low, high⟩ : 'A'.val ≤ char.val ∧ char.val ≤ 'Z'.val := of_decide_eq_true upper
  simp [UInt32.le_iff_toNat_le] at low high
  simp [isBlank]
  omega

/-- Hexadecimal digits are no blanks. -/
theorem isBlank_of_mem_lowerDigits {digit : Char} (member : digit ∈ Hex.lowerDigits) :
    isBlank digit = false := by
  have all : Hex.lowerDigits.all fun digit => !isBlank digit := by decide
  simpa using List.all_eq_true.mp all digit member

/-- A text without blanks ends visibly. -/
theorem endsVisibly_of_forall {text : List Char} (visible : ∀ char ∈ text, isBlank char = false) :
    EndsVisibly text :=
  fun last found => visible last (List.mem_of_mem_getLast? found)

/-- The end of a text that is not empty is the end of any text that it ends. -/
theorem EndsVisibly.append {text : List Char} (visible : EndsVisibly text) (present : text ≠ [])
    (front : List Char) : EndsVisibly (front ++ text) := by
  rw [EndsVisibly, List.getLast?_append_of_ne_nil _ present]
  exact visible

/-- Line feeds behind a visible end are what trimming drops, up to this end.

Trimming drops blanks from the reversed text. All line feeds are blanks, so they go first;
then comes the last character of the body, which is none, and everything else stays. -/
theorem eq_trimmedRight_append {text : String} {body : List Char} {count : Nat}
    (visible : EndsVisibly body) (written : text.toList = body ++ List.replicate count '\n') :
    text = trimmedRight text ++ String.ofList (List.replicate count '\n') ∧
      EndsVisibly (trimmedRight text).toList := by
  have lineFeeds : ∀ char ∈ List.replicate count '\n', isBlank char = true := by
    intro char member
    rw [List.eq_of_mem_replicate member]
    decide
  have kept : body.reverse.dropWhile isBlank = body.reverse := by
    have unchanged : body.rdropWhile isBlank = body := by
      rw [List.rdropWhile_eq_self_iff]
      intro present
      simp [visible _ (List.getLast_mem_getLast? present)]
    exact List.reverse_eq_iff.mp unchanged
  have trimmed : trimmedRight text = String.ofList body := by
    rw [trimmedRight, written, List.reverse_append, List.reverse_replicate,
      List.dropWhile_append_of_pos lineFeeds, kept, List.reverse_reverse]
  rw [trimmed, String.toList_ofList]
  refine ⟨?_, visible⟩
  apply String.toList_injective
  rw [written, String.toList_append, String.toList_ofList, String.toList_ofList]

end Text

/-- Hexadecimal digits end visibly. -/
theorem Hex.endsVisibly_digits (bytes : List UInt8) : Text.EndsVisibly (digits bytes) :=
  Text.endsVisibly_of_forall fun _ member =>
    Text.isBlank_of_mem_lowerDigits (mem_lowerDigits_of_mem_digits member)

/-- A line ends visibly: with the mnemonic, or with the last digit of the operand. Letters
and digits are no blanks, nor is the sign of a distance, and the blank between mnemonic
and operand never ends a line. -/
theorem Located.endsVisibly_line (item : Located) : Text.EndsVisibly item.line.toList := by
  obtain ⟨named, plain⟩ := item.opcode.plain_mnemonic
  have behind : Text.EndsVisibly (item.opcode.mnemonic.toList ++ item.operandText.toList) := by
    rcases item.operandText_cases with nothing | ⟨digits, written, present, known⟩
    · rw [nothing, List.append_nil]
      apply Text.endsVisibly_of_forall
      intro char member
      rcases plain char member with upper | digit
      · exact Text.isBlank_of_isUpper upper
      · exact Text.isBlank_of_mem_lowerDigits (Hex.mem_lowerDigits_of_isDigit digit)
    · have digits : Text.EndsVisibly digits := by
        apply Text.endsVisibly_of_forall
        intro digit member
        rcases known digit member with rfl | lower
        · decide
        · exact Text.isBlank_of_mem_lowerDigits lower
      rw [written, List.append_cons]
      exact digits.append present _
  rw [toList_line, List.append_cons, List.append_cons]
  exact behind.append (List.append_ne_nil_of_left_ne_nil named _) _

/-- A listing is empty, or one line feed stands behind a visible end, which is that of its
last line. -/
theorem listing_ends (items : List Located) :
    (listing items).toList = [] ∨
      ∃ body, body ≠ [] ∧ Text.EndsVisibly body ∧ (listing items).toList = body ++ ['\n'] := by
  rcases List.eq_nil_or_concat items with rfl | ⟨front, last, rfl⟩
  · exact .inl rfl
  · refine .inr ⟨(listing front).toList ++ last.line.toList, ?_, ?_, ?_⟩
    · exact List.append_ne_nil_of_right_ne_nil _ (by simp [Located.toList_line])
    · exact last.endsVisibly_line.append (by simp [Located.toList_line]) _
    · simp [listing]

namespace CommandLine

/-- What is printed with a listing, compared to what is printed without: the same fault,
or the same digits and behind them what the listing command prints for these digits. -/
structure AddsListing (plain listed : Except CommandError String) : Prop where
  faults : ∀ fault, plain = .error fault ↔ listed = .error fault
  lines : ∀ digits, plain = .ok digits → ∃ lines,
    (Command.disassemble digits).execute.result = .ok lines ∧
      listed = .ok (digits ++ "\n" ++ lines)

namespace Command

/-- The command assembles a script. -/
def Assembles : Command → Prop
  | disassemble _ => False
  | _ => True

/-- The same command, with or without a listing of what it assembles. -/
def withListing (listed : Bool) : Command → Command
  | invoke hash operation parameters mode withArguments _ =>
    invoke hash operation parameters mode withArguments listed
  | serviceCall name hashed _ => serviceCall name hashed listed
  | disassemble script => disassemble script

/-- Every command either asks for a listing or does not. -/
theorem exists_withListing (command : Command) :
    ∃ listed, command.withListing listed = command := by
  cases command with
  | invoke _ _ _ _ _ listed | serviceCall _ _ listed => exact ⟨listed, rfl⟩
  | disassemble _ => exact ⟨false, rfl⟩

/-- A command that assembles a script fails over its texts, or does one operation that
adds whole instructions. Whether a listing is asked for matters to neither, so fault and
operation are chosen before it. -/
theorem execute_withListing (command : Command) (assembles : command.Assembles) :
    (∃ fault, ∀ listed, (command.withListing listed).execute.result = .error fault) ∨
      ∃ operation success, operation.emission.Whole ∧
        ∀ listed, (command.withListing listed).execute = assembled operation listed success := by
  cases command with
  | invoke hash operation parameters mode withArguments _ =>
    cases read : invocationValues hash parameters with
    | error fault =>
      refine .inl ⟨fault, ?_⟩
      intro listed
      simp only [withListing, execute, read]
    | ok values =>
      have whole := Emission.whole_invocation values.1 operation
        (if withArguments then some values.2 else none) mode
      refine .inr ⟨.invocation _ _ _ _,
        fun script => [assembledRecord operation parameters.length script], whole, ?_⟩
      intro listed
      simp only [withListing, execute, read]
  | serviceCall name hashed _ =>
    refine .inr ⟨.serviceCall name hashed, fun _ => [], Emission.whole_serviceCall name hashed, ?_⟩
    intro listed
    rfl
  | disassemble _ => cases assembles

end Command

/-- A script is printed with its listing exactly if it has one. -/
theorem scriptText_listed_eq_ok_iff {script : List UInt8} {text : String} :
    scriptText script true = .ok text ↔
      ∃ lines, disassemble script = .ok lines ∧ text = Hex.encode script ++ "\n" ++ lines := by
  rw [scriptText]
  cases disassemble script <;> simp [Except.mapError, Except.map, eq_comm]

/-- The listing command prints the listing of the script that its text denotes. -/
theorem disassemble_result_eq_ok_iff {digits text : String} :
    (Command.disassemble digits).execute.result = .ok text ↔
      ∃ script, Hex.ofText? digits = some script ∧ disassemble script = .ok text := by
  simp only [Command.execute, ← hexBytes_eq_ok_iff]
  cases hexBytes digits with
  | error fault => simp [Except.bind]
  | ok script => cases listed : disassemble script <;> simp [Except.bind, Except.mapError, listed]

/-- Whole instructions have a listing, and the text of their bytes denotes them. So an
operation that adds nothing else fails over its own fault or not at all, and the listing
behind the digits is the one that the listing command prints for them. -/
theorem addsListing_assembled {operation : Operation} (whole : operation.emission.Whole)
    (success : List UInt8 → List Log.Record) :
    AddsListing (assembled operation false success).result
      (assembled operation true success).result := by
  obtain ⟨row, wellFormed, bytes⟩ := whole
  have lines : disassemble operation.emission.bytes = .ok (listing (locate 0 row)) :=
    (disassemble_eq_ok_iff _ _).mpr ⟨row, wellFormed, bytes, rfl⟩
  rw [assembled_result, assembled_result]
  cases operation.emission.failure with
  | some cause => exact ⟨fun _ => .rfl, nofun⟩
  | none =>
    have printed := scriptText_listed_eq_ok_iff.mpr ⟨_, lines, rfl⟩
    refine ⟨?_, ?_⟩
    · intro fault
      rw [printed]
      exact iff_of_false nofun nofun
    · rintro digits ⟨⟩
      have denoted := Hex.ofText?_encode operation.emission.bytes
      exact ⟨_, disassemble_result_eq_ok_iff.mpr ⟨_, denoted, lines⟩, printed⟩

/-- What commands print: the digits of a script, a listing, or a script and its listing. -/
inductive Printed : String → Prop
  | digits (script : List UInt8) : Printed (Hex.encode script)
  | lines (items : List Located) : Printed (listing items)
  | both (script : List UInt8) (items : List Located) :
    Printed (Hex.encode script ++ "\n" ++ listing items)

/-- A script that is assembled is printed in one of these ways. -/
theorem printed_of_scriptText {script : List UInt8} {listed : Bool} {text : String}
    (succeeded : scriptText script listed = .ok text) : Printed text := by
  cases listed with
  | false =>
    cases succeeded
    exact .digits script
  | true =>
    obtain ⟨_, lines, rfl⟩ := scriptText_listed_eq_ok_iff.mp succeeded
    obtain ⟨row, _, _, rfl⟩ := (disassemble_eq_ok_iff script _).mp lines
    exact .both script _

/-- Every command prints in one of these ways. The commands that assemble print a script,
with or without a listing; the third one prints the listing of a script that could be
read. -/
theorem printed_of_execute {command : Command} {text : String}
    (succeeded : command.execute.result = .ok text) : Printed text := by
  by_cases assembles : command.Assembles
  · obtain ⟨listed, self⟩ := command.exists_withListing
    rw [← self] at succeeded
    rcases command.execute_withListing assembles with
      ⟨fault, fails⟩ | ⟨operation, success, _, does⟩
    · rw [fails] at succeeded
      cases succeeded
    · rw [does, assembled_result] at succeeded
      split at succeeded
      · cases succeeded
      · exact printed_of_scriptText succeeded
  · cases command with
    | invoke _ _ _ _ _ _ | serviceCall _ _ _ => exact absurd trivial assembles
    | disassemble digits =>
      obtain ⟨script, _, lines⟩ := disassemble_result_eq_ok_iff.mp succeeded
      obtain ⟨row, _, _, rfl⟩ := (disassemble_eq_ok_iff script _).mp lines
      exact .lines _

/-- Of printed text, trimming drops line feeds only. One case for each way of printing:
digits end with a digit and have nothing to lose, a listing loses the line feed of its
last line, and behind digits an empty listing loses the one in front of it. -/
theorem Printed.eq_trimmedRight_append {text : String} (printed : Printed text) :
    ∃ count, text = Text.trimmedRight text ++ String.ofList (List.replicate count '\n') ∧
      Text.EndsVisibly (Text.trimmedRight text).toList := by
  cases printed with
  | digits script =>
    refine ⟨0, Text.eq_trimmedRight_append (Hex.endsVisibly_digits script) ?_⟩
    simp [Hex.encode]
  | lines items =>
    rcases listing_ends items with nothing | ⟨body, _, visible, ended⟩
    · have visible : Text.EndsVisibly [] := Text.endsVisibly_of_forall (by simp)
      refine ⟨0, Text.eq_trimmedRight_append visible ?_⟩
      simp [nothing]
    · exact ⟨1, Text.eq_trimmedRight_append visible ended⟩
  | both script items =>
    rcases listing_ends items with nothing | ⟨body, present, visible, ended⟩
    · refine ⟨1, Text.eq_trimmedRight_append (Hex.endsVisibly_digits script) ?_⟩
      simp [Hex.encode, nothing]
    · have behind := visible.append present (Hex.digits script ++ ['\n'])
      refine ⟨1, Text.eq_trimmedRight_append behind ?_⟩
      simp [Hex.encode, ended]

/-- Asking for a listing adds it and changes nothing else. A command that assembles a
script succeeds with the flag exactly if it does without, and otherwise fails with the
same fault. It prints the same digits, and behind a line feed what the listing command
prints for these digits. Trimming the text that any command prints drops line feeds at its
end until a visible character ends it, and nothing else.

The first part rests on whole instructions: a script of these always has a listing, so the
flag brings in no fault of its own. -/
theorem listing_flag_only_adds_listing :
    (∀ command : Command, command.Assembles →
      AddsListing (command.withListing false).execute.result
        (command.withListing true).execute.result) ∧
    (∀ (command : Command) (text : String), command.execute.result = .ok text →
      ∃ count, text = Text.trimmedRight text ++ String.ofList (List.replicate count '\n') ∧
        Text.EndsVisibly (Text.trimmedRight text).toList) := by
  constructor
  · intro command assembles
    rcases command.execute_withListing assembles with
      ⟨fault, fails⟩ | ⟨operation, success, whole, does⟩
    · rw [fails, fails]
      exact ⟨fun _ => .rfl, nofun⟩
    · rw [does, does]
      exact addsListing_assembled whole success
  · intro command text succeeded
    exact (printed_of_execute succeeded).eq_trimmedRight_append

/-- The call of a service whose name has two letters, with its listing and trimmed, and the
call of a service without a name. -/
theorem listing_flag_of_service_call :
    let text := "68026162" ++ "\n" ++ "0000: SYSCALL 026162\n"
    (Command.serviceCall "ab" false true).execute.result = .ok text ∧
      (∃ count, text = Text.trimmedRight text ++ String.ofList (List.replicate count '\n') ∧
        Text.EndsVisibly (Text.trimmedRight text).toList) ∧
      (Command.serviceCall "" false true).execute.result = .error (.script .serviceNameEmpty) := by
  intro text
  obtain ⟨adds, trimmed⟩ := listing_flag_only_adds_listing
  have plain : (Command.serviceCall "ab" false false).execute.result = .ok "68026162" := by
    decide +kernel
  have lines : (Command.disassemble "68026162").execute.result = .ok "0000: SYSCALL 026162\n" := by
    decide +kernel
  have fault : (Command.serviceCall "" false false).execute.result =
      .error (.script .serviceNameEmpty) := by
    decide +kernel
  have listed : (Command.serviceCall "ab" false true).execute.result = .ok text := by
    obtain ⟨found, printed, listed⟩ := (adds (.serviceCall "ab" false false) trivial).lines _ plain
    rw [lines] at printed
    cases printed
    exact listed
  exact ⟨listed, trimmed _ _ listed,
    ((adds (.serviceCall "" false false) trivial).faults _).mp fault⟩

end CommandLine

end ContractScript
