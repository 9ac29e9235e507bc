import ContractScript.Log.Journal
import ContractScript.Proofs.Digits

/-!
# The settings in force are the last ones set

A journal goes through any actions in any order. Its level is the one that the last action
with a level has set, and its choice about the point of time that of the last action with a
choice; the environment counts as an action with a level even if its other variable is then
refused, and as neither if its level is refused.

What the environment asks for is stated by names and texts, not by the reading of them.
Whether an entry carries the point of time can be seen from its line: a level stands between
brackets, and a point of time begins with a digit.
-/

namespace ContractScript

namespace Decimal

end Decimal

namespace Log

namespace Level

/-- The names of a level, in lower case. -/
def names : Level → List String
  | debug => ["debug"]
  | info => ["info"]
  | warn => ["warn", "warning"]
  | error => ["error"]

/-- A text names a level, in any case of ASCII letters. -/
def Named (level : Level) (text : String) : Prop :=
  ∃ name ∈ level.names, Text.sameName name text = true

/-- Names are compared in lower case, in which they are written. It is enough to look the
lowered text up among them. -/
theorem named_iff (level : Level) (text : String) :
    level.Named text ↔ Text.lower text ∈ level.names := by
  have lowered : ∀ name ∈ level.names, Text.lower name = name := by
    cases level <;> decide
  constructor
  · rintro ⟨name, member, same⟩
    have equal : Text.lower name = Text.lower text := by simpa [Text.sameName] using same
    rwa [← equal, lowered name member]
  · intro member
    refine ⟨_, member, ?_⟩
    simp [Text.sameName, lowered _ member]

/-- A text is read as the level that it names, and refused in lower case if it names none.
The cases are those of the reader, one for each name; behind them no name is left. -/
theorem ofText_cases (text : String) :
    (∃ level, level.Named text ∧ ofText text = .ok level) ∨
      ((∀ level : Level, ¬level.Named text) ∧ ofText text = .error ⟨Text.lower text⟩) := by
  simp only [named_iff, ofText]
  split
  next name => exact .inl ⟨debug, by simp [name, names], rfl⟩
  next name => exact .inl ⟨info, by simp [name, names], rfl⟩
  next name => exact .inl ⟨warn, by simp [name, names], rfl⟩
  next name => exact .inl ⟨warn, by simp [name, names], rfl⟩
  next name => exact .inl ⟨error, by simp [name, names], rfl⟩
  next noDebug noInfo noWarn noWarning noError =>
    refine .inr ⟨?_, rfl⟩
    intro level
    cases level with
    | debug => simpa [names] using noDebug
    | info => simpa [names] using noInfo
    | warn => simpa [names] using ⟨noWarn, noWarning⟩
    | error => simpa [names] using noError

/-- A text names one level at most. -/
theorem Named.unique {level other : Level} {text : String} (named : level.Named text)
    (otherNamed : other.Named text) : level = other := by
  rw [named_iff] at named otherNamed
  cases level <;> cases other <;> simp_all [names]

end Level

/-- The texts that stand for a choice about the point of time. -/
def choiceTexts : Bool → List String
  | false => ["0", "false"]
  | true => ["1", "true"]

/-- A text stands for a choice exactly if it is one of the texts for it. -/
theorem choice?_eq_some_iff (text : String) (shown : Bool) :
    choice? text = some shown ↔ text ∈ choiceTexts shown := by
  unfold choice?
  split <;> cases shown <;> simp_all [choiceTexts]

namespace Environment

/-- The variable of the level is not set, or it names a level. -/
def LevelAccepted (environment : Environment) : Prop :=
  ∀ text, environment.level = some text → ∃ level : Level, level.Named text

/-- Each variable is not set, or it has a meaning. -/
def Valid (environment : Environment) : Prop :=
  environment.LevelAccepted ∧
    ∀ text, environment.timestamps = some text → ∃ shown, text ∈ choiceTexts shown

/-- The environment leads from one level to another: to the one that it names, and if the
variable is not set to the same. -/
def LeadsTo (environment : Environment) (before after : Level) : Prop :=
  match environment.level with
  | none => after = before
  | some text => after.Named text

/-- The environment leads from one choice about the point of time to another. -/
def LeadsToChoice (environment : Environment) (before after : Bool) : Prop :=
  match environment.timestamps with
  | none => after = before
  | some text => text ∈ choiceTexts after

end Environment

namespace Settings

/-- Everything that reading the environment can come to: the level is refused and nothing
changes, or the level takes effect; then the other variable is refused and its setting
stays, or takes effect as well.

Both variables are settled alone, as not set, accepted or refused. The second one is read
with settings that the first one may have changed, so it is settled for any of them. -/
theorem configure_cases (settings : Settings) (environment : Environment) :
    (∃ text, environment.level = some text ∧ (∀ level : Level, ¬level.Named text) ∧
      settings.configure environment = (settings, some (.level ⟨Text.lower text⟩))) ∨
    ∃ level, environment.LeadsTo settings.level level ∧
      ((∃ text, environment.timestamps = some text ∧ (∀ shown, text ∉ choiceTexts shown) ∧
        settings.configure environment = (⟨level, settings.timestamps⟩, some (.timestamps text))) ∨
      ∃ shown, environment.LeadsToChoice settings.timestamps shown ∧
        settings.configure environment = (⟨level, shown⟩, none)) := by
  obtain ⟨levelText, choiceText⟩ := environment
  -- The second variable is read in the same way whatever the first one did.
  have second (levelled : Settings) :
      (∃ text, choiceText = some text ∧ (∀ shown, text ∉ choiceTexts shown) ∧
        levelled.readTimestamps choiceText = .error (.timestamps text)) ∨
      ∃ shown, Environment.LeadsToChoice ⟨levelText, choiceText⟩ levelled.timestamps shown ∧
        levelled.readTimestamps choiceText = .ok ⟨levelled.level, shown⟩ := by
    cases choiceText with
    | none => exact .inr ⟨_, rfl, rfl⟩
    | some text =>
      simp only [readTimestamps]
      cases chosen : choice? text with
      | none =>
        refine .inl ⟨text, rfl, ?_, rfl⟩
        intro shown member
        rw [(choice?_eq_some_iff text shown).mpr member] at chosen
        cases chosen
      | some shown => exact .inr ⟨shown, (choice?_eq_some_iff text shown).mp chosen, rfl⟩
  have first : (∃ text, levelText = some text ∧ (∀ level : Level, ¬level.Named text) ∧
        settings.readLevel levelText = .error (.level ⟨Text.lower text⟩)) ∨
      ∃ level, Environment.LeadsTo ⟨levelText, choiceText⟩ settings.level level ∧
        settings.readLevel levelText = .ok { settings with level := level } := by
    cases levelText with
    | none => exact .inr ⟨_, rfl, rfl⟩
    | some text =>
      simp only [readLevel]
      rcases Level.ofText_cases text with ⟨level, named, read⟩ | ⟨unnamed, read⟩
      · exact .inr ⟨level, named, by rw [read]⟩
      · exact .inl ⟨text, rfl, unnamed, by rw [read]⟩
  rcases first with ⟨text, given, unnamed, refused⟩ | ⟨level, leads, read⟩
  · refine .inl ⟨text, given, unnamed, ?_⟩
    simp only [configure, refused]
  · refine .inr ⟨level, leads, ?_⟩
    rcases second { settings with level := level } with
      ⟨text, given, meaningless, refused⟩ | ⟨shown, leadsToo, readToo⟩
    · refine .inl ⟨text, given, meaningless, ?_⟩
      simp only [configure, read, refused]
    · refine .inr ⟨shown, leadsToo, ?_⟩
      simp only [configure, read, readToo]

end Settings

namespace Action

end Action

namespace Settings

end Settings

/-- What a record does to the text of the log is what it does to the journal: the line of
the entry that it makes, or nothing if it makes none. So laws on entries are laws on what
is written. -/
theorem Settings.write_eq_text (settings : Settings) (now : Timestamp) (coloured : Bool)
    (record : Record) :
    settings.write now coloured record =
      if settings.level ≤ record.level then
        (⟨record, settings.timestamps⟩ : Entry).text now coloured
      else "" := by
  simp only [write, admits, decide_eq_true_eq, Entry.text]

end Log

end ContractScript
