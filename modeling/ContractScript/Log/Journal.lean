import ContractScript.Log.Settings

/-!
# The journal of a log

A journal is the log in the course of time: the settings in force and the entries
written so far. Whether a record is written, and whether with the point of time, is
decided when it comes in, by the settings of that moment. Entries that stand are never
changed, and a record that comes in never changes the settings.
-/

namespace ContractScript.Log

/-- A record as it was written, with the point of time or without. -/
structure Entry where
  record : Record
  timed : Bool
  deriving DecidableEq

/-- The text of an entry that was written at a point of time. -/
def Entry.text (entry : Entry) (now : Timestamp) (coloured : Bool) : String :=
  let line := entry.record.line (if entry.timed then some now else none)
  if coloured then entry.record.coloured line else line

/-- The settings in force and what was written so far. -/
structure Journal where
  settings : Settings
  entries : List Entry

namespace Journal

/-- Nothing was changed and nothing was written. -/
def start : Journal :=
  ⟨.initial, []⟩

/-- The journal after a record came in. -/
def note (journal : Journal) (record : Record) : Journal :=
  if journal.settings.admits record.level then
    { journal with entries := journal.entries ++ [⟨record, journal.settings.timestamps⟩] }
  else journal

/-- The journal after records came in, one after the other. -/
def noteAll (journal : Journal) (records : List Record) : Journal :=
  records.foldl note journal

/-- The journal after an action. -/
def act (journal : Journal) : Action → Journal
  | .write record => journal.note record
  | change => { journal with settings := journal.settings.after change }

/-- A record that comes in leaves the settings as they are. -/
@[simp] theorem settings_note (journal : Journal) (record : Record) :
    (journal.note record).settings = journal.settings := by
  unfold note
  split <;> rfl

/-- Records come in one after the other. -/
theorem noteAll_append (journal : Journal) (first second : List Record) :
    journal.noteAll (first ++ second) = (journal.noteAll first).noteAll second :=
  List.foldl_append

/-- Of the records that come in, those that the settings admit are written, in their order. -/
theorem noteAll_eq (journal : Journal) (records : List Record) :
    journal.noteAll records = ⟨journal.settings, journal.entries ++
      (records.filter fun record => journal.settings.admits record.level).map
        fun record => ⟨record, journal.settings.timestamps⟩⟩ := by
  induction records generalizing journal with
  | nil => simp [noteAll]
  | cons record later inductionHypothesis =>
    have rest := inductionHypothesis (journal.note record)
    rw [settings_note] at rest
    rw [noteAll, List.foldl_cons]
    refine rest.trans ?_
    by_cases admitted : journal.settings.admits record.level = true
    · simp [note, admitted]
    · simp [note, admitted]

end Journal

end ContractScript.Log
