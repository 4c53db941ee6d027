/-!
# Settings

The settings of a client: the texts that it shows while and after it saves, how many ids
it reserves at a time, and how long it waits at most for its records to be saved.

A client is idle until it sends something; then it is saving, and has saved or has not.
-/

namespace RecordSync

/-- What a client shows of a record. -/
inductive Status
  /-- Nothing has been sent yet. -/
  | idle
  | saving
  | saved
  /-- The last attempt failed; some changes exist only here. -/
  | notSaved
deriving DecidableEq, Repr

/-- Why settings were refused. -/
inductive SettingsError
  /-- The text holds no settings. -/
  | unreadable
  | zeroBatch
  | zeroTimeout
deriving DecidableEq, Repr

def SettingsError.message : SettingsError → String
  | unreadable => "config error: the text holds no settings"
  | zeroBatch => "config error: id_batch_size must be positive"
  | zeroTimeout => "config error: drain_timeout_ms must be positive when set"

structure Settings where
  savingText : String
  savedText : String
  failedText : String
  /-- The number of ids that are reserved at a time. -/
  batchSize : Nat
  /-- The longest wait for records to be saved, in milliseconds. -/
  drainTimeout : Option Nat
deriving DecidableEq, Repr

namespace Settings

/-- The settings of a client that was given none. -/
def default : Settings := ⟨"Сохранение...", "", "Не все изменения сохранены", 16, none⟩

/-- Refuses settings with which a client could not work. -/
def validate (s : Settings) : Except SettingsError Settings :=
  if s.batchSize = 0 then .error .zeroBatch
  else if s.drainTimeout = some 0 then .error .zeroTimeout
  else .ok s

def statusText (s : Settings) : Status → String
  | .idle => ""
  | .saving => s.savingText
  | .saved => s.savedText
  | .notSaved => s.failedText

end Settings
end RecordSync
