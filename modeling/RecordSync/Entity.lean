import RecordSync.Catalog

/-!
# The records of an exam service

A task has a statement, the shape of its answer and attachments.  A variant ("kim") has a
schedule, an ordered list of task entries and windows of access for groups of
participants.  A probe has a field of each kind and a set of each kind, for trying out a
connection.

Times are milliseconds since 1970, durations are milliseconds.
-/

namespace RecordSync

/-- The types of records. -/
inductive Entity
  | task
  | attachment
  | kim
  | taskEntry
  | groupAccess
  | probe
deriving DecidableEq, Repr

namespace Entity

def fields : Entity → List FieldDecl
  | task => [⟨"task_type", .integer⟩, ⟨"tag", .text⟩, ⟨"statement", .text⟩,
      ⟨"answer_rows", .integer⟩, ⟨"answer_cols", .integer⟩, ⟨"answer", .bytes⟩]
  | attachment => [⟨"filename", .text⟩, ⟨"mime_type", .text⟩, ⟨"shown_to_user", .boolean⟩,
      ⟨"contents", .bytes⟩]
  | kim => [⟨"name", .text⟩, ⟨"is_exam", .boolean⟩, ⟨"start_time", .integer⟩,
      ⟨"end_time", .integer⟩, ⟨"duration", .integer⟩, ⟨"is_virtual", .boolean⟩]
  | taskEntry => [⟨"task_type", .integer⟩, ⟨"tag", .text⟩]
  | groupAccess =>
      [⟨"group_id", .integer⟩, ⟨"start_time", .integer⟩, ⟨"end_time", .integer⟩]
  | probe => [⟨"ratio", .real⟩, ⟨"note", .text⟩, ⟨"flag", .boolean⟩, ⟨"count", .integer⟩,
      ⟨"data", .bytes⟩]

def sets : Entity → List (SetDecl Entity)
  | task => [⟨"attachments", .unordered, attachment⟩]
  | kim => [⟨"tasks", .ordered, taskEntry⟩, ⟨"access", .unordered, groupAccess⟩]
  | probe => [⟨"kims", .ordered, kim⟩, ⟨"tasks", .unordered, task⟩]
  | attachment | taskEntry | groupAccess => []

instance : Catalog Entity where
  fields := fields
  sets := sets
  nodup_names := fun type => by cases type <;> decide

end Entity
end RecordSync
