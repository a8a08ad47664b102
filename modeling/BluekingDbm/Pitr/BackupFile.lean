import Mathlib.Data.List.Basic

/-! The backup files of one MongoDB instance, as their names and records describe them. -/
namespace Pitr

/-- A timestamp of the oplog: a second and a counter within it. -/
structure TS where
  sec : ℕ
  i : ℕ
  deriving DecidableEq, Repr

inductive BackupType
  | full
  | incr
  deriving DecidableEq, Repr

inductive BackupFileVersion
  | v0
  | v1
  deriving DecidableEq, Repr

/-- A backup file. The full string is the hour in which a full backup began: it ties the
incrementals to the full backup they follow. -/
structure BackupFileName where
  version : BackupFileVersion
  fileName : String
  type : BackupType
  startTime : ℕ
  firstTs : TS
  lastTs : TS
  v0FullStr : String
  v0IncrSeq : UInt32
  deriving DecidableEq, Repr

end Pitr
