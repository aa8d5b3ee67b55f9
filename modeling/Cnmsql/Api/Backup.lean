import Mathlib.Data.Option.Basic

namespace Cnmsql.Api

/-- `status.phase` of a Backup; a new Backup has none. -/
inductive BackupPhase where
  | unset
  | pending
  | running
  | completed
  | failed
  deriving DecidableEq

/-- How a backup is taken. -/
inductive BackupMethod where
  | xtrabackup
  | volumeSnapshot
  | logical
  deriving DecidableEq

end Cnmsql.Api
