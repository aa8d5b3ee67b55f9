import Mathlib.Data.List.Basic

namespace Cnmsql.ObjectStore

abbrev Time := Nat

def second : Time := 1000000000

/-- What a segment archived that the surviving timeline never executed. -/
structure ArchiveFork where
  gtidSet : String := ""
  afterSeq : List (Nat × Nat) := []
  authorityGTIDSet : String := ""
  detectedAt : Time := 0
  detectedBy : String := ""
  deriving DecidableEq

/-- The last fork check run over an index. -/
structure ArchiveForkCheck where
  checkedAt : Time
  checkedBy : String
  deriving DecidableEq

/-- What `server` authored in `domain` with a sequence in `(after, through]`. -/
structure ArchiveDisownedRange where
  domain : Nat
  server : Nat
  after : Nat
  through : Nat
  deriving DecidableEq

/-- The index-level record of disowned transactions. -/
structure ArchiveDisowned where
  gtidSet : String := ""
  ranges : List ArchiveDisownedRange := []
  deriving DecidableEq

/-- One server's contribution to the archived timeline. -/
structure ArchiveSegment where
  serverUUID : String
  instanceName : String := ""
  binlogs : List String := []
  gtidSet : String := ""
  startGTIDSet : String := ""
  fork : Option ArchiveFork := none
  startedAt : Time := 0
  endedAt : Time := 0
  deriving DecidableEq

/-- One change of primary on a MariaDB cluster. -/
structure ArchiveEpoch where
  instanceName : String := ""
  serverID : Nat
  handoff : String := ""
  deriving DecidableEq

/-- The cluster-level archive index: the ordered timeline, oldest segment first. -/
structure ArchiveIndex where
  clusterName : String := ""
  clusterUID : String := ""
  segments : List ArchiveSegment := []
  coveredGTIDSet : String := ""
  updatedAt : Time := 0
  forkCheck : Option ArchiveForkCheck := none
  generation : Int := 0
  disowned : Option ArchiveDisowned := none
  archivedThrough : Time := 0
  mariadbTimeline : List ArchiveEpoch := []
  deriving DecidableEq

end Cnmsql.ObjectStore
