import Cnmsql.Engine.MariaHistory
import Cnmsql.Framework.Execution

namespace Cnmsql.Controller

open Framework Engine MariaDBTimeline

/-- The role an instance reports. -/
inductive Role where
  | primary
  | replica
  | unknown
  deriving DecidableEq

/-- One entry of `status.mariadbTimeline`. -/
structure StatusEpoch where
  instanceName : String
  serverID : UInt32
  handoff : String
  deriving DecidableEq

/-- What the timeline reads of an instance's archiving report. -/
structure ArchivingReport where
  forkCheckedAt : String
  forkCheckGeneration : Int
  oldestSegmentPosition : String
  mariadbTimeline : List StatusEpoch

/-- What the timeline reads of an instance's status. -/
structure ServerStatus where
  role : Role
  readOnly : Bool := false
  superReadOnly : Bool := false
  serverID : UInt32
  gtidSlavePos : String
  gtidExecuted : String
  archiving : Option ArchivingReport := none

structure TimelineCluster where
  flavor : String := "mariadb"
  isReplica : Bool := false
  isArchivingEnabled : Bool := false
  currentPrimaryGeneration : Int := 0
  mariadbTimeline : List StatusEpoch := []
  gtidExecutedByInstance : Map String String := ∅
  oldestSegmentPosition : Option String := none

structure TimelineObservation where
  primaryName : String
  instanceNames : List String := []
  statusByInstance : Map String ServerStatus
  gtidByInstance : Map String String := ∅

def toEngineTimeline (epochs : List StatusEpoch) : MariaDBTimeline :=
  epochs.map fun e => ⟨e.serverID,e.handoff⟩

def archiveReportCurrent (a : ArchivingReport) (generation : Int) : Bool :=
  a.forkCheckedAt ≠ "" ∧ generation≤a.forkCheckGeneration

variable (c : TimelineCluster) (o : TimelineObservation)

def primaryArchiveReport (c : TimelineCluster) : Option ArchivingReport := do
  let status ← o.statusByInstance.lookup o.primaryName
  let a ← status.archiving
  if archiveReportCurrent a c.currentPrimaryGeneration then some a else none

def archivedTimeline (c : TimelineCluster) : List StatusEpoch :=
  ((primaryArchiveReport o c).map (·.mariadbTimeline)).getD []

def writablePrimary (status : ServerStatus) : Bool :=
  status.role = .primary ∧ status.readOnly=false ∧ status.superReadOnly=false ∧
    status.serverID≠0

/-- The canonical form of a position, the position itself when it does not parse. -/
def canonicalMariaDBPosition (raw : String) : String :=
  match parseMariaPos raw with
  | .ok p => p.string
  | .error _ => raw

def oldestArchivedPosition : String :=
  match primaryArchiveReport o c with
  | some report => report.oldestSegmentPosition
  | none => c.oldestSegmentPosition.getD ""

def positionOf (name : String) : Option String :=
  ((o.gtidByInstance.lookup name).filter (· ≠ "")).or
    ((c.gtidExecutedByInstance.lookup name).filter (· ≠ ""))

/-- The positions the operator still has to judge against the timeline, by name. -/
def timelineReferences : Map String String :=
  let refs := o.instanceNames.foldl (fun (refs : Map String String) name =>
    match positionOf c o name with
    | some position => refs.insert name position
    | none => refs) ∅
  let oldest := oldestArchivedPosition c o
  if c.isArchivingEnabled ∧ oldest ≠ "" then refs.insert "archive" oldest else refs

def priorTimeline : List StatusEpoch :=
  if c.mariadbTimeline=[] then archivedTimeline o c else c.mariadbTimeline

/-- The epoch of a writable primary that is not the last epoch's; the first starts at its position,
later ones at what was inherited. -/
def newEpoch (timeline : List StatusEpoch) (o : TimelineObservation) : Option StatusEpoch := do
  let status ← o.statusByInstance.lookup o.primaryName
  if writablePrimary status ∧ timeline.getLast?.map (·.instanceName)≠some o.primaryName then
    let handoff := if timeline=[] then status.gtidExecuted else status.gtidSlavePos
    some ⟨o.primaryName,status.serverID,canonicalMariaDBPosition handoff⟩
  else none

def extended : List StatusEpoch :=
  priorTimeline c o++(newEpoch (priorTimeline c o) o).toList

def dropped : Nat :=
  pruned (toEngineTimeline (extended c o)) ((timelineReferences c o).entries.map (·.2))

def nextMariaDBTimeline : List StatusEpoch :=
  if c.flavor ≠ "mariadb" ∨ c.isReplica then []
  else (extended c o).drop (dropped c o)

/-- An observation leaves the known epochs and the new one, less the oldest. -/
theorem toEngineTimeline_next (hflavor : c.flavor = "mariadb") (hrep : c.isReplica=false) :
    toEngineTimeline (nextMariaDBTimeline c o) =
      (toEngineTimeline (priorTimeline c o) ++
        toEngineTimeline (newEpoch (priorTimeline c o) o).toList).drop (dropped c o) := by
  simp [nextMariaDBTimeline,hflavor,hrep,toEngineTimeline,extended]

theorem priorTimeline_eq {c : TimelineCluster} {o : TimelineObservation}
    (harch : c.mariadbTimeline=[] → archivedTimeline o c=[]) :
    priorTimeline c o=c.mariadbTimeline := by
  rw [priorTimeline]
  split
  · rename_i ht
    rw [harch ht,ht]
  · rfl

theorem reads_canonical (raw : String) (position : UInt32 → Option MariaEntry)
    (h : Reads raw position) : Reads (canonicalMariaDBPosition raw) position := by
  obtain ⟨p,hp,hlookup⟩ := h
  obtain ⟨q,hq,hsame⟩ := parseMariaPos_string p
  rw [canonicalMariaDBPosition,hp]
  exact ⟨q,hq,fun d => (hsame d).trans (hlookup d)⟩

def demoServers (name : String) : UInt32 :=
  if name = "demo-1" then 1 else if name = "demo-2" then 2 else 3

/-- A writable primary, while `demo-1` last reported sequence 1. -/
def seen (name slavePos executed : String) : TimelineObservation where
  primaryName := name
  instanceNames := ["demo-1"]
  statusByInstance := AList.insert name {
    role := .primary
    serverID := demoServers name
    gtidSlavePos := slavePos
    gtidExecuted := executed } ∅
  gtidByInstance := AList.insert "demo-1" "0-1-1" ∅

theorem archivedTimeline_seen (c : TimelineCluster) (name slavePos executed : String) :
    archivedTimeline (seen name slavePos executed) c=[] := by
  simp only [archivedTimeline,primaryArchiveReport,seen,AList.lookup_insert]
  rfl

end Cnmsql.Controller
