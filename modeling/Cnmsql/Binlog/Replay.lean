import Cnmsql.ObjectStore.Index
import Cnmsql.Replication.GtidStrings

namespace Cnmsql.Binlog

open Framework Replication ObjectStore

/-- The errors of package `binlog` a caller can test for with `errors.Is`. -/
inductive Sentinel where
  | errTargetBeforeBackup
  | errTargetBeyondArchive
  | errForkedTimeline
  | errBackupOnDeadBranch
  | errArchiveGap
  deriving DecidableEq

/-- Why a plan or a check fails, with what the message names. -/
inductive ReplayError where
  | indexRequired
  | parse (context : String) (cause : GTIDError)
  | beyondArchivedThrough (archivedThrough target : Time)
  | targetBeforeBackup
  | targetBeyondArchive
  | forkedTimeline
  | unrecordedFork (earlier dead later : String)
  | backupOnDeadBranch (held : String)
  | archiveGap (gap : String)
  | targetMissing (missing : String)
  deriving DecidableEq

def ReplayError.sentinel : ReplayError → Option Sentinel
  | .indexRequired | .parse _ _ => none
  | .beyondArchivedThrough _ _ | .targetBeyondArchive => some .errTargetBeyondArchive
  | .targetBeforeBackup => some .errTargetBeforeBackup
  | .forkedTimeline | .unrecordedFork _ _ _ => some .errForkedTimeline
  | .backupOnDeadBranch _ => some .errBackupOnDeadBranch
  | .archiveGap _ | .targetMissing _ => some .errArchiveGap

/-- The set operations replay planning is written against. -/
structure GTIDOps where
  Carrier : Type
  parse : String → Except GTIDError Carrier
  contains : Carrier → Carrier → Bool
  union : Carrier → Carrier → Carrier
  isEmpty : Carrier → Bool
  string : Carrier → String

@[reducible] def mysqlGTIDSet [CaseMapping] : GTIDOps where
  Carrier := GTIDSet
  parse raw := if raw = "" then .ok ∅ else parseGTIDSet raw
  contains m o := if o.isEmpty then true else m.contains o
  union m o := m.union o
  isEmpty m := m.isEmpty
  string m := m.string

/-- The resolved recovery bound; empty means replay to the latest archived point. -/
structure RecoveryTarget where
  time : Option Time := none
  gtid : String := ""
  immediate : Bool := false
  deriving DecidableEq

/-- One segment's files to download and replay, in timeline order. -/
structure ReplaySegment where
  serverUUID : String
  files : List String
  gtidSet : String
  fork : Option ArchiveFork
  deriving DecidableEq

/-- The segments to replay and the bounds for `mysqlbinlog`; `stopDatetime` is in whole seconds. -/
structure ReplayPlan where
  segments : List ReplaySegment := []
  anchorGTID : String := ""
  excludeGTIDs : String := ""
  includeGTIDs : String := ""
  stopDatetime : Option Nat := none
  targetTime : Time := 0
  disownedGTIDs : String := ""
  forkChecked : Bool := false
  warnings : List String := []
  deriving DecidableEq

def replaySegment (seg : ArchiveSegment) : ReplaySegment :=
  ⟨seg.serverUUID,seg.binlogs,seg.gtidSet,seg.fork⟩

/-- Refuses a time the archive cannot prove it reaches. -/
def checkTimeTarget (idx : ArchiveIndex) (target : RecoveryTarget) : Except ReplayError Unit :=
  match target.time with
  | none => .ok ()
  | some t => require (idx.archivedThrough=0 ∨ t ≤ idx.archivedThrough)
      (.beyondArchivedThrough idx.archivedThrough t)

/-- The frontier walk: the segments that bring something new, and the set reached. -/
def walkSegments (ops : GTIDOps) :
    List ArchiveSegment → ops.Carrier → Except ReplayError (List ReplaySegment × ops.Carrier)
  | [],frontier => .ok ([],frontier)
  | seg::rest,frontier => do
    let segSet ← (ops.parse seg.gtidSet).mapError
      (.parse ("binlog: parsing segment " ++ seg.serverUUID ++ " GTID set"))
    if !ops.isEmpty segSet && ops.contains frontier segSet then walkSegments ops rest frontier
    else do
      let (planned,frontier) ← walkSegments ops rest (ops.union frontier segSet)
      return (replaySegment seg::planned,frontier)

variable (ops : GTIDOps)

def applyTargetWithOps (plan : ReplayPlan) (frontier anchor : ops.Carrier) (target : RecoveryTarget) :
    Except ReplayError ReplayPlan :=
  if target.gtid ≠ "" then do
    let want ← (ops.parse target.gtid).mapError (.parse "binlog: parsing target GTID")
    require (ops.contains want anchor=true) .targetBeforeBackup
    require (ops.contains frontier want=true) .targetBeyondArchive
    return { plan with includeGTIDs := ops.string want }
  else
    match target.time with
    | some t => .ok { plan with stopDatetime := some (t / second), targetTime := t }
    | none => .ok plan

/-- The declared coverage must follow from the anchor and the segments. -/
def checkCoverage (frontier : ops.Carrier) (coveredGTIDSet : String) : Except ReplayError Unit :=
  if coveredGTIDSet = "" then .ok ()
  else do
    let covered ← (ops.parse coveredGTIDSet).mapError (.parse "binlog: parsing index coverage")
    require (ops.contains frontier covered=true) .forkedTimeline

def planReplayWithOps (idx : Option ArchiveIndex) (anchorGTID : String) (target : RecoveryTarget) :
    Except ReplayError ReplayPlan :=
  match idx with
  | none => .error .indexRequired
  | some idx => do
    checkTimeTarget idx target
    let anchor ← (ops.parse anchorGTID).mapError (.parse "binlog: parsing anchor GTID")
    let (planned,frontier) ← walkSegments ops idx.segments anchor
    let plan : ReplayPlan :=
      { segments := planned, anchorGTID := ops.string anchor, excludeGTIDs := ops.string anchor
        forkChecked := idx.forkCheck.isSome }
    checkCoverage ops frontier idx.coveredGTIDSet
    applyTargetWithOps ops plan frontier anchor target

variable [CaseMapping] (idx : ArchiveIndex)

def disownedTexts : List String :=
  (idx.segments.filterMap fun seg => seg.fork.bind fun f =>
    if f.gtidSet ≠ "" then some f.gtidSet else none) ++
  (match idx.disowned with
    | some d => if d.gtidSet ≠ "" then [d.gtidSet] else []
    | none => [])

def mixedTargetWarning (allForks : String) : String :=
  "recovery targetGTID includes transactions the surviving timeline disowned (" ++ allForks ++
    "); together with transactions written after the failover it recovers a state that never existed"

variable (target : RecoveryTarget) (plan : ReplayPlan)

def applyMySQLForks : Except ReplayError ReplayPlan := do
  let allForks ← (unionGTIDStrings (disownedTexts idx)).mapError
    (.parse "binlog: parsing fork records")
  if target.gtid ≠ "" then do
    let mixed ← (intersectsGTIDStrings plan.includeGTIDs allForks).mapError
      (.parse "binlog: comparing target with fork records")
    return { plan with
      disownedGTIDs := allForks
      warnings := if mixed then plan.warnings++[mixedTargetWarning allForks] else plan.warnings }
  else do
    let onDeadBranch ← (differenceGTIDStrings allForks plan.excludeGTIDs).mapError
      (.parse "binlog: comparing anchor with fork records")
    require (onDeadBranch=allForks)
      (.backupOnDeadBranch ((differenceGTIDStrings allForks onDeadBranch).toOption.getD ""))
    let exclude ← (unionGTIDStrings [plan.excludeGTIDs,allForks]).mapError
      (.parse "binlog: merging fork records into the exclude set")
    return { plan with disownedGTIDs := allForks, excludeGTIDs := exclude }

def parseSegments : List ArchiveSegment → Except ReplayError (List (ArchiveSegment × GTIDSet))
  | [] => .ok []
  | seg::rest => do
    let set ← (parseGTIDSet seg.gtidSet).mapError
      (.parse ("binlog: parsing segment " ++ seg.serverUUID ++ " GTID set"))
    let sets ← parseSegments rest
    return (seg,set)::sets

/-- What `earlier` holds of its own past where `later` took over, when `later` re-logged some,
authored its own and `earlier` never saw that. -/
def deadBranch (known : GTIDSet) (earlier later : ArchiveSegment × GTIDSet) : GTIDSet :=
  let author := toLower earlier.1.serverUUID
  let successor := toLower later.1.serverUUID
  match (earlier.2.get author).getLast?,(later.2.get author).getLast? with
  | some lastOwn,some relogged =>
    if later.2.get successor=[] ∨ earlier.2.get successor≠[] ∨
        lastOwn.stop≤relogged.stop then ∅
    else (((∅ : GTIDSet).addInterval author ⟨relogged.stop+1,lastOwn.stop⟩).intersect
      earlier.2).difference known
  | _,_ => ∅

/-- The inner loop of `checkUnrecordedForks`. -/
def checkAgainstLater (known : GTIDSet) (earlier : ArchiveSegment × GTIDSet) :
    List (ArchiveSegment × GTIDSet) → Except ReplayError Unit
  | [] => .ok ()
  | later::rest =>
    if !(deadBranch known earlier later).isEmpty then
      .error (.unrecordedFork earlier.1.serverUUID (deadBranch known earlier later).string
        later.1.serverUUID)
    else checkAgainstLater known earlier rest

/-- The outer loop of `checkUnrecordedForks`. -/
def checkSegmentPairs (known : GTIDSet) :
    List (ArchiveSegment × GTIDSet) → Except ReplayError Unit
  | [] => .ok ()
  | earlier::rest => do
    checkAgainstLater known earlier rest
    checkSegmentPairs known rest

/-- The restore backstop for forks no primary recorded. -/
def checkUnrecordedForks (recorded : String) : Except ReplayError Unit := do
  let known ← (parseGTIDSet recorded).mapError (.parse "binlog: parsing disowned set")
  let sets ← parseSegments idx.segments
  checkSegmentPairs known sets

/-- For a source the backup lacks, what precedes its first transaction. -/
def addHead (anchor missing : GTIDSet) (e : Sigma fun _ : String => List GTIDInterval) : GTIDSet :=
  match e.2 with
  | [] => missing
  | first::_ =>
    if anchor.get e.1≠[] ∨ first.start≤1 then missing
    else missing.addInterval e.1 ⟨1,first.start-1⟩

/-- The holes of `got`, and the heads of sources the backup lacks. -/
def missingFrom (anchor got : GTIDSet) : GTIDSet :=
  got.entries.foldl (addHead anchor) got.holes

/-- Reports what `result` misses that neither the backup's holes nor the disowned set explain. -/
def checkMySQLGaps (anchorGTID result disowned : String) : Except ReplayError Unit := do
  let anchor ← (parseGTIDSet anchorGTID).mapError (.parse "binlog: parsing anchor GTID")
  let got ← (parseGTIDSet result).mapError (.parse "binlog: parsing recovered GTID set")
  let disowned ← (parseGTIDSet disowned).mapError (.parse "binlog: parsing disowned GTID set")
  let expected := disowned.union anchor.holes
  let gap := (missingFrom anchor got).difference expected
  require (gap.isEmpty=true) (.archiveGap gap.string)

/-- The gap check of a latest recovery, over everything the plan covers. -/
def checkPlannedGaps (anchorGTID : String) (plan : ReplayPlan) : Except ReplayError Unit := do
  let union ← (unionGTIDStrings (anchorGTID::plan.segments.map ReplaySegment.gtidSet)).mapError
    (.parse "binlog: merging planned coverage")
  checkMySQLGaps anchorGTID union plan.disownedGTIDs

def planReplay (idx : Option ArchiveIndex) (anchorGTID : String) (target : RecoveryTarget) :
    Except ReplayError ReplayPlan :=
  match idx with
  | none => planReplayWithOps mysqlGTIDSet none anchorGTID target
  | some idx => do
    let plan ← planReplayWithOps mysqlGTIDSet (some idx) anchorGTID target
    let plan ← applyMySQLForks idx target plan
    runIf (target.gtid = "") (checkUnrecordedForks idx plan.disownedGTIDs)
    runIf (target.gtid = "" ∧ target.time=none) (checkPlannedGaps anchorGTID plan)
    return plan

/-- A `targetGTID` must be fully present after replay. -/
def checkTargetPresent (executed : String) : Except ReplayError Unit :=
  if plan.includeGTIDs = "" then .ok ()
  else do
    let missing ← (differenceGTIDStrings plan.includeGTIDs executed).mapError
      (.parse "binlog: comparing the recovered set with the target")
    require (missing = "") (.targetMissing missing)

def verifyReplayedGTIDs (anchorGTID executed : String) : Except ReplayError Unit := do
  checkTargetPresent plan executed
  checkMySQLGaps anchorGTID executed plan.disownedGTIDs

end Cnmsql.Binlog
