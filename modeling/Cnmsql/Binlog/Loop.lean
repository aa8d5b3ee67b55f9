import Cnmsql.Binlog.Archiver

namespace Cnmsql.Binlog.Loop

open Framework Replication ObjectStore Engine Archiver

def archivedThroughResolution : Time := 60*second

/-- The time before which all commits are archived, zero when unknown. -/
def archivedThrough (flushed : Flushed) (logs : List BinaryLog) (res : ArchiveResult)
    (listedAt : Time) : Time :=
  if flushed.flushedActive = "" ∨ res.deferred ≠ "" ∨ 0<pendingAfter logs res.lastArchivedBinlog then
    0
  else if (activeLog logs).name=flushed.flushedActive ∧
      (activeLog logs).sizeBytes=flushed.flushedSize then listedAt
  else flushed.flushedAt

def listBinaryLogs : Pass (List BinaryLog) := do
  orFail "binlog: SHOW BINARY LOGS" (← perform .listBinaryLogs)

def rotate : Pass (List BinaryLog × Time) := do
  let flushedAt ← now
  orFail "binlog: flushing logs" (← perform .flushLogs)
  let lastFlush ← now
  modify fun m => { m with lastFlush }
  let listedAt ← now
  let logs ← listBinaryLogs
  let active := activeLog logs
  modify fun m =>
    { m with
      lastFlushSize := active.sizeBytes
      flushed := { flushedAt, flushedActive := active.name, flushedSize := active.sizeBytes } }
  return (logs,listedAt)

variable (c : Options) (logs : List BinaryLog)

/-- The time trigger of `tick`: rotates when due and the log has grown; the first pass starts the
clock. -/
def rotateIfDue (listedAt : Time) : Pass (List BinaryLog × Time) := do
  let m ← get
  if m.lastFlush=0 then
    let lastFlush ← now
    modify fun m => { m with lastFlush, lastFlushSize := -1 }
    return (logs,listedAt)
  else
    let t ← now
    if c.flushInterval≤t-m.lastFlush ∧ m.lastFlushSize<(activeLog logs).sizeBytes then rotate
    else return (logs,listedAt)

def stampDue (m : Memory) (through : Time) : Bool :=
  through≠0 ∧ archivedThroughResolution≤through-m.stampedThrough

/-- Checks the archive when the pass did not and the stamp is due. -/
def recheck [CaseMapping] (c : Options) (report : Option ForkReport) (through : Time) :
    Pass (Option ForkReport) := do
  let m ← get
  let due := stampDue m through
  let t ← now
  let recheckDue : Bool := c.flushInterval≤t-m.lastCheck
  if (m.forkChecked=false ∨ recheckDue ∨ due) ∧ (report.all (!·.checked) ∨ due) then
    let stamp := if due then through else 0
    let r ← checkArchive c stamp
    let lastCheck ← now
    modify fun m =>
      { m with
        lastCheck
        stampedThrough := if r.archivedThrough≠0 ∨ due then stamp else m.stampedThrough }
    return some r
  else return report

/-- Completes the pass's fork check and stamps the index when the stamp is due. -/
def checkForks [CaseMapping] (c : Options) (report : Option ForkReport) (through : Time) :
    Pass Unit := do
  if c.forks=false then return
  modify fun m => (report.filter (·.checked)).elim m fun r => { m with lastCheck := r.checkedAt }
  let report ← recheck c report through
  modify fun m =>
    if report.any fun r => r.err.isNone && r.checked then { m with forkChecked := true } else m

/-- The oldest archived file the floor keeps, and who still needs it. -/
structure PurgeHold where
  file : String := ""
  heldBy : List String := []
  deriving DecidableEq

/-- Where the purge may go; `upTo` is empty for nowhere. -/
structure PurgePlan where
  upTo : String := ""
  held : PurgeHold := {}
  deriving DecidableEq

/-- The positions the other instances have applied, and whose are unknown. -/
structure Floor where
  positions : List (String × String) := []
  unknown : List String := []
  deriving DecidableEq

def parsePositions (c : Options) :
    List (String × String) → Except ArchiveError (List (String × c.ops.Carrier))
  | [] => .ok []
  | (name,raw)::rest => do
    let set ← (c.ops.parse raw).mapError (.parse ("parsing the gtid position of " ++ name))
    let sets ← parsePositions c rest
    .ok ((name,set)::sets)

/-- The loop of `planPurge`: stops at the first file still needed. -/
def purgeLoop (c : Options) (applied : List (String × c.ops.Carrier)) (limit : String) :
    List ArchivedFile → Bool → Except ArchiveError PurgePlan
  | [], _ => .ok { upTo := limit }
  | f::rest,first => do
    let fileSet ← (c.ops.parse f.gtidSet).mapError (.parse ("parsing the gtid set of " ++ f.name))
    let heldBy := (applied.filter fun e => !c.ops.contains e.2 fileSet).map (·.1)
    if heldBy=[] then purgeLoop c applied limit rest false
    else .ok { upTo := if first then "" else f.name, held := ⟨f.name,heldBy⟩ }

/-- Only archived files go, and only those every expected instance has applied. -/
def planPurge (res : ArchiveResult) (floor : Option Floor) : Except ArchiveError PurgePlan :=
  let limit := fileBefore logs res.lastArchivedBinlog
  if limit = "" then .ok {}
  else
    match res.files.takeWhile (·.name≠limit),floor with
    | [],_ | _,none => .ok {}
    | oldest::rest,some floor =>
      if floor.unknown≠[] then
        .ok { held := ⟨oldest.name,floor.unknown.insertionSort (·≤·)⟩ }
      else do
        let applied ← parsePositions c (floor.positions.insertionSort (·.1≤·.1))
        purgeLoop c applied limit (oldest::rest) true

def purgeLogsTo (name : String) : Pass Unit := do
  if name = "" then orFail "" (.error "binlog: purge target file is required")
  else if name.toList.any fun ch => ch == '\'' || ch == '\\' then
    orFail "" (.error ("binlog: invalid purge target " ++ name.quote))
  else orFail ("binlog: purging logs to " ++ name.quote) (← perform (.purgeLogsTo name))

variable [CaseMapping]
  (c : Options) (position : String) (timeline : Option MariaDBTimeline) (gtidSet : String)

/-- Whether the surviving timeline, as recorded, holds the transactions of a scan. -/
def timelineHolds : Except ArchiveError Bool :=
  if c.mariadb=false then (gtidContains position gtidSet).mapError (.parse "")
  else
    match timeline with
    | none => .ok false
    | some timeline => do
      let file ← (parseMariaPos gtidSet).mapError (.failed "")
      let held ← (parseMariaPos position).mapError (.failed "")
      .ok (file.entries.all fun e =>
        MariaDBTimeline.verdict timeline e.1 e.2=some true ∧
          e.2.seq≤((held.lookup e.1).map (·.seq)).getD 0)

/-- The drain's filter: a stranded file enters only if the surviving timeline provably holds it. -/
def onSurvivingTimeline : FileFilter := fun _ scan primary timeline =>
  match primary with
  | none => .ok false
  | some (primary,position) =>
    if primary = "" ∨ primary=c.instanceName ∨ position = "" then .ok false
    else if scan.gtidSet = "" then .ok true
    else timelineHolds c position timeline scan.gtidSet

def drain : Pass Unit := do
  if c.replication=false then return
  let mine ← hasSegment c
  if mine=false then return
  let streaming ← orFail "checking replication state" (← ask .streaming)
  if streaming=false then return
  let diverged ← ask .diverged
  if diverged then return
  let logs ← listBinaryLogs
  let _ ← drainPending c logs (onSurvivingTimeline c)

def demoted (m : Memory) : Memory :=
  { m with
    forkChecked := false
    flushed := { m.flushed with flushedAt := 0, flushedActive := "" }
    stampedThrough := 0
    lastFlush := 0 }

/-- The end of a writable pass: check, stamp, purge. -/
def finish (logs : List BinaryLog) (res : ArchiveResult) (through : Time) : Pass Unit := do
  let _ ← (Routine.attempt (checkForks c res.forkCheck through) : Pass (Except ArchiveError Unit))
  if c.purge then
    let floor ← ask .positions
    let plan ← Routine.ofExcept (planPurge c logs res (floor.map fun f => ⟨f.1,f.2⟩))
    if plan.upTo ≠ "" then purgeLogsTo plan.upTo

def tick : Pass Unit := do
  let writable ← orFail "checking writability" (← ask .writable)
  if writable=false then
    modify demoted
    drain c
  else
    let listedAt ← now
    let logs ← listBinaryLogs
    let (logs,listedAt) ← rotateIfDue c logs listedAt
    let res ← archivePending c logs
    let through := archivedThrough (← get).flushed logs res listedAt
    perform (.note (.through through))
    finish c logs res through

end Cnmsql.Binlog.Loop
