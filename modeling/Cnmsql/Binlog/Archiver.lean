import Cnmsql.Framework.Routine
import Cnmsql.Binlog.Forks
import Cnmsql.Binlog.Logs
import Cnmsql.Binlog.Replay
import Cnmsql.ObjectStore.Retention

namespace Cnmsql.Binlog

open Framework Replication ObjectStore Engine

/-- What a stat tells two files apart by. -/
structure FileInfo where
  inode : Nat
  size : Nat
  modTime : Time
  deriving DecidableEq

/-- The GTID and timestamp summary of a binary log. -/
structure ScanResult where
  previousGTIDs : String := ""
  gtidSet : String := ""
  firstGTID : String := ""
  lastGTID : String := ""
  firstEventTime : Time := 0
  lastEventTime : Time := 0
  deriving DecidableEq

/-- The manifest of an archived file. -/
structure BinlogMetadata extends ObjectStore.BinlogMetadata where
  clusterName : String
  instanceName : String
  sequence : Int
  firstGTID : String
  lastGTID : String
  gtidSet : String
  firstEventTime : Time
  sizeBytes : Nat
  sha256 : String
  archivedAt : Time
  deriving DecidableEq

/-- How far a segment's archive has advanced. -/
structure ArchiveStatus where
  clusterName : String
  serverUUID : String
  instanceName : String
  lastArchivedBinlog : String := ""
  lastArchivedGTID : String := ""
  firstGTID : String := ""
  coveredGTIDSet : String := ""
  updatedAt : Time := 0
  deriving DecidableEq

structure ForkReport where
  checked : Bool := false
  checkedAt : Time := 0
  generation : Int := 0
  superseded : Bool := false
  archivedThrough : Time := 0
  read : Bool := false
  err : Option String := none
  deriving DecidableEq

inductive ArchiveError where
  | notCurrentPrimary
  | indexContention
  | collision (name serverUUID stored computed : String)
  | parse (context : String) (cause : GTIDError)
  | failed (context cause : String)
  deriving DecidableEq

/-- What the fork check reads: the primary's executed set, or timeline and position. -/
inductive Authority where
  | mysql (executed : String)
  | mariadb (timeline : MariaDBTimeline) (epochs : List ArchiveEpoch) (position : String)
  deriving DecidableEq

/-- What a pass asks without changing anything. A missing hook knows nothing. -/
inductive Query where
  | context
  | writable
  | authority
  | clusterUID
  | forkAuthority
  | stat (name : String)
  | hashFile (name : String)
  | scan (name : String)
  | manifest (name : String)
  | statusExists
  | status
  | positions
  | streaming
  | diverged
  | primary
  | timeline
  deriving DecidableEq

@[reducible] def Reply : Query → Type
  | .context => Except String Unit
  | .writable | .statusExists | .streaming => Except String Bool
  | .authority => Int × Bool
  | .clusterUID => String
  | .forkAuthority => Except String (Option Authority)
  | .stat _ => Except String FileInfo
  | .hashFile _ => Except String (String × Nat)
  | .scan _ => Except String ScanResult
  | .manifest _ => Except String BinlogMetadata
  | .status => Except String ArchiveStatus
  | .positions => Option (List (String × String) × List String)
  | .diverged => Bool
  | .primary => Option (String × String)
  | .timeline => Option MariaDBTimeline

structure ArchivedFile where
  name : String
  gtidSet : String
  deriving DecidableEq

structure ArchiveResult where
  archived : List String := []
  lastArchivedBinlog : String := ""
  lastArchivedGTID : String := ""
  coveredGTIDSet : String := ""
  lastArchivedTime : Time := 0
  files : List ArchivedFile := []
  forkCheck : Option ForkReport := none
  deferred : String := ""
  deriving DecidableEq

/-- What a pass has come to: a deferred file, a returned pass, or `archivedThrough`. -/
inductive Event where
  | deferred (name : String)
  | archived (logs : List BinaryLog) (result : ArchiveResult)
  | through (t : Time)
  deriving DecidableEq

/-- The calls of a pass. A note is no call of the source: it marks an event. -/
inductive Call where
  | now
  | ask (q : Query)
  | listBinaryLogs
  | flushLogs
  | purgeLogsTo (name : String)
  | manifestExists (name : String)
  | upload (name : String) (size : Nat)
  | putManifest (name : String) (metadata : BinlogMetadata)
  | putStatus (status : ArchiveStatus)
  | getIndex
  | putIndexIf (index : ArchiveIndex) (etag : Option Nat)
  | note (e : Event)
  deriving DecidableEq

/-- What a call is answered. The index comes with its version, and a conditional write says whether
that was still current. -/
@[reducible] def Answer : Call → Type
  | .now => Time
  | .ask q => Reply q
  | .listBinaryLogs => Except String (List BinaryLog)
  | .flushLogs | .purgeLogsTo _ | .upload _ _ | .putManifest _ _ | .putStatus _ => Except String Unit
  | .manifestExists _ | .putIndexIf _ _ => Except String Bool
  | .getIndex => Except String (Option ArchiveIndex × Option Nat)
  | .note _ => Unit

structure ArchivedStamp where
  info : FileInfo
  metadata : BinlogMetadata
  deriving DecidableEq

structure ScannedStamp where
  info : FileInfo
  scan : ScanResult
  deriving DecidableEq

/-- The last forced rotation: when it was, and the active log right after it. -/
structure Flushed where
  flushedAt : Time := 0
  flushedActive : String := ""
  flushedSize : Int := 0
  deriving DecidableEq

/-- What the loop and its archiver remember from pass to pass. -/
structure Memory where
  lastFlush : Time := 0
  lastFlushSize : Int := 0
  flushed : Flushed := {}
  stampedThrough : Time := 0
  forkChecked : Bool := false
  lastCheck : Time := 0
  verified : Map String ArchivedStamp := ∅
  deferredScans : Map String ScannedStamp := ∅
  indexed : List String := []
  indexSeeded : Bool := false

abbrev Pass := Routine Call Answer Memory ArchiveError

/-- What the loop and its archiver are built with; digest and scanner depend on a file's bytes
alone. -/
structure Options where
  ops : GTIDOps
  clusterName : String
  instanceName : String
  serverUUID : String
  sha256 : List UInt8 → String
  scan : List UInt8 → ScanResult
  flushInterval : Time
  purge : Bool := false
  forks : Bool := true
  replication : Bool := false
  mariadb : Bool := false

/-- Whether a file may enter the archive, given its scan, the recorded primary and the timeline. -/
abbrev FileFilter :=
  String → ScanResult → Option (String × String) → Option MariaDBTimeline → Except ArchiveError Bool

/-- What one pass writes the index as: the primary of a generation, or a draining one. -/
structure ForkPass where
  source : Bool := false
  primary : Bool := false
  generation : Int := 0
  report : Option ForkReport := none
  preloaded : Option ForkJudge := none

namespace Archiver

variable [CaseMapping]

def perform (c : Call) : Pass (Answer c) := Routine.call c

def now : Pass Time := perform Call.now

def ask (q : Query) : Pass (Reply q) := perform (Call.ask q)

def orFail {α : Type} (context : String) (x : Except String α) : Pass α :=
  Routine.ofExcept (x.mapError (.failed context))

def parse (c : Options) (context raw : String) : Except ArchiveError c.ops.Carrier :=
  (c.ops.parse raw).mapError (.parse context)

variable (c : Options) (l : BinaryLog) (through : Time) (logs : List BinaryLog)
  (index : ArchiveIndex) (st : FileInfo)

def buildBinlogKeys (name : String) : Except String Unit :=
  if c.clusterName = "" ∨ c.serverUUID = "" ∨ name = "" then
    .error "cluster name, server uuid and binlog name are required"
  else if '/'∈c.serverUUID.toList ∨ '/'∈name.toList then
    .error "server uuid and binlog name must not contain a path separator"
  else .ok ()

/-- A manifest is there: the file is archived unless its bytes are others. -/
def verifyArchived : Pass BinlogMetadata := do
  let prior ← orFail "binlog: reading existing manifest" (← ask (.manifest l.name))
  let (sum,_) ← orFail "" (← ask (.hashFile l.name))
  if prior.sha256 ≠ "" ∧ prior.sha256≠sum then
    throw (.collision l.name c.serverUUID prior.sha256 sum)
  modify fun m => { m with verified := m.verified.insert l.name ⟨st,prior⟩ }
  return prior

/-- The scan of a file, from the memo of deferred ones if it is the same file. -/
def scanFile : Pass ScanResult := do
  match ((← get).deferredScans.lookup l.name).filter (·.info=st) with
  | some cached => return cached.scan
  | none => orFail ("binlog: scanning " ++ l.name.quote) (← ask (.scan l.name))

/-- Whether the filter lets the file in; the scan of a refused one is kept. -/
def allowed (allow : Option FileFilter) (l : BinaryLog) (st : FileInfo) (scan : ScanResult) :
    Pass Bool := do
  match allow with
  | none => return true
  | some allow =>
    let primary ← ask .primary
    let timeline ← ask .timeline
    if ← Routine.ofExcept (allow l.name scan primary timeline) then return true
    modify fun m => { m with deferredScans := m.deferredScans.insert l.name ⟨st,scan⟩ }
    return false

/-- Bytes first, then the manifest: a manifest means a complete archive. -/
def uploadFile (scan : ScanResult) :
    Pass BinlogMetadata := do
  modify fun m => { m with deferredScans := m.deferredScans.erase l.name }
  let (sum,size) ← orFail "" (← ask (.hashFile l.name))
  let archivedAt ← now
  let metadata : BinlogMetadata :=
    { clusterName := c.clusterName
      serverUUID := c.serverUUID
      instanceName := c.instanceName
      binlogName := l.name
      sequence := (parseSequence l.name).getD 0
      firstGTID := scan.firstGTID
      lastGTID := scan.lastGTID
      gtidSet := scan.gtidSet
      firstEventTime := scan.firstEventTime
      lastEventTime := scan.lastEventTime
      sizeBytes := size
      sha256 := sum
      archivedAt }
  orFail ("binlog: uploading " ++ l.name.quote) (← perform (.upload l.name size))
  orFail ("binlog: writing manifest for " ++ l.name.quote)
    (← perform (.putManifest l.name metadata))
  modify fun m => { m with verified := m.verified.insert l.name ⟨st,metadata⟩ }
  return metadata

/-- Archives a rotated file: its manifest and whether it was uploaded now, nothing if deferred. -/
def archiveFile (allow : Option FileFilter) (l : BinaryLog) :
    Pass (Option (BinlogMetadata × Bool)) := do
  orFail "" (buildBinlogKeys c l.name)
  let st ← orFail ("binlog: stat " ++ l.name.quote) (← ask (.stat l.name))
  match ((← get).verified.lookup l.name).filter (·.info=st) with
  | some stamp => return some (stamp.metadata,false)
  | none =>
    let existsManifest ← orFail "" (← perform (.manifestExists l.name))
    if existsManifest then
      let prior ← verifyArchived c l st
      return some (prior,false)
    else
      let scan ← scanFile l st
      if ← allowed allow l st scan then
        let metadata ← uploadFile c l st scan
        return some (metadata,true)
      else return none

def loadStatus : Pass ArchiveStatus := do
  let fresh : ArchiveStatus :=
    { clusterName := c.clusterName, serverUUID := c.serverUUID, instanceName := c.instanceName }
  if ← orFail "" (← ask .statusExists) then
    let stored ← orFail "binlog: reading archive status" (← ask .status)
    return if stored.instanceName = "" then { stored with instanceName := c.instanceName } else stored
  else return fresh

def segment (serverUUID : String) (index : ArchiveIndex) : Option ArchiveSegment :=
  index.segments.find? (·.serverUUID=serverUUID)

def segmentFiles (serverUUID : String) (index : Option ArchiveIndex) : List String :=
  ((index.bind (segment serverUUID)).map (·.binlogs)).getD []

def seedIndexed : Pass Unit := do
  if (← get).indexSeeded then return
  let (index,_) ← orFail "binlog: reading archive index" (← perform .getIndex)
  modify fun m => { m with indexed := segmentFiles c.serverUUID index, indexSeeded := true }

def putSegment (seg : ArchiveSegment) : List ArchiveSegment → List ArchiveSegment
  | [] => [seg]
  | s::rest => if s.serverUUID=seg.serverUUID then seg::rest else s::putSegment seg rest

def cumulative (c : Options) :
    List ArchiveSegment → c.ops.Carrier → Except ArchiveError c.ops.Carrier
  | [],covered => .ok covered
  | seg::rest,covered => do
    let parsed ← parse c "binlog: parsing segment gtid set" seg.gtidSet
    cumulative c rest (c.ops.union covered parsed)

def openSegment : Pass ArchiveSegment :=
  match segment c.serverUUID index with
  | some seg => pure seg
  | none => do
    let startedAt ← now
    return { serverUUID := c.serverUUID, instanceName := c.instanceName, startedAt }

def addFile (fileName : String) (seg : ArchiveSegment) : ArchiveSegment :=
  if fileName ≠ "" ∧ fileName∉seg.binlogs then { seg with binlogs := seg.binlogs++[fileName] }
  else seg

variable (status : ArchiveStatus) (fileName fileGTIDSet : String)

def foldFile : Pass ArchiveIndex := do
  let uid ← ask .clusterUID
  let seg ← openSegment c index
  let endedAt ← now
  let segSet ← Routine.ofExcept (parse c "binlog: parsing segment gtid set" seg.gtidSet)
  let fileSet ← Routine.ofExcept
    (parse c ("binlog: parsing file gtid set for " ++ fileName.quote) fileGTIDSet)
  let seg := addFile fileName
    { seg with
      startGTIDSet := if seg.startGTIDSet = "" then status.firstGTID else seg.startGTIDSet
      endedAt
      gtidSet := c.ops.string (c.ops.union segSet fileSet) }
  let segments := putSegment seg index.segments
  let empty ← Routine.ofExcept (parse c "" "")
  let covered ← Routine.ofExcept (cumulative c segments empty)
  let updatedAt ← now
  return { index with
    clusterName := c.clusterName
    clusterUID := if uid = "" then index.clusterUID else uid
    segments
    coveredGTIDSet := c.ops.string covered
    updatedAt }

def buildJudge : Authority → Except String ForkJudge
  | .mysql executed => newMySQLForkJudge executed
  | .mariadb timeline epochs position =>
    .ok (mariadbForkJudge timeline position (if epochs.length=timeline.length then epochs else []))

def forkSource : Pass (Except String (Option ForkJudge)) := do
  match ← ask .forkAuthority with
  | .error e => return .error e
  | .ok none => return .ok none
  | .ok (some authority) => return (buildJudge authority).map some

variable (pass : ForkPass)

/-- The authority of a pass, read just before the index for its first attempt. -/
def load : Pass (ForkPass × Except String (Option ForkJudge)) :=
  match pass.preloaded with
  | some judge => return ({ pass with preloaded := none }, .ok (some judge))
  | none => do
    let judge ← forkSource
    return (pass,judge)

structure Checked where
  pass : ForkPass
  index : ArchiveIndex
  changed : Bool := false
  report : ForkReport

def forkIdentity : String := c.instanceName ++ "/" ++ c.serverUUID

def checkForks : Pass Checked := do
  let report : ForkReport := { read := true }
  if pass.source=false then return { pass, index, report }
  -- a newer primary already wrote the index
  if pass.generation < index.generation then
    return { pass, index, report := { report with superseded := true } }
  let (pass,judge) ← load pass
  match judge with
  | .error e =>
    return { pass, index, report := { report with err := some ("binlog: reading fork check authority: " ++ e) } }
  | .ok none => return { pass, index, report }
  | .ok (some judge) =>
    let checkedAt ← now
    match judgeIndex judge c.serverUUID checkedAt (forkIdentity c) index with
    | .error e => return { pass, index, report := { report with err := some e } }
    | .ok (index,changed) =>
      return {
        pass,index, changed
        report := { report with checked := true, checkedAt, generation := pass.generation } }

def indexUpdateAttempts : Nat := 8

/-- Applies `mutate` to the current index; a lost race starts over from what the winner wrote. -/
def updateArchiveIndex {β : Type}
    (mutate : β → Option ArchiveIndex → Pass (β × Option ArchiveIndex)) : Nat → β → Pass β
  | 0,_ => throw .indexContention
  | attempts+1,b => do
    let (index,etag) ← orFail "reading archive index" (← perform .getIndex)
    let (b,write) ← mutate b index
    match write with
    | none => return b
    | some index =>
      if ← orFail "writing archive index" (← perform (.putIndexIf index etag)) then return b
      else updateArchiveIndex mutate attempts b

/-- One attempt of `updateIndex`: folds the file in and checks the seams. -/
def foldAttempt (found : Option ArchiveIndex) : Pass (ForkPass × Option ArchiveIndex) := do
  let index ← foldFile c (found.getD {}) status fileName fileGTIDSet
  let index :=
    if pass.primary=true ∧ index.generation<pass.generation then
      { index with generation := pass.generation }
    else index
  let r ← checkForks c index pass
  let index :=
    if r.report.checked then
      { r.index with
        forkCheck := some { checkedAt := r.report.checkedAt, checkedBy := forkIdentity c } }
    else r.index
  return ({ r.pass with report := some r.report }, some index)

def updateIndex : Pass ForkPass :=
  updateArchiveIndex (foldAttempt c status fileName fileGTIDSet) indexUpdateAttempts pass

/-- What the loop of `archivePending` carries. -/
structure Progress (c : Options) where
  status : ArchiveStatus
  covered : c.ops.Carrier
  pass : ForkPass
  result : ArchiveResult

/-- The progress once a file is known to be archived. -/
def Progress.advance {c : Options} (p : Progress c) (l : BinaryLog) (metadata : BinlogMetadata)
    (archived : Bool) (covered : c.ops.Carrier) : Progress c where
  covered := covered
  pass := p.pass
  status :=
    { p.status with
      firstGTID := if p.status.firstGTID = "" then metadata.firstGTID else p.status.firstGTID
      lastArchivedBinlog := l.name
      lastArchivedGTID :=
        if metadata.lastGTID = "" then p.result.lastArchivedGTID else metadata.lastGTID
      coveredGTIDSet := c.ops.string covered }
  result :=
    { p.result with
      archived := if archived then p.result.archived++[l.name] else p.result.archived
      files := p.result.files++[⟨l.name,metadata.gtidSet⟩]
      lastArchivedBinlog := l.name
      lastArchivedGTID :=
        if metadata.lastGTID = "" then p.result.lastArchivedGTID else metadata.lastGTID
      coveredGTIDSet := c.ops.string covered
      lastArchivedTime := metadata.archivedAt }

def commitFile (p : Progress c) (l : BinaryLog) (gtidSet : String) :
    Pass (Progress c) := do
  let updatedAt ← now
  let status := { p.status with updatedAt }
  orFail "binlog: writing archive status" (← perform (.putStatus status))
  match ← Routine.attempt (updateIndex c status l.name gtidSet p.pass) with
  | .error e =>
    modify fun m => { m with indexSeeded := false }
    throw e
  | .ok pass =>
    modify fun m => { m with indexed := l.name::m.indexed }
    return { p with status, pass }

/-- A file archived before may be missing from the memo of indexed files. -/
def seedFor (name : String) (archived : Bool) : Pass Unit := do
  if archived=false ∧ name∉(← get).indexed then seedIndexed c

/-- An archived file's coverage joins the frontier; it is committed unless already recorded. -/
def recordFile (p : Progress c) (l : BinaryLog) (metadata : BinlogMetadata) (archived : Bool) :
    Pass (Progress c) := do
  seedFor c l.name archived
  let fileSet ← Routine.ofExcept
    (parse c ("binlog: parsing file gtid set for " ++ l.name.quote) metadata.gtidSet)
  let covered := c.ops.union p.covered fileSet
  let next := p.advance l metadata archived covered
  if archived=true ∨ c.ops.string covered≠c.ops.string p.covered ∨
      (p.status.firstGTID = "" ∧ metadata.firstGTID ≠ "") ∨ l.name∉(← get).indexed then
    commitFile c next l metadata.gtidSet
  else return next

def checkContext : Pass Unit := do
  orFail "" (← ask .context)

def archiveLoop (c : Options) (allow : Option FileFilter) :
    List BinaryLog → Progress c → Pass ArchiveResult
  | [],p => return { p.result with forkCheck := p.pass.report }
  | l::rest,p => do
    checkContext
    match ← archiveFile c allow l with
    | none =>
      perform (.note (.deferred l.name))
      return { p.result with deferred := l.name, forkCheck := p.pass.report }
    | some (metadata,archived) =>
      let p ← recordFile c p l metadata archived
      archiveLoop c allow rest p

def archivePendingAs (allow : Option FileFilter) (pass : ForkPass) : Pass ArchiveResult := do
  let status ← loadStatus c
  let covered ← Routine.ofExcept
    (parse c "binlog: parsing covered gtid set" status.coveredGTIDSet)
  archiveLoop c allow (archivable logs)
    { status, covered, pass
      result :=
        { lastArchivedBinlog := status.lastArchivedBinlog
          lastArchivedGTID := status.lastArchivedGTID
          coveredGTIDSet := status.coveredGTIDSet } }

def archivePending : Pass ArchiveResult := do
  let (generation,ok) ← ask .authority
  if ok=false then throw .notCurrentPrimary
  let res ← archivePendingAs c logs none { source := c.forks, primary := true, generation }
  perform (.note (.archived logs res))
  return res

def drainPending (allow : FileFilter) :
    Pass ArchiveResult := do
  let res ← archivePendingAs c logs (some allow) {}
  perform (.note (.archived logs res))
  return res

def hasSegment : Pass Bool := do
  return (← loadStatus c).lastArchivedBinlog ≠ ""

def stampDue : Bool :=
  through≠0 ∧ index.archivedThrough<through

/-- The index `CheckArchive` writes after a check. -/
def stampedIndex (generation : Int) (updatedAt : Time) (r : Checked) : ArchiveIndex :=
  let archivedThrough := if stampDue through r.index then through else r.index.archivedThrough
  if r.report.checked then
    { r.index with
      archivedThrough,updatedAt, generation
      forkCheck := some { checkedAt := r.report.checkedAt, checkedBy := forkIdentity c } }
  else
    { r.index with archivedThrough, updatedAt, generation := max r.index.generation generation }

/-- One attempt of `CheckArchive`: the index to write, if any. -/
def stampAttempt (generation : Int) (b : ForkPass × ForkReport) (found : Option ArchiveIndex) :
    Pass ((ForkPass × ForkReport) × Option ArchiveIndex) := do
  match found with
  | none => return ((b.1,{}),none)
  | some index =>
    let r ← checkForks c index b.1
    match r.report.err with
    | some e => throw (.failed "" e)
    | none =>
      let stamp := stampDue through r.index
      let checkDue : Bool := r.report.checked ∧
        (r.changed ∨ r.index.forkCheck=none ∨ r.index.generation<generation)
      if r.report.superseded=true ∨ checkDue=false ∧ stamp=false then
        return ((r.pass,r.report),none)
      else
        let updatedAt ← now
        let report := if stamp then { r.report with archivedThrough := through } else r.report
        return ((r.pass,report),some (stampedIndex c through generation updatedAt r))

/-- The fork check outside an archive pass; moves the index's stamp to `through`. -/
def checkArchive : Pass ForkReport := do
  if c.forks=false then return {}
  let (generation,ok) ← ask .authority
  if ok=false then throw .notCurrentPrimary
  let judge ← orFail "binlog: reading fork check authority" (← forkSource)
  if judge.isNone ∧ through=0 then return {}
  let pass : ForkPass := { source := true, primary := true, generation, preloaded := judge }
  let (_,report) ← updateArchiveIndex (stampAttempt c through generation) indexUpdateAttempts
    (pass,{})
  return report

end Archiver

end Cnmsql.Binlog
