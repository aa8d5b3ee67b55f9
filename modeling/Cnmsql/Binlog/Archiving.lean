import Cnmsql.Framework.Execution
import Cnmsql.Binlog.Loop
import Cnmsql.Binlog.Server

namespace Cnmsql.Binlog

open Framework ObjectStore Engine

/-- The archive in the object store; every write of the index gives it another version. -/
structure Archive where
  bodies : Map (String × String) (List UInt8) := ∅
  manifests : Map (String × String) BinlogMetadata := ∅
  statuses : Map String ArchiveStatus := ∅
  index : Option ArchiveIndex := none
  version : Nat := 0

namespace Archive

variable (a : Archive)

def etag : Option Nat := a.index.map fun _ => a.version

def putIndex (index : ArchiveIndex) : Archive :=
  { a with index := some index, version := a.version+1 }

def listed (serverUUID : String) : List String :=
  Archiver.segmentFiles serverUUID a.index

def binlogEntries : List BinlogEntry :=
  a.manifests.entries.map fun e =>
    ⟨.binlog e.1.1 e.1.2,.binlogManifest e.1.1 e.1.2,e.2.toBinlogMetadata⟩

def expire (now : Time) : ObjectStore.Step → Archive
  | .remove (.binlog u n) => { a with bodies := a.bodies.erase (u, n) }
  | .remove (.binlogManifest u n) => { a with manifests := a.manifests.erase (u, n) }
  | .remove _ => a
  | .rewriteArchiveIndex deleted _ =>
    match a.index with
    | none => a
    | some index => a.putIndex (rewriteIndex index deleted now)

end Archive

/-- What becomes of one call: whether it fails, with or without effect, and what is answered. -/
structure Outside where
  fault : Option String := none
  lost : Bool := false
  rotation : Option Rotation := none
  info : FileInfo := ⟨0,0,0⟩
  writable : Bool := true
  authority : Int × Bool := (0,true)
  clusterUID : String := ""
  forkAuthority : Option Authority := none
  positions : Option (List (String × String) × List String) := none
  streaming : Bool := true
  diverged : Bool := false
  timeline : Option MariaDBTimeline := none

namespace Outside

def orFault {α : Type} (o : Outside) (x : Except String α) : Except String α :=
  match o.fault with
  | some e => .error e
  | none => x

def took (o : Outside) : Bool := o.fault.isNone || o.lost

end Outside

/-- What an instance has learnt. The running pass: its clock, role, rotation, listing, the file
without a manifest, the index and authority read and not used yet, its generation, the deferred file
and what it archived through. The process: the last rotation listed, what it hashed, scanned and
uploaded, the primaries it was told of, the manifests and segment files it saw. -/
structure Know where
  clock : Time := 0
  writable : Option Bool := none
  flushing : Option Time := none
  logs : List BinaryLog := []
  listedAt : Option Time := none
  absent : Option String := none
  found : Option (Option ArchiveIndex × Option Nat) := none
  authority : Option Authority := none
  generation : Option Int := none
  deferred : Option String := none
  through : Time := 0
  flushed : Flushed := {}
  hashed : List (String × String × Nat) := []
  scanned : List (String × ScanResult) := []
  uploaded : List String := []
  views : List (Option (String × String)) := []
  archived : List (String × BinlogMetadata) := []
  indexed : List String := []

namespace Know

variable (know : Know)

/-- What is left of it when the next pass starts. -/
def next : Know where
  flushed := know.flushed
  hashed := know.hashed
  scanned := know.scanned
  uploaded := know.uploaded
  views := know.views
  archived := know.archived
  indexed := know.indexed

/-- The listing, and with it the rotation that came before it. -/
def list (logs : List BinaryLog) : Know :=
  { know with
    logs
    listedAt := some know.clock
    flushing := none
    flushed :=
      match know.flushing with
      | some flushedAt => ⟨flushedAt,(activeLog logs).name,(activeLog logs).sizeBytes⟩
      | none => know.flushed }

def seeIndex (serverUUID : String) (index : Option ArchiveIndex) : Know :=
  { know with indexed := Archiver.segmentFiles serverUUID index++know.indexed }

def learnReply : (q : Query) → Reply q → Know
  | .writable, .ok writable => { know with writable := some writable }
  | .authority,(generation,ok) =>
    { know with generation := if ok then some generation else none, authority := none }
  | .forkAuthority, .ok authority => { know with authority }
  | .forkAuthority, .error _ => { know with authority := none }
  | .hashFile name, .ok (sum,size) => { know with hashed := (name, sum, size)::know.hashed }
  | .scan name, .ok scan => { know with scanned := (name, scan)::know.scanned }
  | .manifest name, .ok metadata => { know with archived := (name, metadata)::know.archived }
  | .primary, view => { know with views := view::know.views }
  | _,_ => know

def learn (serverUUID : String) (know : Know) : (c : Call) → Answer c → Know
  | .now, t => { know with clock := t }
  | .ask q,reply => know.learnReply q reply
  | .listBinaryLogs, .ok logs => know.list logs
  | .flushLogs, .ok _ => { know with flushing := some know.clock }
  | .manifestExists name, .ok found => { know with absent := if found then none else some name }
  | .upload name _, .ok _ => { know with uploaded := name::know.uploaded }
  | .putManifest name metadata, .ok _ =>
    { know with archived := (name, metadata)::know.archived, absent := none }
  | .putManifest _ _, .error _ => { know with absent := none }
  | .getIndex, .ok (index,etag) =>
    { know.seeIndex serverUUID index with found := some (index, etag) }
  | .putIndexIf index _, .ok true =>
    { know.seeIndex serverUUID (some index) with found := none, authority := none }
  | .putIndexIf _ _, _ => { know with found := none, authority := none }
  | .note (.deferred name), _ => { know with deferred := some name }
  | .note (.through t), _ => { know with through := t }
  | _,_ => know

end Know

/-- What is left of a pass: its calls to come and how it ends. -/
abbrev Running := Prog Call Answer (Except ArchiveError Unit × Memory)

/-- One instance: server, running pass, last return of `archivedThrough`, and what had been executed
when it last read the index. -/
structure Node where
  server : Server
  pass : Running := .pure (.ok (), {})
  know : Know := {}
  through : Time := 0
  atRead : String := ""

def Node.nextCall (n : Node) : Option Call :=
  match n.pass with
  | .pure _ => none
  | .call c _ => some c

/-- The instances share clock and archive. `executed` is the surviving timeline's, `recorded` the
primary the Cluster shows, `expiry` what retention has still to do. -/
structure System (ι : Type) where
  clock : Time := 0
  archive : Archive := {}
  nodes : ι → Node
  executed : String := ""
  recorded : Option (String × String) := none
  expiry : List ObjectStore.Step := []

/-- The instances, each with its own server UUID. -/
structure Fleet (ι : Type) where
  options : ι → Options
  injective : Function.Injective fun i => (options i).serverUUID

inductive Act (ι : Type) where
  | advance (d : Time)
  /-- A server commits a transaction. -/
  | commit (i : ι) (bytes : List UInt8)
  /-- A server rotates its logs by itself. -/
  | rotate (i : ι) (r : Rotation)
  /-- The surviving timeline executes transactions. -/
  | execute (gtidSet : String)
  /-- The Cluster's view of the primary is refreshed. -/
  | record (view : Option (String × String))
  /-- The process of an instance is restarted. -/
  | restart (i : ι)
  /-- The next pass of an instance's loop starts. -/
  | start (i : ι)
  /-- The next call of an instance's pass. -/
  | call (i : ι) (o : Outside)
  /-- A retention pass lists the archive and plans. -/
  | plan (backups : List BackupEntry) (cutoff : Time)
  /-- The next step of the retention pass. -/
  | expire
  /-- The retention pass fails. -/
  | abandon

section

variable {ι : Type} (f : Fleet ι) (s : System ι) (i : ι) (o : Outside)

namespace System

def server : Server := (s.nodes i).server

def ofFile {α : Type} (name : String) (g : LogFile → α) : Except String α :=
  o.orFault (((s.server i).file name).elim (.error "no such file") fun file => .ok (g file))

def reply : (q : Query) → Reply q
  | .context => o.orFault (.ok ())
  | .writable => o.orFault (.ok o.writable)
  | .authority => o.authority
  | .clusterUID => o.clusterUID
  | .forkAuthority => o.orFault (.ok o.forkAuthority)
  | .stat name => s.ofFile i o name fun file => { o.info with size := file.bytes.length }
  | .hashFile name => s.ofFile i o name fun file =>
      ((f.options i).sha256 file.bytes,file.bytes.length)
  | .scan name => s.ofFile i o name fun file => (f.options i).scan file.bytes
  | .manifest name =>
    o.orFault ((s.archive.manifests.lookup ((f.options i).serverUUID,name)).elim
      (.error "no such object") .ok)
  | .statusExists => o.orFault (.ok (s.archive.statuses.lookup (f.options i).serverUUID).isSome)
  | .status =>
    o.orFault ((s.archive.statuses.lookup (f.options i).serverUUID).elim
      (.error "no such object") .ok)
  | .positions => o.positions
  | .streaming => o.orFault (.ok o.streaming)
  | .diverged => o.diverged
  | .primary => s.recorded
  | .timeline => o.timeline

def refusable (done : Option Server) : Except String Unit :=
  o.orFault (done.elim (.error "refused") fun _ => .ok ())

def answer : (c : Call) → Answer c
  | .now => s.clock
  | .ask q => s.reply f i o q
  | .listBinaryLogs => o.orFault (.ok (s.server i).listing)
  | .flushLogs => refusable o (o.rotation.bind (s.server i).rotate)
  | .purgeLogsTo name => refusable o ((s.server i).purgeTo name)
  | .manifestExists name =>
    o.orFault (.ok (s.archive.manifests.lookup ((f.options i).serverUUID,name)).isSome)
  | .upload name _ => s.ofFile i o name fun _ => ()
  | .putManifest _ _ => o.orFault (.ok ())
  | .putStatus _ => o.orFault (.ok ())
  | .getIndex => o.orFault (.ok (s.archive.index,s.archive.etag))
  | .putIndexIf _ etag => o.orFault (.ok (etag == s.archive.etag))
  | .note _ => ()

/-- The archive after a call; the index is written only at the version read. -/
def archiveAfter : Call → Archive
  | .upload name _ =>
    if o.took then
      ((s.server i).file name).elim s.archive fun file =>
        { s.archive with
          bodies := s.archive.bodies.insert ((f.options i).serverUUID,name) file.bytes }
    else s.archive
  | .putManifest name metadata =>
    if o.took then
      { s.archive with
        manifests := s.archive.manifests.insert ((f.options i).serverUUID,name) metadata }
    else s.archive
  | .putStatus status =>
    if o.took then
      { s.archive with statuses := s.archive.statuses.insert (f.options i).serverUUID status }
    else s.archive
  | .putIndexIf index etag =>
    if o.took ∧ etag=s.archive.etag then s.archive.putIndex index else s.archive
  | _ => s.archive

def serverAfter : Call → Server
  | .flushLogs =>
    if o.took then (o.rotation.bind (s.server i).rotate).getD (s.server i) else s.server i
  | .purgeLogsTo name => if o.took then ((s.server i).purgeTo name).getD (s.server i) else s.server i
  | _ => s.server i

end System

def throughAfter (through : Time) : Call → Time
  | .note (.through t) => t
  | _ => through

def atReadAfter (executed atRead : String) : Call → String
  | .getIndex => executed
  | _ => atRead

end

section

variable {ι : Type} [CaseMapping] [DecidableEq ι] (f : Fleet ι) (s : System ι) (i : ι) (o : Outside)

def performed (c : Call) (k : Answer c → Running) : System ι :=
  { s with
    archive := s.archiveAfter f i o c
    nodes := Function.update s.nodes i
      { server := s.serverAfter i o c
        pass := k (s.answer f i o c)
        know := (s.nodes i).know.learn (f.options i).serverUUID c (s.answer f i o c)
        through := throughAfter (s.nodes i).through c
        atRead := atReadAfter s.executed (s.nodes i).atRead c } }

def System.setServer (server : Server) : System ι :=
  { s with nodes := Function.update s.nodes i { s.nodes i with server } }

def begin (c : Options) (mem : Memory) : Running := (Loop.tick c).run.run mem

def step : Act ι → Option (System ι)
  | .advance d => some { s with clock := s.clock+d }
  | .commit i bytes =>
    if bytes≠[] then some (s.setServer i ((s.server i).commit bytes s.clock)) else none
  | .rotate i r => ((s.server i).rotate r).map (s.setServer i)
  | .execute gtidSet => some { s with executed := gtidSet }
  | .record view => some { s with recorded := view }
  | .restart i =>
    some { s with
      nodes := Function.update s.nodes i
        { s.nodes i with pass := .pure (.ok (), {}), know := {} } }
  | .start i =>
    match (s.nodes i).pass with
    | .call _ _ => none
    | .pure (_,mem) =>
      some { s with
        nodes := Function.update s.nodes i
          { s.nodes i with pass := begin (f.options i) mem, know := (s.nodes i).know.next } }
  | .call i o =>
    match (s.nodes i).pass with
    | .pure _ => none
    | .call c k => some (performed f s i o c k)
  | .plan backups cutoff =>
    if s.expiry=[] ∧ backups.Pairwise fun a b => a.metadata.completedAt≤b.metadata.completedAt then
      some { s with
        expiry := binlogExpirySteps
          (planSorted backups s.archive.binlogEntries s.archive.index cutoff s.clock) s.clock }
    else none
  | .expire =>
    match s.expiry with
    | [] => none
    | st::rest => some { s with archive := s.archive.expire s.clock st, expiry := rest }
  | .abandon => some { s with expiry := [] }

end

/-! Two instances of a cluster, to run the system with. A transaction is one byte, its number; it is
also the time of its event. -/

namespace Pair

inductive Member where
  | a
  | b
  deriving DecidableEq

def source : String := "u"

def gtidSet (txns : List Nat) : String :=
  String.intercalate "," (txns.map fun n => source ++ ":" ++ toString n)

def options (instanceName serverUUID : String) : Options where
  ops := mysqlGTIDSet
  clusterName := "cluster"
  instanceName := instanceName
  serverUUID := serverUUID
  sha256 bytes := toString (bytes.map UInt8.toNat)
  scan bytes :=
    { gtidSet := gtidSet (bytes.map UInt8.toNat)
      lastEventTime := (bytes.getLast?.map UInt8.toNat).getD 0 }
  flushInterval := 10
  replication := true

def fleet : Fleet Member where
  options
    | .a => options "a" "uuid-a"
    | .b => options "b" "uuid-b"
  injective i j h := by
    cases i <;> cases j <;> first | rfl | exact absurd h (by decide)

def log1 : LogName := ⟨"binlog.000001",1,by decide⟩

def log2 : LogName := ⟨"binlog.000002",2,by decide⟩

def log3 : LogName := ⟨"binlog.000003",3,by decide⟩

def log4 : LogName := ⟨"binlog.000004",4,by decide⟩

def server : Server where
  rotated := []
  active := { log := log1 }
  ordered := List.pairwise_singleton _ _
  purged_le := Nat.le_refl _

def initial : System Member := { nodes := fun _ => { server } }

def calls (i : Member) (n : Nat) (o : Outside := {}) : List (Act Member) :=
  List.replicate n (.call i o)

/-- Two passes of a primary with one transaction: the first starts the clock, the second rotates,
ships and stamps. `between` happens right after the rotation. -/
def rotationRun (between : List (Act Member)) : List (Act Member) :=
  [.advance 1,.commit .a [1],.start .a]++calls .a 12++[.advance (60*second),.start .a] ++
    calls .a 5++[.call .a { rotation := some { log := log2 } }]++between++[.advance 1] ++
    calls .a 32

end Pair

end Cnmsql.Binlog
