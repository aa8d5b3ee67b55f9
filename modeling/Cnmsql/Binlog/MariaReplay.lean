import Cnmsql.Binlog.Forks
import Cnmsql.Binlog.Replay

namespace Cnmsql.Binlog

open Framework Replication ObjectStore Engine

/-- One MariaDB transaction: GTID, offset and stamp. -/
structure TxnBoundary where
  domain : UInt32
  server : UInt32
  seq : Nat
  startPos : Nat
  time : Time := 0
  deriving DecidableEq

/-- A downloaded binlog; replay stops at the offset `endPos`, 0 for the end of the file. -/
structure PositionalFile where
  path : String
  segment : String
  boundaries : List TxnBoundary
  endPos : Nat := 0
  deriving DecidableEq

/-- One bounded `mariadb-binlog` invocation. -/
structure ReplayChunk where
  files : List String
  startPosition : Nat := 0
  stopPosition : Nat := 0
  deriving DecidableEq

structure MariaDBGTID where
  domain : UInt32
  server : UInt32
  seq : Nat
  deriving DecidableEq

/-- Why a MariaDB recovery is refused, with what the message names. -/
inductive MariaReplayError where
  | invalidGTID (message : String)
  | multiDomainFork (segment : String)
  | authorsClash (server server' domain : UInt32) (seq : Nat)
  | forkedTimeline
  | targetBeyondArchive
  | targetBeforeBackup
  | anchorDisowned (anchor : MariaDBGTID) (range : ArchiveDisownedRange)
  | anchorPastFork (anchor : MariaDBGTID) (segment : String) (cut : Nat)
  deriving DecidableEq

def MariaReplayError.sentinel : MariaReplayError → Option Sentinel
  | .invalidGTID _ => none
  | .multiDomainFork _ | .authorsClash _ _ _ _ | .forkedTimeline => some .errForkedTimeline
  | .targetBeyondArchive => some .errTargetBeyondArchive
  | .targetBeforeBackup => some .errTargetBeforeBackup
  | .anchorDisowned _ _ | .anchorPastFork _ _ _ => some .errBackupOnDeadBranch

def isSpace (c : Char) : Bool :=
  c∈['\t','\n','\x0b','\x0c','\r',' ','\u0085','\u00a0','\u1680','\u2028','\u2029',
    '\u202f','\u205f','\u3000'] ∨ '\u2000'≤c ∧ c ≤ '\u200a'

def trimSpace (s : List Char) : List Char :=
  ((s.dropWhile isSpace).reverse.dropWhile isSpace).reverse

def parseMariaDBGTID (s : String) : Except String MariaDBGTID :=
  match (trimSpace s.toList).splitOn '-' with
  | [domainPart,serverPart,seqPart] => do
    let domain ← (parseUint 32 domainPart).mapError fun err =>
      "invalid mariadb gtid domain in " ++ s.quote ++ ": " ++ err
    let server ← (parseUint 32 serverPart).mapError fun err =>
      "invalid mariadb gtid server_id in " ++ s.quote ++ ": " ++ err
    let seq ← (parseUint 64 seqPart).mapError fun err =>
      "invalid mariadb gtid sequence in " ++ s.quote ++ ": " ++ err
    .ok ⟨UInt32.ofNat domain,UInt32.ofNat server,seq⟩
  | _ => .error ("invalid mariadb gtid " ++ s.quote ++ ": want domain-server-seq")

/-- A position that names one domain: the domain and its sequence. -/
def singleDomainMariaGTID (pos : String) : Except String (Option (UInt32 × Nat)) :=
  let cleaned := pos.toList.filter fun c => !isBlank c
  if cleaned=[] then .ok none
  else
    match cleaned.splitOn ',' with
    | [triple] =>
      match triple.splitOn '-' with
      | [domainPart,_,seqPart] => do
        let d ← (parseUint 32 domainPart).mapError fun err =>
          "binlog: invalid MariaDB GTID domain in " ++ pos.quote ++ ": " ++ err
        let s ← (parseUint 64 seqPart).mapError fun err =>
          "binlog: invalid MariaDB GTID sequence in " ++ pos.quote ++ ": " ++ err
        .ok (some (UInt32.ofNat d,s))
      | _ => .error ("binlog: invalid MariaDB GTID " ++ pos.quote ++ ": want domain-server-seq")
    | _ => .error ("binlog: multi-domain MariaDB GTID " ++ pos.quote ++
        " is not supported for positional recovery")

/-- The sequence one triple gives a domain, if it is well formed and of it. -/
def tripleSeq (domain : UInt32) (triple : List Char) : Option Nat :=
  match triple.splitOn '-' with
  | [domainPart,_,seqPart] =>
    match parseUint 32 domainPart with
    | .ok d => if UInt32.ofNat d=domain then (parseUint 64 seqPart).toOption else none
    | .error _ => none
  | _ => none

def mariaSeqForDomain (pos : String) (domain : UInt32) : Nat :=
  let cleaned := pos.toList.filter fun c => !isBlank c
  ((cleaned.splitOn ',').findSome? (tripleSeq domain)).getD 0

section

variable (list : List TxnBoundary) (domain : UInt32)

def domainFileStats : Option (Nat × Nat) :=
  list.foldl (fun stats b =>
    if b.domain≠domain then stats
    else
      match stats with
      | none => some (b.seq,b.seq)
      | some (minSeq,maxSeq) =>
        some (if b.seq < minSeq then b.seq else minSeq,if maxSeq<b.seq then b.seq else maxSeq))
    none

def firstAfterInFile (seq : Nat) : Option Nat :=
  (list.find? fun b => b.domain=domain ∧ seq<b.seq).map (·.startPos)

variable (files : List PositionalFile) (domain : UInt32)

def highestMariadbSeq : Option Nat :=
  files.foldl (fun highest f =>
    match domainFileStats f.boundaries domain with
    | none => highest
    | some (_,maxSeq) =>
      match highest with
      | none => some maxSeq
      | some h => some (if h < maxSeq then maxSeq else h)) none

/-- Whether file `a` sorts before file `b`. -/
def sortsBefore (a b : PositionalFile) : Bool :=
  match domainFileStats a.boundaries domain,domainFileStats b.boundaries domain with
  | some (minA,_),some (minB,_) => minA < minB
  | some _,none => true
  | none,_ => false

def sortFilesByDomainSeq : List PositionalFile :=
  files.insertionSort fun a b => sortsBefore domain b a=false

/-- The sequence a time stands for: the last before the first one past the anchor stamped at or
after it. Sequences are 64 bits wide. -/
def seqBeforeTime (anchorSeq highest : Nat) (target : Time) : Nat :=
  let boundaries := files.flatMap (·.boundaries)
  let first := boundaries.foldl (fun (first : Nat) b =>
    if b.domain=domain ∧ anchorSeq<b.seq ∧ b.time≠0 ∧ target≤b.time ∧ b.seq<first then b.seq
    else first) ((highest+1) % 2^64)
  boundaries.foldl (fun (before : Nat) b =>
    if b.domain=domain ∧ before<b.seq ∧ b.seq<first then b.seq else before) anchorSeq

end

section

variable (seg : ReplaySegment) (domain : UInt32)

/-- The author and the sequence of a segment's last transaction in a domain. -/
def segmentAuthor : Option (UInt32 × Nat) :=
  match parseMariaPos seg.gtidSet with
  | .error _ => none
  | .ok pos => (pos.lookup domain).map fun e => (e.server,e.seq.toNat)

def forkCut : Option Nat :=
  seg.fork.bind fun f => f.afterSeq.lookup domain.toNat

/-- Whether a segment's fork record holds the target, and where the fork begins. -/
def holdsTarget (target : MariaDBGTID) (seg : ReplaySegment) : Option Nat :=
  match forkCut seg domain,segmentAuthor seg domain with
  | some cut,some (server,stop) =>
    if server=target.server ∧ cut<target.seq ∧ target.seq ≤ stop then some cut else none
  | _,_ => none

variable (segs : List ReplaySegment) (domain : UInt32) (target : Option MariaDBGTID)

/-- The segment whose fork record holds the target, empty for none. -/
def branchHolder : String × Nat :=
  match target with
  | none => ("",0)
  | some target =>
    (segs.findSome? fun seg => (holdsTarget domain target seg).map (seg.serverUUID,·)).getD ("",0)

def segmentCuts : Map String Nat :=
  let (holder, branchCut) := branchHolder segs domain target
  segs.foldl (fun cuts seg =>
    if holder ≠ "" then
      if seg.serverUUID=holder then cuts
      else
        match forkCut seg domain with
        | some own => cuts.insert seg.serverUUID (if own<branchCut then own else branchCut)
        | none => cuts.insert seg.serverUUID branchCut
    else
      match forkCut seg domain with
      | some cut => cuts.insert seg.serverUUID cut
      | none => cuts) ∅

/-- The file loop of `ApplyMariadbForks`; `exhausted` segments are cut already. -/
def cutFiles (domain : UInt32) (cuts : Map String Nat) :
    List String → List PositionalFile → List PositionalFile
  | _,[] => []
  | exhausted,f::rest =>
    match cuts.lookup f.segment with
    | none => f::cutFiles domain cuts exhausted rest
    | some cut =>
      if f.segment∈exhausted then cutFiles domain cuts exhausted rest
      else
        let kept := f.boundaries.takeWhile fun b => !(b.domain=domain ∧ cut<b.seq)
        match f.boundaries.find? fun b => b.domain=domain ∧ cut<b.seq with
        | none => f::cutFiles domain cuts exhausted rest
        | some first =>
          match domainFileStats kept domain with
          -- the file starts on the dead branch: it contributes nothing
          | none => cutFiles domain cuts (f.segment::exhausted) rest
          | some _ =>
            { f with
              endPos := first.startPos
              boundaries := kept } :: cutFiles domain cuts (f.segment::exhausted) rest

variable (files : List PositionalFile)

def applyMariadbForks (segs : List ReplaySegment) (domain : UInt32) (target : Option MariaDBGTID) :
    List PositionalFile :=
  cutFiles domain (segmentCuts segs domain target) [] files

/-- The loop of `CheckMariadbAuthors` over the boundaries. -/
def checkAuthors (domain : UInt32) (anchorSeq : Nat) :
    Map Nat UInt32 → List TxnBoundary → Except MariaReplayError Unit
  | _,[] => .ok ()
  | authors,b::rest =>
    if b.domain≠domain ∨ b.seq≤anchorSeq then checkAuthors domain anchorSeq authors rest
    else
      match authors.lookup b.seq with
      | some server =>
        if server≠b.server then .error (.authorsClash server b.server domain b.seq)
        else checkAuthors domain anchorSeq (authors.insert b.seq b.server) rest
      | none => checkAuthors domain anchorSeq (authors.insert b.seq b.server) rest

def checkMariadbAuthors (domain : UInt32) (anchorSeq : Nat) : Except MariaReplayError Unit :=
  checkAuthors domain anchorSeq ∅ (files.flatMap (·.boundaries))

end

def flush (chunks : List ReplayChunk) (cur : Option ReplayChunk) : List ReplayChunk :=
  chunks++cur.toList

/-- The chunks once the file that carries the target is reached. -/
def finish (domain : UInt32) (targetSeq applied : Nat) (firstReplayed overlap : Bool)
    (chunks : List ReplayChunk) (cur : Option ReplayChunk) (f : PositionalFile) :
    List ReplayChunk :=
  let stop := (firstAfterInFile f.boundaries domain targetSeq).or
    (if 0<f.endPos then some f.endPos else none)
  let start := if overlap ∨ firstReplayed then
    (firstAfterInFile f.boundaries domain applied).getD 0 else 0
  match stop,cur,overlap with
  -- the target is the file's last transaction and continues the current chunk
  | none,some cur,false => chunks++[{ cur with files := cur.files++[f.path] }]
  | stop,cur,_ => flush chunks cur++[⟨[f.path],start,stop.getD 0⟩]

/-- The file loop of `PlanMariadbPositionalFiles`. -/
def positionalLoop (domain : UInt32) (targetSeq : Nat) :
    Nat → Bool → List ReplayChunk → Option ReplayChunk → List PositionalFile →
      Except MariaReplayError (List ReplayChunk)
  | _,_,chunks,cur,[] => .ok (flush chunks cur)
  | applied,firstReplayed,chunks,cur,f::rest =>
    match domainFileStats f.boundaries domain with
    | none => positionalLoop domain targetSeq applied firstReplayed chunks cur rest
    | some (minSeq,fileMax) =>
      if fileMax≤applied then positionalLoop domain targetSeq applied firstReplayed chunks cur rest
      else
        let overlap : Bool := minSeq≤applied
        let startPos := (firstAfterInFile f.boundaries domain applied).getD 0
        -- a hole that is not the leading edge
        if firstReplayed=false ∧ overlap=false ∧ applied+1 < minSeq then .error .forkedTimeline
        else if targetSeq≤fileMax then
          .ok (finish domain targetSeq applied firstReplayed overlap chunks cur f)
        else if 0<f.endPos then
          positionalLoop domain targetSeq fileMax false
            (flush chunks cur++[⟨[f.path],startPos,f.endPos⟩]) none rest
        else
          match cur,overlap with
          | some cur,false =>
            positionalLoop domain targetSeq fileMax false chunks
              (some { cur with files := cur.files++[f.path] }) rest
          | cur,_ =>
            positionalLoop domain targetSeq fileMax false (flush chunks cur)
              (some ⟨[f.path],startPos,0⟩) rest

/-- The chunks that replay the domain past the anchor up to the target. -/
def planMariadbPositionalFiles (files : List PositionalFile) (domain : UInt32)
    (anchorSeq targetSeq : Nat) : Except MariaReplayError (List ReplayChunk) :=
  match highestMariadbSeq files domain with
  | none => .error .targetBeyondArchive
  | some maxSeq =>
    if maxSeq<targetSeq then .error .targetBeyondArchive
    else if targetSeq<anchorSeq then .error .targetBeforeBackup
    else
      positionalLoop domain targetSeq anchorSeq true [] none (sortFilesByDomainSeq files domain)

structure PositionalPlan where
  segments : List ReplaySegment
  domain : UInt32
  targetSeq : Nat
  target : Option MariaDBGTID
  targetTime : Time := 0
  deriving DecidableEq

/-- Plans the downloaded files; no chunk means the backup is at the target already. -/
def planMariadbReplay (plan : PositionalPlan) (files : List PositionalFile) (anchorSeq : Nat) :
    Except MariaReplayError (List ReplayChunk) := do
  let cut := applyMariadbForks files plan.segments plan.domain plan.target
  checkMariadbAuthors cut plan.domain anchorSeq
  if plan.targetSeq≠0 then planMariadbPositionalFiles cut plan.domain anchorSeq plan.targetSeq
  else
    match highestMariadbSeq cut plan.domain with
    | none => .ok []
    | some highest =>
      if highest≤anchorSeq then .ok []
      else if plan.targetTime=0 then
        planMariadbPositionalFiles cut plan.domain anchorSeq highest
      else
        let target := seqBeforeTime cut plan.domain anchorSeq highest plan.targetTime
        if target≤anchorSeq then .ok []
        else planMariadbPositionalFiles cut plan.domain anchorSeq target

section

/-- A segment's range in the domain, as selection reads it. -/
structure SegmentRange where
  seg : ArchiveSegment
  start : Nat
  stop : Nat
  deriving DecidableEq

variable (segments : List ArchiveSegment) (idx : ArchiveIndex) (domain : UInt32)

/-- A segment's range in the domain; an unknown start is the first sequence. -/
def segmentRange (seg : ArchiveSegment) : Option SegmentRange :=
  let stop := mariaSeqForDomain seg.gtidSet domain
  let start := mariaSeqForDomain seg.startGTIDSet domain
  if stop=0 then none else some ⟨seg,if start=0 then 1 else start,stop⟩

def segmentRanges : List SegmentRange :=
  segments.filterMap (segmentRange domain)

variable (current : Nat) (ranges : List SegmentRange)

def furthest : Option SegmentRange :=
  ranges.foldl (fun best v =>
    if v.stop≤current ∨ current+1<v.start then best
    else
      match best with
      | none => some v
      | some b => if b.stop<v.stop then some v else some b) none

def earliest : Option SegmentRange :=
  ranges.foldl (fun best v =>
    if v.stop≤current then best
    else
      match best with
      | none => some v
      | some b => if v.start<b.start then some v else some b) none

/-- The loop of `SelectMariadbSegments`; each round uses up one range. -/
def selectLoop (targetSeq : Nat) :
    Nat → Nat → List SegmentRange → List SegmentRange → Except MariaReplayError (List SegmentRange)
  | rounds,current,ranges,out =>
    if targetSeq≤current then .ok out
    else
      match rounds with
      | 0 => .error .forkedTimeline
      | rounds+1 =>
        match (furthest current ranges).or (if out=[] then earliest current ranges else none) with
        | none => .error .forkedTimeline
        | some best => selectLoop targetSeq rounds best.stop (ranges.erase best) (out++[best])

def selectMariadbSegments (anchorSeq targetSeq : Nat) :
    Except MariaReplayError (List ReplaySegment) :=
  if targetSeq≤anchorSeq then .ok []
  else
    let ranges := segmentRanges segments domain
    if (ranges.foldl (fun m v => max m v.stop) 0)<targetSeq then .error .targetBeyondArchive
    else do
      let out ← selectLoop targetSeq ranges.length anchorSeq ranges []
      .ok (out.map fun v => replaySegment v.seg)

/-- How a MariaDB recovery replays. -/
structure MariadbPositional where
  enabled : Bool := false
  domain : UInt32 := 0
  anchorSeq : Nat := 0
  targetSeq : Nat := 0
  target : Option MariaDBGTID := none
  selected : Bool := false
  segments : List ReplaySegment := []
  deriving DecidableEq

/-- A segment cut short, and the sequence it then reaches. -/
def capSegment (holder : String) (branchCut : Nat) (seg : ArchiveSegment) : ArchiveSegment × Nat :=
  match segmentAuthor (replaySegment seg) domain with
  | none => (seg,0)
  | some (server, stop) =>
    let limit := if holder ≠ "" then (if seg.serverUUID≠holder then some branchCut else none)
      else forkCut (replaySegment seg) domain
    match limit with
    | none => (seg,stop)
    | some limit =>
      if limit<stop then
        ({ seg with gtidSet := String.ofList (tripleString domain ⟨server,UInt64.ofNat limit⟩) },
          limit)
      else (seg,stop)

/-- The segments with forked ranges cut short, and the sequence to reach. -/
def capSegments (index : List ArchiveSegment) (p : MariadbPositional) :
    List ArchiveSegment × Nat :=
  let (holder, branchCut) := branchHolder (index.map replaySegment) p.domain p.target
  let capped := index.map (capSegment p.domain holder branchCut)
  (capped.map (·.1),
    if p.targetSeq≠0 then p.targetSeq else capped.foldl (fun highest c => max highest c.2) 0)

def ArchiveDisownedRange.holds (r : ArchiveDisownedRange) (g : MariaDBGTID) : Bool :=
  r.domain=g.domain.toNat ∧ r.server=g.server.toNat ∧ r.after<g.seq ∧ g.seq≤r.through

def pastFork (anchor : MariaDBGTID) (seg : ReplaySegment) : Option Nat :=
  match forkCut seg anchor.domain,segmentAuthor seg anchor.domain with
  | some cut,some (server,_) => if server=anchor.server ∧ cut<anchor.seq then some cut else none
  | _,_ => none

variable (segs : List ReplaySegment) (disowned : Option ArchiveDisowned) (anchorGTID : String)

def checkMariadbAnchor (domain : UInt32) : Except MariaReplayError Unit :=
  match parseMariaPos anchorGTID with
  | .error _ => .ok ()
  | .ok pos =>
    match pos.lookup domain with
    | none => .ok ()
    | some e =>
      let anchor : MariaDBGTID := ⟨domain,e.server,e.seq.toNat⟩
      match ((disowned.map (·.ranges)).getD []).find? (ArchiveDisownedRange.holds · anchor) with
      | some r => .error (.anchorDisowned anchor r)
      | none =>
        match segs.findSome? fun seg => (pastFork anchor seg).map (seg.serverUUID,·) with
        | some (uuid,cut) => .error (.anchorPastFork anchor uuid cut)
        | none => .ok ()

def archiveDomains : List UInt32 :=
  (idx.segments.foldl (fun out seg =>
    match parseMariaPos seg.gtidSet with
    | .error _ => out
    | .ok pos => pos.domains.foldl (fun out d => if d∈out then out else out++[d]) out)
    []).insertionSort (·≤·)

def segmentsHaveRanges : Bool :=
  segments.any fun seg => seg.gtidSet ≠ ""

def segmentByUUID (uuid : String) : ReplaySegment :=
  (segs.reverse.find? (·.serverUUID=uuid)).getD ⟨"",[],"",none⟩

variable (target : RecoveryTarget) (p : MariadbPositional)

/-- The part of `PrepareMariadbPositional` that prunes the download. -/
def prepareSelection : Except MariaReplayError MariadbPositional :=
  if segmentsHaveRanges idx.segments=false then .ok p
  else
    let (capped, selectTarget) := capSegments idx.segments p
    if selectTarget≤p.anchorSeq then .ok { p with selected := true }
    else
      match selectMariadbSegments capped p.domain p.anchorSeq selectTarget with
      | .error e =>
        -- a time target may stop before a gap: every segment is downloaded, planning decides
        if e.sentinel=some .errForkedTimeline ∧ target.time.isSome then .ok p else .error e
      | .ok selected =>
        .ok { p with
          selected := true
          segments := selected.map fun s =>
            segmentByUUID (idx.segments.map replaySegment) s.serverUUID }

def prepareMariadbPositional : Except MariaReplayError MariadbPositional :=
  if target.gtid ≠ "" then do
    match ← (singleDomainMariaGTID target.gtid).mapError .invalidGTID with
    | none => .ok {}
    | some (domain,seq) => do
      let g ← (parseMariaDBGTID target.gtid).mapError .invalidGTID
      prepareSelection idx target {
        enabled := true
        domain := domain
        anchorSeq := mariaSeqForDomain anchorGTID domain
        targetSeq := seq
        target := some g }
  else
    match archiveDomains idx with
    | [] => .ok {}
    | [domain] => do
      checkMariadbAnchor (idx.segments.map replaySegment) idx.disowned anchorGTID domain
      prepareSelection idx target {
        enabled := true
        domain := domain
        anchorSeq := mariaSeqForDomain anchorGTID domain }
    | _ =>
      match idx.segments.find? (·.fork.isSome) with
      | some seg => .error (.multiDomainFork seg.serverUUID)
      | none => .ok {}

/-- The plan a restore runs: over the selected segments, or all `planned` ones. -/
def MariadbPositional.plan (planned : List ReplaySegment)
    (target : RecoveryTarget) : PositionalPlan where
  segments := if p.selected then p.segments else planned
  domain := p.domain
  targetSeq := p.targetSeq
  target := p.target
  targetTime := if target.gtid ≠ "" then 0 else target.time.getD 0

end

/-- Judges every MariaDB segment against the archived timeline and folds what it disowns into the
fork records. -/
def applyArchiveTimeline [CaseMapping] (idx : ArchiveIndex) : Except String ArchiveIndex :=
  if idx.mariadbTimeline=[] then .ok idx
  else do
    let judge := mariadbForkJudge (engineTimeline idx.mariadbTimeline) "" idx.mariadbTimeline
    let segments ← idx.segments.mapM fun seg => do
      let delta ← judge.judge seg
      let (fork,_) ← mergeFork seg.fork delta "" 0 "restore"
      return { seg with fork := fork }
    return { idx with segments := segments }

end Cnmsql.Binlog
