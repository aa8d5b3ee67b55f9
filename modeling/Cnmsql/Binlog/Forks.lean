import Cnmsql.Engine.MariaTimeline
import Cnmsql.ObjectStore.Index
import Cnmsql.Replication.GtidStrings

namespace Cnmsql.Binlog

open Framework Replication ObjectStore Engine

/-- What a fork check compares an index with. A judge may say which recorded transactions the
authority lacks, or carry a timeline. -/
structure ForkJudge where
  judge : ArchiveSegment → Except String (Option ArchiveFork)
  authority : String
  unheld : Option (String → Except String String) := none
  archiveTimeline : Option (List ArchiveEpoch) := none

section

variable [CaseMapping]

def mysqlForkJudge (raw : String) (executed : GTIDSet) : ForkJudge where
  judge seg := do
    let set ← (parseGTIDSet seg.gtidSet).mapError fun e =>
      "binlog: parsing gtid set of segment " ++ seg.serverUUID ++ ": " ++ e.message
    .ok (if (set.difference executed).isEmpty then none
      else some { gtidSet := (set.difference executed).string })
  authority := raw
  unheld := some fun gtidSet => do
    let set ← (parseGTIDSet gtidSet).mapError fun e =>
      "binlog: parsing disowned set: " ++ e.message
    .ok (set.difference executed).string

def newMySQLForkJudge (executed : String) : Except String ForkJudge := do
  let set ← (parseGTIDSet executed).mapError fun e => "binlog: parsing gtid_executed: " ++ e.message
  .ok (mysqlForkJudge executed set)

/-- `raw` in canonical form, or as it is when it does not parse. -/
def canonicalGTIDSet (raw : String) : String :=
  match parseGTIDSet raw with
  | .ok set => set.string
  | .error _ => raw

end

def engineTimeline (epochs : List ArchiveEpoch) : MariaDBTimeline :=
  epochs.map fun e => ⟨UInt32.ofNat e.serverID,e.handoff⟩

def mariadbForkJudge (timeline : MariaDBTimeline) (position : String)
    (epochs : List ArchiveEpoch) : ForkJudge where
  judge seg := do
    let pos ← (parseMariaPos seg.gtidSet).mapError fun e =>
      "binlog: parsing position of segment " ++ seg.serverUUID ++ ": " ++ e
    let after := pos.domains.filterMap fun d =>
      ((pos.lookup d).bind (timeline.deadAfter d)).map fun seq => (d.toNat,seq.toNat)
    .ok (if after=[] then none else some { afterSeq := after })
  authority := position
  archiveTimeline := some epochs

def putSeq (domain seq : Nat) : List (Nat × Nat) → List (Nat × Nat)
  | [] => [(domain,seq)]
  | e::rest => if e.1=domain then (domain,seq)::rest else e::putSeq domain seq rest

/-- The loop of `mergeFork` over cuts: the lower of each domain. -/
def lowerCuts : List (Nat × Nat) → List (Nat × Nat) → Bool → List (Nat × Nat) × Bool
  | [],cuts,grew => (cuts,grew)
  | (domain,seq)::rest,cuts,grew =>
    if (cuts.lookup domain).any (·≤ seq) then lowerCuts rest cuts grew
    else lowerCuts rest (putSeq domain seq cuts) true

/-- Folds a range into the disowned ones, merging with one it overlaps. -/
def addRange (r : ArchiveDisownedRange) :
    List ArchiveDisownedRange → List ArchiveDisownedRange × Bool
  | [] => ([r],true)
  | cur::rest =>
    if cur.domain≠r.domain ∨ cur.server≠r.server ∨ cur.through<r.after ∨ r.through<cur.after then
      let (ranges, grew) := addRange r rest
      (cur::ranges,grew)
    else
      ({ cur with after := min cur.after r.after, through := max cur.through r.through } :: rest,
        r.after<cur.after ∨ cur.through<r.through)

def ArchiveDisowned.addRange (d : ArchiveDisowned) (r : ArchiveDisownedRange) :
    ArchiveDisowned × Bool :=
  if r.through≤r.after then (d,false)
  else ({ d with ranges := (Binlog.addRange r d.ranges).1 }, (Binlog.addRange r d.ranges).2)

def addCut (pos : MariaPos) (cut : Nat × Nat) (d : ArchiveDisowned) : ArchiveDisowned × Bool :=
  pos.domains.foldl (fun acc domain =>
    match pos.lookup domain with
    | some g =>
      if domain.toNat=cut.1 then
        let r := ArchiveDisowned.addRange acc.1 ⟨cut.1,g.server.toNat,cut.2,g.seq.toNat⟩
        (r.1,acc.2 || r.2)
      else acc
    | none => acc) (d,false)

def addCuts (seg : ArchiveSegment) :
    List (Nat × Nat) → ArchiveDisowned → Bool → Except String (ArchiveDisowned × Bool)
  | [],d,changed => .ok (d,changed)
  | cut::rest,d,changed => do
    let pos ← (parseMariaPos seg.gtidSet).mapError fun e =>
      "binlog: parsing position of segment " ++ seg.serverUUID ++ ": " ++ e
    let (d, grew) := addCut pos cut d
    addCuts seg rest d (changed || grew)

def addForkRanges : List (ArchiveSegment × Option ArchiveFork) → ArchiveDisowned → Bool →
    Except String (ArchiveDisowned × Bool)
  | [],d,changed => .ok (d,changed)
  | (seg,fork)::rest,d,changed => do
    let (d,changed) ← addCuts seg ((fork.map (·.afterSeq)).getD []) d changed
    addForkRanges rest d changed

def lowest (oldest : MariaPos) (pos : MariaPos) : MariaPos :=
  pos.entries.foldl (fun oldest e =>
    if (oldest.lookup e.1).all (e.2.seq<·.seq) then oldest.insert e.1 e.2 else oldest) oldest

/-- Per domain, the lowest position any segment of a MariaDB archive has reached. -/
def oldestSegmentPosition (segs : List ArchiveSegment) : String :=
  (segs.foldl (fun oldest seg =>
    match parseMariaPos seg.gtidSet with
    | .ok pos => lowest oldest pos
    | .error _ => oldest) (∅ : MariaPos)).string

/-- The Cluster's timeline after the older epochs still held, pruned to what the oldest segment
needs. -/
def mergeArchiveTimeline (stored current : List ArchiveEpoch) (segs : List ArchiveSegment) :
    List ArchiveEpoch :=
  match current with
  | [] => stored
  | first::_ =>
    let merged := stored.takeWhile (·≠first)++current
    let oldest := oldestSegmentPosition segs
    merged.drop (MariaDBTimeline.pruned (engineTimeline merged) (if oldest = "" then [] else [oldest]))

variable [CaseMapping]

/-- Folds a judged delta into a record, which only grows: the set by union, the cut downwards. -/
def mergeFork (existing delta : Option ArchiveFork) (authority : String) (now : Time)
    (identity : String) : Except String (Option ArchiveFork × Bool) :=
  match delta with
  | none => .ok (existing,false)
  | some delta =>
    if delta.gtidSet = "" ∧ delta.afterSeq=[] then .ok (existing,false)
    else
      match existing with
      | none => do
        let _ ← (parseGTIDSet delta.gtidSet).mapError fun e =>
          "binlog: parsing fork gtid set: " ++ e.message
        .ok (some { delta with
          authorityGTIDSet := authority, detectedAt := now, detectedBy := identity },true)
      | some existing => do
        let union ←
          if delta.gtidSet = "" then .ok existing.gtidSet
          else (unionGTIDStrings [existing.gtidSet,delta.gtidSet]).mapError fun e =>
            "binlog: merging fork gtid set: " ++ e.message
        let (cuts, cut) := lowerCuts delta.afterSeq existing.afterSeq false
        if union=existing.gtidSet ∧ cut=false then .ok (some existing,false)
        else
          .ok (some { existing with
            gtidSet := union, afterSeq := cuts, authorityGTIDSet := authority },true)

/-- Narrows a MySQL record to what the authority still lacks. -/
def retractFork (fork : ArchiveFork) (unheld : String → Except String String) (authority : String) :
    Except String (Option ArchiveFork × Bool) :=
  if fork.gtidSet = "" then .ok (some fork,false)
  else do
    let left ← unheld fork.gtidSet
    if left=canonicalGTIDSet fork.gtidSet then .ok (some fork,false)
    else if left = "" ∧ fork.afterSeq=[] then .ok (none,true)
    else .ok (some { fork with gtidSet := left, authorityGTIDSet := authority }, true)

/-- A disowned set without what the authority holds, when the judge can tell. -/
def narrowed (unheld : Option (String → Except String String)) (union : String) :
    Except String String :=
  match unheld with
  | some unheld => if union = "" then .ok union else unheld union
  | none => .ok union

/-- Folds the segments' records into the index's, narrowed to what the authority lacks. -/
def foldDisowned (existing : Option ArchiveDisowned)
    (forks : List (ArchiveSegment × Option ArchiveFork))
    (unheld : Option (String → Except String String)) :
    Except String (Option ArchiveDisowned × Bool) := do
  let start := existing.getD {}
  let before := (existing.map fun d => canonicalGTIDSet d.gtidSet).getD ""
  let (out,changed) ← addForkRanges forks start false
  let sets := forks.filterMap fun e => (e.2.map (·.gtidSet)).filter (· ≠ "")
  let union ← (unionGTIDStrings (start.gtidSet::sets)).mapError fun e =>
    "binlog: merging disowned sets: " ++ e.message
  let union ← narrowed unheld union
  let changed := changed || (union != before)
  if union = "" ∧ out.ranges=[] then .ok (none,changed)
  else .ok (some { out with gtidSet := union }, changed)

variable (judge : ForkJudge) (serverUUID : String) (now : Time) (identity : String) (seg : ArchiveSegment)

/-- A segment's record with what is newly judged; the archiver's own is not judged. -/
def mergeSegment : Except String (Option ArchiveFork × Bool) :=
  if seg.serverUUID=serverUUID then .ok (seg.fork,false)
  else do
    let delta ← judge.judge seg
    mergeFork seg.fork delta judge.authority now identity

/-- A segment's record after a check and whether it changed; any may be retracted. -/
def judgeSegment : Except String (Option ArchiveFork × Bool) := do
  let (merged,grew) ← mergeSegment judge serverUUID now identity seg
  match judge.unheld,merged with
  | some unheld,some fork => do
    let (kept,retracted) ← retractFork fork unheld judge.authority
    if retracted then .ok (kept,true) else .ok (some fork,grew)
  | _,_ => .ok (merged,grew)

def judgeSegments (judge : ForkJudge) (serverUUID : String) (now : Time) (identity : String) :
    List ArchiveSegment → Except String (List (ArchiveSegment × Option ArchiveFork) × Bool)
  | [] => .ok ([],false)
  | seg::rest => do
    let (fork,changed) ← judgeSegment judge serverUUID now identity seg
    let (forks,restChanged) ← judgeSegments judge serverUUID now identity rest
    .ok ((seg,fork)::forks,changed || restChanged)

def judgeIndex (index : ArchiveIndex) : Except String (ArchiveIndex × Bool) := do
  let (forks,changed) ← judgeSegments judge serverUUID now identity index.segments
  let (disowned,disownedChanged) ← foldDisowned index.disowned forks judge.unheld
  let timeline :=
    match judge.archiveTimeline with
    | some current => mergeArchiveTimeline index.mariadbTimeline current index.segments
    | none => index.mariadbTimeline
  .ok ({ index with
    segments := forks.map fun e => { e.1 with fork := e.2 }
    disowned := disowned
    mariadbTimeline := timeline },
    changed || disownedChanged || (timeline != index.mariadbTimeline))

theorem judgeSegments_fst {judge : ForkJudge} {serverUUID identity : String} {now : Time}
    {segs : List ArchiveSegment} {forks : List (ArchiveSegment × Option ArchiveFork)} {changed : Bool}
    (h : judgeSegments judge serverUUID now identity segs = .ok (forks,changed)) :
    forks.map (·.1)=segs := by
  induction segs generalizing forks changed with
  | nil =>
    cases h
    rfl
  | cons seg rest ih =>
    rw [judgeSegments,bind_eq_ok] at h
    obtain ⟨⟨fork,c⟩,-,h⟩ := h
    rw [bind_eq_ok] at h
    obtain ⟨⟨forks',c'⟩,hrest,h⟩ := h
    cases h
    rw [List.map_cons,ih hrest]

variable {judge : ForkJudge} {serverUUID identity : String} {now : Time}
  {index judged : ArchiveIndex} {changed : Bool}
  (h : judgeIndex judge serverUUID now identity index = .ok (judged,changed))
include h

theorem judgeIndex_eq_ok :
    ∃ forks grew disowned shrank,judgeSegments judge serverUUID now identity index.segments =
        .ok (forks,grew) ∧
      foldDisowned index.disowned forks judge.unheld = .ok (disowned,shrank) ∧
      judged={ index with
        segments := forks.map fun e => { e.1 with fork := e.2 }
        disowned := disowned
        mariadbTimeline := judged.mariadbTimeline } ∧
      (judge.archiveTimeline=none → judged.mariadbTimeline=index.mariadbTimeline) := by
  rw [judgeIndex,bind_eq_ok] at h
  obtain ⟨⟨forks,grew⟩,hforks,h⟩ := h
  rw [bind_eq_ok] at h
  obtain ⟨⟨disowned,shrank⟩,hdisowned,h⟩ := h
  cases h
  refine ⟨forks,grew,disowned,shrank,hforks,hdisowned,rfl,?_⟩
  intro hnone
  simp [hnone]

theorem judgeIndex_segments :
    List.Forall₂ (fun seg seg' => seg'={ seg with fork := seg'.fork }) index.segments
      judged.segments := by
  obtain ⟨forks,grew,disowned,shrank,hforks,-,hj,-⟩ := judgeIndex_eq_ok h
  rw [hj,← judgeSegments_fst hforks]
  simp only [List.forall₂_map_left_iff,List.forall₂_map_right_iff,List.forall₂_same]
  intro e _
  trivial

end Cnmsql.Binlog
