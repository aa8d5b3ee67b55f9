import Cnmsql.Binlog.ArchiveGaps

namespace Cnmsql.Controller

open Framework Replication ObjectStore Binlog

inductive BackupMethod where
  | xtrabackup
  | volumeSnapshot
  | logical
  deriving DecidableEq

inductive BackupPhase where
  | pending
  | running
  | completed
  | failed
  deriving DecidableEq

/-- A Backup; a method or phase not set yet is `none`. -/
structure Backup where
  name : String
  clusterName : String
  specMethod : Option BackupMethod := none
  method : Option BackupMethod := none
  phase : Option BackupPhase := none
  stoppedAt : Option Time := none
  endGTID : String := ""
  deriving DecidableEq

def isLogicalBackup (b : Backup) : Bool :=
  b.specMethod=some .logical || b.method=some .logical

/-- A completed physical backup of the cluster replaces one that stopped before it. -/
def newerBackup (clusterName : String) (newest : Option Backup) (b : Backup) : Option Backup :=
  if b.clusterName≠clusterName ∨ b.phase≠some .completed ∨ isLogicalBackup b then newest
  else
    match b.stoppedAt,newest with
    | none,_ => newest
    | some _,none => some b
    | some stopped,some n => if n.stoppedAt.getD 0<stopped then some b else newest

def newestPhysicalBackup (clusterName : String) (backups : List Backup) : Option Backup :=
  backups.foldl (newerBackup clusterName) none

def afterDots : List Char → Option (List Char)
  | '.' :: '.'::rest => some rest
  | _::rest => afterDots rest
  | [] => none

section

variable [CaseMapping]

/-- Whether an anchor holds a gap: a MySQL set it contains, or a MariaDB range it is past. -/
def anchorCoversGap (anchor gap : String) : Bool :=
  if anchor = "" then false
  else
    let (domain,rng, found) := cut '-' gap.toList
    if found=true ∧ ':'∉gap.toList then
      match parseUint 32 domain,afterDots rng with
      | .ok d,some last =>
        match parseUint 64 last with
        | .ok through => decide (through ≤ mariaSeqForDomain anchor (UInt32.ofNat d))
        | .error _ => false
      | _,_ => false
    else
      match gtidContains anchor gap with
      | .ok contains => contains
      | .error _ => false

def openArchiveGaps (gaps : List String) (anchor : String) : List String :=
  gaps.filter fun gap => !anchorCoversGap anchor gap

/-- The archiving status an instance reported. -/
structure ContinuousArchivingStatus where
  gaps : List String := []
  gapsSince : Option Time := none
  deriving DecidableEq

inductive GapReason where
  | noGap
  | gapPendingRepair
  | transactionsMissingFromArchive
  | gapBehindNewestBackup
  deriving DecidableEq

/-- The ArchiveGap condition; `status` is whether it is True. -/
structure GapCondition where
  status : Bool
  reason : GapReason
  message : String
  deriving DecidableEq

/-- What a pass does to the stored condition. -/
inductive ConditionUpdate where
  | removed
  | unchanged
  | set (condition : GapCondition)
  deriving DecidableEq

def archiveGapGrace : Nat := 5*60+2*60

def archiveGapSettled (ca : ContinuousArchivingStatus) (now : Time) : Bool :=
  match ca.gapsSince with
  | none => true
  | some since => since+archiveGapGrace≤now

/-- The cluster as `applyArchiveGapCondition` reads it. -/
structure ArchivingView where
  clusterName : String
  archivingEnabled : Bool
  continuousArchiving : Option ContinuousArchivingStatus
  deriving DecidableEq

/-- `backups` is `none` when they could not be listed. -/
def applyArchiveGapCondition (latest : ArchivingView) (backups : Option (List Backup)) (now : Time) :
    ConditionUpdate :=
  if ¬latest.archivingEnabled then .removed
  else
    match latest.continuousArchiving with
    | none => .unchanged
    | some ca =>
      if ca.gaps=[] then
        .set ⟨false,.noGap,
          "The binary-log archive holds every transaction after the newest base backup"⟩
      else
        match backups with
        | none => .unchanged
        | some backups =>
          let backup := newestPhysicalBackup latest.clusterName backups
          let anchor := (backup.map Backup.endGTID).getD ""
          let name := (backup.map Backup.name).getD "none"
          let missing := openArchiveGaps ca.gaps anchor
          if missing≠[] ∧ ¬archiveGapSettled ca now then
            .set ⟨false,.gapPendingRepair,"The binary-log archive is missing " ++
              "; ".intercalate missing ++
              "; waiting for a former primary to ship it before taking a base backup"⟩
          else if missing≠[] then
            .set ⟨true,.transactionsMissingFromArchive,"The binary-log archive is missing " ++
              "; ".intercalate missing ++ ", which the newest base backup (" ++ name ++
              ") does not hold: point-in-time recovery cannot cross them until a base backup " ++
              "taken after them completes"⟩
          else
            .set ⟨false,.gapBehindNewestBackup,"The binary-log archive is missing " ++
              "; ".intercalate ca.gaps ++ ", before the newest base backup (" ++ name ++
              "): recovery to a point before that backup cannot cross them"⟩

/-- Nothing is missing, or nothing the newest backup lacks. -/
def ConditionUpdate.Clear (update : ConditionUpdate) : Prop :=
  ∃ c,update = .set c ∧ c.status=false ∧ (c.reason = .noGap ∨ c.reason = .gapBehindNewestBackup)

variable {latest : ArchivingView} {ca : ContinuousArchivingStatus} {backups : List Backup}
  {b : Backup} {now : Time}

theorem openArchiveGaps_of_clear (hca : latest.continuousArchiving=some ca)
    (hb : newestPhysicalBackup latest.clusterName backups=some b)
    (hclear : (applyArchiveGapCondition latest (some backups) now).Clear) :
    openArchiveGaps ca.gaps b.endGTID=[] := by
  obtain ⟨c,hset,-,hreason⟩ := hclear
  simp only [applyArchiveGapCondition,hca,hb,Option.map_some,Option.getD_some] at hset
  split_ifs at hset with henabled hgaps hpending hopen
  · simp [openArchiveGaps,hgaps]
  · cases hset
    simp at hreason
  · cases hset
    simp at hreason
  · exact not_not.mp hopen

theorem anchorCoversGap_set {anchor gap : String} (hcolon : ':'∈gap.toList)
    (h : anchorCoversGap anchor gap=true) : gtids gap ⊆ gtids anchor := by
  unfold anchorCoversGap at h
  by_cases hne : anchor = ""
  · simp [hne] at h
  · simp only [hne,if_false,hcolon,not_true,and_false] at h
    cases hcontains : gtidContains anchor gap with
    | error e => simp [hcontains] at h
    | ok contains =>
      simp only [hcontains] at h
      exact subset_of_gtidContains (hcontains.trans (congrArg _ h))

theorem holes_subset {idx : ArchiveIndex} (h : PlainIndex idx) {anchor : String}
    (hopen : openArchiveGaps (archiveGaps (some idx)) anchor=[]) :
    ∀ t,Hole (segmentTxns idx.segments) t → t∈gtids anchor := by
  intro t ht
  rcases h.archiveGaps_spec with ⟨-,hnone⟩ | ⟨gap,hgap,hcolon,-,hmem⟩
  · exact absurd ht (hnone t)
  · have hcovers : anchorCoversGap anchor gap=true := by
      simpa [openArchiveGaps,hgap] using hopen
    exact anchorCoversGap_set hcolon hcovers ((hmem t).mpr ht)

/-- Under a clear condition a latest recovery fails for a gap exactly when the archive does not join
the backup. -/
theorem clear_no_gap_iff (idx : ArchiveIndex) (h : PlainIndex idx) (latest : ArchivingView)
    (ca : ContinuousArchivingStatus) (backups : List Backup) (b : Backup) (now : Time)
    (target : RecoveryTarget) (ht : target.IsLatest)
    (hca : latest.continuousArchiving=some ca) (hgaps : ca.gaps=archiveGaps (some idx))
    (hb : newestPhysicalBackup latest.clusterName backups=some b)
    (hclear : (applyArchiveGapCondition latest (some backups) now).Clear) :
    (¬∃ e,planReplay (some idx) b.endGTID target = .error e ∧
        e.sentinel=some .errArchiveGap) ↔
      (Parses b.endGTID → ¬UnrecordedFork idx.segments ∅ →
        Joins (gtids b.endGTID) (segmentTxns idx.segments)) := by
  have hholes := holes_subset h (hgaps ▸ openArchiveGaps_of_clear hca hb hclear)
  rw [h.planReplay_gap_iff ht,reach]
  constructor
  · intro hnone hparses hfork
    refine joins_of_explained ?_ fun t hskip => ?_
    · rintro t ⟨seg,-,hmem⟩
      exact txn_pos _ t hmem
    · by_contra hhole
      exact hnone ⟨hparses,hfork,t,hskip,hhole⟩
  · rintro hjoin ⟨hparses,hfork,t,hskip,hhole⟩
    exact hhole ((hjoin hparses hfork).explained hholes hskip)

end

theorem plainIndex_oneSegment {held : String} (hparse : Parses held)
    (hmysql : mariadbArchive (oneSegment held)=false) : PlainIndex (oneSegment held) where
  mysql := hmysql
  unforked seg hseg := by
    rw [List.mem_singleton.mp hseg]
  undisowned := rfl
  segments_parse seg hseg := by
    rw [List.mem_singleton.mp hseg]
    exact hparse
  covered_parses := hparse
  covered := by
    ext t
    simp [oneSegment,segmentTxns]

def onlyBackup (anchor : String) : Backup where
  name := "base"
  clusterName := "db"
  phase := some .completed
  stoppedAt := some 100
  endGTID := anchor

def archivingCluster (held : String) : ArchivingView where
  clusterName := "db"
  archivingEnabled := true
  continuousArchiving := some { gaps := archiveGaps (some (oneSegment held)), gapsSince := some 0 }

/-- The archive lost transactions that the backup has. -/
theorem clear_no_gap_behindBackup :
    (applyArchiveGapCondition (archivingCluster "u:1-3:6-9") (some [onlyBackup "u:1-7"]) 1000).Clear ∧
      ¬∃ e,planReplay (some (oneSegment "u:1-3:6-9")) "u:1-7" {} = .error e ∧
        e.sentinel=some .errArchiveGap := by
  have hclear : (applyArchiveGapCondition (archivingCluster "u:1-3:6-9")
      (some [onlyBackup "u:1-7"]) 1000).Clear :=
    ⟨⟨false,.gapBehindNewestBackup,"The binary-log archive is missing u:4-5, before the newest " ++
      "base backup (base): recovery to a point before that backup cannot cross them"⟩,
      by decide +kernel,rfl,.inr rfl⟩
  refine ⟨hclear,(clear_no_gap_iff (oneSegment "u:1-3:6-9")
    (plainIndex_oneSegment (by decide +kernel) (by decide +kernel)) (archivingCluster "u:1-3:6-9") _
    [onlyBackup "u:1-7"] (onlyBackup "u:1-7") 1000 {} ⟨rfl,rfl⟩ rfl rfl (by decide +kernel)
    hclear).mpr fun _ _ => ?_⟩
  rintro u ⟨n,seg,hseg,hn⟩
  rw [List.mem_singleton.mp hseg] at hn
  have hnames : ∀ t∈gtidList "u:1-3:6-9", t.1 = "u" := by decide +kernel
  have hu : u = "u" := hnames (u,n) ((mem_gtidList _ _).mpr hn)
  have hheld : ("u",1)∈segmentTxns (oneSegment "u:1-3:6-9").segments :=
    ⟨_,List.mem_singleton_self _,by decide +kernel⟩
  have hbacked : ("u", 1)∈gtids "u:1-7" := by decide +kernel
  rw [hu]
  exact ⟨fun _ => ⟨⟨1,1,hheld,hbacked,by omega⟩,1,1,hheld,hbacked,by omega⟩,fun _ => hheld⟩

/-- The archive starts after the backup: the condition is clear, and no latest recovery can be
planned. -/
theorem clear_lateArchive :
    PlainIndex (oneSegment "u:10-20") ∧
      newestPhysicalBackup "db" [onlyBackup "u:1-5"]=some (onlyBackup "u:1-5") ∧
      applyArchiveGapCondition (archivingCluster "u:10-20") (some [onlyBackup "u:1-5"]) 1000 =
        .set ⟨false,.noGap,
          "The binary-log archive holds every transaction after the newest base backup"⟩ ∧
      planReplay (some (oneSegment "u:10-20")) "u:1-5" {} = .error (.archiveGap "u:6-9") ∧
      (ReplayError.archiveGap "u:6-9").sentinel=some .errArchiveGap :=
  ⟨plainIndex_oneSegment (by decide +kernel) (by decide +kernel),by decide +kernel,
    by decide +kernel,by decide +kernel,rfl⟩

end Cnmsql.Controller
