import Cnmsql.ObjectStore.Retention
import Cnmsql.Replication.GtidStrings

namespace Cnmsql.ObjectStore

open Framework Replication List

/-- A base backup with the position recovery replays from. -/
structure BaseBackup extends BackupEntry where
  anchorGTID : String
  deriving DecidableEq

/-- An archived file with the transactions its manifest names. -/
structure ArchivedBinlog extends BinlogEntry where
  gtidSet : String
  deriving DecidableEq

def SortedBackups (backups sorted : List BaseBackup) : Prop :=
  sorted.Perm backups ∧ sorted.Pairwise (fun a b => a.metadata.completedAt≤b.metadata.completedAt)

variable (sorted : List BaseBackup) (binlogs : List ArchivedBinlog) (index : Option ArchiveIndex)
  (cutoff now : Time) (file : BinlogEntry)

def planRetention : RetentionPlan :=
  planSorted (sorted.map (·.toBackupEntry)) (binlogs.map (·.toBinlogEntry)) index cutoff now

/-- What completed at the cutoff or later, and the newest. -/
def retained (cutoff : Time) (sorted : List BaseBackup) : List BaseBackup :=
  sorted.dropLast.filter (fun b => ¬b.metadata.completedAt<cutoff)++sorted.getLast?.toList

def Expires (cutoff : Time) (sorted : List BaseBackup) : Prop :=
  ∃ b∈sorted.dropLast,b.metadata.completedAt<cutoff

instance (cutoff : Time) (sorted : List BaseBackup) : Decidable (Expires cutoff sorted) :=
  inferInstanceAs (Decidable (∃ b∈_,_))

/-- There is an index, a backup expires, and the file's last event predates the start of the
retained backup that completed first. -/
def Outdated : Prop :=
  index.isSome ∧ Expires cutoff sorted ∧
    ∃ first∈(retained cutoff sorted).head?,Uncoverable first.metadata.startedAt file

instance : Decidable (Outdated sorted index cutoff file) :=
  inferInstanceAs (Decidable (_ ∧ _ ∧ ∃ first∈(retained cutoff sorted).head?,_))

def outdated : List ArchivedBinlog :=
  binlogs.filter fun file => Outdated sorted index cutoff file.toBinlogEntry

variable (plan : RetentionPlan) (old : List BinlogEntry)

/-- What a plan says of the archived files. -/
structure Sweeps (index : Option ArchiveIndex) (now : Time) : Prop where
  keys : plan.deleteBinlogKeys=old.flatMap fun entry => [entry.binlogKey,entry.manifestKey]
  deleted : plan.deletedBinlogs=old.foldl addDeleted ∅
  newIndex : plan.newIndex =
    if old=[] then none else index.map (rewriteIndex · (old.foldl addDeleted ∅) now)

def RetentionPlan.indexAfter (index : Option ArchiveIndex) : Option ArchiveIndex :=
  plan.newIndex.or index

/-- Files of the segment's server are among those that go, and all its files are. -/
def LosesAll (seg : ArchiveSegment) : Prop :=
  (∃ file∈old,file.metadata.serverUUID=seg.serverUUID) ∧ ∀ name∈seg.binlogs,
    ∃ file∈old,file.metadata.serverUUID=seg.serverUUID ∧ file.metadata.binlogName=name

instance (seg : ArchiveSegment) : Decidable (LosesAll old seg) :=
  inferInstanceAs (Decidable (_ ∧ _))

theorem sweeps_nil (prefixes : List String) (horizon : Time) (index : Option ArchiveIndex) (now : Time) :
    Sweeps { deleteBackupPrefixes := prefixes, horizon } [] index now := ⟨rfl,rfl,rfl⟩

theorem sweeps_applyBinlogGC (prefixes : List String) (horizon : Time) (binlogs : List BinlogEntry)
    (index : Option ArchiveIndex) (now : Time) :
    Sweeps (applyBinlogGC { deleteBackupPrefixes := prefixes, horizon } binlogs index now)
      (binlogs.filter fun file => index.isSome ∧ Uncoverable horizon file) index now := by
  cases index with
  | none => simpa [applyBinlogGC] using sweeps_nil prefixes horizon none now
  | some index =>
    have hsame : (binlogs.filter fun file => (some index).isSome ∧ Uncoverable horizon file) =
        binlogs.filter (Uncoverable horizon) := by simp
    rw [hsame,applyBinlogGC]
    split
    · rename_i hzero
      have hzero : horizon=0 := hzero
      have hnone : binlogs.filter (Uncoverable horizon)=[] := by
        rw [filter_eq_nil_iff]
        intro file _ hfile
        have hlt := (of_decide_eq_true hfile).2
        rw [hzero] at hlt
        exact Nat.not_lt_zero _ hlt
      rw [hnone]
      exact sweeps_nil prefixes horizon (some index) now
    · simp only
      split
      · rename_i hempty
        rw [isEmpty_iff.mp hempty]
        exact sweeps_nil prefixes horizon (some index) now
      · rename_i hempty
        refine ⟨rfl,rfl,?_⟩
        rw [if_neg (by simpa using hempty)]
        rfl

theorem planRetention_eq :
    (¬Expires cutoff sorted ∧ planRetention sorted binlogs index cutoff now={}) ∨
    Expires cutoff sorted ∧ ∃ first,(retained cutoff sorted).head?=some first ∧ ∃ prefixes,
      planRetention sorted binlogs index cutoff now =
        applyBinlogGC { deleteBackupPrefixes := prefixes, horizon := first.metadata.startedAt }
          (binlogs.map (·.toBinlogEntry)) index now := by
  unfold planRetention planSorted
  rw [List.getLast?_map,← map_dropLast]
  cases hlast : sorted.getLast? with
  | none =>
    left
    rw [List.getLast?_eq_none_iff] at hlast
    subst hlast
    exact ⟨by simp [Expires],rfl⟩
  | some newest =>
    simp only [Option.map_some]
    have hretained : (sorted.dropLast.map (·.toBackupEntry)).filter
        (fun entry => ¬entry.metadata.completedAt<cutoff)++[newest.toBackupEntry] =
        (retained cutoff sorted).map (·.toBackupEntry) := by
      rw [retained,hlast,map_append,filter_map]
      rfl
    have hexpires : Expires cutoff sorted ↔ (sorted.dropLast.map (·.toBackupEntry)).filter
        (fun entry => entry.metadata.completedAt<cutoff)≠[] := by
      rw [ne_eq,filter_eq_nil_iff,forall_mem_map,Expires]
      simp
    rw [hretained,hexpires]
    cases hexpired : (sorted.dropLast.map (·.toBackupEntry)).filter
        (fun entry => entry.metadata.completedAt<cutoff) with
    | nil => exact .inl ⟨not_not.mpr rfl,rfl⟩
    | cons oldest expired =>
      right
      refine ⟨cons_ne_nil _ _,?_⟩
      cases hfirst : retained cutoff sorted with
      | nil =>
        rw [retained,hlast] at hfirst
        exact absurd hfirst (by simp)
      | cons first rest => exact ⟨first,rfl,_,rfl⟩

theorem sweeps_planRetention : Sweeps (planRetention sorted binlogs index cutoff now)
      ((outdated sorted binlogs index cutoff).map (·.toBinlogEntry)) index now := by
  rcases planRetention_eq sorted binlogs index cutoff now with ⟨hnone,heq⟩ | ⟨hexp,first,hfirst,prefixes,heq⟩
  · have hold : outdated sorted binlogs index cutoff=[] := by
      rw [outdated,filter_eq_nil_iff]
      intro file _ hfile
      exact hnone (of_decide_eq_true hfile).2.1
    rw [heq,hold]
    exact sweeps_nil [] 0 index now
  · have hold : (outdated sorted binlogs index cutoff).map (·.toBinlogEntry) =
        (binlogs.map (·.toBinlogEntry)).filter
          fun file => index.isSome ∧ Uncoverable first.metadata.startedAt file := by
      rw [outdated,filter_map]
      congr 1
      apply filter_congr
      intro file _
      simp [Outdated,hexp,hfirst]
    rw [heq,hold]
    exact sweeps_applyBinlogGC prefixes _ _ index now

def RetentionPlan.Deletes (file : BinlogEntry) : Prop :=
  file.binlogKey∈plan.deleteBinlogKeys ∧ file.manifestKey∈plan.deleteBinlogKeys

def Swept : Prop :=
  ∀ key∈[file.binlogKey,file.manifestKey],∃ old∈binlogs,
    Outdated sorted index cutoff old.toBinlogEntry ∧ key∈[old.binlogKey,old.manifestKey]

theorem deletes_iff : (planRetention sorted binlogs index cutoff now).Deletes file ↔
      Swept sorted binlogs index cutoff file := by
  have hkeys : ∀ key,key∈(planRetention sorted binlogs index cutoff now).deleteBinlogKeys ↔
      ∃ old∈binlogs,Outdated sorted index cutoff old.toBinlogEntry ∧
        key∈[old.binlogKey,old.manifestKey] := by
    intro key
    rw [(sweeps_planRetention sorted binlogs index cutoff now).keys]
    simp only [outdated,mem_flatMap,mem_map,mem_filter,decide_eq_true_eq]
    constructor
    · intro h
      obtain ⟨entry,⟨old,⟨hold,hout⟩,rfl⟩,hkey⟩ := h
      exact ⟨old,hold,hout,hkey⟩
    · intro h
      obtain ⟨old,hold,hout,hkey⟩ := h
      exact ⟨old.toBinlogEntry,⟨old,⟨hold,hout⟩,rfl⟩,hkey⟩
  simp only [RetentionPlan.Deletes,Swept,hkeys,forall_mem_cons,not_mem_nil]
  simp

/-- No file that goes ended between a retained backup's start and the first-completed one's. -/
def Sequential : Prop :=
  ∀ b∈retained cutoff sorted,¬∃ file∈binlogs,
    Swept sorted binlogs index cutoff file.toBinlogEntry ∧
      b.metadata.startedAt≤file.metadata.lastEventTime

/-- What a plan deletes ended before every retained backup started, exactly when none was started
before the horizon with a file that ended in between. -/
theorem deleted_before_retained_iff :
    (∀ file∈binlogs,(planRetention sorted binlogs index cutoff now).Deletes file.toBinlogEntry →
      ∀ b∈retained cutoff sorted,file.metadata.lastEventTime<b.metadata.startedAt) ↔
    Sequential sorted binlogs index cutoff := by
  simp only [deletes_iff]
  constructor
  · intro h b hb hex
    obtain ⟨file,hfile,hswept,hle⟩ := hex
    exact absurd (h file hfile hswept b hb) (Nat.not_lt.mpr hle)
  · intro h file hfile hswept b hb
    by_contra hnot
    exact h b hb ⟨file,hfile,hswept,Nat.not_lt.mp hnot⟩

/-- The short backup completes first and sets the horizon; a file that ended after the long one had
started goes. -/
def overlapping : List BaseBackup :=
  [⟨⟨"old","old",1,2⟩,""⟩,⟨⟨"short","short",20,21⟩,""⟩,⟨⟨"long","long",10,30⟩,""⟩]

def archived (name gtidSet : String) (lastEventTime : Time) : ArchivedBinlog :=
  ⟨⟨.binlog "u" name,.binlogManifest "u" name,⟨"u",name,lastEventTime⟩⟩,gtidSet⟩

theorem deleted_overlapping : SortedBackups overlapping overlapping ∧
    (∀ b∈overlapping,b.metadata.startedAt≤b.metadata.completedAt) ∧
    ∃ file b,(planRetention overlapping [file] (some {}) 5 40).Deletes file.toBinlogEntry ∧
      b∈retained 5 overlapping ∧ b.metadata.startedAt<file.metadata.lastEventTime := by
  refine ⟨⟨List.Perm.refl _,by decide⟩,by decide,archived "binlog.000001" "u:1" 15,
    ⟨⟨"long","long",10,30⟩,""⟩,?_,by decide,by decide⟩
  rw [RetentionPlan.Deletes]
  decide

section

variable [CaseMapping]

/-- No retained backup comes from an instance that lacked a file that goes. -/
def CaughtUp (sorted : List BaseBackup) (binlogs : List ArchivedBinlog) (index : Option ArchiveIndex)
    (cutoff : Time) : Prop :=
  ∀ b∈retained cutoff sorted,∀ file∈binlogs,
    Swept sorted binlogs index cutoff file.toBinlogEntry → gtids file.gtidSet ⊆ gtids b.anchorGTID

theorem deleted_in_anchors_iff (sorted : List BaseBackup) (binlogs : List ArchivedBinlog)
    (index : Option ArchiveIndex) (cutoff now : Time) :
    (∀ file∈binlogs,(planRetention sorted binlogs index cutoff now).Deletes file.toBinlogEntry →
      ∀ b∈retained cutoff sorted,gtids file.gtidSet ⊆ gtids b.anchorGTID) ↔
    CaughtUp sorted binlogs index cutoff := by
  simp only [deletes_iff]
  constructor
  · intro h b hb file hfile hswept
    exact h file hfile hswept b hb
  · intro h file hfile hswept b hb
    exact h b hb file hfile hswept

end

/-- The newer backup's instance has executed two of four transactions. -/
def lagging : List BaseBackup :=
  [⟨⟨"old","old",1,2⟩,"u:1"⟩,⟨⟨"new","new",10,11⟩,"u:1-2"⟩]

theorem deleted_lagging : SortedBackups lagging lagging ∧
    ∃ file b,(planRetention lagging [file] (some {}) 5 40).Deletes file.toBinlogEntry ∧
      b∈retained 5 lagging ∧ ¬gtids file.gtidSet ⊆ gtids b.anchorGTID := by
  refine ⟨⟨List.Perm.refl _,by decide⟩,archived "binlog.000001" "u:3-4" 5,
    ⟨⟨"new","new",10,11⟩,"u:1-2"⟩,?_,by decide,by decide⟩
  rw [RetentionPlan.Deletes]
  decide

end Cnmsql.ObjectStore
