import Mathlib.Data.List.Sort
import Cnmsql.Framework.Maps
import Cnmsql.ObjectStore.Index

namespace Cnmsql.ObjectStore

open Framework

/-- What the retention policy reads of a base backup's manifest. -/
structure BackupMetadata where
  backupID : String
  startedAt : Time
  completedAt : Time
  deriving DecidableEq

/-- What the retention policy reads of an archived file's manifest. -/
structure BinlogMetadata where
  serverUUID : String
  binlogName : String
  lastEventTime : Time
  deriving DecidableEq

/-- The objects of a cluster's archive, by what their key says they are. -/
inductive Key where
  /-- `metadata.json` of the backup directory. -/
  | backupManifest (dir : String)
  /-- Any other object of the backup directory. -/
  | backupFile (dir name : String)
  | binlog (serverUUID name : String)
  | binlogManifest (serverUUID name : String)
  | index
  deriving DecidableEq

/-- What an object holds. -/
@[reducible] def Content : Key → Type
  | .backupManifest _ => BackupMetadata
  | .binlogManifest _ _ => BinlogMetadata
  | .index => ArchiveIndex
  | .backupFile _ _ | .binlog _ _ => Unit

abbrev Store := AList Content

structure BackupEntry where
  dir : String
  metadata : BackupMetadata
  deriving DecidableEq

structure BinlogEntry where
  binlogKey : Key
  manifestKey : Key
  metadata : BinlogMetadata
  deriving DecidableEq

variable (s : Store)

def listBaseBackups : List BackupEntry :=
  s.entries.filterMap fun e =>
    match e with
    | ⟨.backupManifest dir,metadata⟩ => some ⟨dir,metadata⟩
    | _ => none

/-- `ListArchivedBinlogs` reads every per-file manifest. -/
def listArchivedBinlogs : List BinlogEntry :=
  s.entries.filterMap fun e =>
    match e with
    | ⟨.binlogManifest u n,metadata⟩ => some ⟨.binlog u n,.binlogManifest u n,metadata⟩
    | _ => none

abbrev Deleted := Map String (List String)

/-- The decision of a retention pass. -/
structure RetentionPlan where
  deleteBackupPrefixes : List String := []
  deleteBinlogKeys : List Key := []
  newIndex : Option ArchiveIndex := none
  deletedBinlogs : Deleted := ∅
  horizon : Time := 0

variable (deleted : Deleted) (seg : ArchiveSegment) (plan : RetentionPlan)

/-- A segment without its deleted files; one left with none is dropped. -/
def rewriteSegment : Option ArchiveSegment :=
  match deleted.lookup seg.serverUUID with
  | none => some seg
  | some set =>
    if (seg.binlogs.filter (· ∉ set)).isEmpty then none
    else some { seg with binlogs := seg.binlogs.filter (· ∉ set) }

def deletedOf (u : String) : List String := (deleted.lookup u).getD []

def Emptied : Prop :=
  seg.serverUUID∈deleted ∧ ∀ name∈seg.binlogs,name∈deletedOf deleted seg.serverUUID

instance (deleted : Deleted) (seg : ArchiveSegment) : Decidable (Emptied deleted seg) :=
  inferInstanceAs (Decidable (_ ∧ _))

def trimmed : ArchiveSegment :=
  { seg with binlogs := seg.binlogs.filter (· ∉ deletedOf deleted seg.serverUUID) }

theorem rewriteSegment_eq (deleted : Deleted) (seg : ArchiveSegment) :
    rewriteSegment deleted seg=if ¬Emptied deleted seg then some (trimmed deleted seg) else none := by
  unfold rewriteSegment trimmed
  cases hlookup : deleted.lookup seg.serverUUID with
  | none =>
    have hkept : ¬Emptied deleted seg := by
      simp [Emptied,← AList.lookup_isSome,hlookup]
    rw [if_pos hkept]
    simp [deletedOf,hlookup]
  | some set =>
    have hemptied : Emptied deleted seg ↔ seg.binlogs.filter (· ∉ set)=[] := by
      simp [Emptied,← AList.lookup_isSome,deletedOf,hlookup]
    simp only [List.isEmpty_iff,← hemptied,ite_not,deletedOf,hlookup,Option.getD_some]

def rewriteIndex (index : ArchiveIndex) (deleted : Deleted) (now : Time) : ArchiveIndex :=
  { index with segments := index.segments.filterMap (rewriteSegment deleted), updatedAt := now }

theorem segments_rewriteIndex (index : ArchiveIndex) (deleted : Deleted) (now : Time) :
    (rewriteIndex index deleted now).segments =
      (index.segments.filter fun seg => ¬Emptied deleted seg).map (trimmed deleted) := by
  rw [← List.filterMap_eq_map,List.filterMap_filter,rewriteIndex]
  simp only [rewriteSegment_eq,decide_eq_true_eq]
  rfl

variable (horizon : Time) (entry : BinlogEntry)

/-- The file's last event predates the horizon; an unknown time is kept. -/
def Uncoverable : Prop :=
  entry.metadata.lastEventTime≠0 ∧ entry.metadata.lastEventTime<horizon

instance : Decidable (Uncoverable horizon entry) :=
  inferInstanceAs (Decidable (_ ∧ _))

def addDeleted : Deleted :=
  deleted.insert entry.metadata.serverUUID
    (entry.metadata.binlogName::(deleted.lookup entry.metadata.serverUUID).getD [])

variable (binlogs : List BinlogEntry) (index : Option ArchiveIndex) (now : Time)

/-- Selects the files older than the horizon and rewrites the index to drop them. -/
def applyBinlogGC : RetentionPlan :=
  match index with
  | none => plan
  | some index =>
    if plan.horizon=0 then plan
    else
      let old := binlogs.filter (Uncoverable plan.horizon)
      if old.isEmpty then plan
      else
        { plan with
          deleteBinlogKeys := old.flatMap fun entry => [entry.binlogKey,entry.manifestKey]
          newIndex := some (rewriteIndex index (old.foldl addDeleted ∅) now)
          deletedBinlogs := old.foldl addDeleted ∅ }

/-- `PlanRetention` after its sort; the last backup never expires. -/
def planSorted (sorted : List BackupEntry) (binlogs : List BinlogEntry)
    (index : Option ArchiveIndex) (cutoff now : Time) : RetentionPlan :=
  match sorted.getLast? with
  | none => {}
  | some newest =>
    let older := sorted.dropLast
    let expired := older.filter fun entry => entry.metadata.completedAt<cutoff
    let retained := older.filter (fun entry => ¬entry.metadata.completedAt<cutoff)++[newest]
    match expired,retained with
    | _::_,oldest::_ =>
      applyBinlogGC
        { deleteBackupPrefixes := expired.map BackupEntry.dir, horizon := oldest.metadata.startedAt }
        binlogs index now
    | _,_ => {}

def SortedByCompletion (backups sorted : List BackupEntry) : Prop :=
  sorted.Perm backups ∧ sorted.Pairwise (fun a b => a.metadata.completedAt≤b.metadata.completedAt)

def PlanRetention (cutoff now : Time) (plan : RetentionPlan) : Prop :=
  ∃ sorted,SortedByCompletion (listBaseBackups s) sorted ∧
    plan=planSorted sorted (listArchivedBinlogs s) (s.lookup .index) cutoff now

/-- One step of applying a plan. -/
inductive Step where
  | remove (key : Key)
  | rewriteArchiveIndex (deleted : Deleted) (now : Time)

def runStep : Step → Store
  | .remove key => s.erase key
  | .rewriteArchiveIndex deleted now =>
    match s.lookup .index with
    | none => s
    | some index => s.insert .index (rewriteIndex index deleted now)

/-- The objects under a backup directory, as `RemovePrefix` lists them. -/
def listPrefix (dir : String) : List Key :=
  s.keys.filter fun key =>
    match key with
    | .backupManifest d => d == dir
    | .backupFile d _ => d == dir
    | _ => false

def backupExpirySteps : List Step :=
  (plan.deleteBackupPrefixes.flatMap (listPrefix s)).map Step.remove

/-- The files go first, the index rewrite is last. -/
def binlogExpirySteps : List Step :=
  plan.deleteBinlogKeys.map Step.remove ++
    if plan.deletedBinlogs.entries.isEmpty then [] else [.rewriteArchiveIndex plan.deletedBinlogs now]

def expirySteps : List Step :=
  backupExpirySteps s plan++binlogExpirySteps plan now

def stoppedAfter (k : Nat) : Store :=
  ((expirySteps s plan now).take k).foldl runStep s

def RetentionPass (s' : Store) : Prop :=
  ∃ cutoff planned now plan,PlanRetention s cutoff planned plan ∧
    s'=(expirySteps s plan now).foldl runStep s

end Cnmsql.ObjectStore
