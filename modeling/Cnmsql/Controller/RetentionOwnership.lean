import Cnmsql.Controller.BackupGC
import Cnmsql.ObjectStore.Bucket
import Cnmsql.ObjectStore.RetentionHorizon

namespace Cnmsql.Controller

open Framework ObjectStore Buckets Api List

structure ContinuousArchivingConfiguration where
  enabled : Bool
  objectStore : Option S3ObjectStore := none
  deriving DecidableEq

/-- What retention and reclaim read of `spec.backup`. -/
structure BackupConfiguration where
  objectStore : Option S3ObjectStore := none
  retentionPolicy : String := ""
  reclaimDelete : Bool := false
  continuousArchiving : Option ContinuousArchivingConfiguration := none
  deriving DecidableEq

/-- What retention and reclaim read of a Cluster. -/
structure ArchivingCluster where
  name : String
  uid : String
  backup : Option BackupConfiguration := none
  currentPrimary : String := ""
  lastRetentionRunTime : Option Time := none
  deleting : Bool := false
  cleanupFinalizer : Bool := false
  deriving DecidableEq

def binlogObjectStore (backup : BackupConfiguration) (store : S3ObjectStore) : S3ObjectStore :=
  match backup.continuousArchiving with
  | some ca => if ca.enabled then ca.objectStore.getD store else store
  | none => store

/-- A change to the object store. -/
inductive Removal where
  /-- `RemovePrefix`. -/
  | under (endpoint bucket : String) (start : List Char)
  | object (address : Address)
  /-- `rewriteArchiveIndex`, which replaces the object. -/
  | index (address : Address) (deleted : Deleted) (now : Time)
  deriving DecidableEq

section

variable {β : Type} (codec : Codec β) (k : Nat) (w : Buckets β)

/-- The buckets after the first `k` writes of a removal; the rest failed. -/
def Removal.run : Removal → Buckets β
  | .under endpoint bucket start =>
    ((w.listObjects endpoint bucket start).take k).foldl (fun w o => w.erase ⟨endpoint,bucket,o.1⟩) w
  | .object address => if k=0 then w else w.erase address
  | .index address deleted now =>
    if k=0 then w
    else
      match w.lookup address with
      | none => w
      | some b =>
        match codec.index b with
        | .error _ => w
        | .ok current => w.insert address (codec.ofIndex (rewriteIndex current deleted now))

def Gone (r : Removal) (x : Address) : Prop :=
  x∈w ∧ x∉r.run codec k w

/-- The addresses a removal names. -/
def Removal.Covers : Removal → Address → Prop
  | .under endpoint bucket start,x => x.endpoint=endpoint ∧ x.bucket=bucket ∧ start <+: x.key
  | .object address,x => x=address
  | .index _ _ _,_ => False

theorem mem_foldl_erase {w : Buckets β} {x : Address} (l : List Address) (hx : x∈w) (hl : x∉l) :
    x∈l.foldl (fun w a => w.erase a) w := by
  induction l generalizing w with
  | nil => exact hx
  | cons a l ih =>
    rw [mem_cons,not_or] at hl
    exact ih (AList.mem_erase.mpr ⟨hl.1,hx⟩) hl.2

theorem covers_of_gone {codec : Codec β} {k : Nat} {w : Buckets β} {r : Removal} {x : Address}
    (h : Gone codec k w r x) : r.Covers x := by
  obtain ⟨hx,hgone⟩ := h
  cases r with
  | under endpoint bucket start =>
    by_contra hcovers
    apply hgone
    have hfold := mem_foldl_erase
      (((w.listObjects endpoint bucket start).take k).map fun o => ⟨endpoint,bucket,o.1⟩) hx (by
        intro hmem
        obtain ⟨⟨key,b⟩,ho,rfl⟩ := mem_map.mp hmem
        exact hcovers ⟨rfl,rfl,(mem_listObjects.mp (mem_of_mem_take ho)).2⟩)
    rw [foldl_map] at hfold
    exact hfold
  | object address =>
    by_contra hne
    apply hgone
    simp only [Removal.run]
    split_ifs
    · exact hx
    · exact AList.mem_erase.mpr ⟨hne,hx⟩
  | index address deleted now =>
    apply hgone
    simp only [Removal.run]
    split_ifs
    · exact hx
    · cases w.lookup address with
      | none => exact hx
      | some b =>
        simp only
        cases codec.index b with
        | error _ => exact hx
        | ok index => exact (AList.mem_insert _).mpr (.inr hx)

end

/-- Why an object store gave no client. -/
inductive CredentialsError where
  | ambientCredentialsDisabled (message : String)
  | credentialsSecretRefused (message : String)
  | other (message : String)
  deriving DecidableEq

def CredentialsError.message : CredentialsError → String
  | .ambientCredentialsDisabled m | .credentialsSecretRefused m | .other m => m

/-- The event reason for an error that no retry fixes. -/
def retentionCredentialsRefused : CredentialsError → String
  | .ambientCredentialsDisabled _ => "ObjectStoreCredentialsRequired"
  | .credentialsSecretRefused _ => "ObjectStoreCredentialsRefused"
  | .other _ => ""

/-- Nothing, a warning, or changes to the store, in this order; a failed call ends the pass. -/
inductive RetentionOutcome where
  | idle
  | skipped (reason message : String)
  | applied (removals : List Removal)

def RetentionOutcome.removals : RetentionOutcome → List Removal
  | .applied removals => removals
  | _ => []

@[simp] theorem removals_idle : RetentionOutcome.idle.removals=[] := rfl

@[simp] theorem removals_skipped (reason message : String) :
    (RetentionOutcome.skipped reason message).removals=[] := rfl

/-- `retentionOwnership`: why retention must not delete anything, or "". -/
def retentionOwnership (uid : String) (sameLocation : Bool) (backups : List OwnedBackup)
    (logical : List LogicalBackupEntry) (binlogs : List BinlogEntry) (index : Option ArchiveIndex) :
    String :=
  if uid = "" then "the Cluster has no UID"
  else
    let manifestOwned := backups.any (·.clusterUID=uid) || logical.any (·.metadata.clusterUID=uid)
    let indexOwned := index.any (·.clusterUID=uid)
    let backupsOwned := manifestOwned || (sameLocation && indexOwned)
    let archiveOwned := if sameLocation then backupsOwned else indexOwned
    if !backupsOwned && 0<backups.length+logical.length then
      "no backup manifest or archive index at the backup store carries this Cluster's UID, " ++
        "so its backups may belong to another cluster with the same name. " ++
        "The next backup or archived binary log taken by this Cluster proves the store is its own"
    else if !archiveOwned && (0<binlogs.length || index.isSome) then
      "the binary-log archive index does not carry this Cluster's UID, " ++
        "so the archive may belong to another cluster with the same name. " ++
        "The next binary log this Cluster archives proves the archive is its own"
    else ""

def retentionInterval : Time := 3600*second

/-- How objects are read and backups sorted, and which stores give a client. -/
structure RetentionEnv (β : Type) where
  codec : Codec β
  sort : List BackupEntry → List BackupEntry
  sorted : ∀ l,SortedByCompletion l (sort l)
  credentials : S3ObjectStore → Except CredentialsError Unit

section

variable {β : Type}

def readIndex (codec : Codec β) (w : Buckets β) (address : Address) :
    Except String (Option ArchiveIndex) :=
  match w.lookup address with
  | none => .ok none
  | some b => (codec.index b).map some

variable (env : RetentionEnv β) (store archive : S3ObjectStore)

/-- The endpoint for the archive: one client serves a shared location. -/
def archiveEndpoint : String :=
  if store.sameLocation archive then store.endpoint else archive.endpoint

def indexAddress (name : String) : Address :=
  ⟨archiveEndpoint store archive,archive.bucket,archiveIndexKey archive name⟩

/-- The changes of a pass over what it listed. -/
def retentionRemovals (name : String) (backups : List OwnedBackup)
    (logical : List LogicalBackupEntry) (binlogs : List BinlogEntry) (index : Option ArchiveIndex)
    (cutoff now : Time) : List Removal :=
  let plan := planSorted (env.sort (backups.map (·.entry))) binlogs index cutoff now
  plan.deleteBackupPrefixes.map (fun dir => .under store.endpoint store.bucket dir.toList) ++
    plan.deleteBinlogKeys.map
      (fun key => .object ⟨archiveEndpoint store archive,archive.bucket,rawKey key⟩) ++
    (if plan.deletedBinlogs.entries.isEmpty then []
      else [.index (indexAddress store archive name) plan.deletedBinlogs now]) ++
    (planLogicalRetention logical cutoff).map
      (fun dir => .under store.endpoint store.bucket dir.toList)

variable (w : Buckets β) (c : ArchivingCluster)

/-- The part of `reconcileRetention` that reads the store and applies the plan. -/
def retentionPass (store archive : S3ObjectStore)
    (window : Int64) (now : Time) : Except String RetentionOutcome := do
  let backups ← listBaseBackups env.codec w store c.name
  let logical ← listLogicalBackups env.codec w store c.name
  match if store.sameLocation archive then .ok () else env.credentials archive with
  | .error e =>
    if retentionCredentialsRefused e ≠ "" then
      .ok (.skipped (retentionCredentialsRefused e) ("Skipped backup retention: " ++ e.message))
    else .error e.message
  | .ok () =>
    let binlogs ← listArchivedBinlogs env.codec w (archiveEndpoint store archive) archive c.name
    let index ← readIndex env.codec w (indexAddress store archive c.name)
    let reason := retentionOwnership c.uid (store.sameLocation archive) backups logical binlogs index
    if reason ≠ "" then
      .ok (.skipped "RetentionNotOwned" ("Skipped backup retention: " ++ reason))
    else
      .ok (.applied (retentionRemovals env store archive c.name backups logical binlogs index
        (retentionCutoff window now) now))

def reconcileRetention (now : Time) : Except String RetentionOutcome :=
  match c.backup with
  | none => .ok .idle
  | some backup =>
    match backup.objectStore with
    | none => .ok .idle
    | some store =>
      if backup.retentionPolicy = "" ∨ c.currentPrimary = "" then .ok .idle
      else
        match parseRetentionPolicy backup.retentionPolicy with
        | .error _ => .ok .idle
        | .ok window =>
          if c.lastRetentionRunTime.any (fun last => now<last+retentionInterval) then .ok .idle
          else
            match env.credentials store with
            | .error e =>
              if retentionCredentialsRefused e ≠ "" then
                .ok (.skipped (retentionCredentialsRefused e)
                  ("Skipped backup retention: " ++ e.message))
              else .error e.message
            | .ok () => retentionPass env w c store (binlogObjectStore backup store) window now

end

variable (c : ArchivingCluster)

def wantsObjectStoreCleanup : Bool :=
  c.backup.any fun backup => backup.objectStore.isSome && backup.reclaimDelete

def reconcileBackupReclaimFinalizer : ArchivingCluster :=
  { c with cleanupFinalizer := wantsObjectStoreCleanup c }

def cleanupClusterObjectStore : List Removal :=
  match c.backup with
  | none => []
  | some backup =>
    match backup.objectStore with
    | none => []
    | some store =>
      let archive := binlogObjectStore backup store
      let stores := if archive.sameLocation store then [store] else [store,archive]
      stores.map fun s => .under s.endpoint s.bucket (clusterPrefix s c.name)

def reconcileClusterDelete : List Removal :=
  if c.cleanupFinalizer then cleanupClusterObjectStore c else []

def handleBackupReclaimLifecycle : List Removal × ArchivingCluster :=
  if c.deleting then (reconcileClusterDelete c, { c with cleanupFinalizer := false })
  else ([],reconcileBackupReclaimFinalizer c)

section

variable {β μ : Type} (codec : Codec β)

def ManifestCarriesUID (w : Buckets β) (store : S3ObjectStore) (c : ArchivingCluster) : Prop :=
  (∃ key m,HasManifest codec.backup backupManifestEnding w store c.name key (m,c.uid)) ∨
    ∃ key m,HasManifest codec.logical logicalManifestEnding w store c.name key m ∧
      m.clusterUID=c.uid

variable (w : Buckets β) (store archive : S3ObjectStore)

def IndexCarriesUID (c : ArchivingCluster) : Prop :=
  ∃ b index,w.lookup (indexAddress store archive c.name)=some b ∧ codec.index b = .ok index ∧
    index.clusterUID=c.uid

def ProvesBackups (c : ArchivingCluster) : Prop :=
  ManifestCarriesUID codec w store c ∨
    store.sameLocation archive=true ∧ IndexCarriesUID codec w store archive c

def ProvesArchive (c : ArchivingCluster) : Prop :=
  IndexCarriesUID codec w store archive c ∨
    store.sameLocation archive=true ∧ ManifestCarriesUID codec w store c

def InExpiredBackup (store : S3ObjectStore) (c : ArchivingCluster) (cutoff : Time)
    (x : Address) : Prop :=
  x.endpoint=store.endpoint ∧ x.bucket=store.bucket ∧ clusterPrefix store c.name <+: x.key ∧
    ((∃ key m uid,HasManifest codec.backup backupManifestEnding w store c.name key
        (m,uid) ∧ directory backupManifestEnding key <+: x.key ∧ m.completedAt<cutoff) ∨
      ∃ key m,HasManifest codec.logical logicalManifestEnding w store c.name key m ∧
        directory logicalManifestEnding key <+: x.key ∧ m.completedAt<cutoff)

def OutdatedBinlog (c : ArchivingCluster) (x : Address) : Prop :=
  x.endpoint=archiveEndpoint store archive ∧ x.bucket=archive.bucket ∧
    ∃ key m,HasBinlog codec w (archiveEndpoint store archive) archive c.name key m ∧
      (x.key=key ∨ x.key++binlogManifestSuffix=key) ∧ m.lastEventTime≠0 ∧
      ∃ key' b uid,HasManifest codec.backup backupManifestEnding w store c.name key'
        (b,uid) ∧ m.lastEventTime<b.startedAt

/-- What a pass listed when it came to delete: nothing speaks against it. -/
structure Listed (env : RetentionEnv β) (w : Buckets β) (c : ArchivingCluster)
    (store archive : S3ObjectStore) (backups : List OwnedBackup) (logical : List LogicalBackupEntry)
    (binlogs : List BinlogEntry) (index : Option ArchiveIndex) : Prop where
  readBackups : listBaseBackups env.codec w store c.name = .ok backups
  readLogical : listLogicalBackups env.codec w store c.name = .ok logical
  readBinlogs : listArchivedBinlogs env.codec w (archiveEndpoint store archive) archive c.name =
    .ok binlogs
  readIndex : readIndex env.codec w (indexAddress store archive c.name) = .ok index
  owned : retentionOwnership c.uid (store.sameLocation archive) backups logical binlogs index = ""

variable {env : RetentionEnv β} {w : Buckets β} {c : ArchivingCluster} {store : S3ObjectStore}
  {r : Removal} {backups : List OwnedBackup} {logical : List LogicalBackupEntry}
  {index : Option ArchiveIndex}

theorem retentionPass_removals {archive : S3ObjectStore} {window : Int64} {now : Time}
    {outcome : RetentionOutcome} (h : retentionPass env w c store archive window now = .ok outcome)
    (hr : r∈outcome.removals) :
    ∃ backups logical binlogs index,Listed env w c store archive backups logical binlogs index ∧
      r∈retentionRemovals env store archive c.name backups logical binlogs index
        (retentionCutoff window now) now := by
  unfold retentionPass at h
  obtain ⟨backups,hbackups,h⟩ := bind_eq_ok.mp h
  obtain ⟨logical,hlogical,h⟩ := bind_eq_ok.mp h
  split at h
  · split at h
    · cases h
      simp at hr
    · cases h
  obtain ⟨binlogs,hbinlogs,h⟩ := bind_eq_ok.mp h
  obtain ⟨index,hindex,h⟩ := bind_eq_ok.mp h
  simp only at h
  split at h
  · cases h
    simp at hr
  rename_i hreason
  cases h
  exact ⟨backups,logical,binlogs,index,⟨hbackups,hlogical,hbinlogs,hindex,not_not.mp hreason⟩,hr⟩

theorem reconcileRetention_removals {now : Time} {outcome : RetentionOutcome}
    (h : reconcileRetention env w c now = .ok outcome) (hr : r∈outcome.removals) :
    ∃ backup store window,c.backup=some backup ∧ backup.objectStore=some store ∧
      parseRetentionPolicy backup.retentionPolicy = .ok window ∧
      retentionPass env w c store (binlogObjectStore backup store) window now = .ok outcome := by
  unfold reconcileRetention at h
  split at h
  · cases h
    simp at hr
  rename_i backup hbackup
  split at h
  · cases h
    simp at hr
  rename_i store hstore
  split at h
  · cases h
    simp at hr
  split at h
  · cases h
    simp at hr
  rename_i window hwindow
  split at h
  · cases h
    simp at hr
  split at h
  · split at h
    · cases h
      simp at hr
    · cases h
  exact ⟨backup,store,window,hbackup,hstore,hwindow,h⟩

/-- Each location with something to delete is proven. -/
theorem retentionOwnership_eq_empty {uid : String} {same : Bool} {binlogs : List BinlogEntry}
    {manifest indexed : Prop}
    (hmanifest : (backups.any (·.clusterUID=uid) || logical.any (·.metadata.clusterUID=uid))=true → manifest)
    (hindexed : index.any (·.clusterUID=uid)=true → indexed)
    (h : retentionOwnership uid same backups logical binlogs index = "") :
    uid ≠ "" ∧ (0<backups.length+logical.length → manifest ∨ same=true ∧ indexed) ∧
      (0<binlogs.length → indexed ∨ same=true ∧ manifest) := by
  unfold retentionOwnership at h
  generalize (backups.any (·.clusterUID=uid) || logical.any (·.metadata.clusterUID=uid))=m
    at h hmanifest
  generalize index.any (·.clusterUID=uid)=i at h hindexed
  split at h
  · exact absurd h (by decide)
  rename_i huid
  simp only at h
  generalize howner : (if same=true then m || (same && i) else i)=owned at h
  split at h
  · exact absurd h (by decide)
  rename_i hbackups
  split at h
  · exact absurd h (by decide)
  rename_i harchive
  refine ⟨huid,?_,?_⟩
  · intro hpos
    have howned : (m || (same && i))=true := by
      simpa only [hpos,decide_true,Bool.and_true,Bool.not_eq_true',Bool.not_eq_false] using hbackups
    rcases (Bool.or_eq_true _ _).mp howned with hm | hi
    · exact .inl (hmanifest hm)
    · exact .inr ⟨((Bool.and_eq_true _ _).mp hi).1,hindexed ((Bool.and_eq_true _ _).mp hi).2⟩
  · intro hpos
    have howned : owned=true := by
      simpa only [hpos,decide_true,Bool.true_or,Bool.and_true,Bool.not_eq_true',Bool.not_eq_false]
        using harchive
    rw [← howner] at howned
    cases same with
    | false => exact .inl (hindexed (by simpa using howned))
    | true =>
      rcases (Bool.or_eq_true _ _).mp (by simpa using howned) with hm | hi
      · exact .inr ⟨rfl,hmanifest hm⟩
      · exact .inl (hindexed hi)

theorem outdated_of_planSorted {sorted : List BackupEntry} {binlogs : List BinlogEntry}
    {index : Option ArchiveIndex} {cutoff now : Time} {key : Key}
    (h : key∈(planSorted sorted binlogs index cutoff now).deleteBinlogKeys) :
    ∃ e∈binlogs,(key=e.binlogKey ∨ key=e.manifestKey) ∧
      ∃ first∈sorted,Uncoverable first.metadata.startedAt e := by
  unfold planSorted at h
  cases hlast : sorted.getLast? with
  | none => simp [hlast] at h
  | some newest =>
    rw [hlast] at h
    simp only at h
    split at h
    · rename_i oldest rest _ hretained
      rw [(sweeps_applyBinlogGC _ _ _ _ _).keys] at h
      obtain ⟨e,he,hkey⟩ := mem_flatMap.mp h
      obtain ⟨hmem,hold⟩ := mem_filter.mp he
      have holdest : oldest∈sorted.dropLast.filter (fun e => ¬e.metadata.completedAt<cutoff) ++
          [newest] := by
        rw [hretained]
        exact mem_cons_self
      have hsorted : oldest∈sorted := by
        rcases mem_append.mp holdest with hkept | hnewest
        · exact dropLast_subset _ (mem_of_mem_filter hkept)
        · rw [mem_singleton.mp hnewest]
          exact mem_of_getLast? hlast
      exact ⟨e,hmem,by simpa using hkey,oldest,hsorted,(of_decide_eq_true hold).2⟩
    · simp at h

theorem prefix_directory {decode : β → Except String μ} {name : List Char} {clusterName : String}
    {key : List Char} {m : μ} (hname : '/'∉name)
    (h : HasManifest decode ('/'::name) w store clusterName key m) :
    clusterPrefix store clusterName <+: directory ('/'::name) key :=
  prefix_take_of_slash h.1 ((suffix_cons '/' name).trans h.2.1) (getLast?_clusterPrefix _ _) hname

theorem manifestCarriesUID_of_listed {codec : Codec β}
    (hbackups : listBaseBackups codec w store c.name = .ok backups)
    (hlogical : listLogicalBackups codec w store c.name = .ok logical)
    (h : (backups.any (·.clusterUID=c.uid) || logical.any (·.metadata.clusterUID=c.uid))=true) :
    ManifestCarriesUID codec w store c := by
  rcases (Bool.or_eq_true _ _).mp h with h | h
  · obtain ⟨e,he,huid⟩ := any_eq_true.mp h
    obtain ⟨key,hkey,-⟩ := hasManifest_of_backup hbackups he
    rw [of_decide_eq_true huid] at hkey
    exact .inl ⟨key,_,hkey⟩
  · obtain ⟨e,he,huid⟩ := any_eq_true.mp h
    obtain ⟨key,hkey,-⟩ := hasManifest_of_logical hlogical he
    exact .inr ⟨key,_,hkey,of_decide_eq_true huid⟩

theorem indexCarriesUID_of_read {codec : Codec β} {w : Buckets β} {store archive : S3ObjectStore}
    {c : ArchivingCluster} {index : Option ArchiveIndex}
    (hindex : readIndex codec w (indexAddress store archive c.name) = .ok index)
    (h : index.any (·.clusterUID=c.uid)=true) : IndexCarriesUID codec w store archive c := by
  cases index with
  | none => simp at h
  | some i =>
    have huid : i.clusterUID=c.uid := by simpa using h
    unfold readIndex at hindex
    split at hindex
    · cases hindex
    · rename_i b hb
      cases hread : codec.index b with
      | error e =>
        rw [hread] at hindex
        cases hindex
      | ok i' =>
        rw [hread] at hindex
        cases hindex
        exact ⟨b,i,hb,hread,huid⟩

theorem removal_covered {archive : S3ObjectStore} {binlogs : List BinlogEntry} {cutoff now : Time}
    (hlisted : Listed env w c store archive backups logical binlogs index) {x : Address}
    (hcovers : r.Covers x)
    (hr : r∈retentionRemovals env store archive c.name backups logical binlogs index cutoff now) :
    (0<backups.length+logical.length ∧ InExpiredBackup env.codec w store c cutoff x) ∨
      0<binlogs.length ∧ OutdatedBinlog env.codec w store archive c x := by
  have hsorted := (env.sorted (backups.map (·.entry))).1
  unfold retentionRemovals at hr
  simp only [mem_append] at hr
  rcases hr with ((hr | hr) | hr) | hr
  · obtain ⟨dir,hdir,rfl⟩ := mem_map.mp hr
    obtain ⟨e,he,rfl,hlt⟩ := expired_of_planSorted hdir
    obtain ⟨o,ho,rfl⟩ := mem_map.mp (hsorted.mem_iff.mp he)
    obtain ⟨key,hkey,hdirectory⟩ := hasManifest_of_backup hlisted.readBackups ho
    obtain ⟨hendpoint,hbucket,hstart⟩ := hcovers
    rw [hdirectory] at hstart
    have hpos := length_pos_of_mem ho
    exact .inl ⟨by omega,hendpoint,hbucket,(prefix_directory (by decide) hkey).trans hstart,
      .inl ⟨key,_,_,hkey,hstart,hlt⟩⟩
  · obtain ⟨key,hkey,rfl⟩ := mem_map.mp hr
    obtain ⟨e,he,hwhich,first,hfirst,hknown,hlt⟩ := outdated_of_planSorted hkey
    obtain ⟨o,ho,rfl⟩ := mem_map.mp (hsorted.mem_iff.mp hfirst)
    obtain ⟨anchor,hanchor,-⟩ := hasManifest_of_backup hlisted.readBackups ho
    obtain ⟨manifest,hmanifest,hfile,hown⟩ := hasBinlog_of_listed hlisted.readBinlogs he
    have hx : x=⟨archiveEndpoint store archive,archive.bucket,rawKey key⟩ := hcovers
    subst hx
    refine .inr ⟨length_pos_of_mem he,rfl,rfl,manifest,_,hmanifest,?_,hknown,anchor,_,_,
      hanchor,hlt⟩
    rcases hwhich with rfl | rfl
    · exact .inr hfile
    · exact .inl hown
  · split at hr
    · simp at hr
    · rw [mem_singleton.mp hr] at hcovers
      exact hcovers.elim
  · obtain ⟨dir,hdir,rfl⟩ := mem_map.mp hr
    obtain ⟨e,he,rfl,hlt⟩ := mem_planLogicalRetention hdir
    obtain ⟨key,hkey,hdirectory⟩ := hasManifest_of_logical hlisted.readLogical he
    obtain ⟨hendpoint,hbucket,hstart⟩ := hcovers
    rw [hdirectory] at hstart
    have hpos := length_pos_of_mem he
    exact .inl ⟨by omega,hendpoint,hbucket,(prefix_directory (by decide) hkey).trans hstart,
      .inr ⟨key,_,hkey,hstart,hlt⟩⟩

theorem covers_of_cleanup {x : Address} (hr : r∈cleanupClusterObjectStore c)
    (hcovers : r.Covers x) :
    ∃ backup store,c.backup=some backup ∧ backup.objectStore=some store ∧
      ∃ s∈[store,binlogObjectStore backup store],x.endpoint=s.endpoint ∧ x.bucket=s.bucket ∧
        clusterPrefix s c.name <+: x.key := by
  unfold cleanupClusterObjectStore at hr
  split at hr
  · simp at hr
  rename_i backup hbackup
  split at hr
  · simp at hr
  rename_i store hstore
  obtain ⟨s,hs,rfl⟩ := mem_map.mp hr
  refine ⟨backup,store,hbackup,hstore,s,?_,hcovers⟩
  split at hs
  · exact mem_cons.mpr (.inl (mem_singleton.mp hs))
  · exact hs

/-- A retention pass removes objects only from locations that an object with the Cluster's own UID
proves, and only of expired backups or as outdated archived files. Reclaim needs the finalizer and
stays under the cluster's prefix. A removal may fail after `k` writes, and the store may have
changed since it was read. -/
theorem deletion_needs_proof (env : RetentionEnv β) (w : Buckets β) (c : ArchivingCluster) (now : Time) :
    (∀ outcome,reconcileRetention env w c now = .ok outcome → ∀ r∈outcome.removals,
      ∀ k w' x,Gone env.codec k w' r x → c.uid ≠ "" ∧ ∃ backup store window,
        c.backup=some backup ∧ backup.objectStore=some store ∧
        parseRetentionPolicy backup.retentionPolicy = .ok window ∧
        (ProvesBackups env.codec w store (binlogObjectStore backup store) c ∧
            InExpiredBackup env.codec w store c (retentionCutoff window now) x ∨
          ProvesArchive env.codec w store (binlogObjectStore backup store) c ∧
            OutdatedBinlog env.codec w store (binlogObjectStore backup store) c x)) ∧
    (∀ r∈(handleBackupReclaimLifecycle c).1,∀ k w' x,Gone env.codec k w' r x →
      c.deleting=true ∧ c.cleanupFinalizer=true ∧ ∃ backup store,
        c.backup=some backup ∧ backup.objectStore=some store ∧
        ∃ s∈[store,binlogObjectStore backup store],x.endpoint=s.endpoint ∧ x.bucket=s.bucket ∧
          clusterPrefix s c.name <+: x.key) := by
  constructor
  · intro outcome h r hr k w' x hgone
    obtain ⟨backup,store,window,hbackup,hstore,hwindow,hpass⟩ := reconcileRetention_removals h hr
    obtain ⟨backups,logical,binlogs,index,hlisted,hrem⟩ := retentionPass_removals hpass hr
    obtain ⟨huid,hproved,harchive⟩ := retentionOwnership_eq_empty
      (manifestCarriesUID_of_listed hlisted.readBackups hlisted.readLogical)
      (indexCarriesUID_of_read hlisted.readIndex) hlisted.owned
    refine ⟨huid,backup,store,window,hbackup,hstore,hwindow,?_⟩
    rcases removal_covered hlisted (covers_of_gone hgone) hrem with ⟨hpos,hexpired⟩ | ⟨hpos,hold⟩
    · exact .inl ⟨hproved hpos,hexpired⟩
    · exact .inr ⟨harchive hpos,hold⟩
  · intro r hr k w' x hgone
    unfold handleBackupReclaimLifecycle reconcileClusterDelete at hr
    split at hr
    · rename_i hdeleting
      split at hr
      · rename_i hfinalizer
        exact ⟨hdeleting,hfinalizer,covers_of_cleanup hr (covers_of_gone hgone)⟩
      · simp at hr
    · simp at hr

end

/-- What a bucket holds. -/
inductive StoredObject where
  | backup (metadata : BackupMetadata) (clusterUID : String)
  | logical (metadata : LogicalBackupMetadata)
  | binlog (metadata : BinlogMetadata)
  | index (record : ArchiveIndex)
  | data
  deriving DecidableEq

namespace StoredObject

def codec : Codec StoredObject where
  backup
    | .backup metadata uid => .ok (metadata,uid)
    | _ => .error "not a backup manifest"
  logical
    | .logical metadata => .ok metadata
    | _ => .error "not a logical backup manifest"
  binlog
    | .binlog metadata => .ok metadata
    | _ => .error "not a binlog manifest"
  index
    | .index record => .ok record
    | _ => .error "not an archive index"
  ofIndex := .index

def uid : StoredObject → Option String
  | .backup _ uid => some uid
  | .logical metadata => some metadata.clusterUID
  | .index record => some record.clusterUID
  | .binlog _ | .data => none

end StoredObject

def sortingEnv : RetentionEnv StoredObject where
  codec := StoredObject.codec
  sort l := l.insertionSort fun a b => a.metadata.completedAt≤b.metadata.completedAt
  sorted l := by
    have : Std.Total (fun a b : BackupEntry => a.metadata.completedAt≤b.metadata.completedAt) :=
      ⟨fun a b => Nat.le_total _ _⟩
    have : IsTrans BackupEntry (fun a b => a.metadata.completedAt≤b.metadata.completedAt) :=
      ⟨fun a b c => Nat.le_trans⟩
    exact ⟨perm_insertionSort _ _,pairwise_insertionSort _ _⟩
  credentials _ := .ok ()

/-- Two Clusters named `demo` share a bucket: a backup of each, and an older data file. -/
def sharedBucket : Buckets StoredObject :=
  [ ⟨⟨"s3","backups","demo/nightly/1/metadata.json".toList⟩,
      .backup ⟨"1",5*second,10*second⟩ "theirs"⟩,
    ⟨⟨"s3","backups","demo/nightly/1/backup.xbstream".toList⟩,.data⟩,
    ⟨⟨"s3","backups","demo/weekly/2/metadata.json".toList⟩,
      .backup ⟨"2",86400*2*second,86400*2*second⟩ "ours"⟩ ].toAList

def demoCluster : ArchivingCluster where
  name := "demo"
  uid := "ours"
  backup := some
    { objectStore := some ⟨"s3","backups",""⟩, retentionPolicy := "1d", reclaimDelete := true }
  currentPrimary := "demo-1"

def foreignManifest : Address := ⟨"s3","backups","demo/nightly/1/metadata.json".toList⟩

theorem removes_shared : ((reconcileRetention sortingEnv sharedBucket demoCluster
    (86400*3*second)).toOption.any fun o =>
      decide (.under "s3" "backups" "demo/nightly/1/".toList∈o.removals))=true := by
  decide +kernel

theorem gone_shared (start : List Char) (h : start∈["demo/nightly/1/".toList,"demo/".toList]) :
    Gone StoredObject.codec 3 sharedBucket (.under "s3" "backups" start) foreignManifest := by
  rcases mem_pair.mp h with rfl | rfl
  · exact ⟨by decide +kernel,by decide +kernel⟩
  · exact ⟨by decide +kernel,by decide +kernel⟩

/-- A pass, and reclaim, can remove an object with another Cluster's UID. -/
theorem foreign_object_removed :
    (¬∀ (w : Buckets StoredObject) (c : ArchivingCluster) (now : Time) (outcome : RetentionOutcome),
      reconcileRetention sortingEnv w c now = .ok outcome → ∀ r∈outcome.removals,∀ k x b,
        w.lookup x=some b → b.uid.any (fun uid => uid ≠ "" ∧ uid≠c.uid)=true →
        ¬Gone StoredObject.codec k w r x) ∧
    ¬∀ (w : Buckets StoredObject) (c : ArchivingCluster),∀ r∈(handleBackupReclaimLifecycle c).1,
      ∀ k x b,w.lookup x=some b → b.uid.any (fun uid => uid ≠ "" ∧ uid≠c.uid)=true →
        ¬Gone StoredObject.codec k w r x := by
  have hforeign : sharedBucket.lookup foreignManifest =
      some (.backup ⟨"1",5*second,10*second⟩ "theirs") := by decide +kernel
  constructor
  · intro hclaim
    obtain ⟨outcome,hpass,hremoves⟩ := exists_ok_of_any removes_shared
    exact hclaim _ _ _ outcome hpass _ (of_decide_eq_true hremoves) 3 foreignManifest _ hforeign
      (by decide) (gone_shared _ (by simp))
  · intro hclaim
    exact hclaim sharedBucket { demoCluster with deleting := true, cleanupFinalizer := true }
      (.under "s3" "backups" "demo/".toList) (by decide +kernel) 3 foreignManifest _ hforeign
      (by decide) (gone_shared _ (by simp))

/-- With both Clusters' backups there, what is removed is proven by our own manifest. -/
theorem deletion_needs_proof_shared :
    ∃ outcome,reconcileRetention sortingEnv sharedBucket demoCluster (86400*3*second) =
        .ok outcome ∧
      ∃ r∈outcome.removals,Gone StoredObject.codec 3 sharedBucket r foreignManifest ∧
        demoCluster.uid ≠ "" ∧ ∃ backup store window,demoCluster.backup=some backup ∧
          backup.objectStore=some store ∧
          parseRetentionPolicy backup.retentionPolicy = .ok window ∧
          (ProvesBackups StoredObject.codec sharedBucket store (binlogObjectStore backup store)
              demoCluster ∧
              InExpiredBackup StoredObject.codec sharedBucket store demoCluster
                (retentionCutoff window (86400*3*second)) foreignManifest ∨
            ProvesArchive StoredObject.codec sharedBucket store (binlogObjectStore backup store)
              demoCluster ∧
              OutdatedBinlog StoredObject.codec sharedBucket store (binlogObjectStore backup store)
                demoCluster foreignManifest) := by
  obtain ⟨outcome,hpass,hremoves⟩ := exists_ok_of_any removes_shared
  have hgone := gone_shared "demo/nightly/1/".toList (by simp)
  exact ⟨outcome,hpass,_,of_decide_eq_true hremoves,hgone,
    (deletion_needs_proof sortingEnv sharedBucket demoCluster (86400*3*second)).1 outcome hpass _
      (of_decide_eq_true hremoves) 3 sharedBucket foreignManifest hgone⟩

end Cnmsql.Controller
