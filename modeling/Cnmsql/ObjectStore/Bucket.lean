import Mathlib.Data.List.Infix
import Mathlib.Data.List.DropRight
import Cnmsql.Framework.Result
import Cnmsql.ObjectStore.LogicalRetention
import Cnmsql.ObjectStore.Retention

namespace Cnmsql.ObjectStore

open Framework List

structure S3ObjectStore where
  endpoint : String
  bucket : String
  path : String := ""
  deriving DecidableEq

namespace S3ObjectStore

/-- `Location`: `<endpoint>/<bucket>/<path>`. -/
def location (store : S3ObjectStore) : List Char :=
  let endpoint := store.endpoint.toList
  (if endpoint.getLast?=some '/' then endpoint.dropLast else endpoint) ++
    '/'::store.bucket.toList ++
    '/'::(store.path.toList.dropWhile (· = '/')).rdropWhile (· = '/')

def sameLocation (store other : S3ObjectStore) : Bool := store.location=other.location

end S3ObjectStore

def cleanPath (path : String) : List Char :=
  ['/'].intercalate ((path.toList.splitOn '/').filter (·≠[]))

variable (store : S3ObjectStore) (clusterName : String)

def clusterPrefix : List Char :=
  let path := cleanPath store.path
  if path≠[] then path ++ '/'::clusterName.toList++['/'] else clusterName.toList++['/']

def binlogPrefix : List Char :=
  clusterPrefix store clusterName ++ "binlogs/".toList

def archiveIndexKey : List Char :=
  binlogPrefix store clusterName ++ "_index.json".toList

theorem prefix_take_of_slash {start ending key : List Char} (hstart : start <+: key)
    (hend : ending <:+ key) (hslash : start.getLast?=some '/') (hnone : '/'∉ending) :
    start <+: key.take (key.length-ending.length) := by
  obtain ⟨front,rfl⟩ := hend
  have htake : (front++ending).take ((front++ending).length-ending.length)=front := by
    simp
  rw [htake]
  cases prefix_or_prefix_of_prefix hstart (prefix_append front ending) with
  | inl hfront => exact hfront
  | inr hlong =>
    obtain ⟨rest,rfl⟩ := hlong
    have hrest : rest <+: ending := (prefix_append_right_inj front).mp hstart
    cases rest using List.reverseRecOn with
    | nil => simp
    | append_singleton init c =>
      rw [← append_assoc,List.getLast?_concat] at hslash
      cases hslash
      exact absurd (hrest.subset (by simp)) hnone

theorem getLast?_clusterPrefix (name : String) : (clusterPrefix store name).getLast?=some '/' := by
  unfold clusterPrefix
  simp only
  split_ifs
  · rw [List.getLast?_concat]
  · rw [List.getLast?_concat]

theorem getLast?_binlogPrefix (name : String) : (binlogPrefix store name).getLast?=some '/' := by
  rw [binlogPrefix,List.getLast?_append]
  rfl

/-- One object among the buckets of all endpoints. -/
structure Address where
  endpoint : String
  bucket : String
  key : List Char
  deriving DecidableEq

abbrev Buckets (β : Type) := Map Address β

/-- How objects are read as manifests, and how the index is written. -/
structure Codec (β : Type) where
  backup : β → Except String (BackupMetadata × String)
  logical : β → Except String LogicalBackupMetadata
  binlog : β → Except String BinlogMetadata
  index : β → Except String ArchiveIndex
  ofIndex : ArchiveIndex → β

/-- A base backup with the UID of the Cluster whose worker wrote its manifest. -/
structure OwnedBackup where
  entry : BackupEntry
  clusterUID : String
  deriving DecidableEq

namespace Buckets

variable {β μ : Type}

def listObjects (w : Buckets β) (endpoint bucket : String) (start : List Char) : List (List Char × β) :=
  (w.entries.filter fun e => e.1.endpoint=endpoint ∧ e.1.bucket=bucket ∧ start <+: e.1.key).map
    fun e => (e.1.key,e.2)

variable {w : Buckets β} {key : List Char} {decode : β → Except String μ}
  {manifests : List (List Char × μ)} {store : S3ObjectStore} {clusterName : String}
  {codec : Codec β}

theorem mem_listObjects {endpoint bucket : String} {start : List Char} {b : β} :
    (key,b)∈listObjects w endpoint bucket start ↔
      w.lookup ⟨endpoint,bucket,key⟩=some b ∧ start <+: key := by
  rw [← Option.mem_def,AList.mem_lookup_iff]
  constructor
  · intro h
    obtain ⟨⟨⟨endpoint',bucket',key'⟩,b'⟩,he,heq⟩ := mem_map.mp h
    obtain ⟨hmem,hcond⟩ := mem_filter.mp he
    obtain ⟨rfl,rfl,hstart⟩ := of_decide_eq_true hcond
    cases heq
    exact ⟨hmem,hstart⟩
  · intro ⟨hmem,hstart⟩
    exact mem_map.mpr ⟨⟨⟨endpoint,bucket,key⟩,b⟩,
      mem_filter.mpr ⟨hmem,decide_eq_true ⟨rfl,rfl,hstart⟩⟩,rfl⟩

/-- The listed objects whose key ends in `ending`, each read as a manifest. -/
def readManifests (decode : β → Except String μ) (ending : List Char)
    (objects : List (List Char × β)) : Except String (List (List Char × μ)) :=
  (objects.filter fun o => ending <:+ o.1).mapM fun o => do
    let manifest ← decode o.2
    .ok (o.1,manifest)

theorem mem_readManifests {ending : List Char} {objects : List (List Char × β)}
    (h : readManifests decode ending objects = .ok manifests) {m : μ} (hm : (key,m)∈manifests) :
    ∃ b,(key,b)∈objects ∧ ending <:+ key ∧ decode b = .ok m := by
  obtain ⟨o,ho,hread⟩ := exists_of_forall₂ (forall₂_of_mapM h).flip hm
  obtain ⟨hmem,hend⟩ := mem_filter.mp ho
  obtain ⟨m',hdecode,hpair⟩ := bind_eq_ok.mp hread
  cases hpair
  exact ⟨o.2,hmem,of_decide_eq_true hend,hdecode⟩

def backupManifestEnding : List Char := "/metadata.json".toList

def logicalManifestEnding : List Char := "/logical.json".toList

def directory (ending key : List Char) : List Char := key.take (key.length-(ending.length-1))

/-- Under the cluster's prefix, `key` holds the manifest `m`. -/
def HasManifest (decode : β → Except String μ) (ending : List Char) (w : Buckets β)
    (store : S3ObjectStore) (clusterName : String) (key : List Char) (m : μ) : Prop :=
  clusterPrefix store clusterName <+: key ∧ ending <:+ key ∧
    ∃ b,w.lookup ⟨store.endpoint,store.bucket,key⟩=some b ∧ decode b = .ok m

theorem hasManifest_of_read {ending : List Char}
    (h : readManifests decode ending (listObjects w store.endpoint store.bucket (clusterPrefix store clusterName)) = .ok manifests)
    {m : μ} (hm : (key,m)∈manifests) : HasManifest decode ending w store clusterName key m := by
  obtain ⟨b,hobject,hend,hdecode⟩ := mem_readManifests h hm
  obtain ⟨hlookup,hstart⟩ := mem_listObjects.mp hobject
  exact ⟨hstart,hend,b,hlookup,hdecode⟩

def listBaseBackups (codec : Codec β) (w : Buckets β) (store : S3ObjectStore) (clusterName : String) :
    Except String (List OwnedBackup) := do
  let manifests ← readManifests codec.backup backupManifestEnding
    (listObjects w store.endpoint store.bucket (clusterPrefix store clusterName))
  .ok (manifests.map fun m =>
    ⟨⟨String.ofList (directory backupManifestEnding m.1),m.2.1⟩,m.2.2⟩)

def listLogicalBackups (codec : Codec β) (w : Buckets β) (store : S3ObjectStore)
    (clusterName : String) : Except String (List LogicalBackupEntry) := do
  let manifests ← readManifests codec.logical logicalManifestEnding
    (listObjects w store.endpoint store.bucket (clusterPrefix store clusterName))
  .ok (manifests.map fun m => ⟨String.ofList (directory logicalManifestEnding m.1),m.2⟩)

theorem hasManifest_of_backup {backups : List OwnedBackup}
    (h : listBaseBackups codec w store clusterName = .ok backups) {e : OwnedBackup}
    (he : e∈backups) :
    ∃ key,HasManifest codec.backup backupManifestEnding w store clusterName key
        (e.entry.metadata,e.clusterUID) ∧
      e.entry.dir.toList=directory backupManifestEnding key := by
  obtain ⟨manifests,hread,heq⟩ := bind_eq_ok.mp h
  cases heq
  obtain ⟨⟨key,m⟩,hm,rfl⟩ := mem_map.mp he
  exact ⟨key,hasManifest_of_read hread hm,String.toList_ofList⟩

theorem hasManifest_of_logical {logical : List LogicalBackupEntry}
    (h : listLogicalBackups codec w store clusterName = .ok logical) {e : LogicalBackupEntry}
    (he : e∈logical) :
    ∃ key,HasManifest codec.logical logicalManifestEnding w store clusterName key e.metadata ∧
      e.dir.toList=directory logicalManifestEnding key := by
  obtain ⟨manifests,hread,heq⟩ := bind_eq_ok.mp h
  cases heq
  obtain ⟨⟨key,m⟩,hm,rfl⟩ := mem_map.mp he
  exact ⟨key,hasManifest_of_read hread hm,String.toList_ofList⟩

def binlogManifestSuffix : List Char := ".json".toList

def baseName (key : List Char) : List Char := key.rtakeWhile (· ≠ '/')

/-- A file's keys are the archive's prefix and what follows it. -/
def listArchivedBinlogs (codec : Codec β) (w : Buckets β) (endpoint : String) (store : S3ObjectStore)
    (clusterName : String) : Except String (List BinlogEntry) := do
  let start := binlogPrefix store clusterName
  let objects := (listObjects w endpoint store.bucket start).filter fun o =>
    baseName o.1 ≠ "_archive_status.json".toList ∧ baseName o.1 ≠ "_index.json".toList
  let manifests ← readManifests codec.binlog binlogManifestSuffix objects
  .ok (manifests.map fun m =>
    let file := String.ofList ((m.1.take (m.1.length-binlogManifestSuffix.length)).drop start.length)
    ⟨.binlog (String.ofList start) file,.binlogManifest (String.ofList start) file,m.2⟩)

/-- The key that an entry of the archive stands for. -/
def rawKey : Key → List Char
  | .binlog start file => start.toList++file.toList
  | .binlogManifest start file => start.toList++file.toList++binlogManifestSuffix
  | _ => []

/-- Under the archive's prefix, `key` holds the manifest of a file. -/
def HasBinlog (codec : Codec β) (w : Buckets β) (endpoint : String) (store : S3ObjectStore)
    (clusterName : String) (key : List Char) (m : BinlogMetadata) : Prop :=
  binlogPrefix store clusterName <+: key ∧ binlogManifestSuffix <:+ key ∧
    ∃ b,w.lookup ⟨endpoint,store.bucket,key⟩=some b ∧ codec.binlog b = .ok m

theorem hasBinlog_of_listed {endpoint : String} {binlogs : List BinlogEntry}
    (h : listArchivedBinlogs codec w endpoint store clusterName = .ok binlogs) {e : BinlogEntry}
    (he : e∈binlogs) :
    ∃ key,HasBinlog codec w endpoint store clusterName key e.metadata ∧
      rawKey e.binlogKey++binlogManifestSuffix=key ∧ rawKey e.manifestKey=key := by
  obtain ⟨manifests,hread,heq⟩ := bind_eq_ok.mp h
  cases heq
  obtain ⟨⟨key,m⟩,hm,rfl⟩ := mem_map.mp he
  obtain ⟨b,hobject,hend,hdecode⟩ := mem_readManifests hread hm
  obtain ⟨hlookup,hstart⟩ := mem_listObjects.mp (mem_of_mem_filter hobject)
  -- the file's key is the manifest's without its ending, and still under the archive's prefix
  obtain ⟨rest,hrest⟩ := prefix_take_of_slash hstart hend (getLast?_binlogPrefix _ _) (by decide)
  have hkey : key.take (key.length-binlogManifestSuffix.length)++binlogManifestSuffix=key := by
    obtain ⟨front,rfl⟩ := hend
    simp
  have hraw : binlogPrefix store clusterName ++
      (key.take (key.length-binlogManifestSuffix.length)).drop (binlogPrefix store clusterName).length ++
      binlogManifestSuffix=key := by
    rw [← hrest,drop_left,hrest,hkey]
  refine ⟨key,⟨hstart,hend,b,hlookup,hdecode⟩,?_,?_⟩
  · simpa only [rawKey,String.toList_ofList] using hraw
  · simpa only [rawKey,String.toList_ofList] using hraw

end Buckets

end Cnmsql.ObjectStore
