import Cnmsql.Controller.RetentionOwnership
import Cnmsql.Framework.Execution

namespace Cnmsql.Controller

open Framework ObjectStore

section

inductive WorkerState where
  | running
  | succeeded
  | failed (reason message : String)
  deriving DecidableEq

/-- A worker Job and what it was created with. -/
structure WorkerJob (π : Type) where
  params : π
  state : WorkerState := .running
  deriving DecidableEq

inductive BackupTarget where
  | primary
  | preferStandby
  deriving DecidableEq

/-- What is read of a Backup's metadata and defaulted spec. -/
structure BackupRequest where
  name : String
  uid : String
  creationTimestamp : Int := 0
  cluster : String
  method : Api.BackupMethod := .xtrabackup
  target : BackupTarget := .preferStandby
  objectStore : Option S3ObjectStore := none
  /-- Whether `spec.logical` is set. -/
  logical : Bool := false
  online : Option Bool := none
  deriving DecidableEq

/-- An instance Pod, as far as a backup source goes. -/
structure SourcePod where
  name : String
  replica : Bool
  ready : Bool
  deriving DecidableEq

/-- What the reconciler reads of the Cluster and its Pods. -/
structure SourceCluster where
  backup : Option BackupConfiguration := none
  currentPrimary : String := ""
  dumpAccountReady : Bool := false
  pods : List SourcePod := []
  deriving DecidableEq

structure BackupKeys where
  archiveKey : String
  metadataKey : String
  archiveURI : String
  deriving DecidableEq

def buildKeys (archiveName metadataName : String) (store : S3ObjectStore)
    (clusterName backupName backupID : String) : Except String BackupKeys :=
  if store.bucket = "" then .error "object store bucket is required"
  else if clusterName = "" ∨ backupName = "" ∨ backupID = "" then
    .error "cluster name, backup name and backup id are required"
  else
    let path := cleanPath store.path
    let base := clusterName ++ "/" ++ backupName ++ "/" ++ backupID
    let base := if path≠[] then String.ofList path ++ "/" ++ base else base
    .ok
      { archiveKey := base ++ "/" ++ archiveName
        metadataKey := base ++ "/" ++ metadataName
        archiveURI := "s3://" ++ store.bucket ++ "/" ++ base ++ "/" ++ archiveName }

def buildBackupKeys := buildKeys "backup.xbstream" "metadata.json"

def buildLogicalBackupKeys := buildKeys "dump.sql.zst" "logical.json"

variable (backup : BackupRequest) (cluster : SourceCluster)

/-- The key builder, or why the Backup fails. -/
def backupKeysForMethod :
    Except (String × String) (S3ObjectStore → String → String → String → Except String BackupKeys) :=
  match backup.method with
  | .xtrabackup =>
    if backup.logical then .error ("InvalidSpec", "spec.logical is only valid with method: logical")
    else .ok buildBackupKeys
  | .logical =>
    if backup.online=some false then
      .error ("OnlineRequired", "A logical backup is always online; remove online: false")
    else .ok buildLogicalBackupKeys
  | .volumeSnapshot =>
    .error ("UnsupportedMethod", "Backup method \"volumeSnapshot\" is not supported")

def backupObjectStore : Except String S3ObjectStore :=
  match backup.objectStore,cluster.backup.bind (·.objectStore) with
  | some store,_ => .ok store
  | none,some store => .ok store
  | none,none => .error "backup requires spec.objectStore or cluster spec.backup.objectStore"

def defaultBackupID : String :=
  if backup.uid ≠ "" then backup.name ++ "-" ++ backup.uid
  else backup.name ++ "-" ++ toString backup.creationTimestamp

def backupJobName : String := backup.name ++ "-backup"

def selectBackupSource : Except String String :=
  match backup.target with
  | .primary =>
    if cluster.currentPrimary = "" then .error "cluster currentPrimary is not set"
    else .ok cluster.currentPrimary
  | .preferStandby =>
    let replicas := (cluster.pods.filter fun p => p.replica && p.ready).map (·.name)
    match replicas.insertionSort (·≤·) with
    | replica::_ => .ok replica
    | [] =>
      if cluster.currentPrimary = "" then
        .error "no healthy replica and cluster currentPrimary is not set"
      else .ok cluster.currentPrimary

def anchoredBinlogObjectStore : Option S3ObjectStore := do
  let config ← cluster.backup
  let ca ← config.continuousArchiving
  let store ← config.objectStore
  if ca.enabled then some (binlogObjectStore config store) else none

/-- `status` of a Backup; its conditions carry one reason and message. -/
structure BackupStatus where
  phase : Api.BackupPhase := .unset
  method : Option Api.BackupMethod := none
  backupID : String := ""
  jobName : String := ""
  instanceName : String := ""
  destinationPath : String := ""
  objectStore : Option S3ObjectStore := none
  binlogObjectStore : Option S3ObjectStore := none
  sha256 : String := ""
  databases : List String := []
  beginGTID : String := ""
  endGTID : String := ""
  beginBinlog : String := ""
  endBinlog : String := ""
  error : String := ""
  reason : String := ""
  message : String := ""
  deriving DecidableEq

def backupTerminal (phase : Api.BackupPhase) : Bool := phase = .completed ∨ phase = .failed

/-- What a worker Job is created with. -/
structure WorkerParams where
  store : S3ObjectStore
  keys : BackupKeys
  backupID : String
  source : String
  deriving DecidableEq

namespace BackupStatus

variable (status : BackupStatus)

def failBackup (reason message : String) : BackupStatus :=
  { status with phase := .failed, error := message, reason, message }

def markBackupPending (method : Api.BackupMethod) (reason message : String) : BackupStatus :=
  { status with phase := .pending, method := some method, reason, message }

def markRunning (backup : BackupRequest) (cluster : SourceCluster) (params : WorkerParams) :
    BackupStatus :=
  { status with
    phase := .running
    method := some backup.method
    backupID := params.backupID
    jobName := backupJobName backup
    instanceName := params.source
    destinationPath := params.keys.archiveURI
    objectStore := some params.store
    binlogObjectStore := anchoredBinlogObjectStore cluster
    error := ""
    reason := "running"
    message := "Backup worker Job is running" }

def Names (params : WorkerParams) : Prop :=
  status.objectStore=some params.store ∧ status.destinationPath=params.keys.archiveURI ∧
    status.backupID=params.backupID ∧ status.instanceName=params.source

instance (status : BackupStatus) (params : WorkerParams) : Decidable (status.Names params) :=
  inferInstanceAs (Decidable (_ ∧ _))

end BackupStatus

/-- How reading an object of the finished backup ended. -/
inductive StoreRead (α : Type) where
  | found (a : α)
  /-- The operator has no credentials for the store. -/
  | ambientDisabled
  /-- The object is missing, or it cannot be decoded. -/
  | unrecoverable (message : String)
  | transient
  deriving DecidableEq

structure LogicalBackupMetadata where
  sha256 : String
  databases : List String
  snapshotGTID : String
  snapshotBinlog : String
  deriving DecidableEq

def applyLogicalManifest (status : BackupStatus) (m : LogicalBackupMetadata) : BackupStatus :=
  { status with
    sha256 := m.sha256
    databases := m.databases
    beginGTID := m.snapshotGTID
    endGTID := m.snapshotGTID
    beginBinlog := m.snapshotBinlog
    endBinlog := m.snapshotBinlog }

def completeBackup (method : Api.BackupMethod) (manifest : StoreRead LogicalBackupMetadata)
    (anchor : StoreRead String) (status : BackupStatus) : Option BackupStatus :=
  let completed := { status with
    phase := .completed, error := "", reason := "completed", message := "Backup completed" }
  match method with
  | .logical =>
    match manifest with
    | .found m => some (applyLogicalManifest completed m)
    | .ambientDisabled => some completed
    | .unrecoverable e => some (status.failBackup "ManifestMissing"
        ("The worker Job reported success but its logical.json manifest could not be read from the " ++
          "object store: " ++ e))
    | .transient => none
  | _ =>
    match anchor with
    | .found gtid => some (if gtid ≠ "" then { completed with endGTID := gtid } else completed)
    | .ambientDisabled | .unrecoverable _ => some completed
    | .transient => none

/-- How a check of the store's credential Secrets ended. -/
inductive SecretCheck where
  | passed
  | refused (message : String)
  | transient
  deriving DecidableEq

/-- What a pass of `Reconcile` comes to before it touches the worker Job. -/
inductive BackupPlan where
  | nothing
  | fail (reason message : String)
  | wait (reason message : String)
  | work (params : WorkerParams)
  deriving DecidableEq

/-- `Reconcile` up to the worker Job. -/
def planBackup (backup : BackupRequest) (status : BackupStatus) (cluster : Option SourceCluster)
    (secrets : SecretCheck) (listed : Except String Unit) : BackupPlan :=
  if backupTerminal status.phase then .nothing
  else
    match cluster with
    | none => .fail "ClusterNotFound" ("Cluster " ++ backup.cluster.quote ++ " was not found")
    | some c =>
      match backupKeysForMethod backup with
      | .error (reason,message) => .fail reason message
      | .ok build =>
        match backupObjectStore backup c with
        | .error e => .fail "ObjectStoreNotConfigured" e
        | .ok store =>
          let backupID := if status.backupID = "" then defaultBackupID backup else status.backupID
          match build store backup.cluster backup.name backupID with
          | .error e => .fail "InvalidObjectStore" e
          | .ok keys =>
            match secrets with
            | .refused e => .fail "ObjectStoreCredentialsRefused" e
            | .transient => .nothing
            | .passed =>
              if backup.method = .logical ∧ status.jobName = "" ∧ ¬c.dumpAccountReady then
                .wait "DumpAccountNotReady" ("Waiting for the DumpAccountReady condition on Cluster " ++
                  backup.cluster.quote)
              else
                -- A target of `primary` needs no Pods, so a failed listing does not matter for it.
                let source := if backup.target = .primary then selectBackupSource backup c
                  else listed.bind fun _ => selectBackupSource backup c
                match source with
                | .error e => .fail "NoBackupSource" e
                | .ok source => .work { store, keys, backupID, source }

variable (params : WorkerParams) (backup : BackupRequest) (cluster : SourceCluster)

/-- What a Job created with `params` would be created with from the Cluster. -/
def WorkerParams.ChosenFrom : Prop :=
  backupObjectStore backup cluster = .ok params.store ∧
    selectBackupSource backup cluster = .ok params.source

instance : Decidable (params.ChosenFrom backup cluster) := inferInstanceAs (Decidable (_ ∧ _))

def WorkerParams.Keyed : Prop :=
  params.backupID=defaultBackupID backup ∧ ∃ build,backupKeysForMethod backup = .ok build ∧
    build params.store backup.cluster backup.name params.backupID = .ok params.keys

theorem WorkerParams.Keyed.unique {backup : BackupRequest} {p q : WorkerParams} (hp : p.Keyed backup)
    (hq : q.Keyed backup) (hstore : p.store=q.store) (hsource : p.source=q.source) : p=q := by
  obtain ⟨hpid,build,hbuild,hpkeys⟩ := hp
  obtain ⟨hqid,build',hbuild',hqkeys⟩ := hq
  rw [hbuild] at hbuild'
  cases hbuild'
  rw [hstore,hpid,← hqid,hqkeys] at hpkeys
  cases p
  cases q
  simp_all

theorem planBackup_eq_work {backup : BackupRequest} {status : BackupStatus}
    {cluster : Option SourceCluster} {secrets : SecretCheck} {listed : Except String Unit}
    {params : WorkerParams} (h : planBackup backup status cluster secrets listed = .work params)
    (hid : status.backupID = "" ∨ status.backupID=defaultBackupID backup) :
    backupTerminal status.phase=false ∧ params.Keyed backup ∧
      ∃ c,cluster=some c ∧ params.ChosenFrom backup c := by
  unfold planBackup at h
  split at h
  · cases h
  rename_i hphase
  refine ⟨Bool.eq_false_iff.mpr hphase,?_⟩
  split at h
  · cases h
  rename_i c
  split at h
  · cases h
  rename_i build hbuild
  split at h
  · cases h
  rename_i store hstore
  simp only at h
  have hbackupID : (if status.backupID = "" then defaultBackupID backup else status.backupID) =
      defaultBackupID backup := by
    split
    · rfl
    · exact hid.resolve_left (by assumption)
  rw [hbackupID] at h
  split at h
  · cases h
  rename_i keys hkeys
  split at h
  · cases h
  · cases h
  split at h
  · cases h
  split at h
  · cases h
  rename_i source hsource
  cases h
  refine ⟨⟨rfl,build,hbuild,hkeys⟩,c,rfl,hstore,?_⟩
  split at hsource
  · exact hsource
  · cases listed with
    | error e => cases hsource
    | ok u => exact hsource

end

/-- How far a pass has come: nowhere, planned, Job there, status written. -/
inductive BackupPass where
  | idle
  | planned (seen : SourceCluster) (params : WorkerParams)
  | started (seen : SourceCluster) (params : WorkerParams)
  | recorded (seen : SourceCluster) (params : WorkerParams)
  deriving DecidableEq

def BackupPass.choice : BackupPass → Option (SourceCluster × WorkerParams)
  | .idle => none
  | .planned seen params | .started seen params | .recorded seen params => some (seen,params)

/-- A Backup with what its reconciler works on; `created` and `succeeded` list what worker Jobs were
created with. -/
structure BackupSite where
  cluster : Option SourceCluster
  status : BackupStatus := {}
  job : Option (WorkerJob WorkerParams) := none
  pass : BackupPass := .idle
  wantsCleanup : Bool := false
  finalizer : Bool := false
  deleting : Bool := false
  created : List WorkerParams := []
  succeeded : List WorkerParams := []
  deriving DecidableEq

inductive BackupEvent where
  | changeCluster (cluster : Option SourceCluster)
  | setReclaim (delete : Bool)
  | deleteBackup
  /-- A pass reads the objects; its status write or cleanup may fail. -/
  | read (secrets : SecretCheck) (listed : Except String Unit) (written : Bool)
  /-- `createBackupJob`, which may fail. -/
  | createJob (created : Bool)
  | record (written : Bool)
  /-- The pass reads the Job, and a succeeded one's objects. -/
  | observe (manifest : StoreRead LogicalBackupMetadata) (anchor : StoreRead String) (written : Bool)
  /-- The operator stops in the middle of a pass. -/
  | crash
  | jobEnds (state : WorkerState)
  | jobRemoved

namespace BackupSite

variable (backup : BackupRequest) (s : BackupSite)

/-- A pass up to the worker Job. -/
def read (secrets : SecretCheck) (listed : Except String Unit) (written : Bool) : BackupSite :=
  if s.deleting then
    -- `reconcileDelete`
    if s.finalizer ∧ written then { s with finalizer := false } else s
  else if s.finalizer≠s.wantsCleanup then
    -- `reconcileFinalizer`
    if written then { s with finalizer := s.wantsCleanup } else s
  else
    match planBackup backup s.status s.cluster secrets listed,s.cluster with
    | .fail reason message,_ =>
      if written then { s with status := s.status.failBackup reason message } else s
    | .wait reason message,_ =>
      if written then { s with status := s.status.markBackupPending backup.method reason message } else s
    | .work params, some seen => { s with pass := .planned seen params }
    | .work _,none | .nothing,_ => s

def observe (manifest : StoreRead LogicalBackupMetadata) (anchor : StoreRead String)
    (written : Bool) : BackupSite :=
  match s.job with
  | none => { s with pass := .idle }
  | some job =>
    let status := match job.state with
      | .running => none
      | .succeeded => completeBackup backup.method manifest anchor s.status
      | .failed reason message => some (s.status.failBackup reason message)
    match status with
    | some status => if written then { s with status, pass := .idle } else { s with pass := .idle }
    | none => { s with pass := .idle }

def step : BackupEvent → Option BackupSite
  | .changeCluster cluster => some { s with cluster }
  | .setReclaim delete => some { s with wantsCleanup := delete }
  | .deleteBackup => some { s with deleting := true }
  | .read secrets listed written =>
    if s.pass = .idle then some (s.read backup secrets listed written) else none
  | .createJob created =>
    match s.pass,s.job with
    | .planned seen params,some _ => some { s with pass := .started seen params }
    | .planned seen params,none =>
      if created then
        some { s with
          job := some { params }, created := s.created++[params], pass := .started seen params }
      else some { s with pass := .idle }
    | _,_ => none
  | .record written =>
    match s.pass with
    | .started seen params =>
      if written then
        some { s with
          status := s.status.markRunning backup seen params, pass := .recorded seen params }
      else some { s with pass := .idle }
    | _ => none
  | .observe manifest anchor written =>
    match s.pass with
    | .recorded _ _ => some (s.observe backup manifest anchor written)
    | _ => none
  | .crash => some { s with pass := .idle }
  | .jobEnds state =>
    match s.job with
    | some job =>
      if job.state = .running ∧ state ≠ .running then
        some { s with
          job := some { job with state }
          succeeded := if state = .succeeded then s.succeeded++[job.params] else s.succeeded }
      else none
    | none => none
  | .jobRemoved => if s.job.isSome then some { s with job := none } else none

def RecordFaithful : Prop :=
  s.status.phase = .completed → ∃ params∈s.succeeded,s.status.Names params

instance : Decidable s.RecordFaithful := inferInstanceAs (Decidable (_ → _))

/-- The Job goes only when the Backup is done, and a pass that finds it succeeded reads the store
and source it was created with. -/
def Undisturbed : BackupEvent → BackupSite → Prop
  | .jobRemoved,_ => backupTerminal s.status.phase=true
  | .observe ..,_ =>
    match s.pass,s.job with
    | .recorded seen _,some job => job.state = .succeeded → job.params.ChosenFrom backup seen
    | _,_ => True
  | _,_ => True

instance (e : BackupEvent) (s' : BackupSite) : Decidable (s.Undisturbed backup e s') :=
  match e with
  | .jobRemoved => inferInstanceAs (Decidable (_ = true))
  | .observe .. =>
    match hpass : s.pass,hjob : s.job with
    | .recorded seen _,some job =>
      decidable_of_iff (job.state = .succeeded → job.params.ChosenFrom backup seen)
        (by simp only [Undisturbed,hpass,hjob])
    | .recorded ..,none | .idle,_ | .planned ..,_ | .started ..,_ =>
      isTrue (by simp only [Undisturbed,hpass,hjob])
  | .changeCluster _ | .setReclaim _ | .deleteBackup | .read .. | .createJob _ | .record _ | .crash |
    .jobEnds _ => isTrue trivial

/-- What holds along every undisturbed run. -/
structure Tracked : Prop where
  backupID : s.status.backupID = "" ∨ s.status.backupID=defaultBackupID backup
  once : s.created.length≤1
  job : ∀ job,s.job=some job → s.created=[job.params] ∧ job.params.Keyed backup ∧
    (job.state = .succeeded → job.params∈s.succeeded)
  jobless : s.job=none → backupTerminal s.status.phase=false → s.created=[]
  choice : ∀ seen params,s.pass.choice=some (seen,params) →
    backupTerminal s.status.phase=false ∧ params.Keyed backup ∧ params.ChosenFrom backup seen
  recorded : ∀ seen params,s.pass = .recorded seen params → s.status.Names params
  completed : s.RecordFaithful

variable {backup}

theorem tracked_new (cluster : Option SourceCluster) : Tracked backup { cluster } where
  backupID := .inl rfl
  once := Nat.zero_le _
  job := by simp
  jobless := fun _ _ => rfl
  choice := by simp [BackupPass.choice]
  recorded := by simp
  completed := by simp [RecordFaithful]

theorem Tracked.idle {s : BackupSite} (h : s.Tracked backup) :
    Tracked backup { s with pass := .idle } :=
  { h with
    choice := by simp [BackupPass.choice]
    recorded := by simp }

variable {s s' : BackupSite}

theorem Tracked.writeStatus (h : s.Tracked backup) {status : BackupStatus}
    (hphase : backupTerminal s.status.phase=false) (hid : status.backupID=s.status.backupID)
    (hcompleted : status.phase = .completed → ∃ params∈s.succeeded,status.Names params) :
    Tracked backup { s with status, pass := .idle } :=
  { h with
    backupID := by
      simp only [hid]
      exact h.backupID
    jobless := fun hjob _ => h.jobless hjob hphase
    choice := by simp [BackupPass.choice]
    recorded := by simp
    completed := hcompleted }

theorem Tracked.read {s : BackupSite} (h : s.Tracked backup) (hidle : s.pass = .idle)
    (secrets : SecretCheck) (listed : Except String Unit) (written : Bool) :
    (s.read backup secrets listed written).Tracked backup := by
  have hsame : ∀ wantsCleanup finalizer,Tracked backup { s with wantsCleanup, finalizer } :=
    fun _ _ => { h with }
  have hwrite : ∀ {status : BackupStatus},backupTerminal s.status.phase=false →
      status.backupID=s.status.backupID → status.phase ≠ .completed →
      Tracked backup { s with status } := by
    intro status hphase hid hopen
    have := h.writeStatus hphase hid fun hdone => absurd hdone hopen
    rwa [← hidle] at this
  unfold BackupSite.read
  split
  · split
    · exact hsame _ _
    · exact h
  split
  · split
    · exact hsame _ _
    · exact h
  by_cases hphase : backupTerminal s.status.phase=true
  · have hplan : planBackup backup s.status s.cluster secrets listed = .nothing := by
      unfold planBackup
      rw [if_pos hphase]
    simp only [hplan]
    exact h
  rw [Bool.not_eq_true] at hphase
  split
  · split
    · exact hwrite hphase rfl (by simp [BackupStatus.failBackup])
    · exact h
  · split
    · exact hwrite hphase rfl (by simp [BackupStatus.markBackupPending])
    · exact h
  · rename_i params seen hplan hseen
    obtain ⟨-,hkeyed,c,hc,hchosen⟩ := planBackup_eq_work hplan h.backupID
    rw [hseen] at hc
    cases hc
    refine { h with choice := ?_, recorded := by simp }
    intro seen' params' hchoice
    cases hchoice
    exact ⟨hphase,hkeyed,hchosen⟩
  · exact h
  · exact h

theorem Tracked.createJob {created : Bool} (h : s.Tracked backup)
    (hstep : s.step backup (.createJob created)=some s') : s'.Tracked backup := by
  simp only [step] at hstep
  split at hstep
  · rename_i seen params job hpass hjob
    cases hstep
    refine { h with choice := ?_, recorded := by simp }
    intro seen' params' hchoice
    cases hchoice
    exact h.choice seen params (by rw [hpass]; rfl)
  · rename_i seen params hpass hjob
    have hchoice := h.choice seen params (by rw [hpass]; rfl)
    have hnone : s.created=[] := h.jobless hjob hchoice.1
    split at hstep
    · cases hstep
      refine ⟨h.backupID,by simp [hnone],?_,by simp,?_,by simp,h.completed⟩
      · intro job hnew
        cases hnew
        exact ⟨by simp [hnone],hchoice.2.1,by simp⟩
      · intro seen' params' heq
        cases heq
        exact hchoice
    · cases hstep
      exact h.idle
  · cases hstep

theorem Tracked.record {written : Bool} (h : s.Tracked backup)
    (hstep : s.step backup (.record written)=some s') : s'.Tracked backup := by
  simp only [step] at hstep
  split at hstep
  · rename_i seen params hpass
    have hchoice := h.choice seen params (by rw [hpass]; rfl)
    split at hstep
    · cases hstep
      refine ⟨.inr hchoice.2.1.1,h.once,h.job,fun hjob _ => h.jobless hjob hchoice.1,?_,?_,?_⟩
      · intro seen' params' heq
        cases heq
        exact ⟨rfl,hchoice.2⟩
      · intro seen' params' heq
        cases heq
        exact ⟨rfl,rfl,rfl,rfl⟩
      · intro hdone
        cases hdone
    · cases hstep
      exact h.idle
  · cases hstep

theorem completeBackup_names {method : Api.BackupMethod} {manifest : StoreRead LogicalBackupMetadata}
    {anchor : StoreRead String} {status status' : BackupStatus}
    (h : completeBackup method manifest anchor status=some status') :
    status'.backupID=status.backupID ∧ ∀ params,status.Names params → status'.Names params := by
  have hsame : status.backupID=status.backupID ∧ ∀ params,status.Names params → status.Names params :=
    ⟨rfl,fun _ => id⟩
  unfold completeBackup at h
  split at h
  · split at h
    · cases h
      exact hsame
    · cases h
      exact hsame
    · cases h
      exact hsame
    · cases h
  · split at h
    · cases h
      split
      · exact hsame
      · exact hsame
    · cases h
      exact hsame
    · cases h
      exact hsame
    · cases h

theorem Tracked.observe {s : BackupSite} (h : s.Tracked backup) {seen : SourceCluster}
    {params : WorkerParams} (hpass : s.pass = .recorded seen params)
    (hsettled : ∀ job,s.job=some job → job.state = .succeeded → job.params.ChosenFrom backup seen)
    (manifest : StoreRead LogicalBackupMetadata) (anchor : StoreRead String) (written : Bool) :
    (s.observe backup manifest anchor written).Tracked backup := by
  obtain ⟨hphase,hkeyed,hchosen⟩ := h.choice seen params (by rw [hpass]; rfl)
  unfold BackupSite.observe
  split
  · exact h.idle
  rename_i job hjob
  simp only
  split
  · rename_i status hstatus
    split
    · split at hstatus
      · cases hstatus
      · rename_i hsucceeded
        obtain ⟨hid,hnames⟩ := completeBackup_names hstatus
        apply h.writeStatus hphase hid
        intro _
        -- The Job was created with what this pass has chosen again.
        obtain ⟨-,hjobKeyed,hran⟩ := h.job job hjob
        obtain ⟨hstore,hsource⟩ := hsettled job hjob hsucceeded
        have hsame : params=job.params := by
          apply hkeyed.unique hjobKeyed
          · exact Except.ok.inj (hchosen.1.symm.trans hstore)
          · exact Except.ok.inj (hchosen.2.symm.trans hsource)
        rw [← hsame] at hran
        exact ⟨params,hran hsucceeded,hnames params (h.recorded seen params hpass)⟩
      · cases hstatus
        exact h.writeStatus hphase rfl (by simp [BackupStatus.failBackup])
    · exact h.idle
  · exact h.idle

theorem Tracked.jobEnds {state : WorkerState} (h : s.Tracked backup)
    (hstep : s.step backup (.jobEnds state)=some s') : s'.Tracked backup := by
  simp only [step] at hstep
  split at hstep
  · rename_i job hjob
    split at hstep
    · cases hstep
      obtain ⟨hcreated,hkeyed,-⟩ := h.job job hjob
      have hgrows : ∀ params∈s.succeeded,
          params∈(if state = .succeeded then s.succeeded++[job.params] else s.succeeded) := by
        intro params hparams
        split
        · exact List.mem_append_left _ hparams
        · exact hparams
      refine ⟨h.backupID,h.once,?_,by simp,h.choice,h.recorded,?_⟩
      · intro job' hjob'
        cases hjob'
        refine ⟨hcreated,hkeyed,?_⟩
        intro hstate
        rw [if_pos hstate]
        exact List.mem_append_right _ (List.mem_singleton_self _)
      · intro hdone
        obtain ⟨params,hparams,hnames⟩ := h.completed hdone
        exact ⟨params,hgrows params hparams,hnames⟩
    · cases hstep
  · cases hstep

theorem Tracked.step {s s' : BackupSite} {e : BackupEvent} (hstep : s.step backup e=some s')
    (hquiet : s.Undisturbed backup e s') (h : s.Tracked backup) : s'.Tracked backup := by
  cases e with simp only [BackupSite.step] at hstep
  | changeCluster cluster | setReclaim delete | deleteBackup =>
    cases hstep
    exact { h with }
  | read secrets listed written =>
    split at hstep
    · rename_i hidle
      cases hstep
      exact h.read hidle secrets listed written
    · cases hstep
  | createJob created => exact h.createJob hstep
  | record written => exact h.record hstep
  | observe manifest anchor written =>
    split at hstep
    · rename_i seen params hpass
      cases hstep
      apply h.observe hpass
      intro job hjob
      simpa only [Undisturbed,hpass,hjob] using hquiet
    · cases hstep
  | crash =>
    cases hstep
    exact h.idle
  | jobEnds state => exact h.jobEnds hstep
  | jobRemoved =>
    split at hstep
    · cases hstep
      refine ⟨h.backupID,h.once,by simp,?_,h.choice,h.recorded,h.completed⟩
      intro _ hphase
      rw [show backupTerminal s.status.phase=true from hquiet] at hphase
      cases hphase
    · cases hstep

end BackupSite

open BackupSite

/-- In every undisturbed run, a completed Backup names what its succeeded Job was created with, and
at most one Job was created. -/
theorem backup_recorded (backup : BackupRequest) (cluster : Option SourceCluster)
    (es : List BackupEvent)
    (hquiet : Along (step backup) (BackupSite.Undisturbed backup) { cluster } es) :
    Along (step backup)
      (fun _ _ s' => s'.RecordFaithful ∧ s'.created.length≤1) { cluster } es := by
  refine hquiet.imp_invariant (I := BackupSite.Tracked backup) ?_ ?_ (tracked_new cluster)
  · intro s e s' hstep hq h
    exact h.step hstep hq
  · intro s e s' hstep hq h
    exact ⟨(h.step hstep hq).completed,(h.step hstep hq).once⟩

def bucketCluster (bucket : String) : SourceCluster where
  backup := some { objectStore := some { endpoint := "https://s3", bucket } }
  currentPrimary := "db-1"

def nightly : BackupRequest where
  name := "nightly"
  uid := "7f"
  cluster := "db"

def wholePass : List BackupEvent :=
  [.read .passed (.ok ()) true,.createJob true,.record true,
    .observe .transient (.unrecoverable "not found") true]

def plainBackup : List BackupEvent := wholePass++[.jobEnds .succeeded]++wholePass++[.jobRemoved]

theorem backup_recorded_plain :
    ((exec (step nightly) { cluster := some (bucketCluster "a") } plainBackup).any fun s =>
      s.status.phase = .completed && s.created.length=1)=true ∧
    Along (step nightly) (fun _ _ s' => s'.RecordFaithful ∧ s'.created.length≤1)
      { cluster := some (bucketCluster "a") } plainBackup :=
  ⟨by decide +kernel,backup_recorded nightly _ plainBackup (by decide +kernel)⟩

def movedStore : List BackupEvent :=
  wholePass++[.changeCluster (some (bucketCluster "b")),.jobEnds .succeeded]++wholePass

def removedJob : List BackupEvent := wholePass++[.jobEnds .succeeded,.jobRemoved]++wholePass

/-- A Backup is completed with a store the Cluster moved to meanwhile, and one whose Job was removed
is taken twice. -/
theorem backup_misrecorded :
    (¬∀ (backup : BackupRequest) (cluster : Option SourceCluster) (es : List BackupEvent),
      Along (step backup) (fun _ _ s' => s'.RecordFaithful) { cluster } es) ∧
    ¬∀ (backup : BackupRequest) (cluster : Option SourceCluster) (es : List BackupEvent),
      Along (step backup) (fun _ _ s' => s'.created.length≤1) { cluster } es := by
  constructor
  · intro hclaim
    have hbad : ¬Along (step nightly) (fun _ _ s' => s'.RecordFaithful)
        { cluster := some (bucketCluster "a") } movedStore := by decide +kernel
    exact hbad (hclaim _ _ _)
  · intro hclaim
    have hbad : ¬Along (step nightly) (fun _ _ s' => s'.created.length≤1)
        { cluster := some (bucketCluster "a") } removedJob := by decide +kernel
    exact hbad (hclaim _ _ _)

end Cnmsql.Controller
