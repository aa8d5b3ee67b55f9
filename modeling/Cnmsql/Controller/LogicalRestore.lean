import Cnmsql.Controller.BackupWorker

namespace Cnmsql.Controller

open Framework

section

inductive RestorePhase where
  | unset
  | pending
  | running
  | completed
  | failed
  deriving DecidableEq

def RestorePhase.ended (phase : RestorePhase) : Bool := phase = .completed ∨ phase = .failed

/-- `spec.jobTemplate`: how long a finished Job is kept. -/
structure BackupJobTemplate where
  ttl : Option Int := none
  deriving DecidableEq

def mergeJobTemplates (levels : List (Option BackupJobTemplate)) : BackupJobTemplate :=
  levels.foldl (fun out level => { ttl := out.ttl.or (level.bind (·.ttl)) }) {}

def backupJobTTLSeconds (template : BackupJobTemplate) : Nat :=
  match template.ttl with
  | some d => if 0≤d then (d / 1000000000).toNat else 24*60*60
  | none => 24*60*60

/-- `status` of a LogicalRestore. -/
structure RestoreStatus where
  phase : RestorePhase := .unset
  jobName : String := ""
  targetInstance : String := ""
  backupID : String := ""
  sourcePath : String := ""
  databases : List String := []
  error : String := ""
  condition : Option (String × String) := none
  deriving DecidableEq

def mergeField {α : Type} [DecidableEq α] (base new live : α) : α := if new=base then live else new

namespace RestoreStatus

/-- The change `mutate` makes to `base`, applied to the live status. -/
def patch (live base : RestoreStatus) (mutate : RestoreStatus → RestoreStatus) : RestoreStatus :=
  let new := mutate base
  { phase := mergeField base.phase new.phase live.phase
    jobName := mergeField base.jobName new.jobName live.jobName
    targetInstance := mergeField base.targetInstance new.targetInstance live.targetInstance
    backupID := mergeField base.backupID new.backupID live.backupID
    sourcePath := mergeField base.sourcePath new.sourcePath live.sourcePath
    databases := mergeField base.databases new.databases live.databases
    error := mergeField base.error new.error live.error
    condition := mergeField base.condition new.condition live.condition }

variable (reason message : String) (status : RestoreStatus)

def markPending : RestoreStatus :=
  { status with phase := .pending, condition := some (reason, message) }

/-- `fail`, whose message says whether data was touched. -/
def fail (unchangedData : Bool) (status : RestoreStatus) : RestoreStatus :=
  let note := if unchangedData then "Nothing was changed on the cluster."
    else "The selected databases may be partly restored."
  let message := String.ofList (message.toList.rdropWhile fun c => c = '.' ∨ c = ' ') ++ ". " ++ note
  { status with phase := .failed, error := message, condition := some (reason, message) }

def complete : RestoreStatus :=
  { status with phase := .completed, error := "", condition := some ("Completed", "Restore completed") }

end RestoreStatus

/-- A LogicalRestore, whose spec never changes. -/
structure LogicalRestore where
  name : String
  cluster : String
  backup : Option String := none
  source : String := ""
  databases : List String
  jobTemplate : Option BackupJobTemplate := none
  deriving DecidableEq

variable (restore : LogicalRestore)

def logicalRestoreJobName : String := restore.name ++ "-restore"

/-- What a restore worker Job says in its annotations. -/
structure RestoreParams where
  target : String
  backupID : String
  source : String
  deriving DecidableEq

/-- The Job under the restore's Job name. -/
structure RestoreJob extends WorkerJob RestoreParams where
  /-- Whether the restore controls it. -/
  owned : Bool
  ttl : Nat
  /-- Whether a failed worker said that it changed nothing. -/
  unchanged : Bool := false
  finishedAt : Option Nat := none
  deriving DecidableEq

/-- `markRunning`: what the Job was started with is read from its annotations. -/
def RestoreStatus.markRunning (job : RestoreJob) (status : RestoreStatus) : RestoreStatus :=
  { status with
    phase := .running
    jobName := logicalRestoreJobName restore
    targetInstance := job.params.target
    backupID := job.params.backupID
    sourcePath := job.params.source
    databases := restore.databases
    error := ""
    condition := some ("Running", "Loading into " ++ job.params.target) }

/-- What `start` reads of the Cluster. -/
structure RestoreCluster where
  currentPrimary : String := ""
  targetPrimary : String := ""
  jobTemplate : Option BackupJobTemplate := none
  deriving DecidableEq

structure LogicalDump where
  bucket : String
  dumpKey : String
  backupID : String
  deriving DecidableEq

/-- How locating the dump ended. -/
inductive DumpRead where
  | found (dump : LogicalDump) (importable : Except String Unit)
  | notReady (message : String)
  | physical (message : String)
  | incompatible (message : String)
  | transient
  deriving DecidableEq

/-- The primary, or why there is none yet. -/
def targetPrimary (clusterName : String) (cluster : RestoreCluster) (podReady : Except String Bool) :
    Except String String :=
  let primary := cluster.currentPrimary
  if primary = "" then .error ("Cluster " ++ clusterName.quote ++ " has no current primary")
  else if cluster.targetPrimary ≠ "" ∧ cluster.targetPrimary≠primary then
    .error ("Cluster " ++ clusterName.quote ++ " is moving its primary from " ++ primary ++ " to " ++
      cluster.targetPrimary)
  else
    match podReady with
    | .error e => .error ("Reading primary Pod " ++ primary ++ ": " ++ e)
    | .ok false => .error ("Primary Pod " ++ primary ++ " is not ready")
    | .ok true => .ok primary

/-- What `start` comes to before it creates the worker Job. -/
inductive RestorePlan where
  | nothing
  | fail (reason message : String)
  | wait (reason message : String)
  | create (job : RestoreJob)
  deriving DecidableEq

/-- `start` up to the creation of the Job. -/
def planRestore (cluster : Option RestoreCluster) (dump : DumpRead) (podReady : Except String Bool) :
    RestorePlan :=
  match cluster with
  | none => .fail "ClusterNotFound" ("Cluster " ++ restore.cluster.quote ++ " was not found")
  | some c =>
    if restore.backup.isSome=decide (restore.source ≠ "") then
      .fail "InvalidSpec" "Set exactly one of backup or source"
    else if restore.databases=[] then .fail "InvalidSpec" "Select at least one database"
    else
      match dump with
      | .transient => .nothing
      | .notReady e => .wait "SourceNotReady" e
      | .physical e => .fail "PhysicalBackupNotRestorable"
          (e ++ ", and a LogicalRestore loads a logical backup")
      | .incompatible e | .found _ (.error e) => .fail "Incompatible" e
      | .found d (.ok ()) =>
        match targetPrimary restore.cluster c podReady with
        | .error e => .wait "PrimaryNotReady" e
        | .ok primary =>
          .create
            { params :=
                { target := primary
                  backupID := d.backupID
                  source := "s3://" ++ d.bucket ++ "/" ++ d.dumpKey }
              owned := true
              ttl := backupJobTTLSeconds (mergeJobTemplates [restore.jobTemplate,c.jobTemplate]) }

end

/-- A LogicalRestore with its Job. Caches hold one of the past `statuses` and `jobs`; `created`
counts Jobs. -/
structure RestoreSite where
  status : RestoreStatus := {}
  job : Option RestoreJob := none
  now : Nat := 0
  statuses : List RestoreStatus := [{}]
  jobs : List (Option RestoreJob) := [none]
  created : Nat := 0
  deriving DecidableEq

/-- A pass: the cached objects it reads, what it finds out, and which calls get through. -/
structure RestorePass where
  seen : RestoreStatus
  base : RestoreStatus
  cachedJob : Option RestoreJob := none
  cluster : Option RestoreCluster := none
  dump : DumpRead := .transient
  podReady : Except String Bool := .ok false
  direct : Bool := true
  creates : Bool := true
  written : Bool := true

inductive RestoreEvent where
  | pass (p : RestorePass)
  | tick (d : Nat)
  | jobEnds (state : WorkerState) (unchanged : Bool)
  /-- A finished Job is removed once its TTL is over. -/
  | jobExpires

namespace RestoreSite

variable (restore : LogicalRestore) (s : RestoreSite) (p : RestorePass)

def setJob (job : Option RestoreJob) : RestoreSite :=
  { s with job, jobs := job::s.jobs }

variable (mutate : RestoreStatus → RestoreStatus)

/-- A status write of the pass, if it gets through. -/
def patchStatus : RestoreSite :=
  if p.written then
    let status := s.status.patch p.base mutate
    { s with status, statuses := status::s.statuses }
  else s

def trackJob : RestoreSite :=
  match p.cachedJob with
  | none =>
    -- The cache may be behind, so the API server is asked before the restore is failed.
    if p.direct ∧ s.job=none then
      s.patchStatus p (.fail "JobMissing" ("The restore worker Job " ++ p.seen.jobName ++ " is gone") false)
    else s
  | some job =>
    match job.state with
    | .succeeded => s.patchStatus p .complete
    | .failed reason message => s.patchStatus p (.fail reason message job.unchanged)
    | .running => s

def start : RestoreSite :=
  match planRestore restore p.cluster p.dump p.podReady with
  | .nothing => s
  | .fail reason message => s.patchStatus p (.fail reason message true)
  | .wait reason message => s.patchStatus p (.markPending reason message)
  | .create job =>
    match s.job with
    | some existing =>
      if existing.owned then s.patchStatus p (.markRunning restore existing)
      else s.patchStatus p (.fail "JobConflict" ("A Job named " ++ logicalRestoreJobName restore ++
        " already exists and does not belong to this restore") true)
    | none =>
      if p.creates then
        let s := s.setJob (some job)
        { s with created := s.created+1 }.patchStatus p (.markRunning restore job)
      else s

def reconcile : RestoreSite :=
  if p.seen.phase.ended then s
  else if p.seen.jobName ≠ "" then s.trackJob p
  else if ¬p.direct then s
  else
    -- `ownedJob`
    match s.job.filter (·.owned) with
    | some job => s.patchStatus p (.markRunning restore job)
    | none => s.start restore p

def step : RestoreEvent → Option RestoreSite
  | .pass p =>
    if p.seen∈s.statuses ∧ p.base∈s.statuses ∧ p.cachedJob∈s.jobs then some (s.reconcile restore p)
    else none
  | .tick d => some { s with now := s.now+d }
  | .jobEnds state unchanged =>
    match s.job with
    | some job =>
      if job.state = .running ∧ state ≠ .running then
        some (s.setJob (some { job with state, unchanged, finishedAt := some s.now }))
      else none
    | none => none
  | .jobExpires =>
    match s.job with
    | some job => if job.finishedAt.any (· + job.ttl ≤ s.now) then some (s.setJob none) else none
    | none => none

/-- At most one Job was created, and an ended restore stays as it ended. -/
def LoadsOnce (_ : RestoreEvent) (s' : RestoreSite) : Prop :=
  s'.created≤1 ∧ (s.status.phase.ended=true → s'.status.phase=s.status.phase)

/-- A pass sees the end and the recorded Job, and the Job goes only when recorded. -/
def Noticed : RestoreEvent → RestoreSite → Prop
  | .pass p,_ => (s.status.phase.ended=true → p.seen.phase.ended=true) ∧
      (s.status.jobName ≠ "" → p.seen.jobName ≠ "")
  | .jobExpires,_ => s.job.any (·.owned)=true → s.status.jobName ≠ ""
  | _,_ => True

instance (s : RestoreSite) (e : RestoreEvent) (s' : RestoreSite) : Decidable (s.LoadsOnce e s') :=
  inferInstanceAs (Decidable (_ ∧ _))

instance (s : RestoreSite) (e : RestoreEvent) (s' : RestoreSite) : Decidable (s.Noticed e s') :=
  match e with
  | .pass _ => inferInstanceAs (Decidable (_ ∧ _))
  | .jobExpires => inferInstanceAs (Decidable (_ → _))
  | .tick _ | .jobEnds .. => isTrue trivial

variable {restore}

def KeepsJobName : Prop :=
  ∀ base,(mutate base).jobName=base.jobName ∨ (mutate base).jobName ≠ ""

theorem keepsJobName_markRunning (restore : LogicalRestore) (job : RestoreJob) :
    KeepsJobName (.markRunning restore job) := by
  intro base
  right
  simp [RestoreStatus.markRunning,logicalRestoreJobName]

theorem patch_jobName {live base : RestoreStatus} {mutate : RestoreStatus → RestoreStatus}
    (hmutate : KeepsJobName mutate) (hlive : live.jobName ≠ "") :
    (live.patch base mutate).jobName ≠ "" := by
  simp only [RestoreStatus.patch,mergeField]
  split
  · exact hlive
  · rename_i hchanged
    exact (hmutate base).resolve_left hchanged

theorem planRestore_owned {cluster : Option RestoreCluster} {dump : DumpRead}
    {podReady : Except String Bool} {job : RestoreJob}
    (h : planRestore restore cluster dump podReady = .create job) : job.owned=true := by
  unfold planRestore at h
  split at h
  · cases h
  split at h
  · cases h
  split at h
  · cases h
  split at h
  · cases h
  · cases h
  · cases h
  · cases h
  · cases h
  · split at h
    · cases h
    · cases h
      rfl

/-- A pass does nothing, writes the status, or creates a Job when it sees none. -/
theorem reconcile_cases (restore : LogicalRestore) (s : RestoreSite) (p : RestorePass) :
    s.reconcile restore p=s ∨
    (p.seen.phase.ended=false ∧
      ((∃ mutate,KeepsJobName mutate ∧ s.reconcile restore p=s.patchStatus p mutate) ∨
      (s.job=none ∧ p.seen.jobName = "" ∧ ∃ job,job.owned=true ∧ s.reconcile restore p =
        { s.setJob (some job) with created := s.created+1 }.patchStatus p
          (.markRunning restore job)))) := by
  unfold reconcile
  split
  · exact .inl rfl
  rename_i hopen
  have hopen : p.seen.phase.ended=false := Bool.eq_false_iff.mpr hopen
  have hkept : ∀ {mutate : RestoreStatus → RestoreStatus},(∀ b,(mutate b).jobName=b.jobName) →
      ∃ m,KeepsJobName m ∧ s.patchStatus p mutate=s.patchStatus p m :=
    fun h => ⟨_,fun b => .inl (h b),rfl⟩
  split
  · unfold trackJob
    split
    · split
      · exact .inr ⟨hopen,.inl (hkept fun _ => rfl)⟩
      · exact .inl rfl
    · split
      · exact .inr ⟨hopen,.inl (hkept fun _ => rfl)⟩
      · exact .inr ⟨hopen,.inl (hkept fun _ => rfl)⟩
      · exact .inl rfl
  rename_i hname
  rw [not_not] at hname
  split
  · exact .inl rfl
  split
  · exact .inr ⟨hopen,.inl ⟨_,keepsJobName_markRunning _ _,rfl⟩⟩
  unfold start
  split
  · exact .inl rfl
  · exact .inr ⟨hopen,.inl (hkept fun _ => rfl)⟩
  · exact .inr ⟨hopen,.inl (hkept fun _ => rfl)⟩
  · rename_i job hplan
    split
    · split
      · exact .inr ⟨hopen,.inl ⟨_,keepsJobName_markRunning _ _,rfl⟩⟩
      · exact .inr ⟨hopen,.inl (hkept fun _ => rfl)⟩
    · rename_i hjob
      split
      · exact .inr ⟨hopen,.inr ⟨hjob,hname,job,planRestore_owned hplan,rfl⟩⟩
      · exact .inl rfl

/-- At most one Job was created, and it is there or recorded. -/
structure Single (s : RestoreSite) : Prop where
  once : s.created≤1
  held : s.created=0 ∨ s.job.any (·.owned)=true ∨ s.status.jobName ≠ ""

theorem Single.patchStatus {s : RestoreSite} (h : s.Single) (p : RestorePass)
    {mutate : RestoreStatus → RestoreStatus} (hmutate : KeepsJobName mutate) :
    (s.patchStatus p mutate).Single := by
  unfold RestoreSite.patchStatus
  split
  · refine ⟨h.once,?_⟩
    rcases h.held with hnone | howned | hname
    · exact .inl hnone
    · exact .inr (.inl howned)
    · exact .inr (.inr (patch_jobName hmutate hname))
  · exact h

theorem Single.reconcile {s : RestoreSite} (h : s.Single) {p : RestorePass}
    (hseen : s.status.jobName ≠ "" → p.seen.jobName ≠ "") : (s.reconcile restore p).Single := by
  rcases reconcile_cases restore s p with hsame | ⟨-,⟨mutate,hmutate,heq⟩ | hcreate⟩
  · rw [hsame]
    exact h
  · rw [heq]
    exact h.patchStatus p hmutate
  · obtain ⟨hjob,hname,job,howned,heq⟩ := hcreate
    rw [heq]
    have hzero : s.created=0 := by
      rcases h.held with hnone | hheld | hrecorded
      · exact hnone
      · rw [hjob] at hheld
        cases hheld
      · exact absurd hname (hseen hrecorded)
    refine Single.patchStatus ⟨?_,?_⟩ p (keepsJobName_markRunning restore job)
    · simp [hzero]
    · exact .inr (.inl howned)

theorem Single.step {s s' : RestoreSite} {e : RestoreEvent} (hstep : s.step restore e=some s')
    (hnoticed : s.Noticed e s') (h : s.Single) : s'.Single := by
  cases e with simp only [RestoreSite.step] at hstep
  | pass p =>
    split at hstep
    · cases hstep
      exact h.reconcile hnoticed.2
    · cases hstep
  | tick d =>
    cases hstep
    exact ⟨h.once,h.held⟩
  | jobEnds state unchanged =>
    split at hstep
    · rename_i job hjob
      split at hstep
      · cases hstep
        refine ⟨h.once,?_⟩
        have hheld := h.held
        rw [hjob] at hheld
        exact hheld
      · cases hstep
    · cases hstep
  | jobExpires =>
    split at hstep
    · rename_i job hjob
      split at hstep
      · cases hstep
        refine ⟨h.once,?_⟩
        rcases h.held with hnone | howned | hname
        · exact .inl hnone
        · exact .inr (.inr (hnoticed howned))
        · exact .inr (.inr hname)
      · cases hstep
    · cases hstep

theorem phase_of_noticed {s s' : RestoreSite} {e : RestoreEvent} (hstep : s.step restore e=some s')
    (hnoticed : s.Noticed e s') (hended : s.status.phase.ended=true) :
    s'.status.phase=s.status.phase := by
  cases e with simp only [RestoreSite.step] at hstep
  | pass p =>
    split at hstep
    · cases hstep
      rw [reconcile,if_pos (hnoticed.1 hended)]
    · cases hstep
  | tick d =>
    cases hstep
    rfl
  | jobEnds state unchanged | jobExpires =>
    split at hstep
    · split at hstep <;> cases hstep
      rfl
    · cases hstep

end RestoreSite

open RestoreSite

/-- A new restore, with the Job that may have its Job's name. -/
def newRestore (job : Option RestoreJob) : RestoreSite := { job, jobs := [job] }

/-- When ends and recorded Jobs are noticed and Jobs go only when recorded, at most one Job is
created and the end is final. -/
theorem restore_loads_once (restore : LogicalRestore) (job : Option RestoreJob)
    (es : List RestoreEvent)
    (hnoticed : Along (step restore) Noticed (newRestore job) es) :
    Along (step restore) LoadsOnce (newRestore job) es := by
  refine hnoticed.imp_invariant (I := Single) ?_ ?_ ⟨Nat.zero_le _,.inl rfl⟩
  · intro s e s' hstep hn h
    exact h.step hstep hn
  · intro s e s' hstep hn h
    exact ⟨(h.step hstep hn).once,phase_of_noticed hstep hn⟩

def shopRestore : LogicalRestore where
  name := "shop"
  cluster := "db"
  backup := some "dump"
  databases := ["shop"]

/-- A pass that can start the restore, seeing the given status. -/
def startingPass (seen : RestoreStatus) (written : Bool) : RestorePass where
  seen := seen
  base := seen
  cluster := some { currentPrimary := "db-1" }
  dump := .found { bucket := "b", dumpKey := "db/dump/1/dump.sql.zst", backupID := "1" } (.ok ())
  podReady := .ok true
  written := written

def shopJob : RestoreJob where
  params := { target := "db-1", backupID := "1", source := "s3://b/db/dump/1/dump.sql.zst" }
  owned := true
  ttl := 86400

def shopRunning : RestoreStatus := RestoreStatus.markRunning shopRestore shopJob {}

def jobLife : List RestoreEvent := [.jobEnds .succeeded false,.tick 86400,.jobExpires]

def trackingPass (base : RestoreStatus) : RestorePass where
  seen := shopRunning
  base := base
  cachedJob := some { shopJob with state := .succeeded, finishedAt := some 0 }

def plainRestore : List RestoreEvent :=
  [.pass (startingPass {} true),.jobEnds .succeeded false,.pass (trackingPass shopRunning),
    .tick 86400,.jobExpires,.pass { seen := shopRunning.complete, base := shopRunning.complete }]

theorem restore_loads_once_plain :
    ((exec (step shopRestore) (newRestore none) plainRestore).any fun s =>
      s.status.phase = .completed && s.created=1)=true ∧
    Along (step shopRestore) LoadsOnce (newRestore none) plainRestore :=
  ⟨by decide +kernel,restore_loads_once shopRestore none plainRestore (by decide +kernel)⟩

/-- The status write after the Job's creation is lost, and the Job is gone. -/
def lostRecord : List RestoreEvent :=
  .pass (startingPass {} false)::jobLife++[.pass (startingPass {} true)]

/-- A pass reads the running restore from its cache when the completed one has lost its Job. -/
def staleEnd : List RestoreEvent :=
  [.pass (startingPass {} true),.jobEnds .succeeded false,.pass (trackingPass shopRunning),
    .tick 86400,.jobExpires,.pass { seen := shopRunning, base := shopRunning }]

/-- A restore whose Job went unrecorded loads twice; a completed one fails when a cache is behind.
-/
theorem restore_loads_twice :
    (¬∀ (restore : LogicalRestore) (job : Option RestoreJob) (es : List RestoreEvent),
      Along (step restore) (fun _ _ s' => s'.created≤1) (newRestore job) es) ∧
    ¬∀ (restore : LogicalRestore) (job : Option RestoreJob) (es : List RestoreEvent),
      Along (step restore) (fun s _ s' => s.status.phase.ended=true →
        s'.status.phase=s.status.phase) (newRestore job) es := by
  constructor
  · intro hclaim
    have hbad : ¬Along (step shopRestore) (fun _ _ s' => s'.created≤1) (newRestore none)
        lostRecord := by decide +kernel
    exact hbad (hclaim _ _ _)
  · intro hclaim
    have hbad : ¬Along (step shopRestore) (fun s _ s' => s.status.phase.ended=true →
        s'.status.phase=s.status.phase) (newRestore none) staleEnd := by decide +kernel
    exact hbad (hclaim _ _ _)

end Cnmsql.Controller
