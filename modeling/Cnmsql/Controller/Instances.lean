import Cnmsql.Binlog.MariaReplay
import Cnmsql.Controller.ScaleDown

namespace Cnmsql.Controller

open Framework Api
open Binlog (trimSpace)

/-- An instance Pod: deletion, readiness, fence, template hash and container report. -/
structure Pod where
  terminating : Bool := false
  ready : Bool := false
  fencing : Bool := false
  templateHash : String
  crashLooping : Bool := false
  restartCount : Int := 0
  corrupt : Bool := false
  deriving DecidableEq

/-- The status annotation of a data volume. -/
inductive VolumeStatus where
  | initializing
  | ready
  deriving DecidableEq

/-- The claim of a data volume; one from before bootstrap Jobs has no status. -/
structure Volume where
  uid : Nat
  terminating : Bool := false
  status : Option VolumeStatus := some .initializing
  resizePending : Bool := false
  deriving DecidableEq

def pvcBootstrapped (v : Volume) : Bool := v.status=none ∨ v.status=some .ready

inductive JobState where
  | running
  | complete
  | failed
  deriving DecidableEq

structure BootstrapJob where
  terminating : Bool := false
  volumeUID : Nat
  specHash : String
  state : JobState := .running
  deriving DecidableEq

/-- What a cluster owns, by instance; `reinit` is the annotation, `nextUID` the next volume's
identity. -/
structure Objects where
  pods : Map String Pod := ∅
  volumes : Map String Volume := ∅
  jobs : Map String (List BootstrapJob) := ∅
  reinit : String := ""
  nextUID : Nat := 0

namespace Objects

variable (o : Objects) (name : String)

def deletePod : Objects :=
  match o.pods.lookup name with
  | none => o
  | some pod => { o with pods := o.pods.insert name { pod with terminating := true } }

/-- A deleted volume stays until nothing mounts it. -/
def deleteVolume : Objects :=
  match o.volumes.lookup name with
  | none => o
  | some v => { o with volumes := o.volumes.insert name { v with terminating := true } }

def jobsOf : List BootstrapJob := (o.jobs.lookup name).getD []

def setJobs (jobs : List BootstrapJob) : Objects :=
  { o with jobs := o.jobs.insert name jobs }

def deleteBootstrapJobs : Objects :=
  o.setJobs name ((o.jobsOf name).map fun job => { job with terminating := true })

end Objects

def reinitRequestedInstances (raw : String) : List String :=
  if raw = "" then []
  else ((raw.toList.splitOn ',').map fun part => String.ofList (trimSpace part)).filter (· ≠ "")

def reinitRequested (raw name : String) : Bool := name∈reinitRequestedInstances raw

def clearReinitRequest (raw name : String) : String :=
  ",".intercalate ((reinitRequestedInstances raw).filter (·≠name))

def addReinitRequests (raw : String) (names : List String) : String :=
  let existing := reinitRequestedInstances raw
  let merged := names.foldl (fun merged name =>
    if name∈merged then merged else merged++[name]) existing
  if merged.length=existing.length then raw else ",".intercalate merged

def Objects.tearDown (o : Objects) (name : String) : Objects :=
  ((o.deletePod name).deleteBootstrapJobs name).deleteVolume name

/-- `reconcileReinit` of one instance: whether it is still being torn down. -/
def reconcileReinit (isPrimary : Bool) (name : String) (o : Objects) : Bool × Objects :=
  if ¬reinitRequested o.reinit name then (false,o)
  else if isPrimary then (false, { o with reinit := clearReinitRequest o.reinit name })
  else if name∈o.pods ∨ name∈o.volumes ∨ o.jobsOf name≠[] then (true,o.tearDown name)
  else (false, { o with reinit := clearReinitRequest o.reinit name })

section

/-- What the spec asks: Pod template and bootstrap Job hashes, and pending offline resizes. -/
structure InstancePlan where
  template : String → String
  bootstrap : String → String
  established : Bool := true
  offlineResize : Bool := false

/-- What an instance manager reports. -/
structure ManagerStatus where
  isReady : Bool
  executableHash : String := ""
  deriving DecidableEq

/-- What the pass has observed before it provisions the instances. -/
structure ClusterView where
  primaryName : String
  instanceNames : List String
  statusByInstance : Map String ManagerStatus := ∅
  fencedInstances : List String := []
  failedInstances : List String := []
  divergedInstances : List String := []
  brokenInstances : List String := []
  groupReplication : Option GroupReplicationStatus := none
  ready : Bool := false
  fullOutage : Bool := false
  /-- The phase in the Cluster's status is `Blocked`. -/
  blocked : Bool := false
  donorAvailable : Bool := true

variable {ρ : Type}

def plannedInstances (c : Cluster ρ) : Nat := if c.instances=0 then 1 else c.instances.toNat

/-- An instance's name, and whether it is the expected primary. -/
def isPlannedPrimary (c : Cluster ρ) (name : String) : Bool := name=primaryName c

def autoReinitRestartThreshold : Int := 7

def corruptionReinitRestartThreshold : Int := 3

/-- The mysqld container crashes and only new data can help. -/
def shouldAutoReinit (pod : Pod) : Bool :=
  pod.crashLooping &&
    decide ((if pod.corrupt then corruptionReinitRestartThreshold
      else autoReinitRestartThreshold)≤pod.restartCount)

/-- Lists the replicas that cannot come back by themselves for re-initialisation. -/
def reconcileAutoReinit (c : Cluster ρ) (plan : InstancePlan) (view : ClusterView) (o : Objects) :
    Objects :=
  if c.mode = .groupReplication ∨ ¬plan.established ∨ view.primaryName = "" then o
  else if ¬(view.statusByInstance.lookup view.primaryName).any (·.isReady) then o
  else
    let toReinit := view.failedInstances.filter fun name =>
      name≠view.primaryName ∧ ¬reinitRequested o.reinit name ∧
        (o.pods.lookup name).any shouldAutoReinit
    if toReinit=[] then o else { o with reinit := addReinitRequests o.reinit toReinit }

end

section

/-- Why the operator deletes an instance Pod. -/
inductive Cause where
  | reinit
  | template
  | resize
  | upgrade
  deriving DecidableEq

/-- The deletion of an instance Pod, with the objects at that moment. -/
structure Deletion where
  name : String
  cause : Cause
  before : Objects

/-- What a part of the pass leaves; `rolled` stops the pass. -/
structure Ensured where
  rolled : Bool := false
  objects : Objects
  deleted : Option Deletion := none

variable (plan : InstancePlan) (name : String) (o : Objects)

/-- The volume's claim, and whether its Pod must go for a resize. -/
def ensurePVC : Bool × Objects :=
  match o.volumes.lookup name with
  | none =>
    (false, { o with volumes := o.volumes.insert name { uid := o.nextUID }, nextUID := o.nextUID+1 })
  | some v =>
    (plan.offlineResize && v.resizePending,
      { o with volumes := o.volumes.insert name { v with status := some (v.status.getD .ready) } })

/-- Drives the volume through its bootstrap Job; whether the Pod may come up. -/
def ensureBootstrapped (isPrimary : Bool) (name : String) (o : Objects) : Bool × Objects :=
  match o.volumes.lookup name with
  | none => (false,o)
  | some v =>
    if pvcBootstrapped v then ((o.jobsOf name).isEmpty,o.deleteBootstrapJobs name)
    else if (o.pods.lookup name).isSome then (false,o)
    else if isPrimary ∧ plan.established then (false,o)
    else
      match o.jobsOf name with
      | [] => (false,o.setJobs name [{ volumeUID := v.uid, specHash := plan.bootstrap name }])
      | job::jobs =>
        let deleted := o.setJobs name ({ job with terminating := true } :: jobs)
        if job.terminating then (false,o)
        else if job.volumeUID≠v.uid then (false,deleted)
        else
          match job.state with
          | .complete =>
            (false,{ deleted with
              volumes := deleted.volumes.insert name { v with status := some .ready } })
          | .failed => (false,if job.specHash=plan.bootstrap name then o else deleted)
          | .running => (false,o)

def rollForResize (allowRoll : Bool) (name : String) (o : Objects) : Ensured :=
  if ¬allowRoll then { objects := o }
  else
    match o.pods.lookup name with
    | none => { objects := o }
    | some pod =>
      if pod.terminating then { rolled := true, objects := o }
      else { rolled := true, objects := o.deletePod name, deleted := some ⟨name,.resize,o⟩ }

/-- Creates the Pod, or deletes it to apply a template change. A new Pod has the template's
annotations alone. -/
def ensurePod (allowRoll : Bool) (name : String) (o : Objects) : Ensured :=
  match o.pods.lookup name with
  | none => { objects := { o with pods := o.pods.insert name { templateHash := plan.template name } } }
  | some pod =>
    if pod.terminating then { objects := o }
    else if pod.templateHash≠plan.template name then
      if ¬allowRoll then { objects := o }
      else { rolled := true, objects := o.deletePod name, deleted := some ⟨name,.template,o⟩ }
    else { objects := o }

def ensureInstance (isPrimary allowRoll : Bool) (name : String) (o : Objects) : Ensured :=
  let torn := reconcileReinit isPrimary name o
  if torn.1 then
    { rolled := true
      objects := torn.2
      deleted := if (o.pods.lookup name).any (!·.terminating) then some ⟨name,.reinit,o⟩ else none }
  else
    let claimed := ensurePVC plan name torn.2
    let booted := ensureBootstrapped plan isPrimary name claimed.2
    if ¬booted.1 then { objects := booted.2 }
    else
      let resized := rollForResize allowRoll name booted.2
      if claimed.1 ∧ resized.rolled then resized else ensurePod plan allowRoll name booted.2

variable {ρ : Type}

def memberOnline (group : Option GroupReplicationStatus) (name : String) : Bool :=
  match (group.getD {}).members.find? (·.instanceName=name) with
  | none => false
  | some m => m.state=memberStateOnline

/-- The Pod is there, not on its way out and Ready. -/
def podAvailable (name : String) : Bool :=
  match o.pods.lookup name with
  | none => false
  | some pod => !pod.terminating && pod.ready

variable (c : Cluster ρ) (view : ClusterView) (o : Objects)

/-- Ready for the next roll: its live Pod, its report, and its place in the group. -/
def instanceFullyReady (name : String) : Bool :=
  podAvailable o name && (view.statusByInstance.lookup name).any (·.isReady) &&
    (c.mode = .async || memberOnline view.groupReplication name)

def quorumRecoveryBlocked : Bool :=
  c.mode = .groupReplication && view.blocked &&
    c.status.groupReplication.any fun g => g.bootstrapped && !g.hasQuorum

/-- Whether the pass may go on to the instance with this ordinal. -/
def gateInstance (ordinal : Nat) : Bool :=
  let name := instanceName c.name ordinal
  let podExists := (o.pods.lookup name).isSome
  if (¬podExists ∨ quorumRecoveryBlocked c view) ∧
      (o.volumes.lookup name).any pvcBootstrapped then true
  else if ¬instanceFullyReady c view o (instanceName c.name (ordinal-1)) then false
  else podExists || view.donorAvailable

def replicasFullyReady (primary : String) : Bool :=
  ((List.range' 1 (plannedInstances c)).map (instanceName c.name)).all fun name =>
    name=primary || instanceFullyReady c view o name

def instancePendingRoll (plan : InstancePlan) (o : Objects) (name : String) : Bool :=
  match o.pods.lookup name with
  | none => false
  | some pod => !pod.terminating && pod.templateHash≠plan.template name

/-- What provisioning leaves; `provisioned` tells whether no work remains. -/
structure Provisioned where
  provisioned : Bool
  objects : Objects
  deleted : Option Deletion := none

/-- The loop of `reconcileInstances`, `none` when it went through. -/
def instanceLoop (c : Cluster ρ) (plan : InstancePlan) (view : ClusterView) (primary : String) :
    List Nat → Objects → Option Provisioned × Objects
  | [],o => (none,o)
  | i::rest,o =>
    if 1 < i ∧ ¬gateInstance c view o i then (some { provisioned := false, objects := o }, o)
    else
      let name := instanceName c.name i
      let e := ensureInstance plan (isPlannedPrimary c name) (name≠primary) name o
      if e.rolled then (some { provisioned := false, objects := e.objects, deleted := e.deleted }, o)
      else instanceLoop c plan view primary rest e.objects

def electedPrimary : String :=
  if view.primaryName = "" then primaryName c else view.primaryName

/-- The last step: the primary is rolled once every replica is back. -/
def rollPrimaryLast (plan : InstancePlan) (view : ClusterView) (o : Objects) : Provisioned :=
  let primary := electedPrimary c view
  match instanceOrdinal c.name primary with
  | none => { provisioned := true, objects := o }
  | some ordinal =>
    let name := instanceName c.name ordinal.toNat
    if ¬instancePendingRoll plan o name then { provisioned := true, objects := o }
    else if view.ready ∧ replicasFullyReady c view o primary then
      let e := ensureInstance plan (isPlannedPrimary c name) true name o
      { provisioned := false, objects := e.objects, deleted := e.deleted }
    else { provisioned := false, objects := o }

def reconcileInstances (plan : InstancePlan) (view : ClusterView) (o : Objects) : Provisioned :=
  let o := reconcileAutoReinit c plan view o
  let outage := if view.fullOutage ∧ c.status.currentPrimary ≠ "" then
    instanceOrdinal c.name c.status.currentPrimary else none
  match outage with
  | some ordinal =>
    -- A total outage: only the last-seen primary comes up.
    let name := instanceName c.name ordinal.toNat
    let e := ensureInstance plan (isPlannedPrimary c name) false name o
    { provisioned := false, objects := e.objects, deleted := e.deleted }
  | none =>
    match instanceLoop c plan view (electedPrimary c view) (List.range' 1 (plannedInstances c)) o with
    | (some p,_) => p
    | (none,o) => rollPrimaryLast c plan view o

end

/-- How instance managers are brought up to date. -/
structure UpgradePlan where
  operatorHash : String := ""
  recordedHash : String := ""
  inPlace : Bool := false
  supervised : Bool := false
  restartPrimary : Bool := false

def UpgradePlan.targetHash (u : UpgradePlan) : String :=
  if u.recordedHash = "" then u.operatorHash else u.recordedHash

/-- The unfenced stale instances: replicas by name, then the primary. -/
def upgradeCandidates (view : ClusterView) (target : String) : List String :=
  let stale := view.instanceNames.filter fun name =>
    name∉view.fencedInstances ∧
      ((view.statusByInstance.lookup name).map (·.executableHash)).getD "" ∉ ["",target]
  stale.insertionSort fun a b =>
    if (a=view.primaryName) ↔ (b=view.primaryName) then a≤b else a≠view.primaryName

/-- What the upgrade step of a pass does. -/
inductive UpgradeStep where
  | done
  /-- It waits, and writes no status. -/
  | wait
  /-- It streams the new manager to the instance, or waits for that to be possible. -/
  | stream (name : String)
  | waitForUser
  | switchover (target : String)
  | roll (name : String)
  deriving DecidableEq

def healthyReplicaForSwitchover (view : ClusterView) : Option String :=
  view.instanceNames.find? fun name =>
    name≠view.primaryName ∧ name∉view.fencedInstances ∧ name∉view.divergedInstances ∧
      name∉view.brokenInstances ∧ (view.statusByInstance.lookup name).any (·.isReady)

variable {ρ : Type}

def reconcileUpgrade (c : Cluster ρ) (u : UpgradePlan) (view : ClusterView) : UpgradeStep :=
  if u.operatorHash = "" then .done
  else
    match upgradeCandidates view u.targetHash with
    | [] => .done
    | first::rest =>
      if view.instanceNames.any fun name => name∉first::rest ∧
          ¬(view.statusByInstance.lookup name).any (·.isReady) then .wait
      else if u.inPlace then .stream first
      else if view.primaryName∈first::rest ∧ 1<plannedInstances c ∧ u.supervised then
        .waitForUser
      else if c.mode = .async ∧ first=view.primaryName ∧ 1<plannedInstances c ∧
          ¬u.restartPrimary then
        match healthyReplicaForSwitchover view with
        | some target => .switchover target
        | none => .roll first
      else .roll first

end Cnmsql.Controller
