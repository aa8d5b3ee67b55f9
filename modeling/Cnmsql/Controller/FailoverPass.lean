import Cnmsql.Controller.Failover

namespace Cnmsql.Controller

open Framework Replication Engine

abbrev Instant := Nat

def nanosPerSecond : Nat := 1000000000

/-- `now.Sub(t)` of instants whose difference fits a duration. -/
def since (now t : Instant) : Int64 := Int64.ofInt ((now : Int)-t)

def truncateSecond (t : Instant) : Instant := t / nanosPerSecond*nanosPerSecond

def durationSeconds (n : Int32) : Int64 := Int64.ofInt (n.toInt*nanosPerSecond)

/-- What a failover pass reads of an instance's last status. -/
structure InstanceReport extends FailoverInstance where
  ready : Bool := false
  primary : Bool := false
  ioRunning : Bool := false
  inPlaceUpgrading : Bool := false
  deriving DecidableEq

/-- The observation a failover pass starts from. -/
structure FailoverObservation where
  primaryName : String
  instanceNames : List String
  instances : Map String InstanceReport
  fenced : List String := []
  diverged : List String := []

variable (o : FailoverObservation)

def FailoverObservation.state : FailoverState where
  primaryName := o.primaryName
  instanceNames := o.instanceNames
  instances := o.instances.collect fun _ report => some report.toFailoverInstance
  fenced := o.fenced

/-- What a failover pass reads of the spec. -/
structure FailoverSpec where
  flavor : Flavor := .mysql
  enableFailover : Bool := true
  enablePrimaryLease : Bool := true
  failoverDelay : Int32 := 0
  maxSwitchoverDelay : Int32 := 0
  inPlaceInstanceManagerUpdates : Bool := false
  maxTransactionsBehind : Option Int := none
  maxReplicationLag : Option Int64 := none
  minTimeBetweenFailovers : Int64 := 0
  primaryStabilityWindow : Int64 := 0
  preferredPrimary : List String := []

/-- What a failover pass reads and patches of the status. -/
structure FailoverStatus where
  currentPrimary : String
  targetPrimary : String := ""
  currentPrimaryTimestamp : Option Instant := none
  targetPrimaryTimestamp : Option Instant := none
  primaryFailingSince : Option Instant := none
  primaryHealthySince : Option Instant := none
  lastFailoverTimestamp : Option Instant := none
  fencedInstances : List String := []
  divergedInstances : List String := []
  gtidExecutedByInstance : Map String String := ∅
  executableHashByInstance : Map String String := ∅
  archiveCovered : String := ""
  phase : String := ""
  phaseReason : String := ""

/-- What the operator reads of the primary Lease. -/
structure PrimaryLease where
  holder : Option String := none
  renewTime : Option Instant := none
  leaseDurationSeconds : Option Int32 := none
  deriving DecidableEq

/-- What `fenceInstancePod` reads of the primary's Pod. -/
structure PrimaryPod where
  deleting : Bool := false
  fencing : Bool := false
  deriving DecidableEq

/-- What a failover pass is given besides the Cluster. -/
structure FailoverRequest where
  observed : FailoverObservation
  instances : Int
  provisioningRetry : Int64 := 0
  disownedGTIDs : String := ""
  operatorHash : String := ""
  lease : Option PrimaryLease := none
  primaryPod : Option PrimaryPod := none

structure OperationPhase where
  phase : String
  reason : String
  progressing : Bool
  deriving DecidableEq

structure FailoverResult where
  handled : Bool := false
  requeueAfter : Int64 := 0
  phase : Option OperationPhase := none
  deriving DecidableEq

/-- What a pass leaves: the replica it fails over to, and whether it deletes the old Pod. -/
structure FailoverOutcome where
  result : FailoverResult := {}
  status : FailoverStatus
  promoted : Option String := none
  deletesPod : Bool := false

def primaryHealthy : Bool :=
  match o.instances.lookup o.primaryName with
  | none => false
  | some report => report.ready && report.primary

variable (status : FailoverStatus) (now : Instant)

/-- Drops the failing mark, and starts a healthy stretch unless one is under way. -/
def recordPrimaryHealthy : FailoverStatus :=
  if status.primaryFailingSince=none ∧ status.primaryHealthySince≠none then status
  else
    { status with
      primaryFailingSince := none
      primaryHealthySince := some (truncateSecond now) }

/-- When the primary was first seen failing, this pass if never before. -/
def recordPrimaryFailing : Instant :=
  status.primaryFailingSince.getD (truncateSecond now)

def primaryLeaseDuration : Int64 := durationSeconds 15

/-- How long `holder` still holds the primary Lease, `none` when it does not. -/
def primaryLeaseStatus (spec : FailoverSpec) (lease : Option PrimaryLease) (holder : String)
    (now : Instant) : Option Int64 :=
  if ¬spec.enablePrimaryLease then none
  else
    match lease with
    | none => none
    | some lease =>
      match lease.renewTime with
      | none => none
      | some renewed =>
        if lease.holder≠some holder then none
        else
          let duration := (lease.leaseDurationSeconds.map durationSeconds).getD primaryLeaseDuration
          let remaining := duration-since now renewed
          if remaining≤0 then none else some remaining

variable (spec : FailoverSpec) (status : FailoverStatus) (now : Instant)

def switchoverOverdue : Bool :=
  decide (0<durationSeconds spec.maxSwitchoverDelay) &&
    status.targetPrimaryTimestamp.any fun t =>
      decide (durationSeconds spec.maxSwitchoverDelay<since now t)

def targetHoldsPromotionLease
    (knownDiverged : List String) (lease : Option PrimaryLease) (now : Instant) : Bool :=
  if status.targetPrimary = "" ∨ status.targetPrimary=status.currentPrimary ∨
      status.targetPrimary∈knownDiverged then false
  else
    (primaryLeaseStatus spec lease status.targetPrimary now).isSome &&
      !switchoverOverdue spec status now

/-- Whether `validateSwitchoverTarget` finds no fault in the target. -/
def validSwitchoverTarget (target : String) : Bool :=
  match o.instances.lookup target with
  | none => false
  | some report => report.ready && report.replica && report.ioRunning && report.sqlRunning

def switchoverInFlight (o : FailoverObservation)
    (knownDiverged : List String) (targetHoldsLease : Bool) (now : Instant) : Bool :=
  if status.targetPrimary = "" ∨ status.targetPrimary=status.currentPrimary then false
  else if status.targetPrimary∈knownDiverged then false
  else if validSwitchoverTarget o status.targetPrimary then true
  else if targetHoldsLease then true
  else
    match o.instances.lookup status.targetPrimary with
    | none => false
    | some report =>
      (report.ready && report.primary) ||
        (report.replica && report.sqlRunning && !switchoverOverdue spec status now)

def isInstanceHashStale (name operatorHash : String) : Bool :=
  match status.executableHashByInstance.lookup name with
  | none => false
  | some hash => decide (hash ≠ "" ∧ hash≠operatorHash)

variable (req : FailoverRequest)

/-- The delay before a failover, at least 30 s during a manager restart. -/
def failoverGrace : Int64 :=
  let o := req.observed
  let delay := durationSeconds spec.failoverDelay
  let delay :=
    if spec.inPlaceInstanceManagerUpdates ∧ req.operatorHash ≠ "" ∧
        isInstanceHashStale status o.primaryName req.operatorHash then
      max delay (durationSeconds 30)
    else delay
  if (o.instances.lookup o.primaryName).any (·.inPlaceUpgrading) then
    max delay (durationSeconds 30)
  else delay

/-- The start of the primary's healthy stretch, never before its election. -/
def primaryHealthySince (status : FailoverStatus) : Option Instant :=
  status.primaryHealthySince.map fun stamp =>
    match status.currentPrimaryTimestamp with
    | none => stamp
    | some elected => max stamp elected

/-- When the current primary became the settled state of the cluster. -/
def primarySettledAt : Option Int :=
  let settled := status.lastFailoverTimestamp.map fun t => (t : Int)
  if spec.primaryStabilityWindow≤0 then settled
  else
    match primaryHealthySince status with
    | none => settled
    | some healthy =>
      let stable := (healthy : Int)+spec.primaryStabilityWindow.toInt
      match settled with
      | none => some stable
      | some settled => some (max settled stable)

def failoverCooldownRemaining : Int64 :=
  if spec.minTimeBetweenFailovers≤0 then 0
  else
    match primarySettledAt spec status with
    | none => 0
    | some settled => Int64.ofInt (max (settled+spec.minTimeBetweenFailovers.toInt-now) 0)

def hasObservedReplica : Bool :=
  o.instances.keys.any (·≠o.primaryName)

/-- Whether the old Pod is deleted: not when it is going or fenced already. -/
def fenceInstancePod : Bool :=
  match req.primaryPod with
  | none => false
  | some pod =>
    !pod.deleting && !(pod.fencing && decide (req.observed.primaryName∈status.fencedInstances))

def degraded (requeueAfter : Int64) (reason : String) : FailoverResult where
  handled := true
  requeueAfter := requeueAfter
  phase := some ⟨"Degraded",reason,true⟩

/-- A refusal does not claim the pass: the primary can still recover. -/
def blocked (reason : String) : FailoverResult where
  phase := some ⟨"Blocked",reason,true⟩

variable [CaseMapping]

def FailoverRequest.disownedSet (req : FailoverRequest) (flavor : Flavor) : Option GTIDSet :=
  if req.disownedGTIDs = "" ∨ flavor = .mariadb then none
  else
    match parseGTIDSet req.disownedGTIDs with
    | .error _ => none
    | .ok set => if set.isEmpty then none else some set

/-- The election at `now` over a primary failing since `failingSince`. -/
def failoverElection (spec : FailoverSpec) (status : FailoverStatus) (req : FailoverRequest)
    (now failingSince : Instant) : Election where
  observed := req.observed.state
  knownDiverged := req.observed.diverged++status.divergedInstances
  flavor := spec.flavor
  maxTransactionsBehind := spec.maxTransactionsBehind
  archiveCovered := status.archiveCovered
  preferred := spec.preferredPrimary
  referenceGTID := (status.gtidExecutedByInstance.lookup req.observed.primaryName).getD ""
  maxReplicationLag := spec.maxReplicationLag
  primaryDownFor := since now failingSince
  disowned := req.disownedSet spec.flavor

def failoverMessage (primary : String) (elected : FailoverCandidate) : String :=
  "Failing over from " ++ primary ++ " to " ++ elected.name ++
    if 0<elected.transactionsBehind then
      ", which is " ++ toString elected.transactionsBehind ++ " transactions behind it" ++
        match elected.timeBehind with
        | none => ""
        | some lost => " (" ++ durationString (roundSecond lost) ++ " of writes)"
    else ""

/-- The end of `ReconcileFailover`, the primary failing long enough. -/
def electFailover (spec : FailoverSpec) (status : FailoverStatus) (req : FailoverRequest)
    (now failingSince : Instant) : FailoverOutcome :=
  let o := req.observed
  let elected := selectFailoverCandidate (failoverElection spec status req now failingSince)
  if elected.name = "" then
    if ¬hasObservedReplica o then { status }
    else
      { status
        result := blocked ("Cannot fail over from " ++ o.primaryName ++ ": " ++ elected.reason) }
  else
    match primaryLeaseStatus spec req.lease o.primaryName now with
    | some remaining =>
      { status
        result := degraded remaining
          ("Primary lease still held by " ++ o.primaryName ++ "; waiting for expiry") }
    | none =>
      { status :=
          { status with
            targetPrimary := elected.name
            targetPrimaryTimestamp := some now
            primaryFailingSince := none
            primaryHealthySince := none
            lastFailoverTimestamp := some now
            phase := "FailingOver"
            phaseReason := failoverMessage o.primaryName elected }
        result := { handled := true, requeueAfter := req.provisioningRetry }
        promoted := some elected.name
        deletesPod := fenceInstancePod status req }

def reconcileFailover (spec : FailoverSpec) (status : FailoverStatus) (req : FailoverRequest)
    (now : Instant) : FailoverOutcome :=
  let o := req.observed
  let knownDiverged := o.diverged++status.divergedInstances
  if status.currentPrimary = "" ∨ o.primaryName = "" ∨ req.instances<2 then { status }
  else if primaryHealthy o then { status := recordPrimaryHealthy status now }
  -- A fence that is not acknowledged yet: the primary is being taken down, not failing.
  else if o.primaryName∈o.fenced ∧ o.primaryName∉status.fencedInstances then { status }
  else if switchoverInFlight spec status o knownDiverged
      (targetHoldsPromotionLease spec status knownDiverged req.lease now) now then { status }
  else if ¬spec.enableFailover then
    { status
      result := blocked ("Cannot fail over from " ++ o.primaryName ++ ": failover is disabled " ++
        "(spec.enableFailover is false); the failed primary must recover in place or the role " ++
        "must move by manual switchover") }
  else
    let failingSince := recordPrimaryFailing status now
    let status := { status with primaryFailingSince := some failingSince }
    let remaining := failoverGrace spec status req-since now failingSince
    if 0<remaining then
      { status
        result := degraded remaining ("Primary " ++ o.primaryName ++ " unreachable; waiting " ++
          durationString (roundSecond remaining) ++ " before failover") }
    else
      let cooldown := failoverCooldownRemaining spec status now
      if 0<cooldown then
        { status
          result := blocked ("Cannot fail over from " ++ o.primaryName ++ ": the last primary " ++
            "promotion is too recent to fail over again; minTimeBetweenFailovers (" ++
            durationString spec.minTimeBetweenFailovers ++ ") allows the next one in " ++
            durationString (roundSecond cooldown)) }
      else electFailover spec status req now failingSince

variable {spec : FailoverSpec} {status : FailoverStatus} {req : FailoverRequest} {now : Instant}

theorem electFailover_promoted {failingSince : Instant} {c : String}
    (h : (electFailover spec status req now failingSince).promoted=some c) :
    c ≠ "" ∧
      c=(selectFailoverCandidate (failoverElection spec status req now failingSince)).name ∧
      primaryLeaseStatus spec req.lease req.observed.primaryName now=none := by
  simp only [electFailover] at h
  split at h
  · split at h
    · cases h
    · cases h
  · rename_i hname
    split at h
    · cases h
    · rename_i hlease
      cases h
      exact ⟨hname,rfl,hlease⟩

/-- A failover follows an election over a primary without the Lease. -/
theorem reconcileFailover_promoted {c : String}
    (h : (reconcileFailover spec status req now).promoted=some c) :
    c ≠ "" ∧
      c=(selectFailoverCandidate (failoverElection spec status req now
        (recordPrimaryFailing status now))).name ∧
      primaryLeaseStatus spec req.lease req.observed.primaryName now=none := by
  simp only [reconcileFailover] at h
  split at h
  · cases h
  split at h
  · cases h
  split at h
  · cases h
  split at h
  · cases h
  split at h
  · cases h
  split at h
  · cases h
  split at h
  · cases h
  obtain ⟨hname,helected,hlease⟩ := electFailover_promoted h
  exact ⟨hname,helected,hlease⟩

theorem electFailover_failingSince (spec : FailoverSpec) (status : FailoverStatus)
    (req : FailoverRequest) (now failingSince : Instant) :
    (electFailover spec status req now failingSince).status.primaryFailingSince=none ∨
      (electFailover spec status req now failingSince).status.primaryFailingSince =
        status.primaryFailingSince := by
  simp only [electFailover]
  split
  · split
    · exact .inr rfl
    · exact .inr rfl
  · split
    · exact .inr rfl
    · exact .inl rfl

/-- The failing mark a pass leaves: none, the old, or its own. -/
theorem reconcileFailover_failingSince {f : Instant}
    (h : (reconcileFailover spec status req now).status.primaryFailingSince=some f) :
    status.primaryFailingSince=some f ∨ f=recordPrimaryFailing status now := by
  simp only [reconcileFailover] at h
  split at h
  · exact .inl h
  split at h
  · unfold recordPrimaryHealthy at h
    split at h
    · exact .inl h
    · cases h
  split at h
  · exact .inl h
  split at h
  · exact .inl h
  split at h
  · exact .inl h
  split at h
  · exact .inr (Option.some.inj h).symm
  split at h
  · exact .inr (Option.some.inj h).symm
  · cases electFailover_failingSince spec
        { status with primaryFailingSince := some (recordPrimaryFailing status now) } req now
        (recordPrimaryFailing status now) with
    | inl hnone =>
      rw [hnone] at h
      cases h
    | inr hsame =>
      rw [hsame] at h
      exact .inr (Option.some.inj h).symm

end Cnmsql.Controller
