import Cnmsql.Engine.GTIDModel
import Cnmsql.RoleReconciler.Lease

namespace Cnmsql.RoleReconciler

open Framework Api Engine

/-- The in-Pod reconciler; `flavor` is what the environment names. -/
structure Reconciler where
  instanceName : String
  serviceDomain : String := ""
  flavor : String := ""
  deriving DecidableEq

def waitRequeue : Time := 2000000

def steadyRequeue : Time := 30000000

/-- How a pass ends. -/
inductive Outcome where
  | requeueAfter (after : Time)
  /-- An error, retried with the controller's backoff. -/
  | failed
  deriving DecidableEq

def leaseEnabled {ρ : Type} (cluster : Cluster ρ) : Bool := cluster.enablePrimaryLease≠some false

def Status.settled (status : Status) : Bool :=
  status.role = .primary ∧ status.readOnly=false ∧ status.superReadOnly=false

def Status.fed (status : Status) : Bool := status.replication.any ReplicaStatus.ioRunning

variable [CaseMapping]

/-- Whether the executed set contains `set`. -/
def applied (flavor executed set : String) : Bool :=
  match forFlavor flavor with
  | .error _ => false
  | .ok f =>
    match f.gtid.contains executed set with
    | .ok contained => contained
    | .error _ => false

/-- The replica has applied all it has received and is not lagging. -/
def caughtUp (flavor : String) (status : Status) : Bool :=
  match status.replication with
  | none => true
  | some repl =>
    repl.sqlRunning && applied flavor status.gtidExecuted repl.retrievedGTIDSet &&
      !repl.secondsBehindSource.any (0<·)

namespace Reconciler

variable {ρ : Type} (r : Reconciler)

def setCurrentPrimary : Pass ρ Unit := do
  let cluster ← Call.readCluster
  let now ← Call.readClock
  match RoleReconciler.setCurrentPrimary cluster.status r.instanceName (now / 1000000) with
  | none => pure ()
  | some patch => Call.writeStatus patch

def handOffLease (enabled : Bool) : Pass ρ (Except LeaseError Unit) := do
  let status ← Call.readStatus
  releaseLease r.instanceName enabled status.gtidExecuted

def stepDown (enabled : Bool) : Pass ρ (Except LeaseError Unit) := do
  Call.runDemote
  r.handOffLease enabled

def sourceFor (primary : String) : String := primary ++ "." ++ r.serviceDomain

/-- A diverged instance never promotes, and steps down without a handoff. -/
def reconcileDiverged (enabled : Bool) (status : Status) : Pass ρ Outcome :=
  if status.role = .primary then do
    Call.runDemote
    let _ ← releaseLease r.instanceName enabled ""
    pure (.requeueAfter steadyRequeue)
  else pure (.requeueAfter steadyRequeue)

variable (enabled : Bool) (cluster : Cluster ρ) (status : Status)

def reconcileTarget : Pass ρ Outcome :=
  if status.settled then do
    match ← acquireOrRenewLease r.instanceName enabled true with
    | .error _ => pure (.requeueAfter waitRequeue)
    | .ok _ =>
      if cluster.status.currentPrimary=r.instanceName then pure (.requeueAfter steadyRequeue)
      else do
        r.setCurrentPrimary
        pure (.requeueAfter steadyRequeue)
  else if status.role ≠ .primary ∧ caughtUp r.flavor status=false then
    pure (.requeueAfter waitRequeue)
  else do
    match ← acquireOrRenewLease r.instanceName enabled false with
    | .error _ => pure (.requeueAfter waitRequeue)
    | .ok handoff =>
      -- it waits only while its source still feeds it; a source that is gone makes this a failover
      if handoff ≠ "" ∧ applied r.flavor status.gtidExecuted handoff=false ∧ status.fed=true then
        pure (.requeueAfter waitRequeue)
      else do
        Call.runPromote
        r.setCurrentPrimary
        pure (.requeueAfter waitRequeue)

def reconcileFollower : Pass ρ Outcome :=
  let current := cluster.status.currentPrimary
  if current = "" ∨ current=r.instanceName then
    if status.role = .primary then do
      match ← r.stepDown enabled with
      | .error _ => pure .failed
      | .ok () => pure (.requeueAfter waitRequeue)
    else pure (.requeueAfter waitRequeue)
  else if status.role = .primary then do
    -- a failed release is only logged here
    let _ ← r.stepDown enabled
    Call.runFollow (r.sourceFor current)
    pure (.requeueAfter steadyRequeue)
  else do
    Call.runFollow (r.sourceFor current)
    pure (.requeueAfter steadyRequeue)

def reconcileAsyncRole : Pass ρ Outcome :=
  if r.instanceName∈cluster.status.divergedInstances then r.reconcileDiverged enabled status
  else if cluster.status.targetPrimary=r.instanceName then r.reconcileTarget enabled cluster status
  else r.reconcileFollower enabled cluster status

/-- A fenced primary releases the Lease only once its server is down. -/
def reconcile : Pass ρ Outcome := do
  let cluster ← Call.readCluster
  if r.instanceName∈cluster.status.fencedInstances then do
    Call.runFence
    let _ ← releaseLease r.instanceName (leaseEnabled cluster) ""
    pure (.requeueAfter steadyRequeue)
  else do
    Call.runUnfence
    let status ← Call.readStatus
    r.reconcileAsyncRole (leaseEnabled cluster) cluster status

end Reconciler

end Cnmsql.RoleReconciler
