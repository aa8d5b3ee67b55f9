import Cnmsql.Framework.Execution
import Cnmsql.RoleReconciler.Reconciler

namespace Cnmsql.RoleReconciler

open Framework Api

/-- `expected` is the role the manager expects; `replication` is there while a source is configured.
-/
structure Server where
  readOnly : Bool := true
  superReadOnly : Bool := true
  hasSuperReadOnly : Bool := true
  expected : Role := .unknown
  gtidExecuted : String := ""
  replication : Option ReplicaStatus := none
  deriving DecidableEq

namespace Server

variable (s : Server)

def Writable : Prop := s.readOnly=false ∧ s.superReadOnly=false

instance : Decidable s.Writable := inferInstanceAs (Decidable (_ ∧ _))

def role : Role :=
  if s.replication.isSome then .replica
  else if s.expected = .replica then .unknown
  else .primary

def status : Status where
  role := s.role
  readOnly := s.readOnly
  superReadOnly := s.superReadOnly
  gtidExecuted := s.gtidExecuted
  replication := s.replication

def promote : Server :=
  { s with readOnly := false, superReadOnly := false, expected := .primary, replication := none }

def demote : Server := { s with readOnly := true, superReadOnly := s.hasSuperReadOnly }

/-- Follows the source, with both threads started. -/
def follow : Server :=
  { s with
    expected := .replica
    replication := some { s.replication.getD {} with ioRunning := true, sqlRunning := true } }

/-- A stopped server takes no writes and boots read-only. -/
def after : Call → Server
  | .promote => s.promote
  | .demote | .fence => s.demote
  | .ensureReplicaConfigured _ => s.follow
  | _ => s

end Server

def leaseAfter (stored : Option Lease) : Call → Option Lease
  | .createLease lease => if stored.isNone then some lease else stored
  | .updateLease lease =>
    stored.map fun old =>
      if old.version=lease.version then { lease with version := old.version+1 } else old
  | _ => stored

/-- The handoff an outgoing primary recorded and nobody promoted over yet. -/
def owedAfter (stored : Option Lease) (owed : Option String) : Call → Option String
  | .updateLease lease =>
    if stored.any (·.version=lease.version) ∧ lease.holder=none ∧ lease.handoff ≠ "" then
      some lease.handoff
    else owed
  | .promote => none
  | _ => owed

/-- What a pass has learnt: whether the lease layer is on, the status it read, that its server is
read-only, the Lease and clock it read, and the handoff of the Lease it took. -/
structure Know where
  enabled : Bool := true
  seen : Option Status := none
  quiet : Bool := false
  lease : Option Lease := none
  clock : Option Time := none
  taken : Option String := none
  deriving DecidableEq

/-- One instance: its server, the rest of its pass and when the next one is due. -/
structure Node (ρ : Type) where
  server : Server := {}
  pass : Pass ρ Outcome := .pure .failed
  know : Know := {}
  wake : Time := 0

/-- The call the instance's pass makes next. -/
def Node.nextCall {ρ : Type} (n : Node ρ) : Option Call :=
  match n.pass with
  | .pure _ => none
  | .call c _ => some c

/-- The instances share the clock, the Cluster and the Lease. -/
structure System (ι ρ : Type) where
  clock : Time := 0
  cluster : Cluster ρ
  lease : Option Lease := none
  nodes : ι → Node ρ
  owed : Option String := none

/-- The names of the instances, and what all of them are configured with. -/
structure Fleet (ι : Type) where
  instanceName : ι → String
  injective : Function.Injective instanceName
  named : ∀ i,instanceName i ≠ ""
  serviceDomain : String := ""
  flavor : String := ""

inductive Act (ι ρ : Type) where
  | tick (d : Time)
  /-- The operator, or a user, updates the Cluster; `currentPrimary` is not theirs. -/
  | edit (cluster : Cluster ρ)
  /-- A server executes transactions, and its replication threads come and go. -/
  | replicate (i : ι) (gtidExecuted : String) (replica : ReplicaStatus)
  /-- An instance's next pass starts, due or early on an event. -/
  | start (i : ι) (event : Bool)
  /-- The next call of an instance's pass. -/
  | call (i : ι)

variable {ι ρ : Type}

def Fleet.reconciler (f : Fleet ι) (i : ι) : Reconciler where
  instanceName := f.instanceName i
  serviceDomain := f.serviceDomain
  flavor := f.flavor

def learn (me : String) (know : Know) : (c : Call) → Answer ρ c → Know
  | .getCluster,cluster => { know with enabled := leaseEnabled cluster, taken := none }
  | .getLease, found => { know with lease := found, taken := none }
  | .createLease lease,written | .updateLease lease,written =>
    { know with
      lease := none
      taken := if written=true ∧ lease.holder=some me then some lease.handoff else none }
  | .now, t => { know with clock := some (max t (know.clock.getD 0)), taken := none }
  | .status, status => { know with seen := some status, taken := none }
  | .promote, _ => { know with seen := none, quiet := false, taken := none }
  | .demote,_ | .fence, _ => { know with seen := none, quiet := true, taken := none }
  | .ensureReplicaConfigured _, _ => { know with seen := none, taken := none }
  | .patchStatus _,_ | .unfence, _ => { know with taken := none }

namespace System

def answer (s : System ι ρ) (i : ι) : (c : Call) → Answer ρ c
  | .getCluster => s.cluster
  | .getLease => s.lease
  | .createLease _ => s.lease.isNone
  | .updateLease lease => s.lease.any (·.version=lease.version)
  | .now => s.clock
  | .status => (s.nodes i).server.status
  | .patchStatus _ | .fence | .unfence | .promote | .demote | .ensureReplicaConfigured _ => ()

def clusterAfter (s : System ι ρ) : Call → Cluster ρ
  | .patchStatus patch => { s.cluster with status := patch.apply s.cluster.status }
  | _ => s.cluster

end System

/-- When the next pass is due, once this one has ended. -/
def wakeAfter (wake clock : Time) : Pass ρ Outcome → Time
  | .pure (.requeueAfter d) => clock+d
  | .pure .failed => clock
  | .call _ _ => wake

variable [CaseMapping] [DecidableEq ι]
  (f : Fleet ι) (s : System ι ρ) (i : ι) (c : Call) (k : Answer ρ c → Pass ρ Outcome)

/-- What a call does to the system, with `rest` the pass that goes on. -/
def performed : System ι ρ where
  clock := s.clock
  cluster := s.clusterAfter c
  lease := leaseAfter s.lease c
  owed := owedAfter s.lease s.owed c
  nodes := Function.update s.nodes i
    { server := (s.nodes i).server.after c
      pass := k (s.answer i c)
      know := learn (f.instanceName i) (s.nodes i).know c (s.answer i c)
      wake := wakeAfter (s.nodes i).wake s.clock (k (s.answer i c)) }

def step : Act ι ρ → Option (System ι ρ)
  | .tick d => some { s with clock := s.clock+d }
  | .edit cluster =>
    if cluster.status.currentPrimary=s.cluster.status.currentPrimary then
      some { s with cluster := cluster }
    else none
  | .replicate i gtidExecuted replica =>
    -- an executed set only ever grows
    if applied f.flavor gtidExecuted (s.nodes i).server.gtidExecuted then
      some { s with
        nodes := Function.update s.nodes i
          { s.nodes i with
            server :=
              { (s.nodes i).server with
                gtidExecuted := gtidExecuted
                replication := (s.nodes i).server.replication.map fun _ => replica } } }
    else none
  | .start i event =>
    match (s.nodes i).pass with
    | .call _ _ => none
    | .pure _ =>
      if event=true ∨ (s.nodes i).wake ≤ s.clock then
        some { s with
          nodes := Function.update s.nodes i
            { s.nodes i with pass := (f.reconciler i).reconcile, know := {} } }
      else none
  | .call i =>
    match (s.nodes i).pass with
    | .pure _ => none
    | .call c k => some (performed f s i c k)

end Cnmsql.RoleReconciler
