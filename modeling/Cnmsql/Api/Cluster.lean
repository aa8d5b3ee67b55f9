import Mathlib.Data.Option.Basic

namespace Cnmsql.Api

abbrev Timestamp := Nat

/-- `spec.replication.mode`; an absent mode is asynchronous. -/
inductive ReplicationMode where
  | async
  | groupReplication
  deriving DecidableEq

/-- One member of the observed group view. -/
structure GroupMember where
  instanceName : String
  state : String
  role : String
  reachable : Bool
  deriving DecidableEq

structure GroupReplicationStatus where
  groupName : String := ""
  bootstrapped : Bool := false
  primaryMember : String := ""
  members : List GroupMember := []
  hasQuorum : Bool := false
  observedViewMax : Int := 0
  observedOnlineMax : Int := 0
  viewID : String := ""
  communicationProtocol : String := ""
  communicationProtocolTarget : String := ""
  deriving DecidableEq

/-- `ClusterStatus`; `rest` is only copied and compared here. -/
structure ClusterStatus (ρ : Type) where
  instanceNames : List String := []
  currentPrimary : String := ""
  targetPrimary : String := ""
  currentPrimaryTimestamp : Option Timestamp := none
  currentPrimaryGeneration : Int64 := 0
  divergedInstances : List String := []
  fencedInstances : List String := []
  groupReplication : Option GroupReplicationStatus := none
  rest : ρ
  deriving DecidableEq

/-- The Cluster object, with what is read of its metadata and its spec. -/
structure Cluster (ρ : Type) where
  name : String
  ns : String
  mode : ReplicationMode := .async
  instances : Int := 1
  enablePrimaryLease : Option Bool := none
  status : ClusterStatus ρ
  deriving DecidableEq

instance {ρ : Type} [Inhabited ρ] : Inhabited (ClusterStatus ρ) := ⟨{ rest := default }⟩

/-- The zero value, which stands for an old object that is absent. -/
instance {ρ : Type} [Inhabited ρ] : Inhabited (Cluster ρ) :=
  ⟨{ name := "", ns := "", instances := 0, status := default }⟩

end Cnmsql.Api
