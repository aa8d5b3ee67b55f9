import Cnmsql.Framework.Interaction
import Cnmsql.RoleReconciler.CurrentPrimary

namespace Cnmsql.RoleReconciler

open Framework Api

abbrev Time := Nat

/-- `handoff` is the annotation, empty when absent; `version` the resource version. -/
structure Lease where
  holder : Option String := none
  acquireTime : Option Time := none
  renewTime : Option Time := none
  leaseDurationSeconds : Option Int32 := none
  leaseTransitions : Option Int32 := none
  handoff : String := ""
  version : Nat := 0
  deriving DecidableEq

inductive Role where
  | primary
  | replica
  | unknown
  deriving DecidableEq

structure ReplicaStatus where
  ioRunning : Bool := true
  sqlRunning : Bool := true
  secondsBehindSource : Option Int := none
  retrievedGTIDSet : String := ""
  deriving DecidableEq

structure Status where
  role : Role
  readOnly : Bool
  superReadOnly : Bool
  gtidExecuted : String
  replication : Option ReplicaStatus := none
  deriving DecidableEq

/-- The calls a role pass makes. -/
inductive Call where
  | getCluster
  | patchStatus (patch : StatusPatch)
  | getLease
  | createLease (lease : Lease)
  | updateLease (lease : Lease)
  | now
  | fence
  | unfence
  | status
  | promote
  | demote
  | ensureReplicaConfigured (host : String)
  deriving DecidableEq

/-- A write of the Lease may conflict; every other call succeeds. -/
@[reducible] def Answer (ρ : Type) : Call → Type
  | .getCluster => Cluster ρ
  | .getLease => Option Lease
  | .createLease _ | .updateLease _ => Bool
  | .now => Time
  | .status => Status
  | .patchStatus _ | .fence | .unfence | .promote | .demote | .ensureReplicaConfigured _ => Unit

abbrev Pass (ρ : Type) := Prog Call (Answer ρ)

def second : Int := 1000000

def defaultLeaseDurationSeconds : Int32 := 15

def leaseExpired (lease : Lease) (now : Time) : Bool :=
  match lease.renewTime with
  | none => true
  | some renewed =>
    (lease.leaseDurationSeconds.getD defaultLeaseDurationSeconds).toInt*second <
      (now : Int)-renewed

theorem leaseExpired_mono {lease : Lease} {t now : Nat} (h : leaseExpired lease t=true)
    (hle : t≤now) : leaseExpired lease now=true := by
  unfold leaseExpired at h ⊢
  split
  · rfl
  · rename_i renewed hr
    simp only [hr,decide_eq_true_eq] at h ⊢
    omega

inductive LeaseError where
  /-- The Lease is held by another instance. -/
  | held
  | conflict
  deriving DecidableEq

/-- The Lease as taken or renewed; a settled primary drops the handoff. -/
def renewed (me : String) (settled : Bool) (lease : Lease) (now : Time) : Lease :=
  let taken : Bool := lease.acquireTime.isNone || lease.holder.getD "" != me
  { lease with
    holder := some me
    renewTime := some now
    acquireTime := if taken then some now else lease.acquireTime
    leaseTransitions :=
      if taken then some (lease.leaseTransitions.getD 0+1) else lease.leaseTransitions
    leaseDurationSeconds := some (lease.leaseDurationSeconds.getD defaultLeaseDurationSeconds)
    handoff := if settled then "" else lease.handoff }

variable {ρ : Type}

namespace Call

abbrev readCluster : Pass ρ (Cluster ρ) := Prog.perform getCluster

abbrev readLease : Pass ρ (Option Lease) := Prog.perform getLease

abbrev readClock : Pass ρ Time := Prog.perform now

abbrev readStatus : Pass ρ Status := Prog.perform status

abbrev runFence : Pass ρ Unit := Prog.perform fence

abbrev runUnfence : Pass ρ Unit := Prog.perform unfence

abbrev runPromote : Pass ρ Unit := Prog.perform promote

abbrev runDemote : Pass ρ Unit := Prog.perform demote

abbrev runFollow (host : String) : Pass ρ Unit := Prog.perform (ensureReplicaConfigured host)

abbrev writeStatus (patch : StatusPatch) : Pass ρ Unit := Prog.perform (patchStatus patch)

/-- `Create` when there was no Lease, else `Update`. -/
def writeLease (create : Bool) (lease : Lease) : Pass ρ Bool :=
  if create then Prog.perform (createLease lease) else Prog.perform (updateLease lease)

end Call

variable (me : String) (lease : Lease)

/-- The clock is read only when a holder is named. -/
def heldByAnother : Pass ρ Bool :=
  if lease.holder.getD "" ≠ "" ∧ lease.holder.getD ""≠me then do
    let now ← Call.readClock
    pure (!leaseExpired lease now)
  else pure false

def foundOrNew (found : Option Lease) : Lease :=
  found.getD { leaseDurationSeconds := some defaultLeaseDurationSeconds }

/-- The end of `acquireOrRenewLease`: the Lease is free, or this instance's. -/
def takeLease (settled : Bool) (found : Option Lease) : Pass ρ (Except LeaseError String) := do
  let now ← Call.readClock
  let lease := renewed me settled (foundOrNew found) now
  let written ← Call.writeLease found.isNone lease
  if written then pure (.ok lease.handoff) else pure (.error .conflict)

/-- Takes or renews the Lease and returns the recorded handoff. -/
def acquireOrRenewLease (enabled settled : Bool) : Pass ρ (Except LeaseError String) :=
  if enabled=false then pure (.ok "")
  else do
    let found ← Call.readLease
    let held ← heldByAnother me (foundOrNew found)
    if held then pure (.error .held) else takeLease me settled found

/-- The Lease as given up; an empty handoff keeps the recorded one. -/
def released (handoff : String) : Lease :=
  { lease with
    holder := none
    renewTime := none
    handoff := if handoff = "" then lease.handoff else handoff }

/-- Gives up the Lease if this instance holds it. -/
def releaseLease (enabled : Bool) (handoff : String) : Pass ρ (Except LeaseError Unit) :=
  if enabled=false then pure (.ok ())
  else do
    let found ← Call.readLease
    match found with
    | none => pure (.ok ())
    | some lease =>
      if lease.holder≠some me then pure (.ok ())
      else do
        let written ← Call.writeLease false (released lease handoff)
        if written then pure (.ok ()) else pure (.error .conflict)

end Cnmsql.RoleReconciler
