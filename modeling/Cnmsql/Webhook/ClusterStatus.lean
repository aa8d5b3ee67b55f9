import Mathlib.Data.List.TakeWhile
import Cnmsql.Framework.Result
import Cnmsql.Api.Cluster

namespace Cnmsql.Webhook

open Framework Api

/-- The bytes of an object in an admission request, as the decoder reads them. -/
inductive Raw (ρ : Type) where
  | empty
  | undecodable (err : String)
  | cluster (c : Cluster ρ)

def Raw.isEmpty {ρ : Type} : Raw ρ → Bool
  | .empty => true
  | _ => false

/-- What the validator reads of an admission request. -/
structure Request (ρ : Type) where
  username : String
  name : String
  ns : String
  subResource : String
  object : Raw ρ
  oldObject : Raw ρ

/-- A response other than `admission.Allowed`. -/
inductive Refusal where
  | denied (message : String)
  | errored (code : Nat) (message : String)
  deriving DecidableEq

def instanceSuffix : List Char := "-instance".toList

/-- The Cluster's instance that `system:serviceaccount:<namespace>:<instance>-instance` belongs to.
-/
def instanceIdentity (username clusterName ns : String) : Option String :=
  match username.toList.splitOn ':' with
  | [system,kind,space,account] =>
    if system ≠ "system".toList ∨ kind ≠ "serviceaccount".toList then none
    else if space≠ns.toList then none
    else if ¬instanceSuffix.isSuffixOf account then none
    else
      let instanceName := account.take (account.length-instanceSuffix.length)
      let clusterPart := clusterName.toList++['-']
      if ¬clusterPart.isPrefixOf instanceName then none
      else
        let ordinal := instanceName.drop clusterPart.length
        if ordinal=[] ∨ ¬ordinal.all Char.isDigit then none
        else some (String.ofList instanceName)
  | _ => none

variable {ρ : Type}

/-- The two invariants on the group for every caller; a denial message, or "". -/
def validateGroupReplicationMonotonic (old new : ClusterStatus ρ) : String :=
  match old.groupReplication with
  | none => ""
  | some oldGR =>
    if oldGR.bootstrapped ∧ ¬(new.groupReplication.any (·.bootstrapped)) then
      "status.groupReplication.bootstrapped is monotonic: it may not be cleared once set"
    else
      let newName := (new.groupReplication.map (·.groupName)).getD ""
      if oldGR.groupName ≠ "" ∧ newName ≠ "" ∧ newName≠oldGR.groupName then
        "status.groupReplication.groupName is immutable once set"
      else ""

def bootstrapped (s : ClusterStatus ρ) : Bool := s.groupReplication.any (·.bootstrapped)

def groupName (s : ClusterStatus ρ) : String := (s.groupReplication.map (·.groupName)).getD ""

/-- The bootstrap mark stays, and a group name is replaced by itself or by none. -/
theorem validateGroupReplicationMonotonic_eq_empty (old new : ClusterStatus ρ) :
    validateGroupReplicationMonotonic old new = "" ↔
      (bootstrapped old=true → bootstrapped new=true) ∧
      (groupName old ≠ "" → groupName new ≠ "" → groupName new=groupName old) := by
  cases ho : old.groupReplication with
  | none => simp [validateGroupReplicationMonotonic,bootstrapped,groupName,ho]
  | some oldGR =>
    simp only [validateGroupReplicationMonotonic,bootstrapped,groupName,ho,Option.any_some,
      Option.map_some,Option.getD_some]
    split
    · rename_i hboot
      simp [hboot.1,hboot.2]
    · rename_i hboot
      split
      · rename_i hname
        simp [hname.1,hname.2.1,hname.2.2]
      · rename_i hname
        simp only [true_iff]
        constructor
        · intro hb
          by_contra hnew
          exact hboot ⟨hb,hnew⟩
        · intro hold hnew
          by_contra hne
          exact hname ⟨hold,hnew,hne⟩

def strip (s : ClusterStatus ρ) : ClusterStatus ρ :=
  { s with currentPrimary := "", currentPrimaryTimestamp := none, currentPrimaryGeneration := 0 }

variable (instanceName : String) (old new : ClusterStatus ρ)

def checkPrimary : Except Refusal Unit :=
  runIf (new.currentPrimary≠old.currentPrimary ∨
      new.currentPrimaryTimestamp≠old.currentPrimaryTimestamp) do
    require (new.currentPrimary=instanceName) <| .denied <|
      "instance " ++ instanceName.quote ++ " may only set status.currentPrimary to itself"
    require (new.currentPrimaryTimestamp.getD 0≠0) <| .denied <|
      "instance " ++ instanceName.quote ++
        " must set status.currentPrimaryTimestamp when updating status.currentPrimary"
    require (¬(old.targetPrimary ≠ "" ∧ new.currentPrimary≠old.targetPrimary)) <| .denied <|
      "instance " ++ instanceName.quote ++
        " may only promote itself when it is the designated target primary (" ++
        old.targetPrimary.quote ++ "), not " ++ new.currentPrimary.quote

def checkGeneration : Except Refusal Unit :=
  runIf (new.currentPrimaryGeneration≠old.currentPrimaryGeneration) do
    require (new.currentPrimary≠old.currentPrimary) <| .denied <|
      "instance " ++ instanceName.quote ++
        " may only change status.currentPrimaryGeneration together with status.currentPrimary"
    require (new.currentPrimaryGeneration=old.currentPrimaryGeneration+1) <| .denied <|
      "instance " ++ instanceName.quote ++
        " may only raise status.currentPrimaryGeneration by one (from " ++
        toString old.currentPrimaryGeneration ++ "), not to " ++
        toString new.currentPrimaryGeneration

theorem checkGeneration_eq_ok : checkGeneration instanceName old new = .ok () ↔
      (new.currentPrimaryGeneration≠old.currentPrimaryGeneration →
        new.currentPrimary≠old.currentPrimary ∧
        new.currentPrimaryGeneration=old.currentPrimaryGeneration+1) := by
  rw [checkGeneration,runIf_eq_ok,check_bind_eq_ok,require_eq_ok,require_eq_ok]

variable [DecidableEq ρ]

/-- What an instance may write. Under Group Replication that is nothing. -/
def reviewInstance (instanceName : String) (req : Request ρ) (old new : Cluster ρ) :
    Except Refusal Unit := do
  require (req.subResource = "status") <| .denied <|
    "instance " ++ instanceName.quote ++ " is not allowed to modify Cluster " ++ req.name.quote ++
      " subresource " ++ req.subResource.quote
  if new.mode = .groupReplication then
    require (old.status=new.status) <| .denied <|
      "instance " ++ instanceName.quote ++ " may not modify Cluster status under group " ++
        "replication (the operator is the sole writer)"
  else do
    checkPrimary instanceName old.status new.status
    checkGeneration instanceName old.status new.status
    require (strip old.status=strip new.status) <| .denied <|
      "instance " ++ instanceName.quote ++ " is only allowed to modify status.currentPrimary, " ++
        "status.currentPrimaryTimestamp and status.currentPrimaryGeneration"

/-- An instance moves the generation only with the primary, and by one. -/
theorem reviewInstance_generation {instanceName : String} {req : Request ρ} {old new : Cluster ρ}
    (h : reviewInstance instanceName req old new = .ok ())
    (hg : new.status.currentPrimaryGeneration≠old.status.currentPrimaryGeneration) :
    new.status.currentPrimary≠old.status.currentPrimary ∧
    new.status.currentPrimaryGeneration=old.status.currentPrimaryGeneration+1 := by
  rw [reviewInstance,check_bind_eq_ok] at h
  have h := h.2
  split at h
  · rw [require_eq_ok] at h
    rw [h] at hg
    exact absurd rfl hg
  · rw [check_bind_eq_ok,check_bind_eq_ok,checkGeneration_eq_ok] at h
    exact h.2.1 hg

/-- The group's invariants for every caller, then what an instance may write. -/
def review (req : Request ρ) (old new : Cluster ρ) : Except Refusal Unit := do
  require (validateGroupReplicationMonotonic old.status new.status = "") <| .denied <|
    validateGroupReplicationMonotonic old.status new.status
  match instanceIdentity req.username req.name req.ns with
  | none => .ok ()
  | some instanceName => reviewInstance instanceName req old new

variable [Inhabited ρ]

/-- An object that is not in the request stays the zero value. -/
def decode (which : String) : Raw ρ → Except Refusal (Cluster ρ)
  | .empty => .ok default
  | .undecodable err =>
    .error (.errored 400 ("could not decode " ++ which ++ " Cluster object: " ++ err))
  | .cluster c => .ok c

/-- `ClusterStatusValidator.Handle`. -/
def handle (req : Request ρ) : Except Refusal Unit := do
  require (¬req.object.isEmpty) <|
    .errored 400 "admission request did not contain a Cluster object"
  let old ← decode "old" req.oldObject
  let new ← decode "new" req.object
  review req old new

theorem handle_update (username name ns subResource : String) (old new : Cluster ρ) :
    handle ⟨username,name,ns,subResource,.cluster new,.cluster old⟩ =
      review ⟨username,name,ns,subResource,.cluster new,.cluster old⟩ old new := rfl

end Cnmsql.Webhook
