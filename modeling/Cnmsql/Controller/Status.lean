import Cnmsql.Api.Cluster
import Cnmsql.Controller.Observation
import Cnmsql.Framework.Execution

namespace Cnmsql.Controller

open Framework Api

variable {ρ : Type}

def memberStateOnline : String := "ONLINE"

/-- The fields of a group's status that outlive an observation. -/
def stickyGroup (existing : GroupReplicationStatus) : GroupReplicationStatus where
  groupName := existing.groupName
  bootstrapped := existing.bootstrapped
  observedViewMax := existing.observedViewMax
  observedOnlineMax := existing.observedOnlineMax
  communicationProtocolTarget := existing.communicationProtocolTarget

/-- A quorate view after a recorded loss is the size of a re-formed group; otherwise the sizes only
grow. -/
def mergeView (hadQuorum : Bool) (merged status : GroupReplicationStatus) : GroupReplicationStatus :=
  let reformed := !hadQuorum && status.hasQuorum
  { merged with
    primaryMember := status.primaryMember
    members := status.members
    viewID := status.viewID
    communicationProtocol := status.communicationProtocol
    communicationProtocolTarget :=
      if status.communicationProtocolTarget = "" then merged.communicationProtocolTarget
      else status.communicationProtocolTarget
    observedViewMax :=
      if reformed then status.observedViewMax else max merged.observedViewMax status.observedViewMax
    observedOnlineMax :=
      if reformed then status.observedOnlineMax
      else max merged.observedOnlineMax status.observedOnlineMax
    bootstrapped := merged.bootstrapped || status.primaryMember ≠ "" }

variable (instances : Int) (c : Cluster ρ) (merged : GroupReplicationStatus)
  (existing : Option GroupReplicationStatus)

/-- The sticky sizes never exceed the desired group size. -/
def clampView : GroupReplicationStatus :=
  if 0 < instances then
    { merged with
      observedViewMax := min merged.observedViewMax instances
      observedOnlineMax := min merged.observedOnlineMax instances }
  else merged

/-- A group has quorum when more than half of its sticky size is online. -/
def settleQuorum : GroupReplicationStatus :=
  if 0 < merged.observedViewMax then
    { merged with
      hasQuorum :=
        merged.observedViewMax<(merged.members.countP (·.state=memberStateOnline) : Int)*2 }
  else merged

/-- The group's status after `MergeStatus`. -/
def mergeGroup :
    Option GroupReplicationStatus → GroupReplicationStatus
  | none => settleQuorum (clampView instances (stickyGroup (existing.getD {})))
  | some status =>
    settleQuorum (clampView instances
      (mergeView (existing.getD {}).hasQuorum (stickyGroup (existing.getD {})) status))

/-- Under group replication: the group's status and the elected primary, if the view names one. -/
def mergeStatus (observed : Option GroupReplicationStatus) : Cluster ρ :=
  match c.mode with
  | .async => c
  | .groupReplication =>
    let primary := (observed.getD {}).primaryMember
    { c with
      status :=
        { c.status with
          groupReplication := some (mergeGroup c.instances c.status.groupReplication observed)
          currentPrimaryGeneration :=
            if primary ≠ "" ∧ c.status.currentPrimary≠primary then
              c.status.currentPrimaryGeneration+1
            else c.status.currentPrimaryGeneration
          currentPrimary := if primary = "" then c.status.currentPrimary else primary } }

/-- What a status patch is made from; `rest` updates the fields that are not modelled. -/
structure ObservedCluster (ρ : Type) where
  instanceNames : List String := []
  divergedInstances : List String := []
  fencedInstances : List String := []
  groupReplication : Option GroupReplicationStatus := none
  rest : ρ → ρ

def patchStatus (latest : Cluster ρ) (observed : ObservedCluster ρ) : Cluster ρ :=
  mergeStatus
    { latest with
      status :=
        { latest.status with
          instanceNames := observed.instanceNames
          divergedInstances := observed.divergedInstances
          fencedInstances := observed.fencedInstances
          rest := observed.rest latest.status.rest } }
    observed.groupReplication

/-- What `observe` finds: the poll, the group view and the fencing requests. -/
structure Survey (ρ : Type) where
  poll : Poll
  group : Option GroupReplicationStatus := none
  fenced : List String := []
  rest : ρ → ρ

section

variable [CaseMapping]

/-- `Observe` of the topology: only the asynchronous one looks for divergence. -/
def observedDiverged (mode : ReplicationMode) (input : ObservationInput) : List String :=
  match mode with
  | .async => detectDivergedReplicas input
  | .groupReplication => []

variable (c : Cluster ρ)

/-- The observation of a pass, which reads the recorded marks. -/
def observe (s : Survey ρ) : ObservedCluster ρ where
  instanceNames := s.poll.instanceNames
  divergedInstances := observedDiverged c.mode ⟨s.poll,c.status.divergedInstances⟩
  fencedInstances := s.fenced
  groupReplication := s.group
  rest := s.rest

def upgradeProgressStatus (observed : ObservedCluster ρ) (rest : ρ → ρ) : ObservedCluster ρ where
  instanceNames := observed.instanceNames
  rest := rest

/-- The spec is edited, or a reconcile pass patches the status. -/
inductive Pass (ρ : Type) where
  | edit (mode : ReplicationMode) (instances : Int)
  /-- A pass that returns before it observes anything. -/
  | early (rest : ρ → ρ)
  | observed (s : Survey ρ)
  /-- A pass that patches its observation and then the progress of an upgrade step. -/
  | upgrade (s : Survey ρ) (rest : ρ → ρ)

def reconcile : Pass ρ → Cluster ρ
  | .edit mode instances => { c with mode := mode, instances := instances }
  | .early rest => patchStatus c { rest := rest }
  | .observed s => patchStatus c (observe c s)
  | .upgrade s rest =>
    patchStatus (patchStatus c (observe c s)) (upgradeProgressStatus (observe c s) rest)

def pass (p : Pass ρ) : Option (Cluster ρ) := some (reconcile c p)

end

/-- The part of the status that a pass which observed nothing has to leave alone. -/
structure Marks where
  divergedInstances : List String
  fencedInstances : List String
  members : List GroupMember
  hasQuorum : Bool
  observedViewMax : Int
  bootstrapped : Bool
  deriving DecidableEq

def marks (s : ClusterStatus ρ) : Marks where
  divergedInstances := s.divergedInstances
  fencedInstances := s.fencedInstances
  members := (s.groupReplication.getD {}).members
  hasQuorum := (s.groupReplication.getD {}).hasQuorum
  observedViewMax := (s.groupReplication.getD {}).observedViewMax
  bootstrapped := (s.groupReplication.getD {}).bootstrapped

@[simp] theorem mergeStatus_divergedInstances (g : Option GroupReplicationStatus) :
    (mergeStatus c g).status.divergedInstances=c.status.divergedInstances := by
  unfold mergeStatus
  split
  · rfl
  · rfl

@[simp] theorem patchStatus_divergedInstances (o : ObservedCluster ρ) :
    (patchStatus c o).status.divergedInstances=o.divergedInstances := by
  simp [patchStatus]

theorem settleQuorum_of_no_members {g : GroupReplicationStatus} (hm : g.members=[])
    (hq : g.hasQuorum=false) : settleQuorum g=g := by
  unfold settleQuorum
  split
  · rename_i hview
    have hquo : ¬g.observedViewMax<0 := by omega
    cases g
    simp_all
  · rfl

/-- Without a view, the group keeps its sticky fields, clamped, and nothing else. -/
theorem mergeGroup_none :
    (mergeGroup instances existing none).members=[] ∧
      (mergeGroup instances existing none).hasQuorum=false ∧
      (mergeGroup instances existing none).bootstrapped=(existing.getD {}).bootstrapped ∧
      (mergeGroup instances existing none).observedViewMax =
        if 0 < instances then min (existing.getD {}).observedViewMax instances
        else (existing.getD {}).observedViewMax := by
  have hnone : mergeGroup instances existing none =
      clampView instances (stickyGroup (existing.getD {})) := by
    apply settleQuorum_of_no_members
    · unfold clampView
      split
      · rfl
      · rfl
    · unfold clampView
      split
      · rfl
      · rfl
  rw [hnone,clampView]
  split
  · simp [stickyGroup]
  · simp [stickyGroup]

/-- What a pass that observed nothing would wipe is not there. -/
def NothingToLose : Prop :=
  c.status.divergedInstances=[] ∧ c.status.fencedInstances=[] ∧
    (c.mode = .groupReplication →
      (c.status.groupReplication.getD {}).members=[] ∧
      (c.status.groupReplication.getD {}).hasQuorum=false ∧
      (0<c.instances → (c.status.groupReplication.getD {}).observedViewMax≤c.instances))

section

variable [CaseMapping] (c : Cluster ρ) (s : Survey ρ)

/-- The instance is gone, or its executed set was compared with the primary's and no longer
diverges. -/
def Cleared (name : String) : Prop :=
  name∉s.poll.instanceNames ∨
    c.mode = .async ∧ s.poll.primaryGTID ≠ "" ∧ s.poll.gtidOf name ≠ "" ∧
      name∉detectDivergedReplicas ⟨s.poll,c.status.divergedInstances⟩

/-- A pass takes no mark from an instance that is not cleared, and none at all if it observed
nothing. -/
def KeepsMarks (p : Pass ρ) (c' : Cluster ρ) : Prop :=
  match p with
  | .edit _ _ | .early _ => marks c'.status=marks c.status
  | .observed s | .upgrade s _ =>
    ∀ name∈c.status.divergedInstances,name∉c'.status.divergedInstances → Cleared c s name

/-- The passes that keep the marks, by the Cluster and what is polled. -/
def Harmless (p : Pass ρ) : Prop :=
  match p with
  | .edit _ _ => True
  | .early _ => NothingToLose c
  | .observed s =>
    c.mode = .async ∨ ∀ name∈c.status.divergedInstances,name∉s.poll.instanceNames
  | .upgrade s _ =>
    ∀ name∈c.status.divergedInstances,name∈s.poll.instanceNames →
      c.mode = .async ∧ Reconverged s.poll name

theorem marks_early_iff (rest : ρ → ρ) :
    marks (reconcile c (.early rest)).status=marks c.status ↔ NothingToLose c := by
  obtain ⟨hmem,hquo,hboot,hview⟩ := mergeGroup_none c.instances c.status.groupReplication
  cases hm : c.mode with
  | async =>
    simp [reconcile,patchStatus,mergeStatus,hm,marks,NothingToLose]
  | groupReplication =>
    simp [reconcile,patchStatus,mergeStatus,hm,marks,NothingToLose,hmem,hquo,hboot,hview]

theorem cleared_iff {name : String} (hn : name∈c.status.divergedInstances) :
    Cleared c s name ↔ (name∈s.poll.instanceNames → c.mode = .async ∧ Reconverged s.poll name) := by
  by_cases hp : name∈s.poll.instanceNames
  · have hdet : name∉detectDivergedReplicas ⟨s.poll,c.status.divergedInstances⟩ ↔
        Reconverged s.poll name := not_mem_detect_iff hn hp
    simp only [Cleared,hp,hdet,not_true_eq_false,false_or,forall_const]
    constructor
    · intro h
      exact ⟨h.1,h.2.2.2⟩
    · intro h
      obtain ⟨hmode,flavor,hf,hprimary,hgtid,hrest⟩ := h
      exact ⟨hmode,hprimary,hgtid,flavor,hf,hprimary,hgtid,hrest⟩
  · simp [Cleared,hp]

theorem keepsMarks_observed_iff :
    KeepsMarks c (.observed s) (reconcile c (.observed s)) ↔ Harmless c (.observed s) := by
  simp only [KeepsMarks,Harmless,reconcile,patchStatus_divergedInstances,observe]
  cases hm : c.mode with
  | async =>
    simp only [true_or,iff_true,observedDiverged]
    intro name hn hleft
    rw [cleared_iff c s hn]
    intro hp
    exact ⟨hm,(not_mem_detect_iff hn hp).mp hleft⟩
  | groupReplication => simp [observedDiverged,Cleared,hm]

theorem keepsMarks_iff (c : Cluster ρ) (p : Pass ρ) :
    KeepsMarks c p (reconcile c p) ↔ Harmless c p := by
  cases p with
  | edit mode instances => simp [KeepsMarks,Harmless,reconcile]
  | early rest => exact marks_early_iff c rest
  | observed s => exact keepsMarks_observed_iff c s
  | upgrade s rest =>
    simp only [KeepsMarks,Harmless,reconcile,patchStatus_divergedInstances,
      upgradeProgressStatus,List.not_mem_nil,not_false_eq_true,forall_const]
    apply forall₂_congr
    intro name hn
    exact cleared_iff c s hn

/-- A run keeps the marks exactly when each of its passes meets the condition. -/
theorem marks_survive_iff (c : Cluster ρ) (ps : List (Pass ρ)) :
    Along pass KeepsMarks c ps ↔ Along pass (fun c p _ => Harmless c p) c ps := by
  apply along_congr
  intro c p c' h
  cases h
  exact keepsMarks_iff c p

end

def markedCluster : Cluster Unit where
  name := "db"
  ns := "default"
  instances := 2
  status := { divergedInstances := ["db-2"], rest := () }

def quorateCluster : Cluster Unit where
  name := "db"
  ns := "default"
  mode := .groupReplication
  status :=
    { groupReplication := some
        { bootstrapped := true
          members := [⟨"db-1",memberStateOnline,"PRIMARY",true⟩]
          hasQuorum := true
          observedViewMax := 1 }
      rest := () }

/-- `db-2` holds a transaction that the primary does not. -/
def divergedSurvey : Survey Unit where
  poll :=
    { primaryName := "db-1"
      instanceNames := ["db-1","db-2"]
      gtidByInstance := [⟨"db-1","u:1-2"⟩,⟨"db-2","u:1-2,v:1"⟩].toAList }
  rest := id

/-- A pass that observed nothing clears mark and quorum; an upgrade step clears a mark its own pass
found. -/
theorem marks_wiped :
    ¬Along pass KeepsMarks markedCluster [.early id] ∧
      ¬Along pass KeepsMarks quorateCluster [.early id] ∧
      ¬Along pass KeepsMarks markedCluster [.upgrade divergedSurvey id] := by
  refine ⟨?_,?_,?_⟩
  · intro h
    have hkeep := (h _ rfl).1
    have hwiped : marks (reconcile markedCluster (.early id)).status≠marks markedCluster.status := by
      decide
    exact hwiped hkeep
  · intro h
    have hkeep := (h _ rfl).1
    have hwiped : marks (reconcile quorateCluster (.early id)).status ≠
        marks quorateCluster.status := by decide
    exact hwiped hkeep
  · intro h
    have hkeep := (h _ rfl).1
    have hleft : "db-2" ∉
        (reconcile markedCluster (.upgrade divergedSurvey id)).status.divergedInstances := by
      simp [reconcile,upgradeProgressStatus]
    have hfound : "db-2" ∈ detectDivergedReplicas ⟨divergedSurvey.poll,["db-2"]⟩ := by
      decide +kernel
    cases hkeep "db-2" (by decide) hleft with
    | inl hgone => exact hgone (by decide)
    | inr hproven => exact hproven.2.2.2 hfound

end Cnmsql.Controller
