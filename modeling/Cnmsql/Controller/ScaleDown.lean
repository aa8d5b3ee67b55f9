import Cnmsql.Controller.Quorum

namespace Cnmsql.Controller

open Framework Api

section

variable (clusterName : String)

def instanceName (ordinal : Nat) : String :=
  clusterName ++ "-" ++ toString ordinal

/-- The ordinal in an instance name of the form `<cluster>-<ordinal>`. -/
def instanceOrdinal (name : String) : Option Int :=
  let head := clusterName.toList++['-']
  if head <+: name.toList then
    (parseInt (name.toList.drop head.length)).bind fun ordinal =>
      if ordinal<1 then none else some ordinal
  else none

theorem toList_instanceName (j : Nat) :
    (instanceName clusterName j).toList=clusterName.toList++['-']++Nat.toDigits 10 j := by
  simp [instanceName,toString,Nat.repr]

theorem ordinal_eq_of_instanceName {clusterName : String} {j : Nat} {z : Int}
    (h : instanceOrdinal clusterName (instanceName clusterName j)=some z) : z=j := by
  simp only [instanceOrdinal,toList_instanceName,List.prefix_append,if_true,List.drop_left,
    parseInt_toDigits_eq,Option.bind_eq_some_iff] at h
  obtain ⟨n,hn,h⟩ := h
  split_ifs at hn h
  cases hn
  cases h
  rfl

variable {ρ : Type}

def primaryName (cluster : Cluster ρ) : String :=
  if cluster.status.currentPrimary ≠ "" then cluster.status.currentPrimary
  else instanceName cluster.name 1

end

section

/-- The fewest active members that keep a group of the size writable. -/
def quorum (members : Int) : Int := if members≤0 then 1 else members / 2+1

structure QuorumResult where
  blocked : Bool
  reason : String
  currentSize : Int
  quorum : Int
  deriving DecidableEq

/-- Group Replication's guard against scaling down below quorum. -/
def scaleDownQuorumGuard (instances : Int) : Option QuorumResult :=
  if instances≤1 then
    some ⟨true,"cannot scale below 1 member",instances,1⟩
  else if instances-1<quorum (instances-1) then
    some ⟨true,"scaling down to " ++ toString (instances-1) ++
      " members would drop below quorum (" ++ toString (quorum (instances-1)) ++ ")",instances,
      quorum (instances-1)⟩
  else none

theorem scaleDownQuorumGuard_eq_none (instances : Int) :
    scaleDownQuorumGuard instances=none ↔ 2 ≤ instances := by
  unfold scaleDownQuorumGuard quorum
  split_ifs <;> simp <;> omega

variable {ρ : Type}

def topologyGuard (cluster : Cluster ρ) : Option QuorumResult :=
  match cluster.mode with
  | .async => none
  | .groupReplication => scaleDownQuorumGuard cluster.instances

end

section

/-- An instance Pod, and whether it carries the fencing annotation. -/
structure InstancePod where
  name : String
  fenced : Bool := false
  deriving DecidableEq

/-- What a pass does with a Pod. -/
inductive ScaleDownAction where
  | keep
  | refuse
  | fence
  | delete
  deriving DecidableEq

variable {ρ : Type} (cluster : Cluster ρ)

def changingPrimary : Prop :=
  cluster.status.currentPrimary ≠ "" ∧ cluster.status.targetPrimary ≠ "" ∧
    cluster.status.targetPrimary≠cluster.status.currentPrimary

instance : Decidable (changingPrimary cluster) := inferInstanceAs (Decidable (_ ∧ _ ∧ _))

def Surplus (name : String) : Prop :=
  (∃ ordinal∈instanceOrdinal cluster.name name,cluster.instances<ordinal) ∧
    name≠primaryName cluster ∧ name≠cluster.status.targetPrimary

instance (name : String) : Decidable (Surplus cluster name) := inferInstanceAs (Decidable (_ ∧ _ ∧ _))

/-- One round of the loop over the cluster's Pods. -/
def scaleDownPod (pod : InstancePod) : ScaleDownAction :=
  if ¬Surplus cluster pod.name then .keep
  else if (topologyGuard cluster).any (·.blocked) then .refuse
  else if cluster.mode = .groupReplication ∧ pod.fenced=false then .fence
  else .delete

/-- What a Pod has become after a pass. -/
def ScaleDownAction.apply (pod : InstancePod) : ScaleDownAction → Option InstancePod
  | .keep | .refuse => some pod
  | .fence => some { pod with fenced := true }
  | .delete => none

variable (pods : List InstancePod)

def scaleDownActions : List (InstancePod × ScaleDownAction) :=
  if changingPrimary cluster then [] else pods.map fun pod => (pod,scaleDownPod cluster pod)

def scaleDownReplicas : List InstancePod :=
  if changingPrimary cluster then pods
  else pods.filterMap fun pod => (scaleDownPod cluster pod).apply pod

def removedBy : List String :=
  ((scaleDownActions cluster pods).filter fun a => a.2 = .fence ∨ a.2 = .delete).map (·.1.name)

end

section

variable {ρ : Type} (cluster : Cluster ρ)

def memberStateRecovering : String := "RECOVERING"

def Active (m : GroupMember) : Prop := m.state=memberStateOnline ∨ m.state=memberStateRecovering

instance (m : GroupMember) : Decidable (Active m) := inferInstanceAs (Decidable (_ ∨ _))

def groupMembers : List GroupMember := (cluster.status.groupReplication.map (·.members)).getD []

def staying (names : List String) : List GroupMember :=
  (groupMembers cluster).filter fun m => m.instanceName∉names

variable (members : List GroupMember)

def Quorate : Prop :=
  quorum members.length ≤ members.countP fun m => Active m

def Majority : Prop :=
  members.length<2*members.countP fun m => Active m

instance (members : List GroupMember) : Decidable (Majority members) :=
  inferInstanceAs (Decidable (_ < _))

theorem quorate_iff : Quorate members ↔ Majority members := by
  unfold Quorate Majority quorum
  split_ifs <;> omega

variable (pods : List InstancePod)

def surplusPods : List String :=
  (pods.map (·.name)).filter fun name => Surplus cluster name

def HasSurplusMember : Prop :=
  ∃ m∈groupMembers cluster,m.instanceName∈surplusPods cluster pods

/-- The members a pass leaves keep a quorum, and when those that stay are one, two passes remove all
surplus members. -/
structure ScalesDownSafely : Prop where
  safe : (∃ m∈groupMembers cluster,m.instanceName∈removedBy cluster pods) →
    Quorate (staying cluster (removedBy cluster pods))
  admitted : ¬changingPrimary cluster → Quorate (staying cluster (surplusPods cluster pods)) →
    ∀ m∈groupMembers cluster,∀ pod∈pods,pod.name=m.instanceName →
      scaleDownPod cluster pod ≠ .refuse
  removed : ¬changingPrimary cluster → Quorate (staying cluster (surplusPods cluster pods)) →
    ∀ m∈groupMembers cluster,
      ∀ pod∈scaleDownReplicas cluster (scaleDownReplicas cluster pods),pod.name=m.instanceName →
        ¬Surplus cluster pod.name

variable {cluster} {pods : List InstancePod}

theorem guard_blocks_iff (hgr : cluster.mode = .groupReplication) :
    (topologyGuard cluster).any (·.blocked)=true ↔ cluster.instances≤1 := by
  rw [topologyGuard,hgr]
  cases hguard : scaleDownQuorumGuard cluster.instances with
  | none =>
    have := (scaleDownQuorumGuard_eq_none _).mp hguard
    simp
    omega
  | some r =>
    have hnot : ¬2≤cluster.instances := by
      rw [← scaleDownQuorumGuard_eq_none,hguard]
      simp
    have hle : cluster.instances≤1 := by omega
    simp only [scaleDownQuorumGuard,if_pos hle,Option.some.injEq] at hguard
    simp [← hguard,hle]

variable {pod : InstancePod}

theorem scaleDownPod_one (hgr : cluster.mode = .groupReplication) (hone : cluster.instances≤1)
    (h : Surplus cluster pod.name) : scaleDownPod cluster pod = .refuse := by
  simp [scaleDownPod,h,(guard_blocks_iff hgr).mpr hone]

theorem scaleDownPod_many (hgr : cluster.mode = .groupReplication) (hmany : 2≤cluster.instances)
    (h : Surplus cluster pod.name) :
    scaleDownPod cluster pod=if pod.fenced=false then .fence else .delete := by
  have hguard : ¬(topologyGuard cluster).any (·.blocked)=true := by
    rw [guard_blocks_iff hgr]
    omega
  simp [scaleDownPod,h,hguard,hgr]

theorem scaleDownPod_keep (h : ¬Surplus cluster pod.name) :
    scaleDownPod cluster pod = .keep := if_pos h

theorem mem_surplusPods {name : String} :
    name∈surplusPods cluster pods ↔ (∃ pod∈pods,pod.name=name) ∧ Surplus cluster name := by
  simp [surplusPods]

theorem mem_removedBy {name : String} :
    name∈removedBy cluster pods ↔ ¬changingPrimary cluster ∧ ∃ pod∈pods,pod.name=name ∧
      (scaleDownPod cluster pod = .fence ∨ scaleDownPod cluster pod = .delete) := by
  unfold removedBy scaleDownActions
  split_ifs with h
  · simp [h]
  · simp only [List.mem_map,List.mem_filter,decide_eq_true_eq,h,not_false_eq_true,true_and]
    constructor
    · rintro ⟨-,⟨⟨pod,hpod,rfl⟩,haction⟩,rfl⟩
      exact ⟨pod,hpod,rfl,haction⟩
    · rintro ⟨pod,hpod,rfl,haction⟩
      exact ⟨_,⟨⟨pod,hpod,rfl⟩,haction⟩,rfl⟩

theorem removedBy_one (hgr : cluster.mode = .groupReplication) (hone : cluster.instances≤1)
    (name : String) : name∉removedBy cluster pods := by
  rw [mem_removedBy]
  rintro ⟨-,pod,-,-,haction⟩
  by_cases hs : Surplus cluster pod.name
  · simp [scaleDownPod_one hgr hone hs] at haction
  · simp [scaleDownPod_keep hs] at haction

section

variable (hgr : cluster.mode = .groupReplication) (hmany : 2≤cluster.instances)
  (hsettled : ¬changingPrimary cluster)
include hgr hmany hsettled

theorem mem_removedBy_many (name : String) :
    name∈removedBy cluster pods ↔ name∈surplusPods cluster pods := by
  rw [mem_removedBy,mem_surplusPods]
  constructor
  · rintro ⟨-,pod,hpod,rfl,haction⟩
    refine ⟨⟨pod,hpod,rfl⟩,?_⟩
    by_contra hs
    simp [scaleDownPod_keep hs] at haction
  · rintro ⟨⟨pod,hpod,rfl⟩,hs⟩
    refine ⟨hsettled,pod,hpod,rfl,?_⟩
    rw [scaleDownPod_many hgr hmany hs]
    by_cases hf : pod.fenced=false
    · simp [hf]
    · simp [hf]

theorem fenced_of_scaleDown (hpod : pod∈scaleDownReplicas cluster pods)
    (hs : Surplus cluster pod.name) :
    pod.fenced=true ∧ ∃ before∈pods,before.name=pod.name ∧ before.fenced=false := by
  rw [scaleDownReplicas,if_neg hsettled,List.mem_filterMap] at hpod
  obtain ⟨before,hbefore,happly⟩ := hpod
  by_cases hs' : Surplus cluster before.name
  · rw [scaleDownPod_many hgr hmany hs'] at happly
    by_cases hf : before.fenced=false
    · simp only [hf,if_true,ScaleDownAction.apply,Option.some.injEq] at happly
      rw [← happly]
      exact ⟨rfl,before,hbefore,rfl,hf⟩
    · simp [hf,ScaleDownAction.apply] at happly
  · rw [scaleDownPod_keep hs'] at happly
    cases happly
    exact absurd hs hs'

theorem scaleDown_twice (hpod : pod∈scaleDownReplicas cluster (scaleDownReplicas cluster pods)) :
    ¬Surplus cluster pod.name := by
  intro hs
  obtain ⟨-,before,hbefore,hname,hunfenced⟩ := fenced_of_scaleDown hgr hmany hsettled hpod hs
  have hfenced := (fenced_of_scaleDown hgr hmany hsettled hbefore (hname ▸ hs)).1
  rw [hunfenced] at hfenced
  cases hfenced

end

/-- A scale-down keeps the quorum exactly when it removes nothing, or the desired size is at least
two just when more than half of the members that stay are active. -/
theorem scalesDownSafely_iff (cluster : Cluster ρ) (pods : List InstancePod)
    (hgr : cluster.mode = .groupReplication) :
    ScalesDownSafely cluster pods ↔
      changingPrimary cluster ∨ ¬HasSurplusMember cluster pods ∨
        (2≤cluster.instances ↔ Majority (staying cluster (surplusPods cluster pods))) := by
  by_cases hsettled : changingPrimary cluster
  · simp only [hsettled,true_or,iff_true]
    refine ⟨?_,fun h => absurd hsettled h,fun h => absurd hsettled h⟩
    rintro ⟨m,-,hm⟩
    exact absurd hsettled (mem_removedBy.mp hm).1
  · simp only [hsettled,false_or]
    rw [← quorate_iff,← imp_iff_not_or]
    by_cases hmany : 2≤cluster.instances
    · have hsame : staying cluster (removedBy cluster pods)=staying cluster (surplusPods cluster pods) := by
        simp only [staying,mem_removedBy_many hgr hmany hsettled]
      simp only [hmany,true_iff]
      constructor
      · rintro h ⟨m,hm,hsurplus⟩
        rw [← hsame]
        exact h.safe ⟨m,hm,(mem_removedBy_many hgr hmany hsettled _).mpr hsurplus⟩
      · intro h
        refine ⟨?_,?_,fun _ _ _ _ pod hpod _ => scaleDown_twice hgr hmany hsettled hpod⟩
        · rintro ⟨m,hm,hremoved⟩
          rw [hsame]
          exact h ⟨m,hm,(mem_removedBy_many hgr hmany hsettled _).mp hremoved⟩
        · intro _ _ m _ pod _ _ hrefused
          by_cases hs : Surplus cluster pod.name
          · rw [scaleDownPod_many hgr hmany hs] at hrefused
            split_ifs at hrefused
          · rw [scaleDownPod_keep hs] at hrefused
            cases hrefused
    · have hone : cluster.instances≤1 := by omega
      simp only [hmany,false_iff]
      constructor
      · rintro h ⟨m,hm,hsurplus⟩ hquorate
        obtain ⟨⟨pod,hpod,hname⟩,hs⟩ := mem_surplusPods.mp hsurplus
        exact h.admitted hsettled hquorate m hm pod hpod hname
          (scaleDownPod_one hgr hone (hname ▸ hs))
      · intro h
        refine ⟨?_,?_,?_⟩
        · rintro ⟨m,-,hremoved⟩
          exact absurd hremoved (removedBy_one hgr hone _)
        · intro _ hquorate m hm pod hpod hname hrefused
          by_cases hs : Surplus cluster pod.name
          · exact h ⟨m,hm,mem_surplusPods.mpr ⟨⟨pod,hpod,hname⟩,hname ▸ hs⟩⟩ hquorate
          · rw [scaleDownPod_keep hs] at hrefused
            cases hrefused
        · intro _ hquorate m hm pod hpod hname hs
          have hkept : ∀ pods : List InstancePod,scaleDownReplicas cluster pods=pods := by
            intro pods
            rw [scaleDownReplicas,if_neg hsettled]
            refine (List.filterMap_congr fun pod _ => ?_).trans List.filterMap_some
            by_cases hs : Surplus cluster pod.name
            · rw [scaleDownPod_one hgr hone hs]
              rfl
            · rw [scaleDownPod_keep hs]
              rfl
          rw [hkept,hkept] at hpod
          exact h ⟨m,hm,mem_surplusPods.mpr ⟨⟨pod,hpod,hname⟩,hname ▸ hs⟩⟩ hquorate

end

def groupOf (instances : Int) (members : List GroupMember) : Cluster Unit where
  name := "db"
  ns := "default"
  mode := .groupReplication
  instances := instances
  status :=
    { currentPrimary := "db-1"
      targetPrimary := "db-1"
      groupReplication := some { bootstrapped := true, members := members, hasQuorum := true }
      rest := () }

def onlineMember (name role : String) : GroupMember := ⟨name,"ONLINE",role,true⟩

/-- From three members down to two. -/
theorem scalesDownSafely_threeToTwo :
    ScalesDownSafely (groupOf 2 [onlineMember "db-1" "PRIMARY",onlineMember "db-2" "SECONDARY",
      onlineMember "db-3" "SECONDARY"]) [⟨"db-1",false⟩,⟨"db-2",false⟩,⟨"db-3",false⟩] := by
  refine (scalesDownSafely_iff _ _ rfl).mpr (.inr (.inr ?_))
  exact iff_of_true (by decide) (by decide +kernel)

/-- With one of two staying members down the third is fenced; of two healthy ones the second is
never removed. -/
theorem scaleDown_breaks_quorum :
    ¬ScalesDownSafely (groupOf 2 [onlineMember "db-1" "PRIMARY",⟨"db-2","UNREACHABLE","",false⟩,
        onlineMember "db-3" "SECONDARY"]) [⟨"db-1",false⟩,⟨"db-2",false⟩,⟨"db-3",false⟩] ∧
      ¬ScalesDownSafely (groupOf 1 [onlineMember "db-1" "PRIMARY",onlineMember "db-2" "SECONDARY"])
        [⟨"db-1",false⟩,⟨"db-2",false⟩] := by
  constructor
  · intro h
    have hleft := h.safe ⟨onlineMember "db-3" "SECONDARY",by decide,by decide +kernel⟩
    rw [quorate_iff] at hleft
    revert hleft
    decide +kernel
  · intro h
    refine h.admitted (by decide) ?_ (onlineMember "db-2" "SECONDARY") (by decide) ⟨"db-2",false⟩
      (by decide) rfl (by decide +kernel)
    rw [quorate_iff]
    decide +kernel

end Cnmsql.Controller
