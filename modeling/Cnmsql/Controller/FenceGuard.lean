import Cnmsql.Controller.Fencing

namespace Cnmsql.Controller

open Api List

section

variable {ρ : Type}

/-- Blocks fences that leave too few active members of the desired count. -/
def fenceQuorumGuard (c : Cluster ρ) (fenceSet : List String) : Option QuorumResult :=
  c.status.groupReplication.bind fun gr =>
    let online : Int := gr.members.countP fun m => Active m
    let fencing : Int := fenceSet.countP fun name => ∃ m∈gr.members,m.instanceName=name
    if online-fencing<quorum c.instances then
      some ⟨true,"fencing " ++ toString fencing ++ " member(s) would drop the group to " ++
        toString (online-fencing) ++ " active members, below quorum (" ++
        toString (quorum c.instances) ++ ")",online,quorum c.instances⟩
    else none

variable (c : Cluster ρ) (observed : ObservedCluster ρ)

def newFences : List String :=
  observed.fencedInstances.filter (· ∉ c.status.fencedInstances)

/-- The observed members that no recorded fence told to leave. -/
def unfencedMembers : List GroupMember :=
  (observed.groupReplication.getD {}).members.filter (·.instanceName∉c.status.fencedInstances)

/-- What `checkFenceQuorumGuard` decides, before it takes the new fences back. -/
def fenceVerdict : Option QuorumResult :=
  if c.mode ≠ .groupReplication ∨ newFences c observed=[] then none
  else
    let latest := mergeStatus c observed.groupReplication
    fenceQuorumGuard
      { latest with
        status :=
          { latest.status with
            groupReplication := latest.status.groupReplication.map fun gr =>
              { gr with
                members := gr.members.filter (·.instanceName∉c.status.fencedInstances) } } }
      (newFences c observed)

/-- The active members that are neither fenced already nor fenced now. -/
def activeLeft : Nat :=
  (observed.groupReplication.getD {}).members.countP fun m =>
    Active m ∧ m.instanceName∉c.status.fencedInstances ∧ m.instanceName∉observed.fencedInstances

variable {c observed}

theorem members_mergeGroup (instances : Int) (existing status : Option GroupReplicationStatus) :
    (mergeGroup instances existing status).members=(status.getD {}).members := by
  cases status <;> simp only [mergeGroup,settleQuorum,clampView] <;> split_ifs <;> rfl

/-- Every new fence is asked for once, and one that names a member names one active member. -/
structure Countable (c : Cluster ρ) (observed : ObservedCluster ρ) : Prop where
  once : (newFences c observed).Nodup
  single : ∀ m∈unfencedMembers c observed,m.instanceName∈newFences c observed →
    (unfencedMembers c observed).countP (fun m' => Active m' ∧ m'.instanceName=m.instanceName)=1

theorem countP_active_named {members : List GroupMember} {names : List String} (hn : names.Nodup)
    (h : ∀ m∈members,m.instanceName∈names →
      members.countP (fun m' => Active m' ∧ m'.instanceName=m.instanceName)=1) :
    members.countP (fun m => Active m ∧ m.instanceName∈names) =
      names.countP fun name => ∃ m∈members, m.instanceName=name := by
  induction names with
  | nil => simp
  | cons name names ih =>
    rw [nodup_cons] at hn
    have hsplit : members.countP (fun m => Active m ∧ m.instanceName∈name::names) =
        members.countP (fun m => Active m ∧ m.instanceName=name)+
          members.countP (fun m => Active m ∧ m.instanceName∈names) := by
      rw [countP_eq_countP_filter_add members _ (·.instanceName=name),countP_filter,
        countP_filter]
      congr 1 <;> refine countP_congr fun m _ => ?_
      · simp +contextual
      · by_cases hm : m.instanceName=name <;> simp [hm,hn.1]
    have hone : members.countP (fun m => Active m ∧ m.instanceName=name) =
        if ∃ m∈members,m.instanceName=name then 1 else 0 := by
      split_ifs with hex
      · obtain ⟨m,hm,rfl⟩ := hex
        exact h m hm mem_cons_self
      · rw [List.countP_eq_zero]
        intro m hm hnamed
        exact hex ⟨m,hm,(of_decide_eq_true hnamed).2⟩
    rw [hsplit,ih hn.2 fun m hm hin => h m hm (mem_cons_of_mem name hin),hone,countP_cons,
      Nat.add_comm]
    simp

/-- Where fences can be counted, the guard blocks exactly when a new one leaves less than the
quorum. -/
theorem fenceVerdict_isSome_iff (c : Cluster ρ) (observed : ObservedCluster ρ)
    (hmode : c.mode = .groupReplication) (h : Countable c observed) :
    (fenceVerdict c observed).isSome ↔
      newFences c observed≠[] ∧ (activeLeft c observed : Int)<quorum c.instances := by
  have hcount : (unfencedMembers c observed).countP (fun m => Active m) =
      activeLeft c observed+(newFences c observed).countP fun name =>
        ∃ m∈unfencedMembers c observed, m.instanceName=name := by
    rw [← countP_active_named h.once h.single,
      countP_eq_countP_filter_add _ _ (·.instanceName∈newFences c observed),countP_filter,
      countP_filter,Nat.add_comm]
    congr 1
    · rw [activeLeft,unfencedMembers,countP_filter]
      refine countP_congr fun m _ => ?_
      simp only [newFences,mem_filter]
      grind
    · refine countP_congr fun m _ => ?_
      simp
  by_cases hnone : newFences c observed=[]
  · simp [fenceVerdict,hnone]
  · simp only [fenceVerdict,hmode,hnone,ne_eq,not_true_eq_false,or_self,if_false,not_false_eq_true,
      true_and,fenceQuorumGuard,mergeStatus,Option.map_some,Option.bind_some,members_mergeGroup]
    rw [← unfencedMembers,hcount]
    split_ifs with hlt <;> simp <;> omega

end

def fencing (names : List String) (members : List GroupMember) : ObservedCluster Unit where
  fencedInstances := names
  groupReplication := some { members := members }
  rest := id

theorem fenceVerdict_secondFence :
    (fenceVerdict (groupOf 3 []) (fencing ["db-2","db-3"] [onlineMember "db-1" "PRIMARY",
      onlineMember "db-2" "SECONDARY",⟨"db-3","ERROR","",false⟩,
      onlineMember "db-3" "SECONDARY"])).isSome :=
  (fenceVerdict_isSome_iff _ _ rfl ⟨by decide,by decide⟩).mpr (by decide)

/-- Fencing a failed member is blocked, and a group below its quorum without a new fence is not. -/
theorem fenceVerdict_miscounts :
    (∃ observed,(fenceVerdict (groupOf 3 []) observed).isSome ∧
        quorum 3≤activeLeft (groupOf 3 []) observed) ∧
      ∃ observed,fenceVerdict (groupOf 3 []) observed=none ∧
        activeLeft (groupOf 3 []) observed<quorum 3 := by
  constructor
  · exact ⟨fencing ["db-3"] [onlineMember "db-1" "PRIMARY",onlineMember "db-2" "SECONDARY",
      ⟨"db-3","ERROR","",false⟩],by decide +kernel⟩
  · exact ⟨fencing [] [onlineMember "db-1" "PRIMARY"],by decide +kernel⟩

end Cnmsql.Controller
