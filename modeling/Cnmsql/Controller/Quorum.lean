import Cnmsql.Controller.Status

namespace Cnmsql.Controller.GroupReplication

open Framework Replication Api List

inductive QuorumRecoveryAction where
  | forceMembers
  | rebootstrap
  deriving DecidableEq

structure ForceQuorumRecovery where
  action : QuorumRecoveryAction
  survivor : String
  forceMembers : String := ""
  deriving DecidableEq

def memberRolePrimary : String := "PRIMARY"

def memberAddress (name ns : String) : String := name ++ "." ++ ns ++ ".svc:33061"

def reported (gtidByInstance : Map String String) (name : String) : String :=
  (gtidByInstance.lookup name).getD ""

section

variable [CaseMapping]

/-- `GTIDContains` with an error counted as a no. -/
def provenContains (superset subset : String) : Bool :=
  match gtidContains superset subset with
  | .ok contained => contained
  | .error _ => false

variable (candidateGTID : String) (names : List String) (candidate : String)
  (gtidByInstance : Map String String)

/-- Whether the candidate's set contains every other named one. -/
def gtidDominatesAll : Bool :=
  names.all fun other =>
    other == candidate || provenContains candidateGTID (reported gtidByInstance other)

/-- The first member, by name, whose set contains those of all the others. -/
def selectRebootstrapSurvivor (configured : Int) : Option String :=
  if configured≤0 ∨ (gtidByInstance.keys.length : Int)<configured then none
  else
    let names := gtidByInstance.keys.insertionSort (·≤·)
    names.find? fun candidate =>
      reported gtidByInstance candidate != "" &&
        gtidDominatesAll (reported gtidByInstance candidate) names candidate gtidByInstance

variable (candidate : GroupMember) (candidateGTID : String) (online : List GroupMember)
  (gtidByInstance : Map String String)

/-- The candidate's set contains that of every other online member that reported one. -/
def dominatesAll : Bool :=
  online.all fun other =>
    other.instanceName == candidate.instanceName ||
      reported gtidByInstance other.instanceName == "" ||
      provenContains candidateGTID (reported gtidByInstance other.instanceName)

def selectQuorumSurvivor : Option GroupMember :=
  match online with
  | [] => none
  | [m] => some m
  | _ =>
    match online.find? (·.role == memberRolePrimary) with
    | some m => some m
    | none =>
      online.find? fun candidate =>
        reported gtidByInstance candidate.instanceName != "" &&
          dominatesAll candidate (reported gtidByInstance candidate.instanceName) online
            gtidByInstance

variable {ρ : Type} (cluster : Cluster ρ) (gtidByInstance : Map String String)

def computeRebootstrap : Option ForceQuorumRecovery :=
  (selectRebootstrapSurvivor gtidByInstance cluster.instances).map fun survivor =>
    { action := .rebootstrap, survivor := survivor }

/-- The recovery of a group without quorum, none when no survivor is safe. -/
def computeForceQuorumRecovery : Option ForceQuorumRecovery :=
  match cluster.status.groupReplication with
  | none => none
  | some gr =>
    if gr.hasQuorum then none
    else
      match gr.members.filter (·.state == memberStateOnline) with
      | [] =>
        if cluster.status.currentPrimary ≠ "" then
          some { action := .rebootstrap, survivor := cluster.status.currentPrimary }
        else computeRebootstrap cluster gtidByInstance
      | m::online =>
        (selectQuorumSurvivor (m::online) gtidByInstance).map fun survivor =>
          { action := .forceMembers, survivor := survivor.instanceName
            forceMembers := memberAddress survivor.instanceName cluster.ns }

/-- A Pod: whether it runs, and the doorbells set on it. -/
structure SurvivorPod where
  running : Bool
  forceQuorumMembers : String := ""
  forceGroupRebootstrap : Bool := false
  deriving DecidableEq

/-- Whether the doorbell of a recovery is already set. -/
def SurvivorPod.armed (pod : SurvivorPod) (recovery : ForceQuorumRecovery) : Bool :=
  match recovery.action with
  | .forceMembers => pod.forceQuorumMembers == recovery.forceMembers
  | .rebootstrap => pod.forceGroupRebootstrap

/-- How a recovery pass ends. -/
inductive RecoveryPass where
  | notTriggered
  | notRecoverable
  | blocked
  | waiting
  | alreadyArmed
  | arms (recovery : ForceQuorumRecovery)
  deriving DecidableEq

/-- On the annotation or a full outage the survivor's Pod gets the doorbell. -/
def handleQuorumRecovery (annotated fullOutage : Bool)
    (gtidByInstance : Map String String) (pods : Map String SurvivorPod) : RecoveryPass :=
  if cluster.mode ≠ .groupReplication ∨ (annotated=false ∧ fullOutage=false) then .notTriggered
  else
    match cluster.status.groupReplication with
    | none => .notRecoverable
    | some gr =>
      if gr.bootstrapped=false ∨ (gr.hasQuorum=true ∧ fullOutage=false) then .notRecoverable
      else
        match computeForceQuorumRecovery cluster gtidByInstance with
        | none => .blocked
        | some recovery =>
          match pods.lookup recovery.survivor with
          | none => .waiting
          | some pod =>
            if pod.running=false then .waiting
            else if pod.armed recovery then .alreadyArmed
            else .arms recovery

def TotalOutage : Prop :=
  ∃ gr,cluster.status.groupReplication=some gr ∧ gr.hasQuorum=false ∧
    ∀ m∈gr.members,m.state≠memberStateOnline

/-- The instance's set is known and holds all that other known sets name. -/
def HoldsAllKnown (survivor : String) : Prop :=
  ∃ g,gtidByInstance.lookup survivor=some g ∧ Parses g ∧
    ∀ other g',gtidByInstance.lookup other=some g' → other≠survivor → g' ≠ "" → Parses g' →
      gtids g' ⊆ gtids g

def SoleUnreadable : Prop :=
  cluster.instances=1 ∧ ∃ name g,gtidByInstance.entries=[⟨name,g⟩] ∧ g ≠ "" ∧ ¬Parses g

theorem provenContains_iff (a b : String) :
    provenContains a b=true ↔ Parses a ∧ Parses b ∧ gtids b ⊆ gtids a := by
  rw [← gtidContains_eq_true_iff]
  unfold provenContains
  cases gtidContains a b with
  | error e => simp
  | ok contained => simp

theorem provenContains_eq_true {a b : String} (h : provenContains a b=true) :
    Parses a ∧ gtids b ⊆ gtids a :=
  let h := (provenContains_iff a b).mp h
  ⟨h.1,h.2.2⟩

theorem rebootstrap_iff (survivor : String) :
    (∃ r,computeForceQuorumRecovery cluster gtidByInstance=some r ∧ r.action = .rebootstrap ∧
      r.survivor=survivor) ↔
      TotalOutage cluster ∧
        if cluster.status.currentPrimary ≠ "" then cluster.status.currentPrimary=survivor
        else selectRebootstrapSurvivor gtidByInstance cluster.instances=some survivor := by
  unfold computeForceQuorumRecovery TotalOutage
  cases hgr : cluster.status.groupReplication with
  | none => simp
  | some gr =>
    cases hq : gr.hasQuorum with
    | true => simp [hq]
    | false =>
      have honline : gr.members.filter (·.state == memberStateOnline)=[] ↔
          ∀ m∈gr.members, m.state≠memberStateOnline := by
        simp [filter_eq_nil_iff]
      simp only [hq,Bool.false_eq_true,if_false,Option.some.injEq,exists_eq_left',true_and]
      rw [← honline]
      cases hf : gr.members.filter (·.state == memberStateOnline) with
      | nil =>
        by_cases hp : cluster.status.currentPrimary = ""
        · simp [hp,computeRebootstrap]
        · simp [hp]
      | cons m online => simp [Option.map_eq_some_iff]

omit [CaseMapping] in
private theorem entries_eq_of_keys {gtidByInstance : Map String String} {name g : String}
    (hl : gtidByInstance.lookup name=some g) (h : ∀ k∈gtidByInstance.keys,k=name) :
    gtidByInstance.entries=[⟨name,g⟩] := by
  have hkeys : gtidByInstance.keys=[name] := by
    have hmem : name∈gtidByInstance.keys :=
      AList.mem_keys.mp (AList.lookup_isSome.mp (by rw [hl]; rfl))
    have hrep := eq_replicate_of_mem h
    have hlen := nodup_replicate.mp (hrep ▸ gtidByInstance.keys_nodup)
    rw [hrep] at hmem ⊢
    have hpos := length_pos_of_mem hmem
    rw [length_replicate] at hpos
    rw [show gtidByInstance.keys.length=1 by omega]
    rfl
  have hentry : (⟨name,g⟩ : Sigma fun _ : String => String)∈gtidByInstance.entries :=
    AList.mem_lookup_iff.mp hl
  have hone : gtidByInstance.entries.length=1 := by
    have := congrArg List.length hkeys
    simpa [AList.keys,List.keys] using this
  obtain ⟨e,he⟩ := length_eq_one_iff.mp hone
  rw [he,mem_singleton] at hentry
  rw [he,hentry]

section

variable {cluster : Cluster ρ} {gtidByInstance : Map String String}

/-- A selected survivor holds every known set, unless its own was never read. -/
theorem selectRebootstrapSurvivor_holds
    {survivor : String} (hsole : ¬SoleUnreadable cluster gtidByInstance)
    (h : selectRebootstrapSurvivor gtidByInstance cluster.instances=some survivor) :
    HoldsAllKnown gtidByInstance survivor := by
  unfold selectRebootstrapSurvivor at h
  split at h
  · cases h
  · rename_i hcount
    have hmem := mem_of_find?_eq_some h
    have hpass := List.find?_some h
    rw [mem_insertionSort,← AList.mem_keys,← AList.lookup_isSome,
      Option.isSome_iff_exists] at hmem
    obtain ⟨g,hg⟩ := hmem
    simp only [reported,hg,Option.getD_some,Bool.and_eq_true,bne_iff_ne,gtidDominatesAll,
      all_eq_true,mem_insertionSort,Bool.or_eq_true,beq_iff_eq] at hpass
    obtain ⟨hne,hdom⟩ := hpass
    have hothers : ∀ other g',gtidByInstance.lookup other=some g' → other≠survivor →
        Parses g ∧ gtids g' ⊆ gtids g := by
      intro other g' hl hos
      have hkey : other∈gtidByInstance.keys :=
        AList.mem_keys.mp (AList.lookup_isSome.mp (by rw [hl]; rfl))
      have := (hdom other hkey).resolve_left hos
      rw [hl,Option.getD_some] at this
      exact provenContains_eq_true this
    refine ⟨g,hg,?_,fun other g' hl hos _ _ => (hothers other g' hl hos).2⟩
    -- its own text is read against another one, if there is another
    by_cases hex : ∃ other∈gtidByInstance.keys,other≠survivor
    · obtain ⟨other,hkey,hos⟩ := hex
      rw [← AList.mem_keys,← AList.lookup_isSome,Option.isSome_iff_exists] at hkey
      obtain ⟨g',hl⟩ := hkey
      exact (hothers other g' hl hos).1
    · push Not at hex
      have hentries := entries_eq_of_keys hg hex
      by_contra hnp
      refine hsole ⟨?_,survivor,g,hentries,hne,hnp⟩
      have hlen : gtidByInstance.keys.length=1 := by simp [AList.keys,List.keys,hentries]
      rw [hlen] at hcount
      omega

theorem selectRebootstrapSurvivor_sole
    (hsole : SoleUnreadable cluster gtidByInstance) :
    ∃ survivor,selectRebootstrapSurvivor gtidByInstance cluster.instances=some survivor ∧
      ¬HoldsAllKnown gtidByInstance survivor := by
  obtain ⟨hone,name,g,hentries,hne,hnp⟩ := hsole
  have hlookup : gtidByInstance.lookup name=some g :=
    AList.mem_lookup_iff.mpr (by rw [hentries]; simp)
  have hkeys : gtidByInstance.keys=[name] := by simp [AList.keys,List.keys,hentries]
  refine ⟨name,?_,?_⟩
  · simp [selectRebootstrapSurvivor,hone,hkeys,reported,hlookup,hne,gtidDominatesAll]
  · intro h
    obtain ⟨g',hl,hp,-⟩ := h
    rw [hlookup] at hl
    cases hl
    exact hnp hp

end

/-- The recovery after a total outage never drops a known transaction exactly when the recorded
primary, if any, holds them all; without one, only a sole instance's text is not read. -/
theorem rebootstrap_safe_iff :
    (∀ r,computeForceQuorumRecovery cluster gtidByInstance=some r → r.action = .rebootstrap →
      HoldsAllKnown gtidByInstance r.survivor) ↔
      (TotalOutage cluster →
        if cluster.status.currentPrimary ≠ "" then
          HoldsAllKnown gtidByInstance cluster.status.currentPrimary
        else ¬SoleUnreadable cluster gtidByInstance) := by
  constructor
  · intro h hout
    split
    · rename_i hp
      obtain ⟨r,hr,ha,hs⟩ := (rebootstrap_iff cluster gtidByInstance _).mpr
        ⟨hout,by rw [if_pos hp]⟩
      exact hs ▸ h r hr ha
    · rename_i hp
      intro hsole
      obtain ⟨survivor,hsel,hnot⟩ := selectRebootstrapSurvivor_sole hsole
      obtain ⟨r,hr,ha,hs⟩ := (rebootstrap_iff cluster gtidByInstance survivor).mpr
        ⟨hout,by rw [if_neg hp]; exact hsel⟩
      exact hnot (hs ▸ h r hr ha)
  · intro h r hr ha
    obtain ⟨hout,hsel⟩ := (rebootstrap_iff cluster gtidByInstance r.survivor).mp ⟨r,hr,ha,rfl⟩
    have hcond := h hout
    split at hsel
    · rename_i hp
      rw [if_pos hp,hsel] at hcond
      exact hcond
    · rename_i hp
      rw [if_neg hp] at hcond
      exact selectRebootstrapSurvivor_holds hcond hsel

def onlineMembers : List GroupMember :=
  ((cluster.status.groupReplication.map (·.members)).getD []).filter (·.state == memberStateOnline)

/-- A group without quorum: at least two members online, none primary. -/
structure Leaderless : Prop where
  quorumLost : ∃ gr,cluster.status.groupReplication=some gr ∧ gr.hasQuorum=false
  several : 2≤(onlineMembers cluster).length
  noPrimary : ∀ m∈onlineMembers cluster,m.role≠memberRolePrimary

def KnownSet (name : String) : Prop :=
  ∃ g,gtidByInstance.lookup name=some g ∧ Parses g

def ProvenMostAdvanced : Prop :=
  (∀ r,computeForceQuorumRecovery cluster gtidByInstance=some r →
    ∀ m∈onlineMembers cluster,m.instanceName≠r.survivor →
      ∃ g,gtidByInstance.lookup m.instanceName=some g ∧ Parses g ∧
        gtids g ⊆ gtids (reported gtidByInstance r.survivor)) ∧
  ((∃ m∈onlineMembers cluster,¬KnownSet gtidByInstance m.instanceName) →
    computeForceQuorumRecovery cluster gtidByInstance=none)

def Outranks (online : List GroupMember) (gtidByInstance : Map String String) (c : GroupMember) :
    Prop :=
  reported gtidByInstance c.instanceName ≠ "" ∧
    ∀ other∈online,other.instanceName≠c.instanceName →
      reported gtidByInstance other.instanceName ≠ "" →
        Parses (reported gtidByInstance c.instanceName) ∧
          Parses (reported gtidByInstance other.instanceName) ∧
          gtids (reported gtidByInstance other.instanceName) ⊆
            gtids (reported gtidByInstance c.instanceName)

theorem outranks_iff (online : List GroupMember) (gtidByInstance : Map String String)
    (c : GroupMember) :
    (reported gtidByInstance c.instanceName != "" &&
      dominatesAll c (reported gtidByInstance c.instanceName) online gtidByInstance)=true ↔
      Outranks online gtidByInstance c := by
  simp only [Bool.and_eq_true,bne_iff_ne,dominatesAll,all_eq_true,Bool.or_eq_true,
    beq_iff_eq,provenContains_iff,Outranks,or_assoc]
  simp only [or_iff_not_imp_left,ne_eq]

variable {cluster : Cluster ρ} (h : Leaderless cluster) (gtidByInstance : Map String String)
include h

theorem computeForceQuorumRecovery_leaderless :
    computeForceQuorumRecovery cluster gtidByInstance =
      ((onlineMembers cluster).find? fun c =>
        reported gtidByInstance c.instanceName != "" &&
          dominatesAll c (reported gtidByInstance c.instanceName) (onlineMembers cluster)
            gtidByInstance).map fun survivor =>
        { action := .forceMembers, survivor := survivor.instanceName
          forceMembers := memberAddress survivor.instanceName cluster.ns } := by
  obtain ⟨gr,hgr,hq⟩ := h.quorumLost
  have honline : gr.members.filter (·.state == memberStateOnline)=onlineMembers cluster := by
    simp [onlineMembers,hgr]
  have hprimary : (onlineMembers cluster).find? (·.role == memberRolePrimary)=none := by
    rw [List.find?_eq_none]
    intro m hm
    simpa using h.noPrimary m hm
  have hseveral := h.several
  unfold computeForceQuorumRecovery
  simp only [hgr,hq,Bool.false_eq_true,if_false,honline]
  generalize onlineMembers cluster=online at hprimary hseveral ⊢
  match online,hseveral with
  | m::m'::rest,_ =>
    simp only [selectQuorumSurvivor]
    rw [hprimary]

/-- A survivor is named only when proven most advanced exactly if no member outranks those that
reported while another's set is missing or unreadable. -/
theorem forceMembers_proven_iff :
    ProvenMostAdvanced cluster gtidByInstance ↔
      ((∃ c∈onlineMembers cluster,Outranks (onlineMembers cluster) gtidByInstance c) →
        ∀ m∈onlineMembers cluster,KnownSet gtidByInstance m.instanceName) := by
  unfold ProvenMostAdvanced
  rw [computeForceQuorumRecovery_leaderless h]
  constructor
  · rintro ⟨-,hnone⟩ ⟨c,hc,houtranks⟩
    by_contra hunknown
    push Not at hunknown
    have hfind := hnone hunknown
    rw [Option.map_eq_none_iff,List.find?_eq_none] at hfind
    exact hfind c hc ((outranks_iff _ _ _).mpr houtranks)
  · intro hknown
    have hall : ∀ s,(onlineMembers cluster).find? (fun c =>
        reported gtidByInstance c.instanceName != "" &&
          dominatesAll c (reported gtidByInstance c.instanceName) (onlineMembers cluster)
            gtidByInstance)=some s →
        Outranks (onlineMembers cluster) gtidByInstance s ∧
          ∀ m∈onlineMembers cluster,KnownSet gtidByInstance m.instanceName := by
      intro s hs
      have hfound := List.find?_some hs
      have houtranks := (outranks_iff _ _ s).mp hfound
      exact ⟨houtranks,hknown ⟨s,mem_of_find?_eq_some hs,houtranks⟩⟩
    constructor
    · intro r hr m hm hne
      rw [Option.map_eq_some_iff] at hr
      obtain ⟨s,hs,rfl⟩ := hr
      obtain ⟨houtranks,hknown⟩ := hall s hs
      obtain ⟨g,hg,hparses⟩ := hknown m hm
      refine ⟨g,hg,hparses,?_⟩
      have hreported : reported gtidByInstance m.instanceName=g := by simp [reported,hg]
      by_cases hempty : g = ""
      · subst hempty
        exact (gtids_empty).symm ▸ Set.empty_subset _
      · have := houtranks.2 m hm hne (by rw [hreported]; exact hempty)
        rw [hreported] at this
        exact this.2.2
    · rintro ⟨m,hm,hunknown⟩
      rw [Option.map_eq_none_iff]
      by_contra hsome
      obtain ⟨s,hs⟩ := Option.ne_none_iff_exists'.mp hsome
      exact hunknown ((hall s hs).2 m hm)

end

/-- Two secondaries of three are left online. -/
def partitioned : Cluster Unit where
  name := "db"
  ns := "default"
  mode := .groupReplication
  instances := 3
  status :=
    { currentPrimary := "db-3"
      groupReplication := some {
        bootstrapped := true
        members := [⟨"db-1","ONLINE","SECONDARY",true⟩,⟨"db-2","ONLINE","SECONDARY",true⟩,
          ⟨"db-3","UNREACHABLE","PRIMARY",false⟩] }
      rest := () }

theorem leaderless_partitioned : Leaderless partitioned where
  quorumLost := ⟨_,rfl,rfl⟩
  several := by decide
  noPrimary := by decide

/-- Both report, and the second one is ahead. -/
theorem forceMembers_proven_bothReported :
    ProvenMostAdvanced partitioned (AList.insert "db-1" "u:1-5" (AList.insert "db-2" "u:1-9" ∅)) := by
  refine (forceMembers_proven_iff leaderless_partitioned _).mpr fun _ => ?_
  have hmembers : (onlineMembers partitioned).map (·.instanceName)=["db-1","db-2"] := by decide
  intro m hm
  have hname := mem_map_of_mem (f := (·.instanceName)) hm
  rw [hmembers] at hname
  rcases mem_cons.mp hname with hname | hname
  · exact ⟨"u:1-5",by rw [hname]; decide +kernel,by decide +kernel⟩
  · exact ⟨"u:1-9",by rw [mem_singleton.mp hname]; decide +kernel,by decide +kernel⟩

/-- The second could not be asked: the first is taken for the most advanced. -/
theorem forceMembers_unread :
    computeForceQuorumRecovery partitioned (AList.insert "db-1" "u:1-5" ∅) =
        some { action := .forceMembers, survivor := "db-1"
               forceMembers := "db-1.default.svc:33061" } ∧
      ¬ProvenMostAdvanced partitioned (AList.insert "db-1" "u:1-5" ∅) := by
  have hchosen : computeForceQuorumRecovery partitioned (AList.insert "db-1" "u:1-5" ∅) =
      some { action := .forceMembers, survivor := "db-1"
             forceMembers := "db-1.default.svc:33061" } := by decide +kernel
  refine ⟨hchosen,fun h => ?_⟩
  obtain ⟨g,hg,-⟩ := h.1 _ hchosen ⟨"db-2","ONLINE","SECONDARY",true⟩ (by decide) (by decide)
  have hmissing : (AList.insert "db-1" "u:1-5" ∅ : Map String String).lookup "db-2"=none := by
    decide +kernel
  rw [hmissing] at hg
  cases hg

/-- Three members down after electing a primary the operator had not recorded. -/
def staleOutage : Cluster Unit where
  name := "db"
  ns := "default"
  mode := .groupReplication
  instances := 3
  status :=
    { currentPrimary := "db-1"
      groupReplication := some { bootstrapped := true, members := [⟨"db-1","OFFLINE","",false⟩] }
      rest := () }

def staleReports : Map String String :=
  AList.insert "db-1" "u:1-5" (AList.insert "db-2" "u:1-9" (AList.insert "db-3" "u:1-9" ∅))

/-- The group is re-formed from the recorded primary, which lacks what the elected one committed. -/
theorem rebootstrap_stalePrimary :
    handleQuorumRecovery staleOutage false true staleReports
        (AList.insert "db-1" { running := true } ∅) =
      .arms { action := .rebootstrap, survivor := "db-1" } ∧
    computeForceQuorumRecovery staleOutage staleReports =
      some { action := .rebootstrap, survivor := "db-1" } ∧
    ¬HoldsAllKnown staleReports "db-1" := by
  refine ⟨by decide +kernel,by decide +kernel,?_⟩
  intro h
  obtain ⟨g,hg,-,hall⟩ := h
  have hlookup : staleReports.lookup "db-1"=some "u:1-5" := by decide +kernel
  rw [hlookup] at hg
  cases hg
  have hsub := hall "db-2" "u:1-9" (by decide +kernel) (by decide) (by decide) (by decide +kernel)
  exact absurd hsub (by decide +kernel)

end Cnmsql.Controller.GroupReplication

namespace Cnmsql.Controller

open Framework Api

section

variable {ρ : Type}

/-- Without a view a bootstrapped group counts as lost once it had its full size, or while a
recovery has reset that. -/
def isQuorumLost (c : Cluster ρ) (observed : Option GroupReplicationStatus) : Bool :=
  match c.mode,c.status.groupReplication with
  | .groupReplication,some gr =>
    gr.bootstrapped && match observed with
      | none => gr.observedViewMax=0 || decide (c.instances≤gr.observedViewMax)
      | some view =>
        let denominator :=
          if gr.observedViewMax≤0 then (view.members.length : Int) else gr.observedViewMax
        (view.members.countP (·.state=memberStateOnline) : Int)*2≤denominator
  | _,_ => false

/-- The size a group has after a pass: a re-formed group that of its view, any other the largest so far, cut to
the desired count. -/
def sizeNow (instances : Int) (gr view : GroupReplicationStatus) : Int :=
  let largest := if !gr.hasQuorum && view.hasQuorum then view.observedViewMax
    else max gr.observedViewMax view.observedViewMax
  if 0 < instances then min largest instances else largest

/-- More than half of a group of the size is online. -/
def MostOnline (view : GroupReplicationStatus) (size : Int) : Prop :=
  size<(view.members.countP (·.state=memberStateOnline) : Int)*2

variable (instances : Int) (gr view : GroupReplicationStatus)

theorem hasQuorum_mergeGroup : (mergeGroup instances (some gr) (some view)).hasQuorum=true ↔
    0<sizeNow instances gr view ∧ MostOnline view (sizeNow instances gr view) := by
  have hsize : (clampView instances (mergeView gr.hasQuorum (stickyGroup gr) view)).observedViewMax
      =sizeNow instances gr view := by
    unfold clampView sizeNow
    split
    · rfl
    · rfl
  have hrest : (clampView instances (mergeView gr.hasQuorum (stickyGroup gr) view)).members =
      view.members ∧
      (clampView instances (mergeView gr.hasQuorum (stickyGroup gr) view)).hasQuorum=false := by
    unfold clampView
    split
    · exact ⟨rfl,rfl⟩
    · exact ⟨rfl,rfl⟩
  simp only [mergeGroup,Option.getD_some,settleQuorum,hsize]
  split
  · rename_i hpos
    simp [hpos,MostOnline,hrest.1]
  · rename_i hpos
    simp [hpos,hrest.2]

/-- A size is recorded, it is not above the desired count nor below the view's, and a group that
has formed again has it still. -/
structure KeepsSize : Prop where
  known : 0<gr.observedViewMax
  desired : 0 < instances → gr.observedViewMax ≤ instances
  joined : view.observedViewMax≤gr.observedViewMax
  reformed : gr.hasQuorum=false → view.hasQuorum=true → view.observedViewMax=gr.observedViewMax

variable {instances gr view}

theorem KeepsSize.sizeNow_eq (h : KeepsSize instances gr view) :
    sizeNow instances gr view=gr.observedViewMax := by
  obtain ⟨known,desired,joined,reformed⟩ := h
  unfold sizeNow
  split_ifs
  all_goals grind

/-- As long as a pass keeps the recorded size, both notions of quorum loss agree. -/
theorem quorumLost_agrees {c : Cluster ρ} {gr : GroupReplicationStatus}
    (hmode : c.mode = .groupReplication) (hgr : c.status.groupReplication=some gr)
    (hboot : gr.bootstrapped=true) (view : GroupReplicationStatus)
    (hsize : KeepsSize c.instances gr view) :
    isQuorumLost c (some view)=true ↔
      ((mergeStatus c (some view)).status.groupReplication.getD {}).hasQuorum=false := by
  have hmerged : (mergeStatus c (some view)).status.groupReplication =
      some (mergeGroup c.instances (some gr) (some view)) := by
    simp [mergeStatus,hmode,hgr]
  have hlost : isQuorumLost c (some view)=true ↔ ¬MostOnline view gr.observedViewMax := by
    simp [isQuorumLost,hmode,hgr,hboot,MostOnline,Int.not_le.mpr hsize.known]
  rw [hlost,hmerged,Option.getD_some,← Bool.not_eq_true,hasQuorum_mergeGroup,hsize.sizeNow_eq,
    and_iff_right hsize.known]

end

/-- A quorate group of three instances that was last known to have the given size. -/
def knownGroup (size : Int) : Cluster Unit where
  name := "db"
  ns := "default"
  mode := .groupReplication
  instances := 3
  status :=
    { groupReplication := some
        { bootstrapped := true, hasQuorum := true, observedViewMax := size }
      rest := () }

/-- A view of three members, the last two in the given states. -/
def threeMembers (second third : String) : GroupReplicationStatus where
  primaryMember := "db-1"
  members := [⟨"db-1",memberStateOnline,"PRIMARY",true⟩,⟨"db-2",second,"SECONDARY",true⟩,
    ⟨"db-3",third,"SECONDARY",true⟩]
  observedViewMax := 3

/-- While two members join the first, the stored bit alone says lost; scaled down from five with
one of three failing, only the stored bit does not. -/
theorem quorumLost_disagrees :
    isQuorumLost (knownGroup 1) (some (threeMembers "RECOVERING" "RECOVERING"))=false ∧
    ((mergeStatus (knownGroup 1) (some (threeMembers "RECOVERING"
      "RECOVERING"))).status.groupReplication.getD {}).hasQuorum=false ∧
    isQuorumLost (knownGroup 5) (some (threeMembers memberStateOnline "ERROR"))=true ∧
    ((mergeStatus (knownGroup 5) (some (threeMembers memberStateOnline
      "ERROR"))).status.groupReplication.getD {}).hasQuorum=true := by
  decide

theorem quorumLost_agrees_steady :
    (isQuorumLost (knownGroup 3) (some (threeMembers memberStateOnline "ERROR"))=true ↔
      ((mergeStatus (knownGroup 3) (some (threeMembers memberStateOnline
        "ERROR"))).status.groupReplication.getD {}).hasQuorum=false) :=
  quorumLost_agrees (c := knownGroup 3) rfl rfl rfl _ ⟨by decide,by decide,by decide,by decide⟩

end Cnmsql.Controller
