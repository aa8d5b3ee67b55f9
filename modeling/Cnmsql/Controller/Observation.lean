import Cnmsql.Controller.Failover
import Cnmsql.Engine.MariaTimeline

namespace Cnmsql.Controller

open Framework Replication Engine

/-- What an instance reports of its replication. -/
structure ReplicationStatus where
  sourceHost : String := ""
  lastIOErrno : Int := 0
  deriving DecidableEq

/-- What the observation reads of an instance's status. -/
structure InstanceStatus where
  replication : Option ReplicationStatus := none
  deriving DecidableEq

structure Poll where
  primaryName : String
  instanceNames : List String
  statusByInstance : Map String InstanceStatus := ∅
  gtidByInstance : Map String String
  engineFlavor : String := "mysql"
  mariaDBTimeline : MariaDBTimeline := []
  disownedGTIDs : String := ""

structure ObservationInput extends Poll where
  priorDivergedInstances : List String

variable (p : Poll) (name : String)

def Poll.gtidOf : String := (p.gtidByInstance.lookup name).getD ""

def Poll.primaryGTID : String := p.gtidOf p.primaryName

def Poll.mariadb (p : Poll) : Prop := p.engineFlavor = "mariadb"

instance : Decidable p.mariadb := inferInstanceAs (Decidable (_ = _))

def mariadbSourceRefused : Int := 1236

/-- A replica's I/O thread stopped because the primary refused its position. -/
def refusedByPrimary (status : Option InstanceStatus) (primary : String) : Bool :=
  match status.bind InstanceStatus.replication with
  | none => false
  | some r => primary ≠ "" ∧ r.lastIOErrno=mariadbSourceRefused ∧
      String.ofList (cut '.' r.sourceHost.toList).1=primary

def stillPresent (names instanceNames : List String) : List String :=
  names.filter (· ∈ instanceNames)

def markEach (p : String → Bool) (names diverged : List String) : List String :=
  names.foldl (fun d name => if name∈d ∨ p name=false then d else d++[name]) diverged

@[simp] theorem mem_markEach (p : String → Bool) (names diverged : List String) (n : String) :
    n∈markEach p names diverged ↔ n∈diverged ∨ n∈names ∧ p n=true := by
  unfold markEach
  induction names generalizing diverged with
  | nil => simp
  | cons name names ih =>
    rw [List.foldl_cons,ih]
    split
    · rename_i h
      have hn : n=name → n∈diverged ∨ p n=false := fun heq => heq ▸ h
      grind
    · rename_i h
      simp only [List.mem_append,List.mem_cons]
      grind

def offTimeline (diverged : List String) : List String :=
  if ¬p.mariadb ∨ p.mariaDBTimeline=[] then diverged
  else markEach (fun name => name≠p.primaryName ∧ p.gtidOf name ≠ "" ∧
    p.mariaDBTimeline.judge (p.gtidOf name) = .ok (some false)) p.instanceNames diverged

/-- One round of `detectDivergedReplicas`: whether the instance is marked. -/
def diverges (gtid : GTIDModel) (input : ObservationInput) (name : String) : Bool :=
  let prior := decide (name∈input.priorDivergedInstances)
  if name=input.primaryName then false
  else if input.mariadb ∧
      refusedByPrimary (input.statusByInstance.lookup name) input.primaryName=true then true
  else if input.gtidOf name = "" then prior
  else
    match gtid.contains input.primaryGTID (input.gtidOf name) with
    | .error _ => prior
    | .ok false => true
    | .ok true =>
      if input.mariadb ∧ input.mariaDBTimeline≠[] then
        -- a prior mark clears only once the timeline proves the position canonical
        match input.mariaDBTimeline.judge (input.gtidOf name) with
        | .ok (some on) => !on
        | .ok none | .error _ => prior
      else false

/-- What it takes for the loop to pass over an instance that is marked. -/
theorem diverges_eq_false {gtid : GTIDModel} {input : ObservationInput} {n : String}
    (hprior : n∈input.priorDivergedInstances) :
    diverges gtid input n=false ↔ n=input.primaryName ∨
      ¬(input.mariadb ∧
        refusedByPrimary (input.statusByInstance.lookup n) input.primaryName=true) ∧
      input.gtidOf n ≠ "" ∧ gtid.contains input.primaryGTID (input.gtidOf n) = .ok true ∧
      (input.mariadb → input.mariaDBTimeline≠[] →
        input.mariaDBTimeline.OnTimeline (input.gtidOf n)) := by
  simp only [diverges,hprior,decide_true]
  split
  · rename_i hp
    simp [hp]
  · rename_i hp
    split
    · rename_i hr
      simp [hp,hr]
    · rename_i hr
      split
      · rename_i hg
        simp [hp,hg]
      · rename_i hg
        cases hc : gtid.contains input.primaryGTID (input.gtidOf n) with
        | error err => simp [hp]
        | ok contained =>
          cases contained with
          | false => simp [hp]
          | true =>
            simp only [hp,hr,hg,false_or,not_false_eq_true,true_and,ne_eq]
            rw [← MariaDBTimeline.judge_eq_on]
            split
            · rename_i hm
              cases hj : input.mariaDBTimeline.judge (input.gtidOf n) with
              | error err => simp [hm.1,hm.2]
              | ok known =>
                cases known with
                | none => simp [hm.1,hm.2]
                | some on => simp [hm.1,hm.2]
            · rename_i hm
              simp only [true_iff]
              intro h1 h2
              exact absurd ⟨h1,h2⟩ hm

variable [CaseMapping]

/-- The archive's disowned set; one that does not parse fails open. -/
def disownedSet (p : Poll) : Option GTIDSet :=
  if p.disownedGTIDs = "" ∨ p.mariadb then none
  else
    match parseGTIDSet p.disownedGTIDs with
    | .error _ => none
    | .ok set => if set.isEmpty then none else some set

def HoldsDisowned (p : Poll) (name : String) : Prop :=
  ∃ set∈disownedSet p,holdsDisowned set [p.gtidOf name]=true

/-- Adds every instance that holds a disowned transaction. -/
def holdingDisowned (p : Poll) (diverged : List String) : List String :=
  match disownedSet p with
  | none => diverged
  | some set => markEach (fun name => name≠p.primaryName ∧ holdsDisowned set [p.gtidOf name]=true)
      p.instanceNames diverged

def detectDivergedReplicas (input : ObservationInput) : List String :=
  match forFlavor input.engineFlavor with
  | .error _ => stillPresent input.priorDivergedInstances input.instanceNames
  | .ok flavor =>
    if input.primaryGTID = "" then
      holdingDisowned input.toPoll (offTimeline input.toPoll
        (stillPresent input.priorDivergedInstances input.instanceNames))
    else
      holdingDisowned input.toPoll (input.instanceNames.filter (diverges flavor.gtid input))

theorem mem_holdingDisowned (p : Poll) (diverged : List String) (n : String) :
    n∈holdingDisowned p diverged ↔
      n∈diverged ∨ n∈p.instanceNames ∧ n≠p.primaryName ∧ HoldsDisowned p n := by
  unfold holdingDisowned HoldsDisowned
  cases disownedSet p with
  | none => simp
  | some set => simp

/-- A marked instance has re-converged with a live primary: that holds all it executed and did not
refuse it, the timeline proves it where there is one, and none of it is disowned. -/
def Reconverged (p : Poll) (name : String) : Prop :=
  ∃ flavor,forFlavor p.engineFlavor = .ok flavor ∧ p.primaryGTID ≠ "" ∧ p.gtidOf name ≠ "" ∧
    (name=p.primaryName ∨
      ¬(p.mariadb ∧ refusedByPrimary (p.statusByInstance.lookup name) p.primaryName=true) ∧
      flavor.gtid.contains p.primaryGTID (p.gtidOf name) = .ok true ∧
      (p.mariadb → p.mariaDBTimeline≠[] → p.mariaDBTimeline.OnTimeline (p.gtidOf name)) ∧
      ¬HoldsDisowned p name)

theorem not_mem_detect_iff {input : ObservationInput} {n : String}
    (hprior : n∈input.priorDivergedInstances) (hpresent : n∈input.instanceNames) :
    n∉detectDivergedReplicas input ↔ Reconverged input.toPoll n := by
  have hstill : n∈stillPresent input.priorDivergedInstances input.instanceNames := by
    simp [stillPresent,hprior,hpresent]
  unfold detectDivergedReplicas Reconverged
  cases hf : forFlavor input.engineFlavor with
  | error err => simp [hstill]
  | ok flavor =>
    simp only [Except.ok.injEq,exists_eq_left']
    split
    · rename_i hg
      have hoff : n∈offTimeline input.toPoll
          (stillPresent input.priorDivergedInstances input.instanceNames) := by
        unfold offTimeline
        split
        · exact hstill
        · exact (mem_markEach _ _ _ _).mpr (.inl hstill)
      simp [hg,mem_holdingDisowned,hoff]
    · rename_i hg
      have hprimary : n=input.primaryName → input.gtidOf n ≠ "" := by
        intro heq
        rw [heq]
        exact hg
      rw [mem_holdingDisowned,List.mem_filter,not_or]
      simp only [hpresent,true_and,Bool.not_eq_true,diverges_eq_false hprior]
      grind

end Cnmsql.Controller
