import Cnmsql.Controller.Instances

namespace Cnmsql.Controller

open Framework Api

section

variable (u : UpgradePlan) (view : ClusterView) (name : String)

/-- An unfenced instance whose manager is out of date. -/
def Stale : Prop :=
  name∈view.instanceNames ∧ name∉view.fencedInstances ∧
    ((view.statusByInstance.lookup name).map (·.executableHash)).getD "" ∉ ["",u.targetHash]

def ReportsReady : Prop := (view.statusByInstance.lookup name).any (·.isReady)=true

variable {u view name}

theorem mem_upgradeCandidates : name∈upgradeCandidates view u.targetHash ↔ Stale u view name := by
  simp [upgradeCandidates,Stale]

/-- The primary comes first only when nothing else is stale. -/
theorem eq_primary_of_head {first : String} {rest : List String}
    (h : upgradeCandidates view u.targetHash=first::rest) (hfirst : first=view.primaryName)
    (hname : Stale u view name) : name=view.primaryName := by
  let before := fun a b : String =>
    if (a=view.primaryName) ↔ (b=view.primaryName) then a≤b else a≠view.primaryName
  have : Std.Total before := ⟨fun a b => by
    by_cases ha : a=view.primaryName <;> by_cases hb : b=view.primaryName <;>
      simp [before,ha,hb,le_total]⟩
  have : IsTrans String before := ⟨fun a b d hab hbd => by
    by_cases ha : a=view.primaryName <;> by_cases hb : b=view.primaryName <;>
      by_cases hd : d=view.primaryName <;> simp_all [before]
    exact hab.trans hbd⟩
  have hsort : (first::rest).Pairwise before := h ▸ List.pairwise_insertionSort before _
  rw [← mem_upgradeCandidates,h] at hname
  cases List.mem_cons.mp hname with
  | inl heq => exact heq.trans hfirst
  | inr hrest =>
    by_contra hne
    have := (List.pairwise_cons.mp hsort).1 name hrest
    simp [before,hfirst,hne] at this

end

section

variable {ρ : Type} (c : Cluster ρ) (u : UpgradePlan)

/-- The step takes a stale instance down, moves the primary role off a stale primary, or leaves
that to the user. -/
def Acts (view : ClusterView) : Prop :=
  match reconcileUpgrade c u view with
  | .roll name => Stale u view name
  | .switchover target => Stale u view view.primaryName ∧ target≠view.primaryName
  | .waitForUser => Stale u view view.primaryName ∧ u.supervised=true
  | _ => False

/-- What an upgrade step without in-place updates comes to. -/
inductive Outcome (view : ClusterView) : UpgradeStep → Prop where
  | done : (∀ name,¬Stale u view name) → Outcome view .done
  | wait {name : String} : name∈view.instanceNames → ¬ReportsReady view name → Outcome view .wait
  | user : Stale u view view.primaryName → u.supervised=true → Outcome view .waitForUser
  | switchover {target : String} : Stale u view view.primaryName → target≠view.primaryName →
      (∀ name,Stale u view name → name=view.primaryName) → Outcome view (.switchover target)
  | roll {name : String} : Stale u view name →
      (name=view.primaryName → ∀ other,Stale u view other → other=view.primaryName) →
      Outcome view (.roll name)

/-- The Pods deleted so far, and how often the primary role was moved. -/
structure Rollout where
  view : ClusterView
  rolled : List String := []
  switchovers : Nat := 0

inductive RolloutEvent where
  | pass
  /-- An instance whose Pod was deleted reports, with the new manager. -/
  | back (name : String) (ready : Bool)

def Rollout.step (s : Rollout) : RolloutEvent → Option Rollout
  | .pass => some <| match reconcileUpgrade c u s.view with
    | .roll name =>
      { s with
        view := { s.view with statusByInstance := s.view.statusByInstance.erase name }
        rolled := s.rolled++[name] }
    | .switchover target =>
      { s with
        view := { s.view with primaryName := target }
        switchovers := s.switchovers+1 }
    | _ => s
  | .back name ready =>
    if name∈s.rolled then some
      { s with view := { s.view with
          statusByInstance := s.view.statusByInstance.insert name ⟨ready,u.targetHash⟩ } }
    else none

/-- Each stale instance is taken down once at most and the primary after all others, with one
switchover; and once those are ready again, the next pass goes on until none is left. -/
structure RollsOut (start : ClusterView) (s : Rollout) : Prop where
  once : s.rolled.Nodup
  atMost : s.rolled.length≤(upgradeCandidates start u.targetHash).length
  stale : ∀ name∈s.rolled,Stale u start name
  last : start.primaryName∈s.rolled → ∀ name,Stale u start name → name∈s.rolled
  switchovers : s.switchovers≤1
  goesOn : (∀ name∈s.rolled,ReportsReady s.view name) →
    Acts c u s.view ∨ ∀ name,Stale u start name → name∈s.rolled

/-- What holds along a rollout that started with `start`. -/
structure Tracked (start : ClusterView) (s : Rollout) : Prop where
  names : s.view.instanceNames=start.instanceNames
  fenced : s.view.fencedInstances=start.fencedInstances
  kept : ∀ name∉s.rolled,
    s.view.statusByInstance.lookup name=start.statusByInstance.lookup name
  current : ∀ name∈s.rolled,∀ m,s.view.statusByInstance.lookup name=some m →
    m.executableHash=u.targetHash
  stale : ∀ name∈s.rolled,Stale u start name
  once : s.rolled.Nodup
  last : start.primaryName∈s.rolled → ∀ name,Stale u start name → name∈s.rolled
  moved : s.switchovers=0 ∧ s.view.primaryName=start.primaryName ∨
    s.switchovers≤1 ∧ start.primaryName∈s.rolled ∨
    s.switchovers=1 ∧ start.primaryName≠s.view.primaryName ∧
      ∀ name∉s.rolled,Stale u start name → name=start.primaryName

variable {c u} {start view : ClusterView} {s s' : Rollout}

section

variable (hhash : u.operatorHash ≠ "") (hinPlace : u.inPlace=false)
include hhash

theorem reconcileUpgrade_waits {name other : String} (hname : Stale u view name)
    (hother : other∈view.instanceNames)
    (hfresh : ¬Stale u view other) (hdown : ¬ReportsReady view other) :
    reconcileUpgrade c u view = .wait := by
  rw [reconcileUpgrade,if_neg hhash]
  rw [← mem_upgradeCandidates] at hname hfresh
  split
  · rename_i hnil
    simp [hnil] at hname
  · rename_i hcand
    rw [hcand] at hfresh
    exact if_pos (List.any_eq_true.mpr ⟨other,hother,decide_eq_true ⟨hfresh,hdown⟩⟩)

include hinPlace

theorem reconcileUpgrade_outcome : Outcome u view (reconcileUpgrade c u view) := by
  rw [reconcileUpgrade,if_neg hhash]
  split
  · rename_i hnil
    refine .done fun name h => ?_
    simp [← mem_upgradeCandidates,hnil] at h
  · rename_i first rest hcand
    have hfirst : Stale u view first := by simp [← mem_upgradeCandidates,hcand]
    have hhead := @eq_primary_of_head u view
    simp only [hinPlace,Bool.false_eq_true,if_false]
    split
    · rename_i hwait
      obtain ⟨name,hname,hnot⟩ := List.any_eq_true.mp hwait
      exact .wait hname (of_decide_eq_true hnot).2
    split
    · rename_i huser
      rw [← hcand,mem_upgradeCandidates] at huser
      exact .user huser.1 huser.2.2
    split
    · rename_i hmode
      cases hreplica : healthyReplicaForSwitchover view with
      | none => exact .roll hfirst fun h _ => hhead hcand h
      | some target =>
        have hne : target≠view.primaryName := by
          have := List.find?_some hreplica
          simp_all
        exact .switchover (hmode.2.1 ▸ hfirst) hne fun _ => hhead hcand hmode.2.1
    · exact .roll hfirst fun h _ => hhead hcand h

theorem acts_of_ready (hready : ∀ name∈view.instanceNames,ReportsReady view name) :
    Acts c u view ∨ ∀ name, ¬Stale u view name := by
  have hout := @reconcileUpgrade_outcome _ c u view hhash hinPlace
  unfold Acts
  generalize reconcileUpgrade c u view=step at hout
  cases hout with
  | done hnone => exact .inr hnone
  | wait hname hnot => exact absurd (hready _ hname) hnot
  | user hp hs => exact .inl ⟨hp,hs⟩
  | switchover hp hne _ => exact .inl ⟨hp,hne⟩
  | roll hs _ => exact .inl hs

end

theorem Tracked.stale_iff (h : Tracked u start s) {name : String} :
    Stale u s.view name ↔ Stale u start name ∧ name∉s.rolled := by
  by_cases hr : name∈s.rolled
  · simp only [hr,not_true_eq_false,and_false,iff_false]
    rintro ⟨-,-,hhash⟩
    cases hl : s.view.statusByInstance.lookup name with
    | none => simp [hl] at hhash
    | some m => simp [hl,h.current name hr m hl] at hhash
  · simp only [Stale,h.names,h.fenced,h.kept name hr,hr,not_false_eq_true,and_true]

theorem Tracked.roll (h : Tracked u start s) {name : String} (hs : Stale u s.view name)
    (honly : name=s.view.primaryName → ∀ other,Stale u s.view other → other=s.view.primaryName) :
    Tracked u start
      { s with
        view := { s.view with statusByInstance := s.view.statusByInstance.erase name }
        rolled := s.rolled++[name] } := by
  obtain ⟨hstart,hnew⟩ := h.stale_iff.mp hs
  have hmem : ∀ x,x∈s.rolled++[name] ↔ x∈s.rolled ∨ x=name := by simp
  refine ⟨h.names,h.fenced,?_,?_,?_,?_,?_,?_⟩
  · intro x hx
    rw [hmem,not_or] at hx
    exact (AList.lookup_erase_ne hx.2).trans (h.kept x hx.1)
  · intro x hx m hm
    cases (hmem x).mp hx with
    | inl hx => exact h.current x hx m (Map.lookup_of_erase hm)
    | inr hx =>
      subst hx
      simp at hm
  · intro x hx
    cases (hmem x).mp hx with
    | inl hx => exact h.stale x hx
    | inr hx => exact hx ▸ hstart
  · exact h.once.append (List.nodup_singleton name) (by simpa using hnew)
  · intro hp x hx
    rw [hmem]
    cases (hmem _).mp hp with
    | inl hp => exact absurd (h.last hp name hstart) hnew
    | inr hp =>
      by_contra hleft
      rw [not_or] at hleft
      -- neither as the primary nor after a switchover does it go before another stale one
      rcases h.moved with ⟨-,hprimary⟩ | ⟨-,hrolled⟩ | ⟨-,-,hother⟩
      · have hname := hp.symm.trans hprimary.symm
        exact hleft.2 ((honly hname x (h.stale_iff.mpr ⟨hx,hleft.1⟩)).trans hname.symm)
      · exact hnew (hp ▸ hrolled)
      · exact hleft.2 ((hother x hleft.1 hx).trans hp)
  · rcases h.moved with hfirst | ⟨-,hrolled⟩ | ⟨hone,-,hother⟩
    · by_cases hp : name=start.primaryName
      · exact .inr (.inl ⟨by simp [hfirst.1],by simp [hp]⟩)
      · exact .inl hfirst
    · exact absurd (h.last hrolled name hstart) hnew
    · exact .inr (.inl ⟨by simp [hone],by simp [hother name hnew hstart]⟩)

theorem Tracked.step (hhash : u.operatorHash ≠ "") (hinPlace : u.inPlace=false)
    (h : Tracked u start s) {e : RolloutEvent} (hstep : Rollout.step c u s e=some s') :
    Tracked u start s' := by
  cases e with
  | pass =>
    have hout := @reconcileUpgrade_outcome _ c u s.view hhash hinPlace
    cases hstep
    generalize reconcileUpgrade c u s.view=step at hout
    cases hout with
    | done _ | wait _ _ | user _ _ => exact h
    | roll hs honly => exact h.roll hs honly
    | switchover hp hne honly =>
      obtain ⟨hstart,hleft⟩ := h.stale_iff.mp hp
      rcases h.moved with ⟨hzero,hsame⟩ | ⟨-,hrolled⟩ | ⟨-,hdiff,hother⟩
      · refine { h with moved := .inr (.inr ⟨by simp [hzero],?_,?_⟩) }
        · exact fun heq => hne (heq.symm.trans hsame.symm)
        · intro name hname hs
          exact (honly name (h.stale_iff.mpr ⟨hs,hname⟩)).trans hsame
      · exact absurd (h.last hrolled _ hstart) hleft
      · exact absurd (hother _ hleft hstart).symm hdiff
  | back name ready =>
    obtain ⟨hname,heq⟩ := Option.ite_none_right_eq_some.mp hstep
    cases heq
    refine { h with kept := ?_, current := ?_ }
    · intro x hx
      refine (AList.lookup_insert_ne ?_).trans (h.kept x hx)
      exact fun heq => hx (heq ▸ hname)
    · intro x hx m hm
      rcases Map.lookup_insert_eq_some hm with ⟨-,rfl⟩ | hm
      · rfl
      · exact h.current x hx m hm

/-- A rollout goes on past the fenced instances exactly when those are ready, too, and the operator
knows its own hash. -/
theorem rollout_goes_on_iff (hinPlace : u.inPlace=false) (hstale : ∃ name,Stale u view name)
    (hready : ∀ name∈view.instanceNames,name∉view.fencedInstances → ReportsReady view name) :
    (Acts c u view ∧ (u.supervised=false → ∀ es s,
      exec (Rollout.step c u) { view } es=some s → RollsOut c u view s)) ↔
    u.operatorHash ≠ "" ∧
      ∀ name∈view.instanceNames,name∈view.fencedInstances → ReportsReady view name := by
  obtain ⟨x,hx⟩ := hstale
  constructor
  · intro h
    have hhash : u.operatorHash ≠ "" := by
      intro hempty
      simp [Acts,reconcileUpgrade,hempty] at h
    refine ⟨hhash,fun name hname hfenced => ?_⟩
    by_contra hdown
    have hwait := reconcileUpgrade_waits (c := c) hhash hx hname (fun hs => hs.2.1 hfenced) hdown
    simp [Acts,hwait] at h
  · intro h
    obtain ⟨hhash,hfenced⟩ := h
    have hall : ∀ name∈view.instanceNames, ReportsReady view name := by
      intro name hname
      by_cases hf : name∈view.fencedInstances
      · exact hfenced name hname hf
      · exact hready name hname hf
    refine ⟨(acts_of_ready hhash hinPlace hall).resolve_right fun hnone => hnone x hx,?_⟩
    intro _ es s hrun
    have h : Tracked u view s := by
      refine exec_invariant (fun s e s' hs _ h => h.step hhash hinPlace hs)
        (along_of_step (fun _ _ _ _ => trivial) _ es) hrun ?_
      exact ⟨rfl,rfl,by simp,by simp,by simp,by simp,by simp,by simp⟩
    refine ⟨h.once,?_,h.stale,h.last,?_,?_⟩
    · exact (h.once.subperm fun x hx => mem_upgradeCandidates.mpr (h.stale x hx)).length_le
    · rcases h.moved with hm | hm | hm <;> omega
    · intro hback
      refine (acts_of_ready hhash hinPlace ?_).imp_right ?_
      · intro name hname
        by_cases hr : name∈s.rolled
        · exact hback name hr
        · rw [ReportsReady,h.kept name hr]
          exact hall name (h.names ▸ hname)
      · intro hnone name hname
        by_contra hr
        exact hnone name (h.stale_iff.mpr ⟨hname,hr⟩)

end

/-- The primary and a replica with an old manager; the third instance is fenced. -/
def fencedThird (ready : Bool) : ClusterView where
  primaryName := "db-1"
  instanceNames := ["db-1","db-2","db-3"]
  statusByInstance := AList.insert "db-1" ⟨true,"old"⟩ (AList.insert "db-2" ⟨true,"old"⟩
    (AList.insert "db-3" ⟨ready,"new"⟩ ∅))
  fencedInstances := ["db-3"]

def asyncCluster : Cluster Unit where
  name := "db"
  ns := "default"
  instances := 3
  status := { rest := () }

/-- The fenced server is down, and every pass waits for it. -/
theorem rollout_stalls :
    Stale { operatorHash := "new" } (fencedThird false) "db-2" ∧
    (∀ name∈["db-1","db-2"],ReportsReady (fencedThird false) name) ∧
    reconcileUpgrade asyncCluster { operatorHash := "new" } (fencedThird false) = .wait := by
  unfold Stale ReportsReady
  decide +kernel

theorem rollout_goes_on_fencedReady :
    Acts asyncCluster { operatorHash := "new" } (fencedThird true) ∧
    ∀ es s,exec (Rollout.step asyncCluster { operatorHash := "new" }) { view := fencedThird true }
      es=some s → RollsOut asyncCluster { operatorHash := "new" } (fencedThird true) s := by
  have h := (@rollout_goes_on_iff _ asyncCluster { operatorHash := "new" } (fencedThird true) rfl
    ⟨"db-2",by unfold Stale; decide +kernel⟩ (by unfold ReportsReady; decide +kernel)).mpr
    ⟨by decide,by unfold ReportsReady; decide +kernel⟩
  exact ⟨h.1,h.2 rfl⟩

end Cnmsql.Controller
