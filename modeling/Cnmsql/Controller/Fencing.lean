import Cnmsql.Controller.Reinit

namespace Cnmsql.Controller

open Framework Api

section

variable {ρ : Type} (c : Cluster ρ)

/-- Primary and promotion target where beyond the desired count. -/
def outOfRangePrimaries : List String :=
  ([c.status.currentPrimary,c.status.targetPrimary].filter fun name =>
    (instanceOrdinal c.name name).any fun ordinal => (plannedInstances c : Int)<ordinal).eraseDups

/-- The planned instances and a primary beyond the desired count. -/
def observedOrdinals : List Nat :=
  List.range' 1 (plannedInstances c) ++
    (outOfRangePrimaries c).filterMap fun name => (instanceOrdinal c.name name).map Int.toNat

def observedInstances : List String := (observedOrdinals c).map (instanceName c.name)

def observedFences (o : Objects) : List String :=
  (observedInstances c).filter fun name => (o.pods.lookup name).any (·.fencing)

/-- A group that new fences would cost its quorum takes none. -/
def checkFenceQuorumGuard (blocked : Bool) (observed : ObservedCluster ρ) : ObservedCluster ρ :=
  if c.mode = .groupReplication ∧ blocked then
    { observed with
      fencedInstances := observed.fencedInstances.filter (· ∈ c.status.fencedInstances) }
  else observed

/-- The Pod goes unless a recorded fence has taken the instance down. -/
def fenceInstance (recorded : List String) (name : String) (o : Objects) : Objects :=
  match o.pods.lookup name with
  | none => o
  | some pod =>
    if pod.terminating then o
    else if pod.fencing ∧ name∈recorded then o
    else o.deletePod name

/-- A cluster, and what the pass over it has observed. -/
structure Watch (ρ : Type) extends Deployment ρ where
  observed : Option (ObservedCluster ρ) := none

/-- The first three come from outside a pass, the others are its parts. -/
inductive WatchEvent (ρ : Type) where
  /-- The Cluster changes, but for the recorded fences. -/
  | edit (c : Cluster ρ)
  /-- Each Pod changes or goes. -/
  | pods (f : String → Pod → Option Pod)
  /-- Volumes, Jobs and the re-init annotation change. -/
  | others (o : Objects)
  | begin
  | scaleDown
  | observe (rest : ObservedCluster ρ) (blocked : Bool)
  | fence (name : String) (refreshed : Bool)
  | autoReinit (plan : InstancePlan) (view : ClusterView)
  | visit (plan : InstancePlan) (allowRoll : Bool) (ordinal : Nat)
  | patch (rest : ρ → ρ)
  | upgrade (u : UpgradePlan) (view : ClusterView) (rest : ρ → ρ)

namespace Watch

def upgradeView (observed : ObservedCluster ρ) (view : ClusterView) : ClusterView :=
  { view with
    instanceNames := observed.instanceNames
    fencedInstances := observed.fencedInstances }

def upgrade (s : Watch ρ) (c : Cluster ρ) (u : UpgradePlan) (view : ClusterView)
    (observed : ObservedCluster ρ) (rest : ρ → ρ) : Watch ρ :=
  let progress := upgradeProgressStatus observed rest
  match reconcileUpgrade c u (upgradeView observed view) with
  | .done | .wait => s
  | .stream _ | .waitForUser => { s with cluster := patchStatus s.cluster progress }
  | .switchover target =>
    let moved := { s.cluster with status := { s.cluster.status with targetPrimary := target } }
    { s with cluster := patchStatus moved progress }
  | .roll name =>
    { s with cluster := patchStatus s.cluster progress, objects := s.objects.deletePod name }

def step (s : Watch ρ) : WatchEvent ρ → Option (Watch ρ)
  | .edit c =>
    some { s with
      cluster := { c with
        status := { c.status with fencedInstances := s.cluster.status.fencedInstances } } }
  | .pods f => some { s with objects := { s.objects with pods := s.objects.pods.collect f } }
  | .others o => some { s with objects := { o with pods := s.objects.pods } }
  | .begin => some { s with copy := some ⟨s.cluster,s.objects.reinit⟩, observed := none }
  | .scaleDown => s.copy.map fun copy =>
    { s with objects := scaleDownObjects copy.cluster s.objects }
  | .observe rest blocked =>
    -- A pass observes once.
    if s.observed.isSome then none
    else s.copy.map fun copy =>
      { s with
        observed := some (checkFenceQuorumGuard copy.cluster blocked
          { rest with
            instanceNames := observedInstances copy.cluster
            fencedInstances := observedFences copy.cluster s.objects }) }
  | .fence name refreshed => s.copy.map fun copy =>
    let recorded := if refreshed then s.cluster.status.fencedInstances
      else copy.cluster.status.fencedInstances
    { s with objects := fenceInstance recorded name s.objects }
  | .autoReinit plan view => s.copy.map fun copy =>
    { s with
      toDeployment := s.write copy (reconcileAutoReinit copy.cluster plan view (s.seen copy)) }
  | .visit plan allowRoll ordinal => s.copy.map fun copy =>
    { s with
      toDeployment := s.write copy
        (Deployment.visit copy.cluster plan allowRoll ordinal (s.seen copy)).objects }
  | .patch rest => s.observed.map fun observed =>
    { s with cluster := patchStatus s.cluster { observed with rest := rest } }
  | .upgrade u view rest => s.copy.bind fun copy => s.observed.map fun observed =>
    s.upgrade copy.cluster u view observed rest

end Watch

variable (n : String) (s : Watch ρ)

def KeepsFence : Prop :=
  n∈s.cluster.status.fencedInstances ∧
    ∀ pod∈s.objects.pods.lookup n,pod.fencing=true

def FencedLive (o : Objects) (n : String) : Prop :=
  ∃ pod∈o.pods.lookup n,pod.fencing=true ∧ pod.terminating=false

/-- The fence is on the Pod and in the status, and a running pass has observed it or found it in the
status. -/
structure InPlace : Prop where
  recorded : n∈s.cluster.status.fencedInstances
  live : FencedLive s.objects n
  copied : s.observed=none → ∀ copy∈s.copy,n∈copy.cluster.status.fencedInstances
  observed : ∀ observed∈s.observed,n∈observed.instanceNames ∧ n∈observed.fencedInstances

/-- What lifts a fence: the annotation goes, the Pod is deleted, or the instance is removed or torn
down. -/
def Lifts : WatchEvent ρ → Watch ρ → Prop
  | .pods f,_ => ∃ pod∈s.objects.pods.lookup n,pod.fencing=true ∧
    ((f n pod=none ∧ pod.terminating=false) ∨
      ∃ pod'∈f n pod,pod'.fencing=false ∨ pod'.terminating=true ∧ pod.terminating=false)
  | .scaleDown,s' => FencedLive s.objects n ∧ ¬FencedLive s'.objects n
  | .visit _ _ ordinal,_ => ∃ copy∈s.copy,n=instanceName copy.cluster.name ordinal ∧
    (reconcileReinit (isPlannedPrimary copy.cluster n) n (s.seen copy)).1=true
  | _,_ => False

/-- What leaves a fence in place: the Pod owes no allowed roll, the pass knows of the fence, and an
upgrade waits or has nothing to do. -/
def Undisturbed : WatchEvent ρ → Watch ρ → Prop
  | .observe _ _,_ => ∀ copy∈s.copy,n∈observedInstances copy.cluster
  | .visit plan allowRoll ordinal,_ => ∀ copy∈s.copy,
    n=instanceName copy.cluster.name ordinal → allowRoll=true → ¬OwesRoll plan s.objects n
  | .fence name refreshed,_ => name=n → refreshed=false →
    ∀ copy∈s.copy,n∈copy.cluster.status.fencedInstances
  | .upgrade u view _,_ => u.operatorHash = "" ∨
    (view.statusByInstance.lookup n).any (·.isReady)=false ∨
    ∀ observed∈s.observed,upgradeCandidates (Watch.upgradeView observed view) u.targetHash=[]
  | _,_ => True

instance : Decidable (KeepsFence n s) :=
  inferInstanceAs (Decidable (_ ∧ _))

instance (o : Objects) (n : String) : Decidable (FencedLive o n) :=
  inferInstanceAs (Decidable (∃ _∈_,_))

instance : ∀ e s',Decidable (Lifts n s e s')
  | .pods _,_ => inferInstanceAs (Decidable (∃ _∈_,_))
  | .scaleDown,_ => inferInstanceAs (Decidable (_ ∧ _))
  | .visit ..,_ => inferInstanceAs (Decidable (∃ _∈_,_))
  | .edit _,_ | .others _,_ | .begin,_ | .observe ..,_ | .fence ..,_ | .autoReinit ..,_
  | .patch _,_ | .upgrade ..,_ => inferInstanceAs (Decidable False)

end

section

variable {plan : InstancePlan} {isPrimary allowRoll : Bool} {o : Objects} {name n : String} {pod : Pod}

theorem lookup_deletePod_of_ne (h : n≠name) :
    (o.deletePod name).pods.lookup n=o.pods.lookup n := by
  unfold Objects.deletePod
  split
  · rfl
  · exact AList.lookup_insert_ne h

theorem tearDown_pods : (o.tearDown name).pods=(o.deletePod name).pods := by
  unfold Objects.tearDown Objects.deleteVolume
  split
  · rfl
  · rfl

theorem lookup_rollForResize_of_ne (h : n≠name) :
    (rollForResize allowRoll name o).objects.pods.lookup n=o.pods.lookup n := by
  unfold rollForResize
  split
  · rfl
  · repeat' split
    all_goals first
      | rfl
      | exact lookup_deletePod_of_ne h

theorem lookup_ensurePod_of_ne (h : n≠name) :
    (ensurePod plan allowRoll name o).objects.pods.lookup n=o.pods.lookup n := by
  unfold ensurePod
  repeat' split
  all_goals first
    | rfl
    | exact lookup_deletePod_of_ne h
    | exact AList.lookup_insert_ne h

theorem lookup_ensureInstance_of_ne (h : n≠name) :
    (ensureInstance plan isPrimary allowRoll name o).objects.pods.lookup n=o.pods.lookup n := by
  cases htorn : (reconcileReinit isPrimary name o).1 with
  | true =>
    obtain ⟨_,_,hdown⟩ := reconcileReinit_torn htorn
    simp only [ensureInstance,htorn,if_true,hdown,tearDown_pods]
    exact lookup_deletePod_of_ne h
  | false =>
    obtain ⟨hpods,_⟩ := @extends_bootstrapped plan o name isPrimary htorn
    simp only [ensureInstance,htorn,Bool.false_eq_true,if_false]
    split
    · rw [hpods]
    · split
      · rw [lookup_rollForResize_of_ne h,hpods]
      · rw [lookup_ensurePod_of_ne h,hpods]

theorem lookup_ensureInstance_self (hpod : o.pods.lookup name=some pod)
    (hlive : pod.terminating=false) (htorn : (reconcileReinit isPrimary name o).1=false)
    (hroll : allowRoll=true → ¬OwesRoll plan o name) :
    (ensureInstance plan isPrimary allowRoll name o).objects.pods.lookup name=some pod := by
  obtain ⟨hpods,hext⟩ := @extends_bootstrapped plan o name isPrimary htorn
  simp only [ensureInstance,htorn,Bool.false_eq_true,if_false]
  split
  · rw [hpods,hpod]
  · split
    · rename_i hresize
      obtain ⟨hclaim,hrolled⟩ := hresize
      obtain ⟨hallow,_⟩ := rollForResize_cases hrolled
      obtain ⟨hoff,v,hv,hpending⟩ := ensurePVC_needsRoll hclaim
      rw [(reconcileReinit_done htorn).2] at hv
      exact absurd (.inr ⟨hoff,v,hv,hpending⟩) (hroll hallow)
    · rw [ensurePod,hpods,hpod]
      simp only [hlive,Bool.false_eq_true,if_false]
      split_ifs with hstale hallow
      · exact absurd (.inl ⟨pod,hpod,hstale⟩) (hroll hallow)
      · rw [hpods,hpod]
      · rw [hpods,hpod]

theorem lookup_fenceInstance {recorded : List String} (hpod : o.pods.lookup n=some pod)
    (hfence : pod.fencing=true) (hrecorded : n=name → n∈recorded) :
    (fenceInstance recorded name o).pods.lookup n=some pod := by
  by_cases hn : n=name
  · subst hn
    simp only [fenceInstance,hpod,hfence,hrecorded rfl,and_self,if_true,ite_self]
  · unfold fenceInstance
    repeat' split
    all_goals first
      | exact hpod
      | rw [lookup_deletePod_of_ne hn,hpod]

end

section

variable {ρ : Type} {n : String} {s s' : Watch ρ}

@[simp] theorem mergeStatus_fencedInstances (c : Cluster ρ) (g : Option GroupReplicationStatus) :
    (mergeStatus c g).status.fencedInstances=c.status.fencedInstances := by
  unfold mergeStatus
  split
  · rfl
  · rfl

@[simp] theorem patchStatus_fencedInstances (c : Cluster ρ) (o : ObservedCluster ρ) :
    (patchStatus c o).status.fencedInstances=o.fencedInstances := by
  simp [patchStatus]

theorem InPlace.keepsFence (h : InPlace n s) : KeepsFence n s := by
  refine ⟨h.recorded,?_⟩
  intro pod hpod
  obtain ⟨pod₀,hpod₀,hfence,_⟩ := h.live
  cases hpod.symm.trans hpod₀
  exact hfence

theorem InPlace.of_live (h : InPlace n s) {o : Objects} (hlive : FencedLive o n) :
    InPlace n { s with objects := o } :=
  { h with live := hlive }

theorem InPlace.write (h : InPlace n s) {copy : Copy ρ} (hcopy : s.copy=some copy) {o : Objects}
    (hlive : FencedLive o n) : InPlace n { s with toDeployment := s.write copy o } where
  recorded := h.recorded
  live := hlive
  copied := by
    intro hnone copy' hcopy'
    cases hcopy'
    exact h.copied hnone copy hcopy
  observed := h.observed

theorem InPlace.pods (h : InPlace n s) {f : String → Pod → Option Pod}
    (hlift : ¬Lifts n s (.pods f) s') :
    InPlace n { s with objects := { s.objects with pods := s.objects.pods.collect f } } := by
  apply h.of_live
  obtain ⟨pod,hpod,hfence,hlive⟩ := h.live
  rw [Option.mem_def] at hpod
  cases hf : f n pod with
  | none => exact absurd ⟨pod,hpod,hfence,.inl ⟨hf,hlive⟩⟩ hlift
  | some pod' =>
    refine ⟨pod',by simp [hpod,hf],?_,?_⟩
    · by_contra hoff
      exact hlift ⟨pod,hpod,hfence,.inr ⟨pod',hf,.inl (by simpa using hoff)⟩⟩
    · by_contra hgoing
      exact hlift ⟨pod,hpod,hfence,.inr ⟨pod',hf,.inr ⟨by simpa using hgoing,hlive⟩⟩⟩

theorem mem_observed (h : InPlace n s) {copy : Copy ρ} (hcopy : n∈copy.cluster.status.fencedInstances)
    (hnames : n∈observedInstances copy.cluster) (rest : ObservedCluster ρ) (blocked : Bool) :
    let observed := checkFenceQuorumGuard copy.cluster blocked
      { rest with
        instanceNames := observedInstances copy.cluster
        fencedInstances := observedFences copy.cluster s.objects }
    n∈observed.instanceNames ∧ n∈observed.fencedInstances := by
  obtain ⟨pod,hpod,hfence,_⟩ := h.live
  rw [Option.mem_def] at hpod
  have hfound : n∈observedFences copy.cluster s.objects :=
    List.mem_filter.mpr ⟨hnames,by simp [hpod,hfence]⟩
  simp only [checkFenceQuorumGuard]
  split_ifs
  · exact ⟨hnames,List.mem_filter.mpr ⟨hfound,by simpa using hcopy⟩⟩
  · exact ⟨hnames,hfound⟩

theorem not_mem_upgradeCandidates {view : ClusterView} (h : n∈view.fencedInstances)
    (target : String) : n∉upgradeCandidates view target := by
  intro hn
  rw [upgradeCandidates,List.mem_insertionSort,List.mem_filter] at hn
  exact (of_decide_eq_true hn.2).1 h

/-- An upgrade that waits or has nothing to do writes nothing. -/
theorem upgrade_eq_self {c : Cluster ρ} {u : UpgradePlan} {view : ClusterView}
    {observed : ObservedCluster ρ} (rest : ρ → ρ)
    (hobserved : n∈observed.instanceNames ∧ n∈observed.fencedInstances)
    (hidle : u.operatorHash = "" ∨ (view.statusByInstance.lookup n).any (·.isReady)=false ∨
      upgradeCandidates (Watch.upgradeView observed view) u.targetHash=[]) :
    s.upgrade c u view observed rest=s := by
  have hnot : n∉upgradeCandidates (Watch.upgradeView observed view) u.targetHash :=
    not_mem_upgradeCandidates hobserved.2 _
  have hwait : reconcileUpgrade c u (Watch.upgradeView observed view) = .done ∨
      reconcileUpgrade c u (Watch.upgradeView observed view) = .wait := by
    by_cases hhash : u.operatorHash = ""
    · exact .inl (if_pos hhash)
    rw [reconcileUpgrade,if_neg hhash]
    cases hcand : upgradeCandidates (Watch.upgradeView observed view) u.targetHash with
    | nil => exact .inl rfl
    | cons first others =>
      rw [hcand] at hnot
      have hdown : (view.statusByInstance.lookup n).any (·.isReady)=false := by
        simpa [hhash,hcand] using hidle
      refine .inr (if_pos (List.any_eq_true.mpr ⟨n,hobserved.1,?_⟩))
      exact decide_eq_true ⟨hnot,by rw [Watch.upgradeView,hdown]; exact Bool.false_ne_true⟩
  unfold Watch.upgrade
  cases hwait with
  | inl hdone => rw [hdone]
  | inr hw => rw [hw]

theorem InPlace.step (h : InPlace n s) {e : WatchEvent ρ} (hstep : s.step e=some s')
    (hlift : ¬Lifts n s e s') (hcalm : Undisturbed n s e s') : InPlace n s' := by
  cases e with
  | edit c =>
    cases hstep
    exact { h with }
  | pods f =>
    cases hstep
    exact h.pods hlift
  | others o =>
    cases hstep
    exact h.of_live h.live
  | begin =>
    cases hstep
    refine ⟨h.recorded,h.live,?_,by simp⟩
    rintro _ _ ⟨⟩
    exact h.recorded
  | scaleDown =>
    obtain ⟨copy,_,rfl⟩ := Option.map_eq_some_iff.mp hstep
    apply h.of_live
    by_contra hgone
    exact hlift ⟨h.live,hgone⟩
  | observe rest blocked =>
    simp only [Watch.step] at hstep
    split_ifs at hstep with hsome
    obtain ⟨copy,hcopy,rfl⟩ := Option.map_eq_some_iff.mp hstep
    have hnone : s.observed=none := by simpa using hsome
    refine ⟨h.recorded,h.live,by simp,?_⟩
    rintro _ ⟨⟩
    exact mem_observed h (h.copied hnone copy hcopy) (hcalm copy hcopy) rest blocked
  | fence name refreshed =>
    obtain ⟨copy,hcopy,rfl⟩ := Option.map_eq_some_iff.mp hstep
    obtain ⟨pod,hpod,hfence,hlive⟩ := h.live
    refine h.of_live ⟨pod,lookup_fenceInstance hpod hfence ?_,hfence,hlive⟩
    intro hname
    cases refreshed with
    | true => exact h.recorded
    | false => exact hcalm hname.symm rfl copy hcopy
  | autoReinit plan view =>
    obtain ⟨copy,hcopy,rfl⟩ := Option.map_eq_some_iff.mp hstep
    obtain ⟨raw,hraw⟩ := reconcileAutoReinit_eq copy.cluster plan view (s.seen copy)
    rw [hraw]
    exact h.write hcopy h.live
  | visit plan allowRoll ordinal =>
    obtain ⟨copy,hcopy,rfl⟩ := Option.map_eq_some_iff.mp hstep
    obtain ⟨pod,hpod,hfence,hlive⟩ := h.live
    have hseen : (s.seen copy).pods.lookup n=some pod := hpod
    refine h.write hcopy ⟨pod,?_,hfence,hlive⟩
    by_cases hn : n=instanceName copy.cluster.name ordinal
    · subst hn
      apply lookup_ensureInstance_self hseen hlive
      · by_contra htorn
        exact hlift ⟨copy,hcopy,rfl,by simpa using htorn⟩
      · exact hcalm copy hcopy rfl
    · exact (lookup_ensureInstance_of_ne hn).trans hpod
  | patch rest =>
    obtain ⟨observed,hobserved,rfl⟩ := Option.map_eq_some_iff.mp hstep
    refine ⟨?_,h.live,h.copied,h.observed⟩
    rw [patchStatus_fencedInstances]
    exact (h.observed observed hobserved).2
  | upgrade u view rest =>
    obtain ⟨copy,hcopy,hstep⟩ := Option.bind_eq_some_iff.mp hstep
    obtain ⟨observed,hobserved,rfl⟩ := Option.map_eq_some_iff.mp hstep
    rw [upgrade_eq_self rest (h.observed observed hobserved)
      (hcalm.imp_right (Or.imp_right fun hnone => hnone observed hobserved))]
    exact h

/-- In a run that does not lift it, of undisturbed steps, the fence stays. -/
theorem fence_kept (n : String) (s : Watch ρ) (es : List (WatchEvent ρ)) (hstart : InPlace n s)
    (hlift : Along Watch.step (fun s e s' => ¬Lifts n s e s') s es)
    (hcalm : Along Watch.step (Undisturbed n) s es) :
    Along Watch.step (fun _ _ s' => KeepsFence n s') s es := by
  have hplace : Along Watch.step (fun _ _ s' => InPlace n s') s es :=
    (hlift.and hcalm).invariant (fun _ _ _ hs hP hI => hI.step hs hP.1 hP.2) hstart
  exact hplace.imp fun _ _ _ _ h => h.keepsFence

end

/-- Three available instances, the second of them fenced. -/
def fencedObjects : Objects where
  pods := [⟨"db-1",{ ready := true, templateHash := "a" }⟩,
    ⟨"db-2",{ ready := true, fencing := true, templateHash := "a" }⟩,
    ⟨"db-3",{ ready := true, templateHash := "a" }⟩].toAList
  volumes := [⟨"db-1",{ uid := 1, status := some .ready }⟩,
    ⟨"db-2",{ uid := 2, status := some .ready }⟩,
    ⟨"db-3",{ uid := 3, status := some .ready }⟩].toAList

def fencedCluster : Cluster Unit where
  name := "db"
  ns := "default"
  instances := 3
  status :=
    { currentPrimary := "db-1", targetPrimary := "db-1", fencedInstances := ["db-2"], rest := () }

def fencedWatch : Watch Unit where
  cluster := fencedCluster
  objects := fencedObjects

theorem fencedWatch_inPlace : InPlace "db-2" fencedWatch where
  recorded := by decide
  live := ⟨{ ready := true, fencing := true, templateHash := "a" },by decide,rfl,rfl⟩
  copied := by simp [fencedWatch]
  observed := by simp [fencedWatch]

/-- A pass that applies the template `b` to the named instance. -/
def rollPass (name : String) (last : Nat) : List (WatchEvent Unit) :=
  let plan : InstancePlan :=
    { template := fun n => if n=name then "b" else "a", bootstrap := fun _ => "j" }
  [.begin,.observe { rest := id } false] ++
    (List.range' 1 last).map (fun i => .visit plan (i≠1) i)++[.patch id]

theorem fence_kept_otherRoll :
    (exec Watch.step fencedWatch (rollPass "db-3" 3)).any
        (fun s => (s.objects.pods.lookup "db-3").any (·.terminating)) ∧
      Along Watch.step (fun _ _ s' => KeepsFence "db-2" s') fencedWatch (rollPass "db-3" 3) := by
  refine ⟨by decide +kernel,fence_kept "db-2" fencedWatch _ fencedWatch_inPlace ?_ ?_⟩
  · decide +kernel
  · refine Along.cons rfl trivial (Along.cons rfl ?_ (Along.cons rfl ?_ (Along.cons rfl ?_
      (Along.cons rfl ?_ (Along.cons rfl trivial trivial)))))
    · rintro copy ⟨⟩
      decide
    · rintro copy ⟨⟩ hname
      exact absurd hname (by decide)
    · rintro copy ⟨⟩ _ _ howes
      rcases howes with ⟨pod,hpod,hstale⟩ | ⟨hoff,_⟩
      · cases hpod
        exact hstale rfl
      · cases hoff
    · rintro copy ⟨⟩ hname
      exact absurd hname (by decide)

/-- A pass rolls the fenced instance for a template; the new Pod has no fence. -/
theorem fence_lost :
    ¬∀ (n : String) (s : Watch Unit) (es : List (WatchEvent Unit)),InPlace n s →
      Along Watch.step (fun s e s' => ¬Lifts n s e s') s es →
      Along Watch.step (fun _ _ s' => KeepsFence n s') s es := by
  intro hall
  have hrun := hall "db-2" fencedWatch
    (rollPass "db-2" 2 ++
      .pods (fun _ pod => if pod.terminating then none else some pod)::rollPass "db-2" 2)
    fencedWatch_inPlace (by decide +kernel)
  revert hrun
  decide +kernel

end Cnmsql.Controller
