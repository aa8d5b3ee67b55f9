import Cnmsql.Controller.Rolling

namespace Cnmsql.Controller

open Framework Api

section

variable {ρ : Type} (c : Cluster ρ) (o : Objects) (name : String)

def removeInstanceResources : Objects :=
  let o := (o.deleteBootstrapJobs name).deletePod name
  if (o.volumes.lookup name).any (!pvcBootstrapped ·) then o.deleteVolume name else o

def planInstance : Option String :=
  (instanceOrdinal c.name name).map fun ordinal => instanceName c.name ordinal.toNat

/-- The surplus instances without a Pod that a bootstrap has left behind. -/
def surplusBootstraps : List String :=
  let started := o.volumes.keys.filter fun name =>
    (o.volumes.lookup name).any (·.status=some .initializing)
  ((o.jobs.keys++started).filterMap (planInstance c)).filter fun name =>
    Surplus c name ∧ name∉o.pods

def stampFencingAnnotation : Objects :=
  match o.pods.lookup name with
  | none => o
  | some pod => { o with pods := o.pods.insert name { pod with fencing := true } }

/-- What one Pod's round of `scaleDownReplicas` does. -/
def scaleDownInstance (pod : InstancePod) : Objects :=
  match scaleDownPod c pod with
  | .keep | .refuse => o
  | .fence => stampFencingAnnotation o pod.name
  | .delete => removeInstanceResources o ((planInstance c pod.name).getD pod.name)

/-- `scaleDownReplicas`, with its clean-up of surplus bootstraps. -/
def scaleDownObjects : Objects :=
  if changingPrimary c then o
  else
    let cleaned := (surplusBootstraps c o).foldl removeInstanceResources o
    (cleaned.pods.entries.map fun e => (⟨e.1,e.2.fencing⟩ : InstancePod)).foldl
      (scaleDownInstance c) cleaned

variable {o name} {n : String} {v : Volume}

@[simp] theorem deletePod_volumes : (o.deletePod name).volumes=o.volumes := by
  unfold Objects.deletePod
  split
  · rfl
  · rfl

@[simp] theorem deleteBootstrapJobs_volumes : (o.deleteBootstrapJobs name).volumes=o.volumes := rfl

theorem lookup_deleteVolume_of_ne (h : n≠name) :
    (o.deleteVolume name).volumes.lookup n=o.volumes.lookup n := by
  unfold Objects.deleteVolume
  split
  · rfl
  · simp [AList.lookup_insert_ne h]

theorem lookup_removeInstanceResources (hv : o.volumes.lookup n=some v)
    (hboot : pvcBootstrapped v=true) :
    (removeInstanceResources o name).volumes.lookup n=some v := by
  simp only [removeInstanceResources]
  split
  · rename_i hany
    have hne : n≠name := by
      rintro rfl
      simp [hv,hboot] at hany
    rw [lookup_deleteVolume_of_ne hne]
    simpa using hv
  · simpa using hv

theorem lookup_scaleDownInstance {c : Cluster ρ} {pod : InstancePod}
    (hv : o.volumes.lookup n=some v) (hboot : pvcBootstrapped v=true) :
    (scaleDownInstance c o pod).volumes.lookup n=some v := by
  unfold scaleDownInstance
  split
  · exact hv
  · exact hv
  · unfold stampFencingAnnotation
    split
    · exact hv
    · exact hv
  · exact lookup_removeInstanceResources hv hboot

theorem lookup_foldl {α : Type} {f : Objects → α → Objects}
    (hf : ∀ o a,o.volumes.lookup n=some v → (f o a).volumes.lookup n=some v) (l : List α)
    (hv : o.volumes.lookup n=some v) : (l.foldl f o).volumes.lookup n=some v := by
  induction l generalizing o with
  | nil => exact hv
  | cons a l ih => exact ih (hf o a hv)

theorem lookup_scaleDownObjects (c : Cluster ρ) (hv : o.volumes.lookup n=some v)
    (hboot : pvcBootstrapped v=true) : (scaleDownObjects c o).volumes.lookup n=some v := by
  unfold scaleDownObjects
  split
  · exact hv
  · apply lookup_foldl
    · intro o pod hv
      exact lookup_scaleDownInstance hv hboot
    · apply lookup_foldl
      · intro o name hv
        exact lookup_removeInstanceResources hv hboot
      · exact hv

def KeepsVolume (o : Objects) (n : String) : Prop := (o.volumes.lookup n).any (!·.terminating)=true

instance : Decidable (KeepsVolume o n) := inferInstanceAs (Decidable (_ = _))

theorem keepsVolume_insert (hkeep : KeepsVolume o n) {v' : Volume}
    (hsame : ∀ v,o.volumes.lookup name=some v → v'.terminating=v.terminating) :
    ((o.volumes.insert name v').lookup n).any (!·.terminating)=true := by
  by_cases hn : n=name
  · subst hn
    obtain ⟨v,hv,hlive⟩ := (Option.any_eq_true _ _).mp hkeep
    rw [AList.lookup_insert,Option.any_some,hsame v hv]
    exact hlive
  · rw [AList.lookup_insert_ne hn]
    exact hkeep

variable {plan : InstancePlan}

theorem ensurePVC_keepsVolume (hkeep : KeepsVolume o n) :
    KeepsVolume (ensurePVC plan name o).2 n := by
  unfold ensurePVC
  split
  · rename_i hnone
    exact keepsVolume_insert hkeep (by simp [hnone])
  · rename_i v hv
    exact keepsVolume_insert hkeep (by simp [hv])

theorem ensureBootstrapped_keepsVolume {isPrimary : Bool}
    (hkeep : KeepsVolume o n) : KeepsVolume (ensureBootstrapped plan isPrimary name o).2 n := by
  unfold KeepsVolume
  cases @ensureBootstrapped_volumes plan o name isPrimary with
  | inl hsame => rwa [hsame]
  | inr hready =>
    obtain ⟨v,hv,hvolumes⟩ := hready
    rw [hvolumes]
    exact keepsVolume_insert hkeep (by simp [hv])

theorem rollForResize_volumes {allowRoll : Bool} :
    (rollForResize allowRoll name o).objects.volumes=o.volumes := by
  unfold rollForResize
  split
  · rfl
  · repeat' split
    all_goals simp

theorem ensurePod_volumes {allowRoll : Bool} :
    (ensurePod plan allowRoll name o).objects.volumes=o.volumes := by
  unfold ensurePod
  repeat' split
  all_goals simp

theorem reconcileReinit_torn {isPrimary : Bool} (h : (reconcileReinit isPrimary name o).1=true) :
    reinitRequested o.reinit name=true ∧ isPrimary=false ∧
      (reconcileReinit isPrimary name o).2=o.tearDown name := by
  unfold reconcileReinit at h ⊢
  split_ifs at h ⊢ with hnot hprimary hleft
  exact ⟨by simpa using hnot,by simpa using hprimary,rfl⟩

/-- Provisioning an instance deletes its own volume at most, on request, and never the planned
primary's. -/
theorem ensureInstance_keepsVolume {isPrimary allowRoll : Bool} (hkeep : KeepsVolume o n)
    (hlost : ¬KeepsVolume (ensureInstance plan isPrimary allowRoll name o).objects n) :
    n=name ∧ reinitRequested o.reinit name=true ∧ isPrimary=false := by
  cases htorn : (reconcileReinit isPrimary name o).1 with
  | true =>
    obtain ⟨hlisted,hreplica,hdown⟩ := reconcileReinit_torn htorn
    refine ⟨?_,hlisted,hreplica⟩
    by_contra hn
    apply hlost
    simp only [ensureInstance,htorn,if_true,hdown,KeepsVolume,Objects.tearDown]
    rw [lookup_deleteVolume_of_ne hn]
    simpa [KeepsVolume] using hkeep
  | false =>
    exfalso
    apply hlost
    have hdone : KeepsVolume (reconcileReinit isPrimary name o).2 n := by
      rw [KeepsVolume,(reconcileReinit_done htorn).2]
      exact hkeep
    have hbooted := @ensureBootstrapped_keepsVolume _ name n plan isPrimary
      (@ensurePVC_keepsVolume _ name n plan hdone)
    simp only [ensureInstance,htorn,Bool.false_eq_true,if_false]
    split
    · exact hbooted
    · split
      · rw [KeepsVolume,rollForResize_volumes]
        exact hbooted
      · rw [KeepsVolume,ensurePod_volumes]
        exact hbooted

/-- The Cluster a pass's plan was made from, and its copy of the re-init annotation. -/
structure Copy (ρ : Type) where
  cluster : Cluster ρ
  reinit : String

/-- A cluster and the pass over it, if there is one. -/
structure Deployment (ρ : Type) where
  cluster : Cluster ρ
  objects : Objects
  copy : Option (Copy ρ) := none

/-- The object or what it owns changes, or the operator takes a step; a clean-up goes by whatever
copy it has. -/
inductive DeploymentEvent (ρ : Type) where
  | cluster (c : Cluster ρ)
  | objects (o : Objects)
  | begin
  | autoReinit (plan : InstancePlan) (view : ClusterView)
  | visit (plan : InstancePlan) (allowRoll : Bool) (ordinal : Nat)
  | cleanUp (copy : Cluster ρ)

namespace Deployment

variable (s : Deployment ρ) (copy : Copy ρ)

def seen : Objects := { s.objects with reinit := copy.reinit }

/-- The pass writes what it has done; the annotation only when it has changed it. -/
def write (o : Objects) : Deployment ρ :=
  { s with
    objects := { o with reinit := if o.reinit=copy.reinit then s.objects.reinit else o.reinit }
    copy := some { copy with reinit := o.reinit } }

def visit (c : Cluster ρ) (plan : InstancePlan) (allowRoll : Bool) (ordinal : Nat) (o : Objects) :
    Ensured :=
  let name := instanceName c.name ordinal
  ensureInstance plan (isPlannedPrimary c name) allowRoll name o

def step : DeploymentEvent ρ → Option (Deployment ρ)
  | .cluster c => some { s with cluster := c }
  | .objects o => some { s with objects := o }
  | .begin => some { s with copy := some ⟨s.cluster,s.objects.reinit⟩ }
  | .autoReinit plan view => s.copy.map fun copy =>
    s.write copy (reconcileAutoReinit copy.cluster plan view (s.seen copy))
  | .visit plan allowRoll ordinal => s.copy.map fun copy =>
    s.write copy (visit copy.cluster plan allowRoll ordinal (s.seen copy)).objects
  | .cleanUp copy => some { s with objects := scaleDownObjects copy s.objects }

def reach (c : Cluster ρ) (o : Objects) : Deployment ρ :=
  { s with objects := o, copy := some ⟨c,o.reinit⟩ }

variable (s : Deployment ρ) (c : Cluster ρ) (plan : InstancePlan) (view : ClusterView) (o : Objects)

theorem write_reach (o' : Objects) : (s.reach c o).write ⟨c,o.reinit⟩ o'=s.reach c o' := by
  by_cases hsame : o'.reinit=o.reinit
  · simp [write,reach,← hsame]
  · simp [write,reach,hsame]

theorem step_visit (plan : InstancePlan) (allowRoll : Bool) (ordinal : Nat) :
    (s.reach c o).step (.visit plan allowRoll ordinal) =
      some (s.reach c (visit c plan allowRoll ordinal o).objects) :=
  congrArg some (write_reach s c o _)

theorem step_autoReinit (plan : InstancePlan) (view : ClusterView) :
    (s.reach c o).step (.autoReinit plan view) =
      some (s.reach c (reconcileAutoReinit c plan view o)) :=
  congrArg some (write_reach s c o _)

/-- Visits by the copy a pass has, each with whether it may roll the Pod. -/
def visits (l : List (Bool × Nat)) : List (DeploymentEvent ρ) := l.map fun v => .visit plan v.1 v.2

theorem instanceLoop_visits (primary : String) (l : List Nat) (o : Objects) :
    ∃ vs,exec step (s.reach c o) (visits plan vs)=some (s.reach c
      (((instanceLoop c plan view primary l o).1.map (·.objects)).getD
        (instanceLoop c plan view primary l o).2)) := by
  induction l generalizing o with
  | nil => exact ⟨[],rfl⟩
  | cons i rest ih =>
    have hvisit := step_visit s c o plan (instanceName c.name i≠primary) i
    simp only [instanceLoop]
    split_ifs with hgate hrolled
    · exact ⟨[],rfl⟩
    · exact ⟨[(_,i)],(exec_cons step).mpr ⟨_,hvisit,rfl⟩⟩
    · obtain ⟨vs,hvs⟩ := ih (visit c plan (instanceName c.name i≠primary) i o).objects
      exact ⟨(_,i)::vs,(exec_cons step).mpr ⟨_,hvisit,hvs⟩⟩

theorem rollPrimaryLast_visits : ∃ vs,exec step (s.reach c o) (visits plan vs) =
    some (s.reach c (rollPrimaryLast c plan view o).objects) := by
  simp only [rollPrimaryLast]
  split
  · exact ⟨[],rfl⟩
  · rename_i ordinal _
    split_ifs
    · exact ⟨[(true,_)],(exec_cons step).mpr ⟨_,step_visit s c o plan true ordinal.toNat,rfl⟩⟩
    · exact ⟨[],rfl⟩
    · exact ⟨[],rfl⟩

/-- A pass that nothing comes in between is a run of its steps. -/
theorem reconcileInstances_visits :
    ∃ vs,exec step s (.begin :: .autoReinit plan view::visits plan vs) =
      some (s.reach s.cluster (reconcileInstances s.cluster plan view s.objects).objects) := by
  have hauto := step_autoReinit s s.cluster s.objects plan view
  suffices h : ∃ vs,exec step (s.reach s.cluster (reconcileAutoReinit s.cluster plan view s.objects))
      (visits plan vs) =
        some (s.reach s.cluster (reconcileInstances s.cluster plan view s.objects).objects) by
    obtain ⟨vs,hvs⟩ := h
    exact ⟨vs,(exec_cons step).mpr ⟨_,rfl,(exec_cons step).mpr ⟨_,hauto,hvs⟩⟩⟩
  simp only [reconcileInstances]
  split
  · rename_i ordinal _
    exact ⟨[(false,_)],(exec_cons step).mpr ⟨_,step_visit s _ _ plan false ordinal.toNat,rfl⟩⟩
  · obtain ⟨vs,hvs⟩ := instanceLoop_visits s s.cluster plan view (electedPrimary s.cluster view)
      (List.range' 1 (plannedInstances s.cluster)) (reconcileAutoReinit s.cluster plan view s.objects)
    split
    · rename_i p o hloop
      rw [hloop] at hvs
      exact ⟨vs,hvs⟩
    · rename_i o hloop
      rw [hloop] at hvs
      obtain ⟨vs',hvs'⟩ := rollPrimaryLast_visits s s.cluster plan view o
      refine ⟨vs++vs',?_⟩
      rw [visits,List.map_append]
      exact (exec_append step).mpr ⟨_,hvs,hvs'⟩

end Deployment

def Wiped (o o' : Objects) (n : String) : Prop :=
  (o.volumes.lookup n).any (fun v => pvcBootstrapped v && !v.terminating)=true ∧ ¬KeepsVolume o' n

variable (s : Deployment ρ)

/-- To be re-initialised, and neither the primary nor becoming it. -/
def MayWipe (n : String) : Prop :=
  reinitRequested s.objects.reinit n=true ∧ n≠s.cluster.status.currentPrimary ∧
    ¬(changingPrimary s.cluster ∧ n=s.cluster.status.targetPrimary)

/-- The operator wipes only volumes it may. -/
def Spares : DeploymentEvent ρ → Deployment ρ → Prop
  | .cluster _,_ | .objects _,_ => True
  | .begin,s' | .autoReinit ..,s' | .visit ..,s' | .cleanUp _,s' =>
    ∀ n,Wiped s.objects s'.objects n → MayWipe s n

/-- A visit's copy is current, and no listed instance is becoming the primary. -/
def Settled : DeploymentEvent ρ → Deployment ρ → Prop
  | .visit ..,_ =>
    (∀ copy∈s.copy,copy.cluster.status.currentPrimary=s.cluster.status.currentPrimary ∧
      copy.reinit=s.objects.reinit) ∧
    (changingPrimary s.cluster →
      reinitRequested s.objects.reinit s.cluster.status.targetPrimary=false)
  | _,_ => True

theorem not_wiped_of_volumes_eq {o o' : Objects} (h : o'.volumes=o.volumes) (n : String) :
    ¬Wiped o o' n := by
  rintro ⟨hdata,hlost⟩
  apply hlost
  rw [KeepsVolume,h]
  obtain ⟨v,hv,hlive⟩ := (Option.any_eq_true _ _).mp hdata
  rw [hv]
  exact (Bool.and_eq_true_iff.mp hlive).2

theorem instanceName_ne_empty (clusterName : String) (ordinal : Nat) :
    instanceName clusterName ordinal ≠ "" := by
  intro h
  have hlist := toList_instanceName clusterName ordinal
  rw [h] at hlist
  simp at hlist

theorem ne_currentPrimary_of_replica {c : Cluster ρ} {ordinal : Nat}
    (h : isPlannedPrimary c (instanceName c.name ordinal)=false) :
    instanceName c.name ordinal≠c.status.currentPrimary := by
  simp only [isPlannedPrimary,primaryName] at h
  split_ifs at h with hset
  · exact of_decide_eq_false h
  · intro hname
    rw [not_not.mp hset] at hname
    exact instanceName_ne_empty _ _ hname

theorem spares_visit {s s' : Deployment ρ} {plan : InstancePlan} {allowRoll : Bool} {ordinal : Nat}
    (hstep : s.step (.visit plan allowRoll ordinal)=some s')
    (hset : Settled s (.visit plan allowRoll ordinal) s') :
    Spares s (.visit plan allowRoll ordinal) s' := by
  obtain ⟨copy,hcopy,rfl⟩ := Option.map_eq_some_iff.mp hstep
  obtain ⟨hcurrent,htarget⟩ := hset
  obtain ⟨hprimary,hreinit⟩ := hcurrent copy hcopy
  rintro n ⟨hdata,hlost⟩
  have hkeep : KeepsVolume (s.seen copy) n := by
    obtain ⟨v,hv,hlive⟩ := (Option.any_eq_true _ _).mp hdata
    exact (Option.any_eq_true _ _).mpr ⟨v,hv,(Bool.and_eq_true_iff.mp hlive).2⟩
  obtain ⟨rfl,hlisted,hreplica⟩ := ensureInstance_keepsVolume hkeep hlost
  rw [Deployment.seen,hreinit] at hlisted
  refine ⟨hlisted,hprimary ▸ ne_currentPrimary_of_replica hreplica,?_⟩
  rintro ⟨hchanging,hname⟩
  rw [hname,htarget hchanging] at hlisted
  cases hlisted

/-- In a run whose visits all find a settled cluster, only what may be wiped is. -/
theorem volumes_wiped_on_request (s : Deployment ρ) (es : List (DeploymentEvent ρ))
    (h : Along Deployment.step Settled s es) : Along Deployment.step Spares s es := by
  refine h.imp ?_
  intro s e s' hstep hset
  cases e with
  | cluster c => trivial
  | objects o => trivial
  | begin =>
    cases hstep
    exact fun n hn => absurd hn (not_wiped_of_volumes_eq rfl n)
  | autoReinit plan view =>
    obtain ⟨copy,hcopy,rfl⟩ := Option.map_eq_some_iff.mp hstep
    obtain ⟨raw,hraw⟩ := reconcileAutoReinit_eq copy.cluster plan view (s.seen copy)
    refine fun n hn => absurd hn (not_wiped_of_volumes_eq ?_ n)
    rw [hraw]
    rfl
  | visit plan allowRoll ordinal => exact spares_visit hstep hset
  | cleanUp copy =>
    cases hstep
    rintro n ⟨hdata,hlost⟩
    obtain ⟨v,hv,hlive⟩ := (Option.any_eq_true _ _).mp hdata
    obtain ⟨hboot,hlive⟩ := Bool.and_eq_true_iff.mp hlive
    refine absurd ((Option.any_eq_true _ _).mpr ⟨v,?_,hlive⟩) hlost
    exact lookup_scaleDownObjects copy hv hboot

end

def listedReplica : Objects where
  pods := [⟨"db-1",{ ready := true, templateHash := "a" }⟩,
    ⟨"db-2",{ ready := true, templateHash := "a" }⟩].toAList
  volumes := [⟨"db-1",{ uid := 1, status := some .ready }⟩,
    ⟨"db-2",{ uid := 2, status := some .ready }⟩].toAList
  reinit := "db-2"

/-- A cluster of two with the first as its primary, and the given target. -/
def pairWithTarget (target : String) : Cluster Unit where
  name := "db"
  ns := "default"
  instances := 2
  status := { currentPrimary := "db-1", targetPrimary := target, rest := () }

def pairPlan : InstancePlan where
  template := fun _ => "a"
  bootstrap := fun _ => "j"

def pairPass : List (DeploymentEvent Unit) := [.begin,.visit pairPlan false 1,.visit pairPlan true 2]

theorem volumes_wiped_on_request_replica :
    (exec Deployment.step ⟨pairWithTarget "db-1",listedReplica,none⟩ pairPass).any
        (fun s => ¬KeepsVolume s.objects "db-2") ∧
      Along Deployment.step Spares ⟨pairWithTarget "db-1",listedReplica,none⟩ pairPass := by
  refine ⟨by decide +kernel,volumes_wiped_on_request _ _ ?_⟩
  refine Along.cons rfl trivial (Along.cons rfl ?_ (Along.cons rfl ?_ trivial))
  · exact ⟨by rintro _ ⟨⟩; decide +kernel,by decide +kernel⟩
  · exact ⟨by rintro _ ⟨⟩; decide +kernel,by decide +kernel⟩

/-- A switchover to the listed instance is requested; the next pass deletes its volume. -/
theorem target_wiped :
    ¬∀ (s : Deployment Unit) (es : List (DeploymentEvent Unit)),Along Deployment.step Spares s es := by
  intro hall
  have hrun := hall ⟨pairWithTarget "db-1",listedReplica,none⟩
    (.cluster (pairWithTarget "db-2")::pairPass)
  have hvisit := ((((hrun _ rfl).2 _ rfl).2 _ rfl).2 _ rfl).1
  have hwiped := hvisit "db-2" ⟨by decide +kernel,by decide +kernel⟩
  exact hwiped.2.2 (by decide +kernel)

end Cnmsql.Controller
