import Cnmsql.Controller.Instances

namespace Cnmsql.Controller

open Framework Api

section

/-- The Pods there were, new ones of the current template that are not Ready yet, and no new resize.
-/
structure Extends (plan : InstancePlan) (o o' : Objects) : Prop where
  kept : ∀ n pod,o.pods.lookup n=some pod → o'.pods.lookup n=some pod
  fresh : ∀ n pod,o'.pods.lookup n=some pod → o.pods.lookup n=some pod ∨
    o.pods.lookup n=none ∧ pod={ templateHash := plan.template n }
  resize : ∀ n v,o'.volumes.lookup n=some v → v.resizePending=true →
    ∃ v₀,o.volumes.lookup n=some v₀ ∧ v₀.resizePending=true

variable {plan : InstancePlan} {o o' o'' : Objects} {name : String}

theorem Extends.trans (h : Extends plan o o') (h' : Extends plan o' o'') : Extends plan o o'' where
  kept n pod hp := h'.kept n pod (h.kept n pod hp)
  fresh n pod hp := by
    cases h'.fresh n pod hp with
    | inl hold => exact h.fresh n pod hold
    | inr hnew =>
      refine .inr ⟨?_,hnew.2⟩
      cases hl : o.pods.lookup n with
      | none => rfl
      | some pod =>
        rw [h.kept n pod hl] at hnew
        cases hnew.1
  resize n v hv hr := by
    obtain ⟨v₁,hv₁,hr₁⟩ := h'.resize n v hv hr
    exact h.resize n v₁ hv₁ hr₁

theorem Extends.of_pods_eq (hpods : o'.pods=o.pods)
    (hresize : ∀ n v,o'.volumes.lookup n=some v → v.resizePending=true →
      ∃ v₀,o.volumes.lookup n=some v₀ ∧ v₀.resizePending=true) : Extends plan o o' where
  kept _ _ h := hpods ▸ h
  fresh _ _ h := .inl (hpods ▸ h)
  resize := hresize

theorem Extends.refl : Extends plan o o := .of_pods_eq rfl fun _ v hv hr => ⟨v,hv,hr⟩

variable {isPrimary allowRoll : Bool}

theorem reconcileReinit_done (h : (reconcileReinit isPrimary name o).1=false) :
    (reconcileReinit isPrimary name o).2.pods=o.pods ∧
      (reconcileReinit isPrimary name o).2.volumes=o.volumes := by
  unfold reconcileReinit at h ⊢
  split_ifs at h ⊢ with h₁ h₂ h₃
  · exact ⟨rfl,rfl⟩
  · exact ⟨rfl,rfl⟩
  · exact ⟨rfl,rfl⟩

theorem ensurePVC_pods : (ensurePVC plan name o).2.pods=o.pods := by
  unfold ensurePVC
  split
  · rfl
  · rfl

theorem ensurePVC_resize {n : String} {v : Volume}
    (hv : (ensurePVC plan name o).2.volumes.lookup n=some v) (hr : v.resizePending=true) :
    ∃ v₀,o.volumes.lookup n=some v₀ ∧ v₀.resizePending=true := by
  unfold ensurePVC at hv
  split at hv
  · rcases Map.lookup_insert_eq_some hv with ⟨rfl,rfl⟩ | hold
    · cases hr
    · exact ⟨v,hold,hr⟩
  · rename_i v₀ hv₀
    rcases Map.lookup_insert_eq_some hv with ⟨rfl,rfl⟩ | hold
    · exact ⟨v₀,hv₀,hr⟩
    · exact ⟨v,hold,hr⟩

theorem ensurePVC_needsRoll (h : (ensurePVC plan name o).1=true) :
    plan.offlineResize=true ∧ ∃ v,o.volumes.lookup name=some v ∧ v.resizePending=true := by
  unfold ensurePVC at h
  split at h
  · cases h
  · rename_i v hv
    rw [Bool.and_eq_true] at h
    exact ⟨h.1,v,hv,h.2⟩

theorem ensureBootstrapped_pods : (ensureBootstrapped plan isPrimary name o).2.pods=o.pods := by
  unfold ensureBootstrapped
  repeat' split
  all_goals rfl

theorem ensureBootstrapped_volumes :
    (ensureBootstrapped plan isPrimary name o).2.volumes=o.volumes ∨
      ∃ v,o.volumes.lookup name=some v ∧
        (ensureBootstrapped plan isPrimary name o).2.volumes =
          o.volumes.insert name { v with status := some .ready } := by
  unfold ensureBootstrapped
  split
  · exact .inl rfl
  · rename_i v hv
    repeat' split
    all_goals first
      | exact .inl rfl
      | exact .inr ⟨v,hv,rfl⟩

theorem ensureBootstrapped_resize {isPrimary : Bool} {n : String} {v : Volume}
    (hv : (ensureBootstrapped plan isPrimary name o).2.volumes.lookup n=some v)
    (hr : v.resizePending=true) :
    ∃ v₀,o.volumes.lookup n=some v₀ ∧ v₀.resizePending=true := by
  cases @ensureBootstrapped_volumes plan o name isPrimary with
  | inl hsame => exact ⟨v,hsame ▸ hv,hr⟩
  | inr hready =>
    obtain ⟨v₀,hv₀,hvolumes⟩ := hready
    rw [hvolumes] at hv
    rcases Map.lookup_insert_eq_some hv with ⟨rfl,rfl⟩ | hold
    · exact ⟨v₀,hv₀,hr⟩
    · exact ⟨v,hold,hr⟩

theorem extends_bootstrapped (h : (reconcileReinit isPrimary name o).1=false) :
    (ensureBootstrapped plan isPrimary name
        (ensurePVC plan name (reconcileReinit isPrimary name o).2).2).2.pods=o.pods ∧
      Extends plan o (ensureBootstrapped plan isPrimary name
        (ensurePVC plan name (reconcileReinit isPrimary name o).2).2).2 := by
  obtain ⟨hpods,hvolumes⟩ := reconcileReinit_done h
  have hsame : (ensureBootstrapped plan isPrimary name
      (ensurePVC plan name (reconcileReinit isPrimary name o).2).2).2.pods=o.pods := by
    rw [ensureBootstrapped_pods,ensurePVC_pods,hpods]
  refine ⟨hsame,.of_pods_eq hsame ?_⟩
  intro n v hv hr
  obtain ⟨v₁,hv₁,hr₁⟩ := ensureBootstrapped_resize hv hr
  rw [← hvolumes]
  exact ensurePVC_resize hv₁ hr₁

/-- The Pod is of an old template, or a resize waits for it. -/
def OwesRoll (plan : InstancePlan) (o : Objects) (name : String) : Prop :=
  (∃ pod,o.pods.lookup name=some pod ∧ pod.templateHash≠plan.template name) ∨
    plan.offlineResize=true ∧ ∃ v,o.volumes.lookup name=some v ∧ v.resizePending=true

theorem Extends.owesRoll (h : Extends plan o o') (howes : OwesRoll plan o' name) :
    OwesRoll plan o name := by
  cases howes with
  | inl hstale =>
    obtain ⟨pod,hpod,hhash⟩ := hstale
    cases h.fresh name pod hpod with
    | inl hold => exact .inl ⟨pod,hold,hhash⟩
    | inr hnew =>
      rw [hnew.2] at hhash
      exact absurd rfl hhash
  | inr hresize =>
    obtain ⟨hoff,v,hv,hr⟩ := hresize
    exact .inr ⟨hoff,h.resize name v hv hr⟩

theorem rollForResize_cases (h : (rollForResize allowRoll name o).rolled=true) :
    allowRoll=true ∧ (o.pods.lookup name).isSome=true ∧
      ∀ d,(rollForResize allowRoll name o).deleted=some d → d=⟨name,.resize,o⟩ := by
  unfold rollForResize at h ⊢
  split_ifs at h ⊢ with hallow
  cases hpod : o.pods.lookup name with
  | none => simp [hpod] at h
  | some pod =>
    refine ⟨hallow,rfl,?_⟩
    intro d hd
    simp only at hd
    split_ifs at hd
    cases hd
    rfl

theorem ensurePod_spec :
    ((ensurePod plan allowRoll name o).rolled=false →
      Extends plan o (ensurePod plan allowRoll name o).objects) ∧
    ∀ d,(ensurePod plan allowRoll name o).deleted=some d →
      d=⟨name,.template,o⟩ ∧ allowRoll=true ∧
        ∃ pod,o.pods.lookup name=some pod ∧ pod.templateHash≠plan.template name := by
  unfold ensurePod
  split
  · rename_i hnone
    refine ⟨fun _ => ⟨?_,?_,fun _ v hv hr => ⟨v,hv,hr⟩⟩,by simp⟩
    · intro n pod hp
      have hn : n≠name := by
        rintro rfl
        rw [hnone] at hp
        cases hp
      simpa [AList.lookup_insert_ne hn] using hp
    · intro n pod hp
      rcases Map.lookup_insert_eq_some hp with ⟨rfl,rfl⟩ | hold
      · exact .inr ⟨hnone,rfl⟩
      · exact .inl hold
  · rename_i pod hpod
    split_ifs with hterm hhash hallow
    · exact ⟨fun _ => .refl,by simp⟩
    · refine ⟨by simp,?_⟩
      intro d hd
      cases hd
      exact ⟨rfl,hallow,pod,hpod,hhash⟩
    · exact ⟨fun _ => .refl,by simp⟩
    · exact ⟨fun _ => .refl,by simp⟩

/-- One instance's turn adds to what there is, or deletes its own Pod, which then owed a roll if it
is not torn down. -/
theorem ensureInstance_spec :
    ((ensureInstance plan isPrimary allowRoll name o).rolled=false →
      Extends plan o (ensureInstance plan isPrimary allowRoll name o).objects) ∧
    ∀ d,(ensureInstance plan isPrimary allowRoll name o).deleted=some d →
      d.name=name ∧ Extends plan o d.before ∧
        (d.cause ≠ .reinit → allowRoll=true ∧ (o.pods.lookup name).isSome=true ∧
          OwesRoll plan o name) := by
  simp only [ensureInstance]
  split
  · refine ⟨by simp,?_⟩
    intro d hd
    split at hd
    · cases hd
      exact ⟨rfl,.refl,fun h => absurd rfl h⟩
    · cases hd
  · rename_i htorn
    obtain ⟨hpods,hext⟩ := @extends_bootstrapped plan _ _ _ (Bool.eq_false_iff.mpr htorn)
    have hvolumes := (reconcileReinit_done (Bool.eq_false_iff.mpr htorn)).2
    split
    · exact ⟨fun _ => hext,by simp⟩
    · split
      · rename_i hresize
        obtain ⟨hallow,hsome,hdel⟩ := rollForResize_cases hresize.2
        refine ⟨by simp [hresize.2],?_⟩
        intro d hd
        cases hdel d hd
        refine ⟨rfl,hext,fun _ => ⟨hallow,hpods ▸ hsome,.inr ?_⟩⟩
        rw [← hvolumes]
        exact ensurePVC_needsRoll hresize.1
      · obtain ⟨hadd,hdel⟩ := @ensurePod_spec plan (ensureBootstrapped plan isPrimary name
          (ensurePVC plan name (reconcileReinit isPrimary name o).2).2).2 name allowRoll
        refine ⟨fun h => hext.trans (hadd h),?_⟩
        intro d hd
        obtain ⟨rfl,hallow,pod,hpod,hhash⟩ := hdel d hd
        rw [hpods] at hpod
        exact ⟨rfl,hext,fun _ => ⟨hallow,by simp [hpod],.inl ⟨pod,hpod,hhash⟩⟩⟩

end

section

variable {ρ : Type} {c : Cluster ρ} {plan : InstancePlan} {view : ClusterView} {o o' : Objects}

/-- A live, Ready Pod that is not on its way out, `ONLINE` under group replication. -/
def Available (c : Cluster ρ) (view : ClusterView) (o : Objects) (name : String) : Prop :=
  podAvailable o name=true ∧ (c.mode = .async ∨ memberOnline view.groupReplication name=true)

instance (name : String) : Decidable (Available c view o name) :=
  inferInstanceAs (Decidable (_ ∧ _))

def FencedPod (o : Objects) (name : String) : Prop := (o.pods.lookup name).any (·.fencing)=true

instance (name : String) : Decidable (FencedPod o name) := inferInstanceAs (Decidable (_ = true))

variable {name : String}

theorem available_of_fullyReady (h : instanceFullyReady c view o name=true) :
    Available c view o name := by
  simp only [instanceFullyReady,Bool.and_eq_true,Bool.or_eq_true,decide_eq_true_eq] at h
  exact ⟨h.1.1,h.2⟩

theorem podAvailable_iff {name : String} :
    podAvailable o name=true ↔
      ∃ pod,o.pods.lookup name=some pod ∧ pod.terminating=false ∧ pod.ready=true := by
  unfold podAvailable
  cases o.pods.lookup name with
  | none => simp
  | some pod => simp

theorem Extends.podAvailable_iff (h : Extends plan o o') {name : String} :
    podAvailable o' name=true ↔ podAvailable o name=true := by
  rw [Controller.podAvailable_iff,Controller.podAvailable_iff]
  constructor
  · intro hp
    obtain ⟨pod,hpod,hterm,hready⟩ := hp
    cases h.fresh name pod hpod with
    | inl hold => exact ⟨pod,hold,hterm,hready⟩
    | inr hnew =>
      rw [hnew.2] at hready
      cases hready
  · intro hp
    obtain ⟨pod,hpod,hflags⟩ := hp
    exact ⟨pod,h.kept name pod hpod,hflags⟩

theorem Extends.available_iff (h : Extends plan o o') :
    Available c view o' name ↔ Available c view o name := by
  rw [Available,Available,h.podAvailable_iff]

theorem Extends.fullyReady_iff (h : Extends plan o o') :
    instanceFullyReady c view o' name=true ↔ instanceFullyReady c view o name=true := by
  simp only [instanceFullyReady,Bool.and_eq_true,h.podAvailable_iff]

theorem Extends.fencedPod (h : Extends plan o o') (hf : FencedPod o name) : FencedPod o' name := by
  unfold FencedPod at hf ⊢
  rw [Option.any_eq_true] at hf ⊢
  obtain ⟨pod,hpod,hfence⟩ := hf
  exact ⟨pod,h.kept name pod hpod,hfence⟩

end

section

variable {ρ : Type} {c : Cluster ρ} {plan : InstancePlan} {view : ClusterView} {o₀ o : Objects}

def AvailableBelow (c : Cluster ρ) (view : ClusterView) (o : Objects) (i : Nat) : Prop :=
  ∀ j,1≤j → j < i → Available c view o (instanceName c.name j)

variable {i : Nat}

theorem fullyReady_of_gate (hquorum : quorumRecoveryBlocked c view=false)
    (hpod : (o.pods.lookup (instanceName c.name i)).isSome=true)
    (hgate : gateInstance c view o i=true) :
    instanceFullyReady c view o (instanceName c.name (i-1))=true := by
  simp only [gateInstance,hpod,hquorum] at hgate
  simpa using hgate

/-- What the loop has established when it comes to an ordinal. -/
structure Ramped (c : Cluster ρ) (plan : InstancePlan) (view : ClusterView) (o₀ o : Objects)
    (i : Nat) : Prop where
  extend : Extends plan o₀ o
  below : quorumRecoveryBlocked c view=false →
    instanceFullyReady c view o (instanceName c.name (i-1))=true → AvailableBelow c view o i

/-- A Pod the loop deletes is that of a replica that owed a roll; with a quorum the instances below
it are available. -/
structure RolledInLoop (c : Cluster ρ) (plan : InstancePlan) (view : ClusterView)
    (primary : String) (o₀ : Objects) (d : Deletion) (i : Nat) : Prop where
  name : d.name=instanceName c.name i
  replica : d.name≠primary
  owes : OwesRoll plan o₀ d.name
  extend : Extends plan o₀ d.before
  below : quorumRecoveryBlocked c view=false → AvailableBelow c view d.before i

theorem Ramped.next {o' : Objects} (h : Ramped c plan view o₀ o i)
    (hgate : 1 < i → gateInstance c view o i=true) (hext : Extends plan o o') :
    Ramped c plan view o₀ o' (i+1) where
  extend := h.extend.trans hext
  below hquorum hready := by
    rw [Nat.add_sub_cancel,hext.fullyReady_iff] at hready
    have havail := available_of_fullyReady hready
    intro j hj hlt
    rw [hext.available_iff]
    by_cases hji : j=i
    · rw [hji]
      exact havail
    · -- The ready instance has a Pod, so the gate has looked at the one before it.
      obtain ⟨pod,hpod,_⟩ := podAvailable_iff.mp havail.1
      have hprev := fullyReady_of_gate hquorum (by simp [hpod]) (hgate (by omega))
      exact h.below hquorum hprev j hj (by omega)

theorem Ramped.rolled {primary : String} {isPrimary : Bool} {d : Deletion}
    (h : Ramped c plan view o₀ o i) (hgate : 1 < i → gateInstance c view o i=true)
    (hd : (ensureInstance plan isPrimary (decide (instanceName c.name i≠primary)) (instanceName c.name i) o).deleted=some d)
    (hcause : d.cause ≠ .reinit) : RolledInLoop c plan view primary o₀ d i := by
  obtain ⟨hname,hext,howes⟩ := ensureInstance_spec.2 d hd
  obtain ⟨hallow,hsome,howes⟩ := howes hcause
  refine ⟨hname,?_,?_,h.extend.trans hext,?_⟩
  · rw [hname]
    simpa using hallow
  · rw [hname]
    exact h.extend.owesRoll howes
  · intro hquorum j hj hlt
    have hprev := fullyReady_of_gate hquorum hsome (hgate (by omega))
    exact hext.available_iff.mpr (h.below hquorum hprev j hj hlt)

/-- The loop deletes nothing, or it stops at a roll. -/
theorem instanceLoop_spec {primary : String} (k : Nat) {o : Objects} (h : Ramped c plan view o₀ o i)
    {r : Option Provisioned × Objects}
    (hr : instanceLoop c plan view primary (List.range' i k) o=r) :
    (∀ p,r.1=some p → p.provisioned=false ∧ ∀ d,p.deleted=some d → d.cause ≠ .reinit →
      ∃ j,i≤j ∧ j < i+k ∧ RolledInLoop c plan view primary o₀ d j) ∧
    (r.1=none → Extends plan o₀ r.2) := by
  induction k generalizing i o with
  | zero =>
    subst hr
    exact ⟨by simp [instanceLoop],fun _ => h.extend⟩
  | succ k ih =>
    rw [List.range'_succ,instanceLoop] at hr
    split at hr
    · subst hr
      refine ⟨?_,by simp⟩
      intro p hp
      cases hp
      exact ⟨rfl,by simp⟩
    · rename_i hstop
      have hgate : 1 < i → gateInstance c view o i=true := by
        intro hi
        by_contra hg
        exact hstop ⟨hi,hg⟩
      simp only at hr
      split at hr
      · subst hr
        refine ⟨?_,by simp⟩
        intro p hp
        cases hp
        exact ⟨rfl,fun d hd hcause => ⟨i,le_rfl,by omega,h.rolled hgate hd hcause⟩⟩
      · rename_i hrolled
        have hnext := h.next hgate (ensureInstance_spec.1 (Bool.eq_false_iff.mpr hrolled))
        obtain ⟨hsome,hnone⟩ := ih hnext hr
        refine ⟨?_,hnone⟩
        intro p hp
        obtain ⟨hprov,hdel⟩ := hsome p hp
        refine ⟨hprov,?_⟩
        intro d hd hcause
        obtain ⟨j,hij,hjk,hrolled⟩ := hdel d hd hcause
        exact ⟨j,by omega,by omega,hrolled⟩

/-- The part of a pass that provisions the instances and updates their managers; `switched` when a
switchover ended it in between. -/
structure RollingPass where
  plan : InstancePlan
  upgrade : UpgradePlan
  view : ClusterView
  switched : Bool := false

def RollingPass.run (p : RollingPass) (c : Cluster ρ) (o : Objects) : Option Deletion × Objects :=
  let r := reconcileInstances c p.plan p.view o
  if ¬r.provisioned ∨ p.switched then (r.deleted,r.objects)
  else
    match reconcileUpgrade c p.upgrade p.view with
    | .roll name =>
      (if (r.objects.pods.lookup name).any (!·.terminating) then some ⟨name,.upgrade,r.objects⟩
        else none,r.objects.deletePod name)
    | _ => (none,r.objects)

def plannedNames (c : Cluster ρ) : List String :=
  (List.range' 1 (plannedInstances c)).map (instanceName c.name)

variable (c : Cluster ρ) (p : RollingPass) (o : Objects)

/-- When a pass deletes a Pod for a template, a resize or an upgrade, every other planned instance
is available or fenced. -/
def OneDown : Prop :=
  ∀ d,(p.run c o).1=some d → d.cause ≠ .reinit →
    ∀ name∈plannedNames c,name≠d.name → ¬FencedPod d.before name →
      Available c p.view d.before name

def Down (i : Nat) : Prop :=
  1 ≤ i ∧ i≤plannedInstances c ∧ ¬FencedPod o (instanceName c.name i) ∧
    ¬Available c p.view o (instanceName c.name i)

def ManagersCurrent : Prop :=
  p.upgrade.operatorHash = "" ∨ p.upgrade.inPlace=true ∨
    upgradeCandidates p.view p.upgrade.targetHash=[]

/-- While an instance is down, no replica below it owes a roll, none at all without a quorum, and no
manager is to be replaced. -/
def Steady : Prop :=
  ∀ i,Down c p o i → ManagersCurrent p ∧
    ∀ j,1≤j → j≤plannedInstances c → j < i ∨ quorumRecoveryBlocked c p.view=true →
      j≠i → instanceName c.name j≠electedPrimary c p.view →
        ¬OwesRoll p.plan o (instanceName c.name j)

variable {c : Cluster ρ} {p : RollingPass} {o o' : Objects}

theorem mem_plannedNames {name : String} :
    name∈plannedNames c ↔ ∃ i,1 ≤ i ∧ i≤plannedInstances c ∧ name=instanceName c.name i := by
  simp only [plannedNames,List.mem_map,List.mem_range'_1]
  constructor
  · rintro ⟨i,⟨hle,hlt⟩,rfl⟩
    exact ⟨i,hle,by omega,rfl⟩
  · rintro ⟨i,hle,hlt,rfl⟩
    exact ⟨i,⟨hle,by omega⟩,rfl⟩

theorem Extends.down {plan : InstancePlan} (h : Extends plan o o') {i : Nat} (hd : Down c p o' i) :
    Down c p o i :=
  ⟨hd.1,hd.2.1,fun hf => hd.2.2.1 (h.fencedPod hf),fun ha => hd.2.2.2 (h.available_iff.mpr ha)⟩

/-- The primary goes last: at that moment the other instances are available. -/
theorem rollPrimaryLast_spec {plan : InstancePlan} {view : ClusterView} :
    (∀ d,(rollPrimaryLast c plan view o).deleted=some d → d.cause ≠ .reinit →
      ∀ name∈plannedNames c,name≠d.name → Available c view d.before name) ∧
    ((rollPrimaryLast c plan view o).provisioned=true →
      (rollPrimaryLast c plan view o).deleted=none ∧
        (rollPrimaryLast c plan view o).objects=o) := by
  simp only [rollPrimaryLast]
  split
  · exact ⟨by simp,fun _ => ⟨rfl,rfl⟩⟩
  · rename_i ordinal hordinal
    split_ifs with hpending hready
    · refine ⟨?_,by simp⟩
      intro d hd hcause name hname hne
      obtain ⟨hself,hext,_⟩ := ensureInstance_spec.2 d hd
      rw [hext.available_iff]
      have hrep := List.all_eq_true.mp hready.2 name hname
      simp only [Bool.or_eq_true,decide_eq_true_eq] at hrep
      cases hrep with
      | inr hfull => exact available_of_fullyReady hfull
      | inl hprimary =>
        -- The elected primary is itself the instance that goes.
        obtain ⟨j,_,_,hj⟩ := mem_plannedNames.mp hname
        rw [← hprimary,hj] at hordinal
        have hz := ordinal_eq_of_instanceName hordinal
        rw [hself,hz,Int.toNat_natCast] at hne
        exact absurd hj hne
    · exact ⟨by simp,by simp⟩
    · exact ⟨by simp,fun _ => ⟨rfl,rfl⟩⟩

theorem reconcileAutoReinit_eq (c : Cluster ρ) (plan : InstancePlan) (view : ClusterView)
    (o : Objects) : ∃ raw,reconcileAutoReinit c plan view o={ o with reinit := raw } := by
  simp only [reconcileAutoReinit]
  split_ifs
  all_goals exact ⟨_,rfl⟩

theorem reconcileInstances_spec (plan : InstancePlan) (view : ClusterView) :
    (∀ d,(reconcileInstances c plan view o).deleted=some d → d.cause ≠ .reinit →
      (∃ j,1≤j ∧ j≤plannedInstances c ∧
        RolledInLoop c plan view (electedPrimary c view) o d j) ∨
      ∀ name∈plannedNames c,name≠d.name → Available c view d.before name) ∧
    ((reconcileInstances c plan view o).provisioned=true →
      (reconcileInstances c plan view o).deleted=none ∧
        Extends plan o (reconcileInstances c plan view o).objects) := by
  obtain ⟨raw,hraw⟩ := reconcileAutoReinit_eq c plan view o
  have hext : Extends plan o { o with reinit := raw } :=
    .of_pods_eq rfl fun _ v hv hr => ⟨v,hv,hr⟩
  simp only [reconcileInstances,hraw]
  split
  · -- In a total outage no Pod is rolled.
    refine ⟨?_,by simp⟩
    intro d hd hcause
    obtain ⟨_,_,howes⟩ := ensureInstance_spec.2 d hd
    exact absurd (howes hcause).1 (by simp)
  · have hramped : Ramped c plan view o { o with reinit := raw } 1 :=
      ⟨hext,fun _ _ j hj hlt => by omega⟩
    obtain ⟨hstop,hthrough⟩ :=
      @instanceLoop_spec ρ c plan view o _ (electedPrimary c view) (plannedInstances c) _ hramped _ rfl
    split
    · rename_i p o' hloop
      rw [hloop] at hstop
      obtain ⟨hprov,hdel⟩ := hstop p rfl
      refine ⟨?_,by simp [hprov]⟩
      intro d hd hcause
      obtain ⟨j,hj,hlt,hrolled⟩ := hdel d hd hcause
      exact .inl ⟨j,hj,by omega,hrolled⟩
    · rename_i o' hloop
      rw [hloop] at hthrough
      obtain ⟨hlast,hprov⟩ := @rollPrimaryLast_spec ρ c o' plan view
      refine ⟨fun d hd hcause => .inr (hlast d hd hcause),?_⟩
      intro h
      obtain ⟨hnone,hobjects⟩ := hprov h
      refine ⟨hnone,?_⟩
      rw [hobjects]
      exact hthrough rfl

theorem not_managersCurrent_of_roll {name : String}
    (h : reconcileUpgrade c p.upgrade p.view = .roll name) : ¬ManagersCurrent p := by
  intro hcur
  by_cases hhash : p.upgrade.operatorHash = ""
  · rw [reconcileUpgrade,if_pos hhash] at h
    cases h
  rw [reconcileUpgrade,if_neg hhash] at h
  cases hcand : upgradeCandidates p.view p.upgrade.targetHash with
  | nil =>
    rw [hcand] at h
    cases h
  | cons first rest =>
    have hinPlace : p.upgrade.inPlace=true := by
      simpa [ManagersCurrent,hhash,hcand] using hcur
    simp only [hcand,hinPlace,if_true] at h
    split_ifs at h

theorem oneDown_of_steady (h : Steady c p o) : OneDown c p o := by
  intro d hd hcause name hname hne hfence
  obtain ⟨i,hi,hin,rfl⟩ := mem_plannedNames.mp hname
  by_contra hdown
  have hdownAt : Down c p d.before i := ⟨hi,hin,hfence,hdown⟩
  obtain ⟨hdel,hprov⟩ := @reconcileInstances_spec ρ c o p.plan p.view
  simp only [RollingPass.run] at hd
  split at hd
  · cases hdel d hd hcause with
    | inr hall => exact hdown (hall _ hname hne)
    | inl hloop =>
      obtain ⟨j,hj,hjn,hrolled⟩ := hloop
      have hjne : j≠i := by
        rintro rfl
        exact hne hrolled.name.symm
      obtain ⟨_,hquiet⟩ := h i (hrolled.extend.down hdownAt)
      -- An instance below the rolled one would be available, unless the quorum is lost.
      have hplace : j < i ∨ quorumRecoveryBlocked c p.view=true := by
        by_cases hq : quorumRecoveryBlocked c p.view=true
        · exact .inr hq
        · refine .inl (lt_of_not_ge fun hge => ?_)
          exact hdown (hrolled.below (Bool.eq_false_iff.mpr hq) i hi (by omega))
      refine hquiet j hj hjn hplace hjne ?_ ?_
      · exact hrolled.name ▸ hrolled.replica
      · exact hrolled.name ▸ hrolled.owes
  · rename_i hdone
    have hprovisioned : (reconcileInstances c p.plan p.view o).provisioned=true := by
      by_contra hnot
      exact hdone (.inl hnot)
    split at hd
    · rename_i victim hroll
      simp only at hd
      split_ifs at hd
      cases hd
      exact not_managersCurrent_of_roll hroll (h i ((hprov hprovisioned).2.down hdownAt)).1
    · cases hd

structure Site (ρ : Type) where
  cluster : Cluster ρ
  objects : Objects

/-- A pass, or anything at all in between. -/
inductive SiteEvent (ρ : Type) where
  | change (next : Site ρ)
  | pass (p : RollingPass)

def Site.step (s : Site ρ) : SiteEvent ρ → Option (Site ρ)
  | .change next => some next
  | .pass p => some { s with objects := (p.run s.cluster s.objects).2 }

def AtPasses (P : Cluster ρ → RollingPass → Objects → Prop) (s : Site ρ) : SiteEvent ρ → Site ρ → Prop
  | .change _,_ => True
  | .pass p,_ => P s.cluster p s.objects

/-- When passes all find a steady cluster, one instance is down at a time. -/
theorem one_instance_down (s : Site ρ) (es : List (SiteEvent ρ))
    (h : Along Site.step (AtPasses Steady) s es) : Along Site.step (AtPasses OneDown) s es := by
  refine h.imp ?_
  intro s e s' _ hsteady
  cases e with
  | change next => trivial
  | pass p => exact oneDown_of_steady hsteady

end

/-- Three instances on the template `a`, each available but the third as given. -/
def threeInstances (third : Bool) : Objects where
  pods := [⟨"db-1",{ ready := true, templateHash := "a" }⟩,
    ⟨"db-2",{ ready := true, templateHash := "a" }⟩,
    ⟨"db-3",{ ready := third, templateHash := "a" }⟩].toAList
  volumes := [⟨"db-1",{ uid := 1, status := some .ready }⟩,
    ⟨"db-2",{ uid := 2, status := some .ready }⟩,
    ⟨"db-3",{ uid := 3, status := some .ready }⟩].toAList

def rollingCluster : Cluster Unit where
  name := "db"
  ns := "default"
  instances := 3
  status := { currentPrimary := "db-1", targetPrimary := "db-1", rest := () }

def templateChange (third : Bool) : RollingPass where
  plan := { template := fun _ => "b", bootstrap := fun _ => "j" }
  upgrade := {}
  view :=
    { primaryName := "db-1"
      instanceNames := ["db-1","db-2","db-3"]
      statusByInstance := [⟨"db-1",{ isReady := true }⟩,⟨"db-2",{ isReady := true }⟩,
        ⟨"db-3",{ isReady := third }⟩].toAList
      ready := third }

theorem one_instance_down_allAvailable :
    ((templateChange true).run rollingCluster (threeInstances true)).1.any (·.name = "db-2") ∧
      Along Site.step (AtPasses OneDown) ⟨rollingCluster,threeInstances true⟩
        [.pass (templateChange true)] := by
  refine ⟨by decide +kernel,one_instance_down _ _ ?_⟩
  have hall : ∀ name∈plannedNames rollingCluster,
      Available rollingCluster (templateChange true).view (threeInstances true) name := by
    decide +kernel
  have hnone : ∀ i,¬Down rollingCluster (templateChange true) (threeInstances true) i := by
    rintro i ⟨hi,hin,_,hdown⟩
    exact hdown (hall _ (mem_plannedNames.mpr ⟨i,hi,hin,rfl⟩))
  exact Along.cons rfl (fun i hi => absurd hi (hnone i)) trivial

/-- The second instance is rolled although the third one has failed. -/
theorem two_instances_down :
    ¬∀ (s : Site Unit) (es : List (SiteEvent Unit)),2 ≤ s.cluster.instances →
      Along Site.step (AtPasses OneDown) s es := by
  intro hall
  have hrun := hall ⟨rollingCluster,threeInstances true⟩
    [.change ⟨rollingCluster,threeInstances false⟩,.pass (templateChange false)] (by decide)
  have hpass := ((hrun _ rfl).2 _ rfl).1
  have htest : ((templateChange false).run rollingCluster (threeInstances false)).1.any (fun d =>
      d.name = "db-2" ∧ d.cause = .template ∧ ¬FencedPod d.before "db-3" ∧
        ¬Available rollingCluster (templateChange false).view d.before "db-3")=true := by
    decide +kernel
  obtain ⟨d,hd,htest⟩ := (Option.any_eq_true _ _).mp htest
  simp only [decide_eq_true_eq] at htest
  obtain ⟨hname,hcause,hfence,hdown⟩ := htest
  have hother : "db-3" ∈ plannedNames rollingCluster := by decide
  refine hdown (hpass d hd (by simp [hcause]) "db-3" hother ?_ hfence)
  rw [hname]
  decide

end Cnmsql.Controller
