import Cnmsql.Api.Backup
import Cnmsql.Controller.Rolling
import Cnmsql.Engine.ServerVersion

namespace Cnmsql.Controller

open Framework Api Engine

def reportsOlder (target : Version) (versionByInstance : Map String String) (name : String) : Bool :=
  match versionByInstance.lookup name with
  | none => false
  | some raw =>
    if raw = "" then false
    else
      match Version.parse raw with
      | .error _ => false
      | .ok running => !running.atLeast target.major target.minor 0

def majorUpgradePending (serverVersion : String) (instanceNames : List String)
    (versionByInstance : Map String String) : Version × Bool :=
  match Version.parse serverVersion with
  | .error _ => ({},false)
  | .ok target => (target,instanceNames.any (reportsOlder target versionByInstance))

def preUpgradeBackupName (clusterName : String) (target : Version) : String :=
  clusterName ++ "-preupgrade-" ++ toString target.major ++ "-" ++ toString target.minor

/-- A Backup, with the times at which it was created and its worker started. -/
structure BackupRecord where
  cluster : String
  method : Api.BackupMethod
  phase : Api.BackupPhase := .unset
  createdAt : Nat
  startedAt : Option Nat := none
  deriving DecidableEq

/-- The pass goes on, or ends with a phase and its reason, or with a new Backup. -/
inductive GateDecision where
  | proceed
  | wait (phase reason : String)
  | create (name reason : String)
  deriving DecidableEq

def backupBeforeUpgradeEnabled (backupBeforeUpgrade : Option Bool) : Bool :=
  backupBeforeUpgrade.getD true

def reconcileUpgradeBackupGate (clusterName : String) (backupBeforeUpgrade : Option Bool)
    (objectStore : Bool) (upgrade : Version × Bool) (backups : Map String BackupRecord) : GateDecision :=
  if ¬upgrade.2 ∨ ¬backupBeforeUpgradeEnabled backupBeforeUpgrade then .proceed
  else if ¬objectStore then
    .wait "Blocked"
      "MySQL major upgrade blocked: a pre-upgrade backup is required but no object store is configured"
  else
    let name := preUpgradeBackupName clusterName upgrade.1
    match backups.lookup name with
    | none => .create name ("Taking pre-upgrade backup " ++ name ++ " before the MySQL major upgrade")
    | some backup =>
      match backup.phase with
      | .completed => .proceed
      | .failed => .wait "Blocked" ("MySQL major upgrade blocked: pre-upgrade backup " ++ name ++ " failed")
      | _ => .wait "Upgrading" ("Waiting for pre-upgrade backup " ++ name ++ " to complete")

theorem completed_of_proceed {clusterName : String} {enabled : Option Bool} {objectStore : Bool}
    {upgrade : Version × Bool} {backups : Map String BackupRecord}
    (h : reconcileUpgradeBackupGate clusterName enabled objectStore upgrade backups = .proceed)
    (hpending : upgrade.2=true) (henabled : backupBeforeUpgradeEnabled enabled=true) :
    ∃ b,backups.lookup (preUpgradeBackupName clusterName upgrade.1)=some b ∧ b.phase = .completed := by
  unfold reconcileUpgradeBackupGate at h
  rw [if_neg (by simp [hpending,henabled])] at h
  split at h
  · cases h
  · simp only at h
    split at h
    · cases h
    · rename_i b hb
      refine ⟨b,hb,?_⟩
      split at h
      · rename_i hphase
        exact hphase
      · cases h
      · cases h

section

variable {ρ : Type}

/-- The accepted target and when, the version that last served each directory, the Backups, and all
that ever completed; `gated` once the gate let a pending upgrade through. -/
structure UpgradeSite (ρ : Type) where
  cluster : Cluster ρ
  backupBeforeUpgrade : Option Bool := none
  objectStore : Bool := true
  objects : Objects
  served : Map String Version
  serverVersion : String
  acceptedAt : Nat
  now : Nat
  backups : Map String BackupRecord := ∅
  completed : List BackupRecord := []
  gated : Bool := false

/-- What a pass plans and observes, whether it ended before the gate, and whether the Backup could
not be created. -/
structure GatePass where
  plan : InstancePlan
  view : ClusterView
  versionByInstance : Map String String
  ended : Bool := false
  createFails : Bool := false

inductive UpgradeEvent (ρ : Type) where
  /-- `resolveTargetImage` accepts an image. -/
  | accept (serverVersion : String)
  | pass (p : GatePass)
  /-- Anything that happens to spec, status, objects and data directories. -/
  | change (cluster : Cluster ρ) (backupBeforeUpgrade : Option Bool) (objectStore : Bool)
      (objects : Objects) (served : Map String Version)
  /-- Someone creates a Backup. -/
  | backupCreated (name cluster : String) (method : Api.BackupMethod)
  | backupStarted (name : String)
  | backupFinished (name : String) (succeeded : Bool)
  | backupDeleted (name : String)

namespace UpgradeSite

variable (s : UpgradeSite ρ) (name : String)

def pending (p : GatePass) : Version × Bool :=
  majorUpgradePending s.serverVersion p.view.instanceNames p.versionByInstance

variable (cluster : String) (method : Api.BackupMethod)

def createBackup : UpgradeSite ρ :=
  if name∈s.backups then s
  else { s with backups := s.backups.insert name { cluster, method, createdAt := s.now } }

def runPass (p : GatePass) : UpgradeSite ρ :=
  if p.ended then s
  else
    match reconcileUpgradeBackupGate s.cluster.name s.backupBeforeUpgrade s.objectStore (s.pending p)
        s.backups with
    | .wait _ _ => s
    | .create name _ =>
      if p.createFails then s else s.createBackup name s.cluster.name .xtrabackup
    | .proceed =>
      { s with
        objects := (reconcileInstances s.cluster p.plan p.view s.objects).objects
        gated := s.gated || (s.pending p).2 }

/-- What a Backup becomes; one that completes is remembered. -/
def updateBackup (b : BackupRecord) : UpgradeSite ρ :=
  { s with
    backups := s.backups.insert name b
    completed := if b.phase = .completed then b::s.completed else s.completed }

/-- One event, at a later time than all before it. -/
def step (e : UpgradeEvent ρ) : Option (UpgradeSite ρ) :=
  let s := { s with now := s.now+1 }
  match e with
  | .accept serverVersion =>
    -- an image whose version cannot be parsed is rejected
    if (Version.parse serverVersion).isOk then
      some { s with serverVersion, acceptedAt := s.now, gated := false }
    else none
  | .pass p => some (s.runPass p)
  | .change cluster backupBeforeUpgrade objectStore objects served =>
    if cluster.name=s.cluster.name then
      some { s with cluster, backupBeforeUpgrade, objectStore, objects, served }
    else none
  | .backupCreated name cluster method => some (s.createBackup name cluster method)
  | .backupStarted name =>
    match s.backups.lookup name with
    | none => none
    | some b =>
      if b.startedAt.isSome then none
      else some (s.updateBackup name { b with phase := .running, startedAt := some s.now })
  | .backupFinished name succeeded =>
    match s.backups.lookup name with
    | none => none
    | some b =>
      if b.phase = .running then
        some (s.updateBackup name { b with phase := if succeeded then .completed else .failed })
      else none
  | .backupDeleted name => some { s with backups := s.backups.erase name }

/-- A physical Backup of the cluster, started after the target was accepted. -/
def FreshBackup (b : BackupRecord) : Prop :=
  b.cluster=s.cluster.name ∧ b.method = .xtrabackup ∧ ∃ t,b.startedAt=some t ∧ s.acceptedAt<t

/-- The directory was last served by an older series than the target's. -/
def Older : Prop :=
  ∃ u target,s.served.lookup name=some u ∧ Version.parse s.serverVersion = .ok target ∧
    u.SeriesBefore target

/-- A Pod created on an older directory comes after a fresh completed Backup. -/
def UpgradesProtected : UpgradeEvent ρ → UpgradeSite ρ → Prop
  | .pass _,s' => ∀ name,name∉s.objects.pods → name∈s'.objects.pods → s.Older name →
      ∃ b∈s.completed,s.FreshBackup b
  | _,_ => True

def GateEnabled : UpgradeEvent ρ → UpgradeSite ρ → Prop
  | .pass _,_ => backupBeforeUpgradeEnabled s.backupBeforeUpgrade=true
  | _,_ => True

def ForGate : Prop :=
  ∀ target,Version.parse s.serverVersion = .ok target →
    name=preUpgradeBackupName s.cluster.name target → cluster=s.cluster.name ∧ method = .xtrabackup

/-- When a target is accepted, no Backup under its name has started; no other kind takes that name;
and at the gate an instance on the older series is seen, or was since, or no directory is older. -/
def Guarded : UpgradeEvent ρ → UpgradeSite ρ → Prop
  | .accept serverVersion,_ => ∀ target b,Version.parse serverVersion = .ok target →
      s.backups.lookup (preUpgradeBackupName s.cluster.name target)=some b →
      b.cluster=s.cluster.name ∧ b.method = .xtrabackup ∧ b.startedAt=none
  | .backupCreated name cluster method,_ => s.ForGate name cluster method
  | .pass p,_ => p.ended=true ∨ (s.pending p).2=true ∨ s.gated=true ∨ ∀ name,¬s.Older name
  | _,_ => True

/-- What holds along a guarded run. -/
structure Tracked (s : UpgradeSite ρ) : Prop where
  clock : s.acceptedAt ≤ s.now
  started : ∀ name b,s.backups.lookup name=some b → b.phase = .running ∨ b.phase = .completed →
    b.startedAt.isSome=true
  remembered : ∀ name b,s.backups.lookup name=some b → b.phase = .completed → b∈s.completed
  gate : ∀ target b,Version.parse s.serverVersion = .ok target →
    s.backups.lookup (preUpgradeBackupName s.cluster.name target)=some b →
    b.cluster=s.cluster.name ∧ b.method = .xtrabackup ∧ ∀ t,b.startedAt=some t → s.acceptedAt<t
  opened : s.gated=true → ∃ b∈s.completed,s.FreshBackup b

def Initial : Prop :=
  s.backups=∅ ∧ s.gated=false ∧ s.acceptedAt ≤ s.now

theorem tracked_of_initial {s : UpgradeSite ρ} (h : s.Initial) : s.Tracked where
  clock := h.2.2
  started := by simp [h.1]
  remembered := by simp [h.1]
  gate := by simp [h.1]
  opened := by simp [h.2.1]

section

variable {s : UpgradeSite ρ} (h : s.Tracked)
include h

theorem Tracked.tick : Tracked { s with now := s.now+1 } :=
  { h with clock := Nat.le_succ_of_le h.clock }

theorem Tracked.createBackup {name cluster : String} {method : Api.BackupMethod}
    (hgate : s.ForGate name cluster method) : (s.createBackup name cluster method).Tracked := by
  unfold UpgradeSite.createBackup
  split
  · exact h
  · refine ⟨h.clock,?_,?_,?_,h.opened⟩
    · intro n b hb hphase
      rcases Map.lookup_insert_eq_some hb with ⟨-,rfl⟩ | hold
      · simp at hphase
      · exact h.started n b hold hphase
    · intro n b hb hphase
      rcases Map.lookup_insert_eq_some hb with ⟨-,rfl⟩ | hold
      · cases hphase
      · exact h.remembered n b hold hphase
    · intro target b hparse hb
      rcases Map.lookup_insert_eq_some hb with ⟨hname,rfl⟩ | hold
      · obtain ⟨hcluster,hmethod⟩ := hgate target hparse hname.symm
        exact ⟨hcluster,hmethod,by simp⟩
      · exact h.gate target b hparse hold

theorem Tracked.updateBackup {name : String} {b b' : BackupRecord}
    (hb : s.backups.lookup name=some b) (hcluster : b'.cluster=b.cluster)
    (hmethod : b'.method=b.method) (hstarted : b'.startedAt.isSome=true)
    (hfresh : ∀ t,b'.startedAt=some t → b.startedAt=some t ∨ s.acceptedAt<t) :
    (s.updateBackup name b').Tracked := by
  have hkeeps : ∀ x∈s.completed,x∈(s.updateBackup name b').completed := by
    intro x hx
    unfold UpgradeSite.updateBackup
    simp only
    split
    · exact List.mem_cons_of_mem _ hx
    · exact hx
  refine ⟨h.clock,?_,?_,?_,?_⟩
  · intro n x hx hphase
    rcases Map.lookup_insert_eq_some hx with ⟨-,rfl⟩ | hold
    · exact hstarted
    · exact h.started n x hold hphase
  · intro n x hx hphase
    rcases Map.lookup_insert_eq_some hx with ⟨-,rfl⟩ | hold
    · simp [UpgradeSite.updateBackup,hphase]
    · exact hkeeps x (h.remembered n x hold hphase)
  · intro target x hparse hx
    rcases Map.lookup_insert_eq_some hx with ⟨hname,rfl⟩ | hold
    · obtain ⟨hc,hm,ht⟩ := h.gate target b hparse (hname ▸ hb)
      exact ⟨hcluster.trans hc,hmethod.trans hm,fun t hstart => (hfresh t hstart).elim (ht t) id⟩
    · exact h.gate target x hparse hold
  · intro hgated
    obtain ⟨x,hx,hxfresh⟩ := h.opened hgated
    exact ⟨x,hkeeps x hx,hxfresh⟩

theorem Tracked.fresh_of_pending {p : GatePass}
    (hproceed : reconcileUpgradeBackupGate s.cluster.name s.backupBeforeUpgrade s.objectStore (s.pending p) s.backups = .proceed)
    (hpending : (s.pending p).2=true)
    (henabled : backupBeforeUpgradeEnabled s.backupBeforeUpgrade=true) :
    ∃ b∈s.completed, s.FreshBackup b := by
  obtain ⟨b,hb,hphase⟩ := completed_of_proceed hproceed hpending henabled
  have hparse : Version.parse s.serverVersion = .ok (s.pending p).1 := by
    unfold UpgradeSite.pending majorUpgradePending at hpending ⊢
    cases hv : Version.parse s.serverVersion with
    | error e => simp [hv] at hpending
    | ok target => rfl
  obtain ⟨hcluster,hmethod,hafter⟩ := h.gate _ b hparse hb
  obtain ⟨t,ht⟩ := Option.isSome_iff_exists.mp (h.started _ b hb (.inr hphase))
  exact ⟨b,h.remembered _ b hb hphase,hcluster,hmethod,t,ht,hafter t ht⟩

theorem Tracked.runPass (p : GatePass)
    (henabled : backupBeforeUpgradeEnabled s.backupBeforeUpgrade=true) : (s.runPass p).Tracked := by
  unfold UpgradeSite.runPass
  split
  · exact h
  split
  · exact h
  · rename_i name reason hgate
    split
    · exact h
    · apply h.createBackup
      intro target _ _
      exact ⟨rfl,rfl⟩
  · rename_i hproceed
    refine { h with opened := ?_ }
    intro hgated
    rcases (Bool.or_eq_true _ _).mp hgated with hgated | hpending
    · exact h.opened hgated
    · exact h.fresh_of_pending hproceed hpending henabled

end

variable {s s' : UpgradeSite ρ} {e : UpgradeEvent ρ} (hstep : s.step e=some s')
  (hrun : s.GateEnabled e s' ∧ s.Guarded e s') (h : s.Tracked)
include hstep hrun h

theorem Tracked.step : s'.Tracked := by
  obtain ⟨henabled,hguard⟩ := hrun
  have htick := h.tick
  cases e with
  | accept serverVersion =>
    simp only [UpgradeSite.step,Option.ite_none_right_eq_some,Option.some.injEq] at hstep
    obtain ⟨_,rfl⟩ := hstep
    refine ⟨Nat.le_refl _,h.started,h.remembered,?_,by simp⟩
    intro target b hparse hb
    obtain ⟨hcluster,hmethod,hnone⟩ := hguard target b hparse hb
    exact ⟨hcluster,hmethod,by simp [hnone]⟩
  | pass p =>
    cases hstep
    exact htick.runPass p henabled
  | change cluster backupBeforeUpgrade objectStore objects served =>
    simp only [UpgradeSite.step,Option.ite_none_right_eq_some,Option.some.injEq] at hstep
    obtain ⟨hname,rfl⟩ := hstep
    refine { htick with gate := ?_, opened := ?_ }
    · intro target b hparse hb
      rw [hname] at hb
      obtain ⟨hcluster,hmethod,hafter⟩ := h.gate target b hparse hb
      exact ⟨hcluster.trans hname.symm,hmethod,hafter⟩
    · intro hgated
      obtain ⟨b,hb,hcluster,hfresh⟩ := h.opened hgated
      exact ⟨b,hb,hcluster.trans hname.symm,hfresh⟩
  | backupCreated name cluster method =>
    cases hstep
    exact htick.createBackup hguard
  | backupStarted name =>
    simp only [UpgradeSite.step] at hstep
    split at hstep
    · cases hstep
    · rename_i b hb
      split at hstep
      · cases hstep
      · cases hstep
        refine htick.updateBackup hb ?_ ?_ ?_ ?_
        · rfl
        · rfl
        · rfl
        · intro t ht
          cases ht
          exact .inr (Nat.lt_succ_of_le h.clock)
  | backupFinished name succeeded =>
    simp only [UpgradeSite.step] at hstep
    split at hstep
    · cases hstep
    · rename_i b hb
      split at hstep
      · rename_i hrunning
        cases hstep
        refine htick.updateBackup hb ?_ ?_ ?_ ?_
        · rfl
        · rfl
        · exact h.started name b hb (.inl hrunning)
        · exact fun t ht => .inl ht
      · cases hstep
  | backupDeleted name =>
    cases hstep
    exact ⟨htick.clock,fun n b hb => h.started n b (Map.lookup_of_erase hb),
      fun n b hb => h.remembered n b (Map.lookup_of_erase hb),
      fun target b hparse hb => h.gate target b hparse (Map.lookup_of_erase hb),h.opened⟩

theorem Tracked.protects : s.UpgradesProtected e s' := by
  obtain ⟨henabled,hguard⟩ := hrun
  cases e with
  | pass p =>
    cases hstep
    intro name habsent hpresent holder
    have hcontra : name∉({ s with now := s.now+1 } : UpgradeSite ρ).objects.pods := habsent
    unfold UpgradeSite.runPass at hpresent
    split at hpresent
    · exact absurd hpresent hcontra
    rename_i hended
    split at hpresent
    · exact absurd hpresent hcontra
    · split at hpresent
      · exact absurd hpresent hcontra
      · unfold UpgradeSite.createBackup at hpresent
        split at hpresent
        · exact absurd hpresent hcontra
        · exact absurd hpresent hcontra
    · rename_i hproceed
      rcases hguard with hended' | hpending | hgated | hnone
      · exact absurd hended' hended
      · exact h.fresh_of_pending hproceed hpending henabled
      · exact h.opened hgated
      · exact absurd holder (hnone name)
  | _ => trivial

end UpgradeSite

/-- In a guarded run with the gate on, every Pod created on an older directory comes after a
physical Backup started after the target was accepted. -/
theorem upgrades_protected (s : UpgradeSite ρ) (hinit : s.Initial) (es : List (UpgradeEvent ρ))
    (henabled : Along UpgradeSite.step UpgradeSite.GateEnabled s es)
    (hguarded : Along UpgradeSite.step UpgradeSite.Guarded s es) :
    Along UpgradeSite.step UpgradeSite.UpgradesProtected s es :=
  (henabled.and hguarded).imp_invariant (fun _ _ _ hs hrun h => h.step hs hrun)
    (fun _ _ _ hs hrun h => h.protects hs hrun) (UpgradeSite.tracked_of_initial hinit)

end

open UpgradeSite

def upgradeSite (instances : Int) (pods : List String) : UpgradeSite Unit where
  cluster :=
    { name := "db", ns := "default", instances
      status := { currentPrimary := "db-1", targetPrimary := "db-1", rest := () } }
  objects :=
    { pods := (pods.map fun n => (⟨n,{ ready := true, templateHash := "8.0" }⟩ :
        Sigma fun _ : String => Pod)).toAList
      volumes := [⟨"db-1",{ uid := 1, status := some .ready }⟩,
        ⟨"db-2",{ uid := 2, status := some .ready }⟩].toAList }
  served := [⟨"db-1",{ major := 8, minor := 0, patch := 36 }⟩,
    ⟨"db-2",{ major := 8, minor := 0, patch := 36 }⟩].toAList
  serverVersion := "8.0.36"
  acceptedAt := 0
  now := 0

def upgradePass (reporting : List String) : GatePass where
  plan := { template := fun _ => "8.4", bootstrap := fun _ => "j" }
  view := { primaryName := "db-1", instanceNames := ["db-1","db-2"] }
  versionByInstance := (reporting.map fun n => (⟨n,"8.0.36"⟩ : Sigma fun _ : String => String)).toAList

/-- The only instance is down when the target is accepted, and comes back with the new series. -/
def downDuringUpgrade : List (UpgradeEvent Unit) := [.accept "8.4.2",.pass (upgradePass [])]

def leftoverBackup : List (UpgradeEvent Unit) :=
  [.backupCreated "db-preupgrade-8-4" "db" .xtrabackup,.backupStarted "db-preupgrade-8-4",
    .backupFinished "db-preupgrade-8-4" true,.accept "8.4.2",.pass (upgradePass ["db-1"])]

/-- A Backup is taken, and the missing Pod then comes back with the new series. -/
def backedUpUpgrade : List (UpgradeEvent Unit) :=
  [.accept "8.4.2",.pass (upgradePass ["db-1"]),.backupStarted "db-preupgrade-8-4",
    .pass (upgradePass ["db-1"]),.backupFinished "db-preupgrade-8-4" true,
    .pass (upgradePass ["db-1"]),.pass (upgradePass [])]

variable (name : String) (s : UpgradeSite Unit)

def unprotected : UpgradeEvent Unit → UpgradeSite Unit → Bool
  | .pass _,s' =>
    decide (name∉s.objects.pods) && decide (name∈s'.objects.pods) &&
      (match s.served.lookup name,Version.parse s.serverVersion with
        | some u, .ok target => decide (u.SeriesBefore target)
        | _,_ => false) &&
      !s.completed.any fun b => b.cluster=s.cluster.name && b.method = .xtrabackup &&
        b.startedAt.any (s.acceptedAt<·)
  | _,_ => false

theorem unprotected_eq_false {name : String} {s s' : UpgradeSite Unit} {e : UpgradeEvent Unit}
    (h : s.UpgradesProtected e s') : unprotected name s e s'=false := by
  cases e with
  | pass p =>
    by_contra hbad
    simp only [unprotected,Bool.not_eq_false,Bool.and_eq_true,decide_eq_true_eq] at hbad
    obtain ⟨⟨⟨habsent,hpresent⟩,holder⟩,hnone⟩ := hbad
    have hold : s.Older name := by
      split at holder
      · rename_i u target hu htarget
        exact ⟨u,target,hu,htarget,of_decide_eq_true holder⟩
      · cases holder
    obtain ⟨b,hb,hcluster,hmethod,t,ht,hafter⟩ := h name habsent hpresent hold
    have hany : (s.completed.any fun b => b.cluster=s.cluster.name && b.method = .xtrabackup &&
        b.startedAt.any (s.acceptedAt<·))=true :=
      List.any_eq_true.mpr ⟨b,hb,by simp [hcluster,hmethod,ht,hafter]⟩
    simp [hany] at hnone
  | _ => rfl

instance (e : UpgradeEvent Unit) (s' : UpgradeSite Unit) : Decidable (s.GateEnabled e s') :=
  match e with
  | .pass _ => inferInstanceAs (Decidable (_ = true))
  | .accept _ | .change .. | .backupCreated .. | .backupStarted _ | .backupFinished .. |
    .backupDeleted _ => isTrue trivial

def seesOlder : UpgradeEvent Unit → UpgradeSite Unit → Bool
  | .pass p,_ => (s.pending p).2
  | _,_ => true

/-- The gate opens without a fresh Backup while no instance reports, and for a Backup of an earlier
attempt. -/
theorem upgrade_unprotected :
    (¬∀ (s : UpgradeSite Unit) (es : List (UpgradeEvent Unit)),s.Initial →
      Along step GateEnabled s es →
      Along step UpgradesProtected s es) ∧
    ¬∀ (s : UpgradeSite Unit) (es : List (UpgradeEvent Unit)),s.Initial →
      Along step GateEnabled s es →
      Along step (fun s e s' => seesOlder s e s'=true) s es →
      Along step UpgradesProtected s es := by
  constructor
  · intro hclaim
    have hrun := hclaim (upgradeSite 1 []) downDuringUpgrade ⟨rfl,rfl,Nat.le_refl _⟩ (by decide +kernel)
    have hbad : ¬Along step (fun s e s' => unprotected "db-1" s e s'=false)
        (upgradeSite 1 []) downDuringUpgrade := by decide +kernel
    exact hbad (hrun.imp fun _ _ _ _ => unprotected_eq_false)
  · intro hclaim
    have hrun := hclaim (upgradeSite 2 ["db-1"]) leftoverBackup ⟨rfl,rfl,Nat.le_refl _⟩
      (by decide +kernel) (by decide +kernel)
    have hbad : ¬Along step (fun s e s' => unprotected "db-2" s e s'=false)
        (upgradeSite 2 ["db-1"]) leftoverBackup := by decide +kernel
    exact hbad (hrun.imp fun _ _ _ _ => unprotected_eq_false)

/-- A test for guarded steps of runs in which nobody else creates Backups. -/
def guardedTest : UpgradeEvent Unit → UpgradeSite Unit → Bool
  | .accept serverVersion,_ =>
    match Version.parse serverVersion with
    | .error _ => true
    | .ok target => decide (preUpgradeBackupName s.cluster.name target∉s.backups)
  | .backupCreated ..,_ => false
  | .pass p,_ => (s.pending p).2 || s.gated
  | _,_ => true

theorem guarded_of_test {s s' : UpgradeSite Unit} {e : UpgradeEvent Unit}
    (h : guardedTest s e s'=true) : s.Guarded e s' := by
  cases e with
  | accept serverVersion =>
    intro target b hparse hb
    simp only [guardedTest,hparse,decide_eq_true_eq] at h
    exact absurd (AList.lookup_isSome.mp (by rw [hb]; rfl)) h
  | backupCreated name cluster method => cases h
  | pass p =>
    rcases (Bool.or_eq_true _ _).mp h with hpending | hgated
    · exact .inr (.inl hpending)
    · exact .inr (.inr (.inl hgated))
  | _ => trivial

/-- The second instance's Pod comes back on the new series, after its Backup. -/
theorem upgrades_protected_backedUp :
    Along step UpgradesProtected (upgradeSite 2 ["db-1"]) backedUpUpgrade ∧
      (exec step (upgradeSite 2 ["db-1"]) backedUpUpgrade).any
        (fun s => "db-2" ∈ s.objects.pods)=true := by
  have hguarded : Along step (fun s e s' => guardedTest s e s'=true)
      (upgradeSite 2 ["db-1"]) backedUpUpgrade := by decide +kernel
  exact ⟨upgrades_protected _ ⟨rfl,rfl,Nat.le_refl _⟩ _ (by decide +kernel)
    (hguarded.imp fun _ _ _ _ => guarded_of_test),by decide +kernel⟩

end Cnmsql.Controller
