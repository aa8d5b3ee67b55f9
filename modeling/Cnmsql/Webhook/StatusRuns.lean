import Cnmsql.Framework.Execution
import Cnmsql.RoleReconciler.CurrentPrimary
import Cnmsql.Webhook.ClusterStatus

namespace Cnmsql.Webhook

open Framework Api RoleReconciler

section

variable {ρ : Type} [DecidableEq ρ] [Inhabited ρ]

/-- The stored Cluster and the versions it replaced, newest first. -/
structure Stored (ρ : Type) where
  live : Cluster ρ
  past : List (Cluster ρ) := []

namespace Stored

def primary (w : Stored ρ) : String := w.live.status.currentPrimary

def generation (w : Stored ρ) : Int64 := w.live.status.currentPrimaryGeneration

end Stored

variable (w : Stored ρ)

/-- A status update on the stored Cluster, applied when the webhook admits it. -/
def updateStatus (username : String) (status : ClusterStatus ρ) : Option (Stored ρ) :=
  let new := { w.live with status := status }
  match handle ⟨username,w.live.name,w.live.ns,"status",.cluster new,.cluster w.live⟩ with
  | .ok () => some ⟨new,w.live::w.past⟩
  | .error _ => none

inductive Write (ρ : Type) where
  /-- An instance patches the status as computed from the version `age` updates ago. -/
  | promote (username : String) (age : Nat) (now : Timestamp)
  /-- Another caller writes the status, but not the fields an instance owns. -/
  | operator (username : String) (status : ClusterStatus ρ)

def write : Write ρ → Option (Stored ρ)
  | .promote username age now => do
    let me ← instanceIdentity username w.live.name w.live.ns
    let read ← (w.live::w.past)[age]?
    let patch ← setCurrentPrimary read.status me now
    updateStatus w username (patch.apply w.live.status)
  | .operator username status =>
    if status.currentPrimary=w.primary ∧
        status.currentPrimaryTimestamp=w.live.status.currentPrimaryTimestamp ∧
        status.currentPrimaryGeneration=w.generation then
      updateStatus w username status
    else none

def RaisesByOne (_ : Write ρ) (w' : Stored ρ) : Prop :=
  w'.primary≠w.primary → w'.generation.toInt=w.generation.toInt+1

def OnePrimary (writes : List (Write ρ)) : Prop :=
  ∀ as bs cs t u,writes=as++bs++cs → exec write w as=some t → exec write t bs=some u →
    t.generation=u.generation → t.primary=u.primary

/-- A patch that changes the primary was computed from the live generation, not the last `int64`. -/
def UpToDate : Write ρ → Stored ρ → Prop
  | .promote username age _,_ => ∀ me read,
      instanceIdentity username w.live.name w.live.ns=some me →
      (w.live::w.past)[age]?=some read → me≠w.primary →
      read.status.currentPrimaryGeneration=w.generation ∧ w.generation≠Int64.maxValue
  | .operator _ _,_ => True

variable {w w' : Stored ρ} {username : String}

theorem updateStatus_eq_some {status : ClusterStatus ρ}
    (h : updateStatus w username status=some w') :
    w'=⟨{ w.live with status := status },w.live::w.past⟩ ∧
    handle ⟨username,w.live.name,w.live.ns,"status",
      .cluster { w.live with status := status },.cluster w.live⟩ = .ok () := by
  simp only [updateStatus] at h
  split at h
  · rename_i hok
    simp only [Option.some.injEq] at h
    exact ⟨h.symm,hok⟩
  · simp at h

/-- An admitted patch: its sender is the primary, with the generation after the version it read, the
live one or the next. -/
theorem write_promote {age : Nat} {now : Timestamp}
    (h : write w (.promote username age now)=some w') :
    ∃ me read,instanceIdentity username w.live.name w.live.ns=some me ∧
      (w.live::w.past)[age]?=some read ∧ w'.primary=me ∧
      w'.generation=read.status.currentPrimaryGeneration+1 ∧
      (w'.generation≠w.generation →
        w'.primary≠w.primary ∧ w'.generation=w.generation+1) := by
  simp only [write,Option.bind_eq_bind,Option.bind_eq_some_iff] at h
  obtain ⟨me,hme,read,hread,patch,hpatch,hup⟩ := h
  obtain ⟨hw',hok⟩ := updateStatus_eq_some hup
  have happ := setCurrentPrimary_apply hpatch w.live.status
  subst hw'
  refine ⟨me,read,hme,hread,happ.1,happ.2,?_⟩
  rw [handle_update,review,check_bind_eq_ok,hme] at hok
  exact reviewInstance_generation hok.2

theorem write_operator {status : ClusterStatus ρ}
    (h : write w (.operator username status)=some w') :
    w'.primary=w.primary ∧ w'.generation=w.generation := by
  rw [write,Option.ite_none_right_eq_some] at h
  obtain ⟨⟨hp,_,hg⟩,hup⟩ := h
  rw [(updateStatus_eq_some hup).1]
  exact ⟨hp,hg⟩

theorem write_generation {w w' : Stored ρ} {a : Write ρ} (h : write w a=some w')
    (hp : w'.primary=w.primary) : w'.generation=w.generation := by
  cases a with
  | promote username age now =>
    obtain ⟨_,_,_,_,_,_,hgen⟩ := write_promote h
    by_contra hne
    exact (hgen hne).1 hp
  | operator username status => exact (write_operator h).2

theorem raisesByOne_iff_upToDate (w : Stored ρ) (a : Write ρ) (w' : Stored ρ)
    (h : write w a=some w') : RaisesByOne w a w' ↔ UpToDate w a w' := by
  cases a with
  | operator username status => simp [RaisesByOne,UpToDate,(write_operator h).1]
  | promote username age now =>
    obtain ⟨me,read,hme,hread,hp,hg,hgen⟩ := write_promote h
    have hup : UpToDate w (.promote username age now) w' ↔
        (me≠w.primary → read.status.currentPrimaryGeneration=w.generation ∧
          w.generation≠Int64.maxValue) := by
      simp [UpToDate,hme,hread]
    rw [hup,RaisesByOne,hp]
    apply imp_congr_right
    intro hne
    by_cases hsame : w'.generation=w.generation
    · -- the patch lands on the generation it would have written: the primary changes under it
      have hread : read.status.currentPrimaryGeneration≠w.generation := by
        rw [← hsame,hg]
        grind
      rw [hsame]
      constructor
      · intro h
        omega
      · intro h
        exact absurd h.1 hread
    · have hsucc := (hgen hsame).2
      have hread : read.status.currentPrimaryGeneration=w.generation := by
        rw [hg] at hsucc
        grind
      rw [hsucc,int64_toInt_succ]
      simp [hread]

def Follows (s t : Stored ρ) : Prop :=
  s.generation.toInt≤t.generation.toInt ∧
    (s.generation.toInt=t.generation.toInt → s.primary=t.primary)

omit [DecidableEq ρ] [Inhabited ρ] in
theorem Follows.trans (s t u : Stored ρ) (hst : Follows s t) (htu : Follows t u) :
    Follows s u := by
  have hle := hst.1
  have hle' := htu.1
  apply And.intro (by omega)
  intro heq
  rw [hst.2 (by omega),htu.2 (by omega)]

theorem write_follows (s : Stored ρ) (a : Write ρ) (s' : Stored ρ) (hs : write s a=some s')
    (hraise : RaisesByOne s a s') : Follows s s' := by
  by_cases hp : s'.primary=s.primary
  · rw [Follows,write_generation hs hp]
    exact ⟨Int.le_refl _,fun _ => hp.symm⟩
  · have hsucc := hraise hp
    exact ⟨by omega,fun heq => by omega⟩

theorem onePrimary_of_raisesByOne {w : Stored ρ} {writes : List (Write ρ)}
    (h : Along write RaisesByOne w writes) : OnePrimary w writes := by
  intro as bs cs t u hw ht hu hgen
  rw [hw] at h
  have hbs := h.append.1.append.2 t ht
  have hfol := exec_rel (fun s => ⟨Int.le_refl _,fun _ => rfl⟩) Follows.trans write_follows hbs hu
  exact hfol.2 (by rw [hgen])

/-- The generation names one primary through a run exactly when every patch that changed the primary
was computed from an up-to-date version. -/
theorem generation_names_primary_iff (w : Stored ρ) (writes : List (Write ρ)) :
    (OnePrimary w writes ∧ Along write RaisesByOne w writes) ↔ Along write UpToDate w writes := by
  have hiff := along_congr raisesByOne_iff_upToDate w writes
  constructor
  · intro h
    exact hiff.mp h.2
  · intro h
    exact ⟨onePrimary_of_raisesByOne (hiff.mpr h),hiff.mpr h⟩

end

def account (ordinal : String) : String := "system:serviceaccount:ns:db-" ++ ordinal ++ "-instance"

def ledBy1 (target : String) : Stored Unit :=
  ⟨{ name := "db", ns := "ns", status :=
    { currentPrimary := "db-1", targetPrimary := target, currentPrimaryTimestamp := some 1,
      currentPrimaryGeneration := 1, rest := () } },[]⟩

def retarget (primary target : String) (now : Timestamp) (generation : Int64) : Write Unit :=
  .operator "system:serviceaccount:cnmsql:controller-manager"
    { currentPrimary := primary, targetPrimary := target, currentPrimaryTimestamp := some now,
      currentPrimaryGeneration := generation, rest := () }

/-- Two patches from one version both make their sender the primary of generation 2, also with a
target that leaves and comes back. -/
theorem generation_two_primaries :
    (∃ t u,exec write (ledBy1 "") [.promote (account "2") 0 10]=some t ∧
      exec write t [.promote (account "3") 1 11]=some u ∧
      t.generation=u.generation ∧ t.primary≠u.primary) ∧
    ∃ t u,exec write (ledBy1 "db-1") [retarget "db-1" "db-3" 1 1,retarget "db-1" "db-2" 1 1,
        .promote (account "2") 0 10]=some t ∧
      exec write t [retarget "db-2" "db-3" 10 2,.promote (account "3") 3 11]=some u ∧
      t.generation=u.generation ∧ t.primary≠u.primary := by
  apply And.intro
  · exact ⟨_,_,rfl,rfl,by decide,by decide⟩
  · exact ⟨_,_,rfl,rfl,by decide,by decide⟩

section

variable {ρ : Type} [DecidableEq ρ] [Inhabited ρ]

/-- A status update by any caller, through any subresource. -/
structure Update (ρ : Type) where
  username : String
  subResource : String
  status : ClusterStatus ρ

def update (c : Cluster ρ) (a : Update ρ) : Option (Cluster ρ) :=
  let new := { c with status := a.status }
  match handle ⟨a.username,c.name,c.ns,a.subResource,.cluster new,.cluster c⟩ with
  | .ok () => some new
  | .error _ => none

def KeepsGroupName (c : Cluster ρ) (a : Update ρ) (_ : Cluster ρ) : Prop :=
  groupName c.status ≠ "" → groupName a.status ≠ ""

variable {c c' : Cluster ρ}

theorem update_monotonic {a : Update ρ} (h : update c a=some c') :
    c'.status=a.status ∧
    (bootstrapped c.status=true → bootstrapped c'.status=true) ∧
    (groupName c.status ≠ "" → groupName c'.status ≠ "" →
      groupName c'.status=groupName c.status) := by
  simp only [update] at h
  split at h
  · rename_i hok
    rw [handle_update,review,check_bind_eq_ok,require_eq_ok] at hok
    cases h
    exact ⟨rfl,(validateGroupReplicationMonotonic_eq_empty c.status a.status).mp hok.1⟩
  · simp at h

theorem update_bootstrapped {updates : List (Update ρ)} (h : exec update c updates=some c')
    (hb : bootstrapped c.status=true) : bootstrapped c'.status=true :=
  exec_invariant (fun _ _ _ hu _ => (update_monotonic hu).2.1)
    (along_of_step (P := fun _ _ _ => True) (fun _ _ _ _ => trivial) c updates) h hb

theorem update_groupName {updates : List (Update ρ)} (h : exec update c updates=some c')
    (hkeep : Along update KeepsGroupName c updates) (hc : groupName c.status ≠ "") :
    groupName c'.status=groupName c.status := by
  apply exec_invariant (I := fun d => groupName d.status=groupName c.status) _ hkeep h rfl
  intro d a d' hu hk hd
  obtain ⟨hstatus,_,hname⟩ := update_monotonic hu
  have hdne : groupName d.status ≠ "" := by rw [hd]; exact hc
  rw [hname hdne (by rw [hstatus]; exact hk hdne),hd]

/-- A bootstrapped group stays so, and a set name stays, in every run in which no update takes it
away. -/
theorem one_group_forever (c c' : Cluster ρ) (updates : List (Update ρ))
    (h : exec update c updates=some c') :
    (bootstrapped c.status=true → bootstrapped c'.status=true) ∧
    (Along update KeepsGroupName c updates → groupName c.status ≠ "" → groupName c'.status ≠ "" →
      groupName c'.status=groupName c.status) :=
  ⟨update_bootstrapped h,fun hkeep hc _ => update_groupName h hkeep hc⟩

end

def inGroup (name viewID : String) : Cluster Unit :=
  { name := "db", ns := "ns", mode := .groupReplication, status :=
    { groupReplication := some { groupName := name, bootstrapped := true, viewID := viewID }
      rest := () } }

def writeGroup (name viewID : String) : Update Unit :=
  { username := "system:serviceaccount:cnmsql:controller-manager", subResource := "status"
    status := (inGroup name viewID).status }

/-- A new view is admitted, and the group is the same one after it. -/
theorem one_group_new_view :
    exec update (inGroup "g" "1") [writeGroup "g" "2"]=some (inGroup "g" "2") ∧
    bootstrapped (inGroup "g" "2").status=true ∧
    groupName (inGroup "g" "2").status=groupName (inGroup "g" "1").status := by
  have h := one_group_forever (inGroup "g" "1") (inGroup "g" "2") [writeGroup "g" "2"] rfl
  have hkeep : Along update KeepsGroupName (inGroup "g" "1") [writeGroup "g" "2"] := by
    intro c' _
    exact ⟨fun _ => by decide,trivial⟩
  exact ⟨rfl,h.1 rfl,h.2 hkeep (by decide) (by decide)⟩

/-- A group's name is replaced by clearing it first. -/
theorem two_groups_by_clearing :
    exec update (inGroup "g" "1") [writeGroup "" "1",writeGroup "h" "1"] =
      some (inGroup "h" "1") ∧
    groupName (inGroup "g" "1").status ≠ "" ∧ groupName (inGroup "h" "1").status ≠ "" ∧
    groupName (inGroup "h" "1").status≠groupName (inGroup "g" "1").status :=
  ⟨rfl,by decide,by decide,by decide⟩

end Cnmsql.Webhook
