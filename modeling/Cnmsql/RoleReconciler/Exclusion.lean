import Mathlib.Tactic.FinCases
import Cnmsql.RoleReconciler.Runs

namespace Cnmsql.RoleReconciler

open Framework Api

section

variable {ι ρ : Type}

def Bound (n : Node ρ) : Prop := n.server.Writable ∨ n.nextCall=some .promote

instance (n : Node ρ) : Decidable (Bound n) := inferInstanceAs (Decidable (_ ∨ _))

variable (f : Fleet ι) (s : System ι ρ) (i : ι)

def Holds : Prop :=
  ∃ l,s.lease=some l ∧ l.holder=some (f.instanceName i)

/-- No expired Lease is taken from an instance that takes writes or is about to. -/
def NoTakeover : Option Call → Prop
  | some (.updateLease new) =>
    ∀ old∈s.lease,∀ j,j≠i → old.holder=some (f.instanceName j) →
      new.holder=some (f.instanceName i) → old.version=new.version →
      leaseExpired old s.clock=true → ¬Bound (s.nodes j)
  | _ => True

instance [Fintype ι] [DecidableEq ι] (f : Fleet ι) (s : System ι ρ) (i : ι) :
    ∀ c,Decidable (NoTakeover f s i c)
  | some (.updateLease _) => inferInstanceAs (Decidable (∀ old∈s.lease,∀ _,_))
  | none | some .getCluster | some (.patchStatus _) | some .getLease | some (.createLease _)
  | some .now | some .fence | some .unfence | some .status | some .promote | some .demote
  | some (.ensureReplicaConfigured _) => isTrue trivial

/-- The lease layer is on, and a holder that takes writes or is about to renews in time. -/
def RenewedInTime (a : Act ι ρ) : Prop :=
  LeaseOn s a ∧ ∀ i,a = .call i → NoTakeover f s i (s.nodes i).nextCall

instance [Fintype ι] [DecidableEq ι] (f : Fleet ι) (s : System ι ρ) :
    ∀ a,Decidable (RenewedInTime f s a)
  | .call i => decidable_of_iff (LeaseOn s (.call i) ∧ NoTakeover f s i (s.nodes i).nextCall)
      (by simp [RenewedInTime])
  | .tick _ | .edit _ | .replicate _ _ _ | .start _ _ => isTrue ⟨trivial,by simp⟩

variable [DecidableEq ι]

theorem holds_of_taken {f : Fleet ι} {s : System ι ρ} {i : ι} {c : Call}
    {k : Answer ρ c → Pass ρ Outcome} {h : String}
    (htaken : ((performed f s i c k).nodes i).know.taken=some h) :
    Holds f (performed f s i c k) i := by
  rw [performed_nodes_self] at htaken
  cases c with
  | createLease lease =>
    simp only [learn,Option.ite_none_right_eq_some] at htaken
    obtain ⟨⟨hwritten,hholder⟩,_⟩ := htaken
    refine ⟨lease,?_,hholder⟩
    change (if s.lease.isNone=true then some lease else s.lease)=some lease
    exact if_pos hwritten
  | updateLease lease =>
    simp only [learn,Option.ite_none_right_eq_some] at htaken
    obtain ⟨⟨hwritten,hholder⟩,_⟩ := htaken
    change s.lease.any (fun l => l.version=lease.version)=true at hwritten
    cases hl : s.lease with
    | none => simp [hl] at hwritten
    | some stored =>
      have hv : stored.version=lease.version := by simpa [hl] using hwritten
      exact ⟨_,leaseAfter_updateLease hl hv,hholder⟩
  | _ => simp [learn] at htaken

end

section

variable [CaseMapping] {ι ρ : Type}

/-- Nobody takes writes, or is about to, without the Lease. -/
structure Exclusive (f : Fleet ι) (s : System ι ρ) : Prop extends Informed f s where
  holds : ∀ i,Bound (s.nodes i) → Holds f s i

variable {f : Fleet ι} {s : System ι ρ}

theorem Exclusive.unique (h : Exclusive f s) {i j : ι} (hi : Bound (s.nodes i))
    (hj : Bound (s.nodes j)) : i=j := by
  obtain ⟨l,hl,hli⟩ := h.holds i hi
  obtain ⟨l',hl',hlj⟩ := h.holds j hj
  rw [hl] at hl'
  cases hl'
  rw [hli,Option.some.injEq] at hlj
  exact f.injective hlj

/-- Between passes, and only the holder of the Lease may be writable. -/
def Started (f : Fleet ι) (s : System ι ρ) : Prop :=
  (∀ i,Resting (s.nodes i)) ∧ ∀ i,(s.nodes i).server.Writable → Holds f s i

theorem exclusive_of_started {f : Fleet ι} {s : System ι ρ} (h : Started f s) : Exclusive f s := by
  refine ⟨informed_of_resting h.1,?_⟩
  intro i hb
  cases hb with
  | inl hw => exact h.2 i hw
  | inr hp =>
    obtain ⟨⟨o,hpass⟩,_⟩ := h.1 i
    simp [Node.nextCall,hpass] at hp

variable [DecidableEq ι]

/-- Nobody takes the Lease of another instance that is bound by it. -/
theorem holds_other (h : Exclusive f s) {i j : ι} (hj : j≠i) {c : Call}
    {k : Answer ρ c → Pass ρ Outcome} (hpass : (s.nodes i).pass = .call c k)
    (hcond : NoTakeover f s i (some c)) (hb : Bound (s.nodes j)) :
    Holds f (performed f s i c k) j := by
  obtain ⟨l,hl,hholder⟩ := h.holds j hb
  have hsame : leaseAfter s.lease c=s.lease → Holds f (performed f s i c k) j := by
    intro heq
    exact ⟨l,heq.trans hl,hholder⟩
  cases c with
  | createLease lease => exact hsame (by simp [leaseAfter,hl])
  | updateLease new =>
    by_cases hv : l.version=new.version
    · -- the update goes through, so `i` takes or gives up a Lease that names `j`
      exfalso
      cases takes_or_givesUp (h.sound i) hpass hl hv with
      | inl htakes =>
        obtain ⟨hnew,hfree,_⟩ := htakes
        rw [hholder,Option.getD_some] at hfree
        rcases hfree with hempty | hmine | ⟨t,ht,hexp⟩
        · exact f.named j hempty
        · exact hj (f.injective hmine)
        · exact hcond l hl j hj hholder hnew hv
            (leaseExpired_mono hexp ((h.sound i).clock t ht)) hb
      | inr hgives =>
        have hmine := hgives.2.1
        rw [hholder,Option.some.injEq] at hmine
        exact hj (f.injective hmine)
    · exact hsame (by simp [leaseAfter,hl,hv])
  | _ => exact hsame rfl

section

variable (h : Exclusive f s) {i : ι} {c : Call} {k : Answer ρ c → Pass ρ Outcome}
  (hpass : (s.nodes i).pass = .call c k)
include h hpass

/-- A writable instance keeps the Lease until it is read-only. -/
theorem holds_of_writable (hw : ((performed f s i c k).nodes i).server.Writable) :
    Holds f (performed f s i c k) i := by
  rw [performed_nodes_self] at hw
  have hkept : Bound (s.nodes i) → leaseAfter s.lease c=s.lease →
      Holds f (performed f s i c k) i := by
    intro hb heq
    obtain ⟨l,hl,hholder⟩ := h.holds i hb
    exact ⟨l,heq.trans hl,hholder⟩
  cases c with
  | promote => exact hkept (.inr (nextCall_of_pass hpass)) rfl
  | demote | fence => simp [Server.after,Server.demote,Server.Writable] at hw
  | createLease lease =>
    obtain ⟨l,hl,_⟩ := h.holds i (.inl hw)
    exact hkept (.inl hw) (by simp [leaseAfter,hl])
  | updateLease new =>
    obtain ⟨l,hl,hholder⟩ := h.holds i (.inl hw)
    by_cases hv : l.version=new.version
    · cases takes_or_givesUp (h.sound i) hpass hl hv with
      | inl htakes => exact ⟨_,leaseAfter_updateLease hl hv,htakes.1⟩
      | inr hgives => exact absurd hw ((h.sound i).quiet hgives.2.2.1)
    · exact hkept (.inl hw) (by simp [leaseAfter,hl,hv])
  | _ => exact hkept (.inl hw) rfl

theorem exclusive_performed (hcond : NoTakeover f s i (some c))
    (hinf : Informed f (performed f s i c k)) : Exclusive f (performed f s i c k) := by
  refine ⟨hinf,?_⟩
  intro j hb
  by_cases hj : j=i
  · subst hj
    cases hb with
    | inl hw => exact holds_of_writable h hpass hw
    | inr hp =>
      obtain ⟨position,htaken,_⟩ := taken_of_promotes hinf hp
      exact holds_of_taken htaken
  · rw [performed_nodes_other f s c k hj] at hb
    exact holds_other h hj hpass hcond hb

end

theorem exclusive_step {f : Fleet ι} {s s' : System ι ρ} {a : Act ι ρ} (hstep : step f s a=some s')
    (hcond : RenewedInTime f s a) (h : Exclusive f s) : Exclusive f s' := by
  have hinf := informed_step hstep hcond.1 h.toInformed
  cases step_cases hstep with
  | inl hcall =>
    obtain ⟨i,c,k,rfl,hpass,rfl⟩ := hcall
    have hno := hcond.2 i rfl
    rw [nextCall_of_pass hpass] at hno
    exact exclusive_performed h hpass hno hinf
  | inr hother =>
    obtain ⟨_,hlease,_,_,hnodes⟩ := hother
    refine ⟨hinf,?_⟩
    intro i hb
    have hbefore : Bound (s.nodes i) := by
      cases hb with
      | inl hw =>
        rw [Server.Writable,(hnodes i).readOnly,(hnodes i).superReadOnly] at hw
        exact .inl hw
      | inr hp =>
        cases (hnodes i).pass with
        | inl hsame =>
          rw [Node.nextCall,hsame.1] at hp
          exact .inr hp
        | inr hstart =>
          -- a pass that has just started has not taken the Lease
          obtain ⟨position,htaken,_⟩ := taken_of_promotes hinf hp
          simp [hstart.2] at htaken
    obtain ⟨l,hl,hholder⟩ := h.holds i hbefore
    exact ⟨l,hlease.trans hl,hholder⟩

/-- When no Lease expires under a writable or promoting holder, at most one instance is writable or
about to promote. -/
theorem one_writable (f : Fleet ι) (s t : System ι ρ) (acts : List (Act ι ρ)) (hs : Started f s)
    (hcond : Along (step f) (fun s a _ => RenewedInTime f s a) s acts)
    (hrun : exec (step f) s acts=some t) (i j : ι) (hi : Bound (t.nodes i))
    (hj : Bound (t.nodes j)) : i=j := by
  have hex : Exclusive f t := exec_invariant (I := Exclusive f)
    (fun _ _ _ hstep hc h => exclusive_step hstep hc h) hcond hrun (exclusive_of_started hs)
  exact hex.unique hi hj

/-- The Lease changes only as one instance takes a Lease that is free, its own or expired by now, or
gives up its own and is read-only. -/
def LeaseMoves (f : Fleet ι) (s : System ι ρ) (a : Act ι ρ) (s' : System ι ρ) : Prop :=
  ∀ l,s.lease=some l → s'.lease=some l ∨ ∃ i,∃ new : Lease,a = .call i ∧
    s'.lease=some { new with version := l.version+1 } ∧
    (new.holder=some (f.instanceName i) ∧ (l.holder.getD "" = "" ∨
        l.holder.getD ""=f.instanceName i ∨ leaseExpired l s.clock=true) ∨
      new.holder=none ∧ l.holder=some (f.instanceName i) ∧ ¬(s.nodes i).server.Writable)

theorem leaseMoves_step {s' : System ι ρ} {a : Act ι ρ} (hs : ∀ i,Sound f s i)
    (h : step f s a=some s') : LeaseMoves f s a s' := by
  intro l hl
  cases step_cases h with
  | inl hcall =>
    obtain ⟨i,c,k,rfl,hpass,rfl⟩ := hcall
    cases c with
    | createLease lease => exact .inl (by simp [performed,leaseAfter,hl])
    | updateLease new =>
      by_cases hv : l.version=new.version
      · refine .inr ⟨i,new,rfl,leaseAfter_updateLease hl hv,?_⟩
        apply (takes_or_givesUp (hs i) hpass hl hv).imp
        · intro htakes
          refine ⟨htakes.1,htakes.2.1.imp_right (.imp_right ?_)⟩
          intro hexp
          obtain ⟨t,ht,hexp⟩ := hexp
          exact leaseExpired_mono hexp ((hs i).clock t ht)
        · intro hgives
          exact ⟨hgives.1,hgives.2.1,(hs i).quiet hgives.2.2.1⟩
      · exact .inl (by simp [performed,leaseAfter,hl,hv])
    | _ => exact .inl hl
  | inr hother => exact .inl (hother.2.1.trans hl)

theorem lease_moves (f : Fleet ι) (s : System ι ρ) (acts : List (Act ι ρ))
    (hs : ∀ i,Resting (s.nodes i)) : Along (step f) (LeaseMoves f) s acts := by
  have hany : Along (step f) (fun _ _ _ => True) s acts :=
    along_of_step (fun _ _ _ _ => trivial) s acts
  apply Along.imp_invariant (I := fun s => ∀ i,Sound f s i) _ _ hany
  · exact fun i => sound_of_resting (hs i)
  · exact fun _ _ _ hstep _ hs => sound_step hstep hs
  · exact fun _ _ _ hstep _ hs => leaseMoves_step hs hstep

end

def db1 : Fin 2 := 0

def db2 : Fin 2 := 1

def twoInstances : Fleet (Fin 2) where
  instanceName i := if i=db1 then "db-1" else "db-2"
  injective := by
    intro i j
    revert i j
    decide
  named := by decide

def designated (target current : String) : Cluster Unit where
  name := "db"
  ns := "default"
  status := { targetPrimary := target, currentPrimary := current, rest := () }

/-- `db-1` has booted read-only and is designated; `db-2` follows it. -/
def booted : System (Fin 2) Unit where
  cluster := designated "db-1" "db-1"
  lease := some { leaseDurationSeconds := some 15 }
  nodes i :=
    if i=db1 then { server := { expected := .primary, gtidExecuted := "u:1-2" } }
    else
      { server :=
          { expected := .replica
            gtidExecuted := "u:1-2"
            replication := some { retrievedGTIDSet := "u:1-2" } } }

theorem started_booted : Started twoInstances booted := by
  constructor
  · intro i
    refine ⟨⟨.failed,?_⟩,?_⟩
    · fin_cases i
      · rfl
      · rfl
    · fin_cases i
      · rfl
      · rfl
  · have hreadOnly : ∀ i,¬(booted.nodes i).server.Writable := by decide
    intro i hw
    exact absurd hw (hreadOnly i)

def passOf (i : Fin 2) (n : Nat) : List (Act (Fin 2) Unit) :=
  .start i false::List.replicate n (.call i)

/-- `db-1` promotes itself, is told of `db-2`, and hands over. -/
def switchover : List (Act (Fin 2) Unit) :=
  passOf db1 9++[.edit (designated "db-2" "db-1"),.tick waitRequeue]++passOf db1 7++passOf db2 9

theorem one_writable_switchover :
    ∃ t,exec (step twoInstances) booted switchover=some t ∧ (t.nodes db2).server.Writable ∧
      ∀ i j,Bound (t.nodes i) → Bound (t.nodes j) → i=j := by
  have hcond : Along (step twoInstances) (fun s a _ => RenewedInTime twoInstances s a) booted
      switchover := by decide +kernel
  have hrun : (exec (step twoInstances) booted switchover).any
      (fun t => decide (t.nodes db2).server.Writable)=true := by decide +kernel
  obtain ⟨t,ht,hw⟩ := exec_reaches hrun
  exact ⟨t,ht,of_decide_eq_true hw,fun i j hi hj =>
    one_writable twoInstances booted t switchover started_booted hcond ht i j hi hj⟩

/-- `db-1` promotes itself and renews once, 30 s later; `db-2` is designated meanwhile and finds the
Lease expired. -/
def expiredLease : List (Act (Fin 2) Unit) :=
  passOf db1 9++passOf db2 4++[.tick waitRequeue]++passOf db1 6 ++
    [.edit (designated "db-2" "db-1"),.tick 28000000]++passOf db2 8

theorem two_writable :
    Started twoInstances booted ∧
      ∃ t,exec (step twoInstances) booted expiredLease=some t ∧
        (t.nodes db1).server.Writable ∧ (t.nodes db2).server.Writable := by
  refine ⟨started_booted,?_⟩
  have hrun : (exec (step twoInstances) booted expiredLease).any (fun t =>
      decide ((t.nodes db1).server.Writable ∧ (t.nodes db2).server.Writable))=true := by
    decide +kernel
  obtain ⟨t,ht,hw⟩ := exec_reaches hrun
  exact ⟨t,ht,of_decide_eq_true hw⟩

theorem lease_moves_expiredLease :
    Along (step twoInstances) (LeaseMoves twoInstances) booted expiredLease :=
  lease_moves twoInstances booted expiredLease started_booted.1

end Cnmsql.RoleReconciler
