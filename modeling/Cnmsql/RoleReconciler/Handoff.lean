import Cnmsql.RoleReconciler.Exclusion

namespace Cnmsql.RoleReconciler

open Framework Api Engine

section

variable [CaseMapping] {ι ρ : Type} (f : Fleet ι) (s : System ι ρ)

/-- A Lease given up with a position finds nobody else writable or about to be; one taken with a
position comes from a pass that had applied it or saw the I/O thread running. -/
def Orderly (i : ι) : Option Call → Prop
  | some (.updateLease new) =>
    ∀ old∈s.lease,old.version=new.version → new.handoff ≠ "" →
      (new.holder=none → ∀ j,j≠i → ¬Bound (s.nodes j)) ∧
      (new.holder=some (f.instanceName i) → ∀ st∈(s.nodes i).know.seen,
        applied f.flavor st.gtidExecuted new.handoff=true ∨ st.fed=true)
  | _ => True

instance [Fintype ι] [DecidableEq ι] (f : Fleet ι) (s : System ι ρ) (i : ι) :
    ∀ c,Decidable (Orderly f s i c)
  | some (.updateLease _) => inferInstanceAs (Decidable (∀ old∈s.lease,_))
  | none | some .getCluster | some (.patchStatus _) | some .getLease | some (.createLease _)
  | some .now | some .fence | some .unfence | some .status | some .promote | some .demote
  | some (.ensureReplicaConfigured _) => isTrue trivial

def OrderlyStep (a : Act ι ρ) : Prop :=
  LeaseOn s a ∧ ∀ i,a = .call i → Orderly f s i (s.nodes i).nextCall

instance [Fintype ι] [DecidableEq ι] (f : Fleet ι) (s : System ι ρ) :
    ∀ a,Decidable (OrderlyStep f s a)
  | .call i => decidable_of_iff (LeaseOn s (.call i) ∧ Orderly f s i (s.nodes i).nextCall)
      (by simp [OrderlyStep])
  | .tick _ | .edit _ | .replicate _ _ _ | .start _ _ => isTrue ⟨trivial,by simp⟩

/-- While a position is owed, the Lease carries it, nobody is writable, and who is about to promote
had applied it. -/
structure Owing : Prop extends Informed f s where
  recorded : ∀ position,s.owed=some position →
    position ≠ "" ∧ ∃ l,s.lease=some l ∧ l.handoff=position
  stopped : ∀ position,s.owed=some position → ∀ j,¬(s.nodes j).server.Writable
  promotes : ∀ position,s.owed=some position → ∀ j,(s.nodes j).nextCall=some .promote →
    ∃ st,(s.nodes j).know.seen=some st ∧ applied f.flavor st.gtidExecuted position=true

variable [DecidableEq ι] {f : Fleet ι} {s : System ι ρ} {k : Bool → Pass ρ Outcome}

/-- A call that neither promotes nor writes the Lease leaves it owed. -/
theorem owing_of_kept (h : Owing f s) {i : ι} {c : Call} {k : Answer ρ c → Pass ρ Outcome}
    (hinf : Informed f (performed f s i c k))
    (hlease : s.owed.isSome=true → leaseAfter s.lease c=s.lease)
    (howed : owedAfter s.lease s.owed c=s.owed)
    (hserver : ((s.nodes i).server.after c).Writable → (s.nodes i).server.Writable)
    (htaken : s.owed.isSome=true → ((performed f s i c k).nodes i).know.taken=none) :
    Owing f (performed f s i c k) := by
  replace howed : (performed f s i c k).owed=s.owed := howed
  refine ⟨hinf,?_,?_,?_⟩ <;> rw [howed]
  · intro position hp
    obtain ⟨hne,l,hl,hhandoff⟩ := h.recorded position hp
    exact ⟨hne,l,(hlease (by simp [hp])).trans hl,hhandoff⟩
  · intro position hp j hw
    by_cases hj : j=i
    · subst hj
      rw [performed_nodes_self] at hw
      exact h.stopped position hp j (hserver hw)
    · rw [performed_nodes_other f s c k hj] at hw
      exact h.stopped position hp j hw
  · intro position hp j hnext
    by_cases hj : j=i
    · subst hj
      obtain ⟨taken,ht,_⟩ := taken_of_promotes hinf hnext
      rw [htaken (by simp [hp])] at ht
      cases ht
    · rw [performed_nodes_other f s c k hj] at hnext ⊢
      exact h.promotes position hp j hnext

section

variable {i : ι} {new l : Lease} (h : Owing f s)
  (hinf : Informed f (performed f s i (.updateLease new) k)) (hl : s.lease=some l)
  (hv : l.version=new.version)
include h hinf hl hv

theorem owing_takes (htakes : Takes (f.instanceName i) (s.nodes i).know l new)
    (hord : Orderly f s i (some (.updateLease new))) :
    Owing f (performed f s i (.updateLease new) k) := by
  have howed : (performed f s i (.updateLease new) k).owed=s.owed := by
    simp [performed,owedAfter,htakes.1]
  have hkept : ∀ position,s.owed=some position → new.handoff=position := by
    intro position hp
    obtain ⟨_,l',hl',hhandoff⟩ := h.recorded position hp
    rw [hl] at hl'
    cases hl'
    cases htakes.2.2 with
    | inl hsame => exact hsame.trans hhandoff
    | inr hsettled =>
      -- only a writable primary drops the position, and nobody is writable
      obtain ⟨st,hseen,hset⟩ := hsettled
      obtain ⟨hro,hsro,_⟩ := (h.sound i).seen st hseen
      simp only [Status.settled,decide_eq_true_eq] at hset
      exact absurd ⟨hro ▸ hset.2.1,hsro ▸ hset.2.2⟩ (h.stopped position hp i)
  refine ⟨hinf,?_,?_,?_⟩ <;> rw [howed]
  · intro position hp
    exact ⟨(h.recorded position hp).1,_,leaseAfter_updateLease hl hv,hkept position hp⟩
  · intro position hp j hw
    rw [performed_updateLease_server] at hw
    exact h.stopped position hp j hw
  · intro position hp j hnext
    by_cases hj : j=i
    · subst hj
      obtain ⟨taken,ht,hmay⟩ := taken_of_promotes hinf hnext
      rw [performed_nodes_self] at ht hmay ⊢
      have hpos : taken=position := by
        simp only [learn,Option.ite_none_right_eq_some,Option.some.injEq] at ht
        rw [← ht.2]
        exact hkept position hp
      subst hpos
      cases hmay with
      | inl hempty => exact absurd hempty (h.recorded taken hp).1
      | inr hseen =>
        obtain ⟨st,hst,hor⟩ := hseen
        refine ⟨st,hst,?_⟩
        have hne := (h.recorded taken hp).1
        rw [← hkept taken hp] at hne
        have hfed := (hord l hl hv hne).2 htakes.1 st hst
        rw [hkept taken hp] at hfed
        cases hor with
        | inl happ => exact happ
        | inr hgone =>
          cases hfed with
          | inl happ => exact happ
          | inr hfed =>
            rw [hgone] at hfed
            cases hfed
    · rw [performed_nodes_other f s (.updateLease new) k hj] at hnext ⊢
      exact h.promotes position hp j hnext

/-- Who gives up the Lease leaves nobody writable, and a position on it. -/
theorem owing_givesUp (hgives : GivesUp (f.instanceName i) (s.nodes i).know l new)
    (hord : Orderly f s i (some (.updateLease new))) :
    Owing f (performed f s i (.updateLease new) k) := by
  obtain ⟨hholder,_,hquiet,hrecorded⟩ := hgives
  have htaken : ((performed f s i (.updateLease new) k).nodes i).know.taken=none := by
    rw [performed_nodes_self]
    simp [learn,hholder]
  by_cases hempty : new.handoff = ""
  · -- nothing was recorded before either, so nothing was owed
    have hnone : s.owed=none := by
      cases howed : s.owed with
      | none => rfl
      | some position =>
        obtain ⟨hne,l',hl',hhandoff⟩ := h.recorded position howed
        rw [hl] at hl'
        cases hl'
        cases hrecorded with
        | inl hsame => exact absurd (hhandoff.symm.trans (hsame.symm.trans hempty)) hne
        | inr hnew => exact absurd hempty hnew.1
    apply owing_of_kept h hinf
    · simp [hnone]
    · simp [owedAfter,hempty]
    · exact id
    · simp [hnone]
  · have howed : owedAfter s.lease s.owed (.updateLease new)=some new.handoff := by
      simp [owedAfter,hl,hv,hholder,hempty]
    have hothers := (hord l hl hv hempty).1 hholder
    refine ⟨hinf,?_,?_,?_⟩
    · intro position hp
      have heq : new.handoff=position := Option.some.inj (howed.symm.trans hp)
      subst heq
      exact ⟨hempty,_,leaseAfter_updateLease hl hv,rfl⟩
    · intro _ _ j hw
      rw [performed_updateLease_server] at hw
      by_cases hj : j=i
      · subst hj
        exact (h.sound j).quiet hquiet hw
      · exact hothers j hj (.inl hw)
    · intro _ _ j hnext
      by_cases hj : j=i
      · subst hj
        obtain ⟨taken,ht,_⟩ := taken_of_promotes hinf hnext
        rw [htaken] at ht
        cases ht
      · rw [performed_nodes_other f s (.updateLease new) k hj] at hnext
        exact absurd (.inr hnext) (hothers j hj)

end

theorem owing_performed (h : Owing f s) {i : ι} {c : Call} {k : Answer ρ c → Pass ρ Outcome}
    (hpass : (s.nodes i).pass = .call c k) (hinf : Informed f (performed f s i c k))
    (hord : Orderly f s i (some c)) : Owing f (performed f s i c k) := by
  have hlease : s.owed.isSome=true → ∃ l, s.lease=some l := by
    intro hsome
    obtain ⟨position,hp⟩ := Option.isSome_iff_exists.mp hsome
    obtain ⟨_,l,hl,_⟩ := h.recorded position hp
    exact ⟨l,hl⟩
  cases c with
  | promote =>
    refine ⟨hinf,?_,?_,?_⟩
    · intro _ hp
      cases hp
    · intro _ hp
      cases hp
    · intro _ hp
      cases hp
  | createLease new =>
    apply owing_of_kept h hinf
    · intro hsome
      obtain ⟨l,hl⟩ := hlease hsome
      simp [leaseAfter,hl]
    · rfl
    · exact id
    · intro hsome
      obtain ⟨l,hl⟩ := hlease hsome
      rw [performed_nodes_self]
      simp [learn,System.answer,hl]
  | updateLease new =>
    cases hl : s.lease with
    | none =>
      apply owing_of_kept h hinf
      · simp [leaseAfter,hl]
      · simp [owedAfter,hl]
      · exact id
      · rw [performed_nodes_self]
        simp [learn,System.answer,hl]
    | some l =>
      by_cases hv : l.version=new.version
      · cases takes_or_givesUp (h.sound i) hpass hl hv with
        | inl htakes => exact owing_takes h hinf hl hv htakes hord
        | inr hgives => exact owing_givesUp h hinf hl hv hgives hord
      · apply owing_of_kept h hinf
        · simp [leaseAfter,hl,hv]
        · simp [owedAfter,hl,hv]
        · exact id
        · rw [performed_nodes_self]
          simp [learn,System.answer,hl,hv]
  | demote | fence =>
    apply owing_of_kept h hinf (fun _ => rfl) rfl
    · simp [Server.after,Server.demote,Server.Writable]
    · intro _
      rw [performed_nodes_self]
      rfl
  | _ =>
    apply owing_of_kept h hinf (fun _ => rfl) rfl id
    intro _
    rw [performed_nodes_self]
    rfl

theorem owing_step {f : Fleet ι} {s s' : System ι ρ} {a : Act ι ρ} (hstep : step f s a=some s')
    (hcond : OrderlyStep f s a) (h : Owing f s) : Owing f s' := by
  have hinf := informed_step hstep hcond.1 h.toInformed
  cases step_cases hstep with
  | inl hcall =>
    obtain ⟨i,c,k,rfl,hpass,rfl⟩ := hcall
    have hord := hcond.2 i rfl
    rw [nextCall_of_pass hpass] at hord
    exact owing_performed h hpass hinf hord
  | inr hother =>
    obtain ⟨_,hlease,howed,_,hnodes⟩ := hother
    refine ⟨hinf,?_,?_,?_⟩
    · rw [howed,hlease]
      exact h.recorded
    · intro position hp j hw
      rw [Server.Writable,(hnodes j).readOnly,(hnodes j).superReadOnly] at hw
      exact h.stopped position (howed.symm.trans hp) j hw
    · intro position hp j hnext
      cases (hnodes j).pass with
      | inl hsame =>
        rw [Node.nextCall,hsame.1] at hnext
        rw [hsame.2]
        exact h.promotes position (howed.symm.trans hp) j hnext
      | inr hstart =>
        obtain ⟨taken,ht,_⟩ := taken_of_promotes hinf hnext
        simp [hstart.2] at ht

omit [DecidableEq ι] in
theorem owing_of_resting (h : ∀ i,Resting (s.nodes i)) (hs : s.owed=none) : Owing f s := by
  refine ⟨informed_of_resting h,?_,?_,?_⟩
  · simp [hs]
  · simp [hs]
  · simp [hs]

/-- In every orderly run, an instance about to promote has executed all that the outgoing primary
had. -/
theorem handoff_applied (f : Fleet ι) (s t : System ι ρ) (acts : List (Act ι ρ))
    (hrest : ∀ i,Resting (s.nodes i)) (hnone : s.owed=none)
    (hcond : Along (step f) (fun s a _ => OrderlyStep f s a) s acts)
    (hrun : exec (step f) s acts=some t) (i : ι) (hi : (t.nodes i).nextCall=some .promote)
    (position : String) (howed : t.owed=some position) :
    ∃ flavor,forFlavor f.flavor = .ok flavor ∧
      flavor.transactions position ⊆ flavor.transactions (t.nodes i).server.gtidExecuted := by
  have h : Owing f t := exec_invariant (I := Owing f)
    (fun _ _ _ hstep hc h => owing_step hstep hc h) hcond hrun (owing_of_resting hrest hnone)
  obtain ⟨st,hseen,happ⟩ := h.promotes position howed i hi
  have hgrown := ((h.sound i).seen st hseen).2.2
  have happlied := grown_of_applied happ
  cases hf : forFlavor f.flavor with
  | error err => simp [applied,hf] at happ
  | ok flavor => exact ⟨flavor,rfl,(happlied flavor hf).trans (hgrown flavor hf)⟩

end

/-- `db-1` promotes itself, commits `u:3`, is told of `db-2`, and steps down at `u:1-3`. -/
def stepsDown : List (Act (Fin 2) Unit) :=
  passOf db1 9++[.replicate db1 "u:1-3" {},.edit (designated "db-2" "db-1"),.tick waitRequeue] ++
    passOf db1 7

/-- `db-2` waits for the position, receives and applies it, and comes to promote. -/
def appliesHandoff : List (Act (Fin 2) Unit) :=
  stepsDown++passOf db2 6 ++
    [.replicate db2 "u:1-3" { retrievedGTIDSet := "u:1-3" },.tick waitRequeue]++passOf db2 6

theorem handoff_applied_switchover :
    ∃ t,exec (step twoInstances) booted appliesHandoff=some t ∧
      (t.nodes db2).nextCall=some .promote ∧ t.owed=some "u:1-3" ∧
      ∃ flavor,forFlavor twoInstances.flavor = .ok flavor ∧
        flavor.transactions "u:1-3" ⊆ flavor.transactions (t.nodes db2).server.gtidExecuted := by
  have hcond : Along (step twoInstances) (fun s a _ => OrderlyStep twoInstances s a) booted
      appliesHandoff := by decide +kernel
  have hrun : (exec (step twoInstances) booted appliesHandoff).any (fun t =>
      decide ((t.nodes db2).nextCall=some .promote ∧ t.owed=some "u:1-3"))=true := by
    decide +kernel
  obtain ⟨t,ht,htest⟩ := exec_reaches hrun
  obtain ⟨hnext,howed⟩ := of_decide_eq_true htest
  exact ⟨t,ht,hnext,howed,
    handoff_applied twoInstances booted t appliesHandoff started_booted.1 rfl hcond ht db2 hnext
      "u:1-3" howed⟩

/-- `db-2` reads its status while its I/O thread reconnects, and promotes without `u:3`. -/
def reconnecting : List (Act (Fin 2) Unit) :=
  stepsDown++[.replicate db2 "u:1-2" { ioRunning := false, retrievedGTIDSet := "u:1-2" }] ++
    passOf db2 6

theorem promotes_without_handoff :
    ∃ t,exec (step twoInstances) booted reconnecting=some t ∧
      (t.nodes db2).nextCall=some .promote ∧ t.owed=some "u:1-3" ∧
      forFlavor twoInstances.flavor = .ok .mysql ∧
      ¬Flavor.mysql.transactions "u:1-3" ⊆
        Flavor.mysql.transactions (t.nodes db2).server.gtidExecuted := by
  have hrun : (exec (step twoInstances) booted reconnecting).any (fun t =>
      decide ((t.nodes db2).nextCall=some .promote ∧ t.owed=some "u:1-3" ∧
        (t.nodes db2).server.gtidExecuted = "u:1-2"))=true := by decide +kernel
  obtain ⟨t,ht,htest⟩ := exec_reaches hrun
  obtain ⟨hnext,howed,hexecuted⟩ := of_decide_eq_true htest
  refine ⟨t,ht,hnext,howed,rfl,?_⟩
  rw [hexecuted]
  intro hsub
  have h3 : (("u",3) : Replication.Txn)∈Replication.gtids "u:1-3" := by decide +kernel
  have h2 : (("u",3) : Replication.Txn)∉Replication.gtids "u:1-2" := by decide +kernel
  exact h2 (hsub h3)

end Cnmsql.RoleReconciler
