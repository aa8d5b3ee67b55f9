import Cnmsql.RoleReconciler.Fleet

namespace Cnmsql.RoleReconciler

open Framework Api

variable (me : String) (know : Know) (old new : Lease)

/-- `new` takes a Lease that names nobody, this instance, or one whose time is up; only a settled
primary drops the handoff. -/
def Takes : Prop :=
  new.holder=some me ∧
    (old.holder.getD "" = "" ∨ old.holder.getD ""=me ∨
      ∃ t,know.clock=some t ∧ leaseExpired old t=true) ∧
    (new.handoff=old.handoff ∨ ∃ st,know.seen=some st ∧ st.settled=true)

/-- `new` gives up this instance's Lease once its server is read-only, keeping the handoff or
recording the set read since. -/
def GivesUp : Prop :=
  new.holder=none ∧ old.holder=some me ∧ know.quiet=true ∧
    (new.handoff=old.handoff ∨
      new.handoff ≠ "" ∧ ∃ st,know.seen=some st ∧ new.handoff=st.gtidExecuted)

variable [CaseMapping] {ρ : Type}

/-- It has just taken the Lease, and has applied its handoff or saw its source gone. -/
def MayPromote (r : Reconciler) (know : Know) : Prop :=
  know.enabled=false ∨ ∃ h,know.taken=some h ∧
    (h = "" ∨ ∃ st,know.seen=some st ∧
      (applied r.flavor st.gtidExecuted h=true ∨ st.fed=false))

def contract (r : Reconciler) : Discipline Call (Answer ρ) Know where
  allowed know
    | .promote => MayPromote r know
    | .createLease new => new.holder=some r.instanceName ∧ new.handoff = ""
    | .updateLease new => ∃ old,know.lease=some old ∧ new.version=old.version ∧
        (Takes r.instanceName know old new ∨ GivesUp r.instanceName know old new)
    | _ => True
  next := learn r.instanceName

variable {r : Reconciler} {know : Know}

abbrev Keeps {α : Type} (r : Reconciler) (Q : Know → α → Prop) (know : Know) (p : Pass ρ α) : Prop :=
  Prog.Obeys (contract r) Q know p

theorem keeps_heldByAnother {me : String} {lease : Lease} {Q : Know → Bool → Prop}
    (hfree : ¬(lease.holder.getD "" ≠ "" ∧ lease.holder.getD ""≠me) → Q know false)
    (hheld : ∀ t : Time, Q { know with clock := some (max t (know.clock.getD 0)), taken := none }
      (!leaseExpired lease t)) :
    Keeps r Q know (heldByAnother me lease : Pass ρ Bool) := by
  unfold heldByAnother
  split
  · exact ⟨trivial,hheld⟩
  · rename_i h
    exact hfree h

/-- If a pass got the Lease, it has just taken it. -/
def Acquired (seen : Option Status) (know : Know) (result : Except LeaseError String) : Prop :=
  know.seen=seen ∧ ∀ h,result = .ok h → know.enabled=false ∨ know.taken=some h

theorem keeps_write (know : Know) {create : Bool} {lease : Lease}
    (hholder : lease.holder=some r.instanceName)
    (hallowed : (contract r : Discipline Call (Answer ρ) Know).allowed know
      (if create then .createLease lease else .updateLease lease)) :
    Keeps r (Acquired know.seen) know (do
      let written ← (Call.writeLease create lease : Pass ρ Bool)
      if written then pure (.ok lease.handoff) else pure (.error .conflict)) := by
  unfold Call.writeLease
  rw [Keeps,Prog.obeys_bind]
  cases create with
  | false | true =>
    refine ⟨hallowed,?_⟩
    intro written
    cases written with
    | false => exact ⟨rfl,by simp⟩
    | true => exact ⟨rfl,by simp [contract,learn,hholder]⟩

section

variable (know : Know) {settled : Bool}
  (hset : settled=true → ∃ st,know.seen=some st ∧ st.settled=true)
include hset

theorem keeps_takeLease
    (hcan : ∀ old,know.lease=some old →
      old.holder.getD "" = "" ∨ old.holder.getD ""=r.instanceName ∨
        ∃ t,know.clock=some t ∧ leaseExpired old t=true) :
    Keeps r (Acquired know.seen) know
      (takeLease r.instanceName settled know.lease : Pass ρ (Except LeaseError String)) := by
  unfold takeLease
  rw [Keeps,Prog.obeys_perform_bind]
  refine ⟨trivial,?_⟩
  intro now
  apply keeps_write { know with clock := some (max now (know.clock.getD 0)), taken := none } rfl
  cases hfound : know.lease with
  | none => exact ⟨rfl,by simp [renewed,foundOrNew]⟩
  | some old =>
    refine ⟨old,rfl,rfl,.inl ⟨rfl,?_,?_⟩⟩
    · cases hcan old hfound with
      | inl hfree => exact .inl hfree
      | inr h =>
        cases h with
        | inl hmine => exact .inr (.inl hmine)
        | inr hexp =>
          obtain ⟨t,ht,hexp⟩ := hexp
          refine .inr (.inr ⟨_,rfl,leaseExpired_mono hexp ?_⟩)
          rw [ht]
          exact le_max_right now t
    · cases settled with
      | false => exact .inl rfl
      | true => exact .inr (hset rfl)

theorem keeps_acquire :
    Keeps r (Acquired know.seen) know
      (acquireOrRenewLease r.instanceName know.enabled settled :
        Pass ρ (Except LeaseError String)) := by
  unfold acquireOrRenewLease
  split
  · rename_i he
    exact ⟨rfl,fun _ _ => .inl he⟩
  · rw [Keeps,Prog.obeys_perform_bind]
    refine ⟨trivial,?_⟩
    intro found
    rw [Prog.obeys_bind]
    apply keeps_heldByAnother
    · intro hfree
      apply keeps_takeLease { know with lease := found, taken := none } hset
      intro old hold
      cases hold
      simp only [foundOrNew,Option.getD_some] at hfree
      tauto
    · intro t
      cases hexp : leaseExpired (foundOrNew found) t with
      | false => exact ⟨rfl,by simp⟩
      | true =>
        apply keeps_takeLease
          { know with lease := found, clock := some (max t (know.clock.getD 0)), taken := none } hset
        intro old hold
        cases hold
        exact .inr (.inr ⟨_,rfl,leaseExpired_mono hexp (le_max_left t _)⟩)

end

abbrev KeepsAll {α : Type} (r : Reconciler) (know : Know) (p : Pass ρ α) : Prop :=
  Keeps r (fun _ _ => True) know p

theorem keepsAll_bind {α β : Type} {p : Pass ρ α} {q : α → Pass ρ β} (hp : KeepsAll r know p)
    (hq : ∀ know a,KeepsAll r know (q a)) : KeepsAll r know (p >>= q) := by
  rw [KeepsAll,Keeps,Prog.obeys_bind]
  exact hp.mono fun know a _ => hq know a

theorem keepsAll_call {β : Type} {c : Call} {q : Answer ρ c → Pass ρ β}
    (hc : (contract r : Discipline Call (Answer ρ) Know).allowed know c)
    (hq : ∀ a,KeepsAll r (learn r.instanceName know c a) (q a)) :
    KeepsAll r know (Prog.perform c >>= q) := ⟨hc,hq⟩

section

variable (know : Know)

theorem keeps_release (hquiet : know.quiet=true) (enabled : Bool) {handoff : String}
    (hseen : handoff = "" ∨ ∃ st,know.seen=some st ∧ handoff=st.gtidExecuted) :
    KeepsAll r know (releaseLease r.instanceName enabled handoff : Pass ρ _) := by
  unfold releaseLease
  split
  · trivial
  · rw [KeepsAll,Keeps,Prog.obeys_perform_bind]
    refine ⟨trivial,?_⟩
    intro found
    cases found with
    | none => trivial
    | some lease =>
      simp only
      split
      · trivial
      · rename_i hmine
        rw [ne_eq,not_not] at hmine
        refine ⟨⟨lease,rfl,rfl,.inr ⟨rfl,hmine,hquiet,?_⟩⟩,?_⟩
        · unfold released
          split
          · exact .inl rfl
          · rename_i hne
            exact .inr ⟨hne,hseen.resolve_left hne⟩
        · intro written
          cases written with
          | false => trivial
          | true => trivial

theorem keeps_setCurrentPrimary :
    KeepsAll r know (r.setCurrentPrimary : Pass ρ Unit) := by
  refine keepsAll_call trivial fun cluster => ?_
  refine keepsAll_call trivial fun now => ?_
  split
  · trivial
  · exact ⟨trivial,fun _ => trivial⟩

theorem keeps_stepDown (enabled : Bool) :
    KeepsAll r know (r.stepDown enabled : Pass ρ _) := by
  refine keepsAll_call trivial fun _ => ?_
  refine keepsAll_call trivial fun status => ?_
  exact keeps_release _ rfl enabled (.inr ⟨status,rfl,rfl⟩)

theorem keeps_follow (host : String) (outcome : Outcome) :
    KeepsAll r know (do Call.runFollow host; pure outcome : Pass ρ Outcome) :=
  ⟨trivial,fun _ => trivial⟩

theorem keeps_reconcileDiverged (enabled : Bool) (status : Status) :
    KeepsAll r know (r.reconcileDiverged enabled status : Pass ρ Outcome) := by
  unfold Reconciler.reconcileDiverged
  split
  · refine keepsAll_call trivial fun _ => ?_
    apply keepsAll_bind (keeps_release _ rfl enabled (.inl rfl))
    intro _ _
    trivial
  · trivial

theorem keeps_reconcileTarget (cluster : Cluster ρ) (status : Status)
    (hseen : know.seen=some status) :
    KeepsAll r know (r.reconcileTarget know.enabled cluster status) := by
  unfold Reconciler.reconcileTarget
  split
  · rename_i hset
    rw [KeepsAll,Keeps,Prog.obeys_bind]
    refine (keeps_acquire know fun _ => ⟨status,hseen,hset⟩).mono ?_
    intro know' result _
    cases result with
    | error err => trivial
    | ok h =>
      simp only
      split
      · trivial
      · exact keepsAll_bind (keeps_setCurrentPrimary know') fun _ _ => trivial
  · split
    · trivial
    · rw [KeepsAll,Keeps,Prog.obeys_bind]
      refine (keeps_acquire know (by simp)).mono ?_
      intro know' result hacq
      cases result with
      | error err => trivial
      | ok h =>
        simp only
        split
        · trivial
        · rename_i hwait
          refine keepsAll_call ?_ fun _ => keepsAll_bind (keeps_setCurrentPrimary _) fun _ _ => trivial
          -- the Lease is taken, and the position on it is empty, applied, or its source is gone
          cases hacq.2 h rfl with
          | inl hoff => exact .inl hoff
          | inr htaken =>
            refine .inr ⟨h,htaken,?_⟩
            rw [hacq.1,hseen]
            simp only [Option.some.injEq,exists_eq_left']
            by_cases hempty : h = ""
            · exact .inl hempty
            · right
              cases happ : applied r.flavor status.gtidExecuted h with
              | true => exact .inl rfl
              | false =>
                right
                cases hfed : status.fed with
                | false => rfl
                | true => exact absurd ⟨hempty,happ,hfed⟩ hwait

theorem keeps_reconcileFollower (enabled : Bool) (cluster : Cluster ρ)
    (status : Status) : KeepsAll r know (r.reconcileFollower enabled cluster status) := by
  unfold Reconciler.reconcileFollower
  simp only
  split
  · split
    · apply keepsAll_bind (keeps_stepDown know enabled)
      intro _ result
      cases result with
      | error err => trivial
      | ok _ => trivial
    · trivial
  · split
    · apply keepsAll_bind (keeps_stepDown know enabled)
      intro know' _
      exact keeps_follow know' _ _
    · exact keeps_follow know _ _

end

theorem keeps_reconcile (r : Reconciler) : KeepsAll r {} (r.reconcile : Pass ρ Outcome) := by
  refine keepsAll_call trivial fun cluster => ?_
  split
  · refine keepsAll_call trivial fun _ => ?_
    apply keepsAll_bind (keeps_release _ rfl _ (.inl rfl))
    intro _ _
    trivial
  · refine keepsAll_call trivial fun _ => ?_
    refine keepsAll_call trivial fun status => ?_
    unfold Reconciler.reconcileAsyncRole
    split
    · exact keeps_reconcileDiverged _ _ status
    · split
      · exact keeps_reconcileTarget { enabled := leaseEnabled cluster, seen := some status }
          cluster status rfl
      · exact keeps_reconcileFollower _ _ cluster status

end Cnmsql.RoleReconciler
