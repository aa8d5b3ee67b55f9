import Cnmsql.RoleReconciler.Contract

namespace Cnmsql.RoleReconciler

open Framework Api Engine

def Knows (known stored : Option Lease) : Prop :=
  ∀ old,known=some old → ∃ l,stored=some l ∧ old.version≤l.version ∧
    (old.version=l.version → old=l)

theorem knows_self (stored : Option Lease) : Knows stored stored := by
  intro old h
  exact ⟨old,h,le_rfl,fun _ => rfl⟩

theorem leaseAfter_updateLease {stored : Option Lease} {l new : Lease} (hl : stored=some l)
    (hv : l.version=new.version) :
    leaseAfter stored (.updateLease new)=some { new with version := l.version+1 } := by
  simp only [leaseAfter,hl,Option.map_some,if_pos hv]

theorem knows_leaseAfter {known stored : Option Lease} (h : Knows known stored) (c : Call) :
    Knows known (leaseAfter stored c) := by
  intro old hold
  obtain ⟨l,hl,hle,heq⟩ := h old hold
  cases c with
  | createLease lease => exact ⟨l,by simp [leaseAfter,hl],hle,heq⟩
  | updateLease lease =>
    simp only [leaseAfter,hl,Option.map_some,Option.some.injEq,exists_eq_left']
    split
    · constructor
      · change old.version≤l.version+1
        omega
      · intro hv
        change old.version=l.version+1 at hv
        omega
    · exact ⟨hle,heq⟩
  | _ => exact ⟨l,hl,hle,heq⟩

section

variable {ι ρ : Type} [DecidableEq ι] (f : Fleet ι) (s : System ι ρ)
  (i : ι) (c : Call) (k : Answer ρ c → Pass ρ Outcome)

@[simp] theorem performed_nodes_self : (performed f s i c k).nodes i =
      { server := (s.nodes i).server.after c
        pass := k (s.answer i c)
        know := learn (f.instanceName i) (s.nodes i).know c (s.answer i c)
        wake := wakeAfter (s.nodes i).wake s.clock (k (s.answer i c)) } := by
  simp [performed]

theorem performed_nodes_other {i j : ι} (h : j≠i) : (performed f s i c k).nodes j=s.nodes j := by
  simp [performed,h]

theorem performed_updateLease_server (new : Lease) (k : Bool → Pass ρ Outcome) (j : ι) :
    ((performed f s i (.updateLease new) k).nodes j).server=(s.nodes j).server := by
  by_cases hj : j=i
  · subst hj
    rw [performed_nodes_self]
    rfl
  · rw [performed_nodes_other f s (.updateLease new) k hj]

end

section

variable {ι ρ : Type}

def LeaseOn (s : System ι ρ) : Act ι ρ → Prop
  | .call i => (s.nodes i).nextCall=some .getCluster → leaseEnabled s.cluster=true
  | _ => True

instance (s : System ι ρ) : ∀ a,Decidable (LeaseOn s a)
  | .call i => inferInstanceAs (Decidable ((s.nodes i).nextCall=some .getCluster → _))
  | .tick _ | .edit _ | .replicate _ _ _ | .start _ _ => isTrue trivial

theorem nextCall_of_pass {n : Node ρ} {c : Call} {k : Answer ρ c → Pass ρ Outcome}
    (h : n.pass = .call c k) : n.nextCall=some c := by
  rw [Node.nextCall,h]

end

variable [CaseMapping] {ι ρ : Type}

def Grown (f : Fleet ι) (old new : String) : Prop :=
  ∀ flavor,forFlavor f.flavor = .ok flavor →
    flavor.transactions old ⊆ flavor.transactions new

variable {f : Fleet ι} {s : System ι ρ} {i : ι}

theorem grown_of_applied {executed set : String} (h : applied f.flavor executed set=true) :
    Grown f set executed := by
  intro flavor hf
  simp only [applied,hf] at h
  split at h
  · rename_i contained hc
    rw [h] at hc
    exact flavor.gtid_laws.contains _ _ hc
  · simp at h

/-- What an instance learnt is true, and the rest of its pass keeps the contract. -/
structure Sound (f : Fleet ι) (s : System ι ρ) (i : ι) : Prop where
  keeps : KeepsAll (f.reconciler i) (s.nodes i).know (s.nodes i).pass
  seen : ∀ st,(s.nodes i).know.seen=some st →
    st.readOnly=(s.nodes i).server.readOnly ∧
    st.superReadOnly=(s.nodes i).server.superReadOnly ∧
    Grown f st.gtidExecuted (s.nodes i).server.gtidExecuted
  quiet : (s.nodes i).know.quiet=true → ¬(s.nodes i).server.Writable
  lease : Knows (s.nodes i).know.lease s.lease
  clock : ∀ t,(s.nodes i).know.clock=some t → t ≤ s.clock

/-- What the instances have learnt is true, and they run with the lease layer on. -/
structure Informed (f : Fleet ι) (s : System ι ρ) : Prop where
  sound : ∀ i,Sound f s i
  enabled : ∀ i,(s.nodes i).know.enabled=true

theorem taken_of_promotes (h : Informed f s) (hp : (s.nodes i).nextCall=some .promote) :
    ∃ position,(s.nodes i).know.taken=some position ∧
      (position = "" ∨ ∃ st,(s.nodes i).know.seen=some st ∧
        (applied f.flavor st.gtidExecuted position=true ∨ st.fed=false)) := by
  have hkeeps := (h.sound i).keeps
  unfold Node.nextCall at hp
  split at hp
  · simp at hp
  · rename_i c k hpass
    cases hp
    rw [hpass] at hkeeps
    cases hkeeps.1 with
    | inl hoff =>
      rw [h.enabled i] at hoff
      cases hoff
    | inr hmay => exact hmay

def Resting (n : Node ρ) : Prop := (∃ o,n.pass = .pure o) ∧ n.know={}

theorem sound_of_resting (h : Resting (s.nodes i)) : Sound f s i := by
  obtain ⟨⟨o,hpass⟩,hknow⟩ := h
  constructor
  · rw [hpass]
    trivial
  · simp [hknow]
  · simp [hknow]
  · simp [Knows,hknow]
  · simp [hknow]

theorem informed_of_resting (h : ∀ i,Resting (s.nodes i)) : Informed f s := by
  refine ⟨fun i => sound_of_resting (h i),?_⟩
  intro i
  rw [(h i).2]

/-- No call: flags stay, the executed set grows, and at most the next pass starts. -/
structure Undisturbed (f : Fleet ι) (i : ι) (n n' : Node ρ) : Prop where
  readOnly : n'.server.readOnly=n.server.readOnly
  superReadOnly : n'.server.superReadOnly=n.server.superReadOnly
  grown : Grown f n.server.gtidExecuted n'.server.gtidExecuted
  pass : n'.pass=n.pass ∧ n'.know=n.know ∨
    n'.pass=(f.reconciler i).reconcile ∧ n'.know={}

theorem Undisturbed.rfl (f : Fleet ι) (i : ι) (n : Node ρ) : Undisturbed f i n n :=
  ⟨Eq.refl _,Eq.refl _,fun _ _ => subset_rfl,.inl ⟨Eq.refl _,Eq.refl _⟩⟩

theorem Undisturbed.update [DecidableEq ι] {f : Fleet ι} {nodes : ι → Node ρ} {i : ι} {n : Node ρ}
    (h : Undisturbed f i (nodes i) n) (j : ι) :
    Undisturbed f j (nodes j) (Function.update nodes i n j) := by
  by_cases hj : j=i
  · subst hj
    rwa [Function.update_self]
  · rw [Function.update_of_ne hj]
    exact .rfl f j _

theorem sound_undisturbed {f : Fleet ι} {s s' : System ι ρ} {i : ι} (h : Sound f s i)
    (hlease : s'.lease=s.lease) (hclock : s.clock ≤ s'.clock)
    (hnode : Undisturbed f i (s.nodes i) (s'.nodes i)) : Sound f s' i := by
  cases hnode.pass with
  | inl hsame =>
    obtain ⟨hpass,hknow⟩ := hsame
    constructor
    · rw [hpass,hknow]
      exact h.keeps
    · intro st hst
      rw [hknow] at hst
      obtain ⟨hro,hsro,hgrown⟩ := h.seen st hst
      rw [hnode.readOnly,hnode.superReadOnly]
      exact ⟨hro,hsro,fun flavor hf => (hgrown flavor hf).trans (hnode.grown flavor hf)⟩
    · rw [hknow,Server.Writable,hnode.readOnly,hnode.superReadOnly]
      exact h.quiet
    · rw [hknow,hlease]
      exact h.lease
    · intro t ht
      rw [hknow] at ht
      exact (h.clock t ht).trans hclock
  | inr hstart =>
    obtain ⟨hpass,hknow⟩ := hstart
    constructor
    · rw [hpass,hknow]
      exact keeps_reconcile _
    · simp [hknow]
    · simp [hknow]
    · simp [Knows,hknow]
    · simp [hknow]

theorem takes_or_givesUp (h : Sound f s i) {new : Lease} {k : Bool → Pass ρ Outcome}
    (hpass : (s.nodes i).pass = .call (.updateLease new) k) {stored : Lease}
    (hl : s.lease=some stored) (hv : stored.version=new.version) :
    Takes (f.instanceName i) (s.nodes i).know stored new ∨
      GivesUp (f.instanceName i) (s.nodes i).know stored new := by
  have hkeeps := h.keeps
  rw [hpass] at hkeeps
  obtain ⟨old,hold,hversion,hcases⟩ := hkeeps.1
  obtain ⟨l,hl',_,heq⟩ := h.lease old hold
  rw [hl] at hl'
  cases hl'
  have hsame : old=stored := heq (by rw [← hversion,hv])
  subst hsame
  exact hcases

variable [DecidableEq ι]

/-- The caller's knowledge stays true. -/
theorem sound_performed_self (h : Sound f s i) {c : Call} {k : Answer ρ c → Pass ρ Outcome}
    (hpass : (s.nodes i).pass = .call c k) : Sound f (performed f s i c k) i := by
  have hkeeps := h.keeps
  rw [hpass] at hkeeps
  constructor
  · rw [performed_nodes_self]
    exact hkeeps.2 _
  · rw [performed_nodes_self]
    cases c with
    | status =>
      intro st hst
      cases hst
      exact ⟨rfl,rfl,fun _ _ => subset_rfl⟩
    | promote => simp [learn]
    | demote => simp [learn]
    | fence => simp [learn]
    | ensureReplicaConfigured host => simp [learn]
    | _ => exact h.seen
  · rw [performed_nodes_self]
    cases c with
    | promote => simp [learn]
    | demote | fence => simp [Server.after,Server.demote,Server.Writable]
    | _ => exact h.quiet
  · rw [performed_nodes_self]
    cases c with
    | getLease => exact knows_self s.lease
    | createLease lease | updateLease lease => simp [learn,Knows]
    | _ => exact h.lease
  · rw [performed_nodes_self]
    cases c with
    | now =>
      intro t ht
      cases ht
      cases hclock : (s.nodes i).know.clock with
      | none => simp [System.answer,performed]
      | some t => simpa [System.answer,performed] using h.clock t hclock
    | _ => exact h.clock

/-- Nobody else's knowledge is touched: only the Lease is shared, and it moves on. -/
theorem sound_performed (h : ∀ j,Sound f s j) {c : Call} {k : Answer ρ c → Pass ρ Outcome}
    (hpass : (s.nodes i).pass = .call c k) (j : ι) : Sound f (performed f s i c k) j := by
  by_cases hj : j=i
  · subst hj
    exact sound_performed_self (h j) hpass
  · have hnode := performed_nodes_other f s c k hj
    constructor
    · rw [hnode]
      exact (h j).keeps
    · rw [hnode]
      exact (h j).seen
    · rw [hnode]
      exact (h j).quiet
    · rw [hnode]
      exact knows_leaseAfter (h j).lease c
    · rw [hnode]
      exact (h j).clock

/-- A step is a call of some instance, or touches neither the Lease nor any flag. -/
theorem step_cases {s' : System ι ρ} {a : Act ι ρ} (h : step f s a=some s') :
    (∃ i c k,a = .call i ∧ (s.nodes i).pass = .call c k ∧ s'=performed f s i c k) ∨
      (∀ i,a ≠ .call i) ∧ s'.lease=s.lease ∧ s'.owed=s.owed ∧ s.clock ≤ s'.clock ∧
        ∀ j,Undisturbed f j (s.nodes j) (s'.nodes j) := by
  cases a with
  | tick d =>
    cases h
    exact .inr ⟨by simp,rfl,rfl,Nat.le_add_right _ _,fun j => Undisturbed.rfl f j _⟩
  | edit cluster =>
    simp only [step,Option.ite_none_right_eq_some] at h
    cases h.2
    exact .inr ⟨by simp,rfl,rfl,le_rfl,fun j => Undisturbed.rfl f j _⟩
  | replicate i gtidExecuted replica =>
    simp only [step,Option.ite_none_right_eq_some] at h
    obtain ⟨hgrow,hs⟩ := h
    cases hs
    refine .inr ⟨by simp,rfl,rfl,le_rfl,Undisturbed.update ?_⟩
    exact ⟨rfl,rfl,grown_of_applied hgrow,.inl ⟨rfl,rfl⟩⟩
  | start i event =>
    simp only [step] at h
    split at h
    · simp at h
    · rw [Option.ite_none_right_eq_some] at h
      cases h.2
      refine .inr ⟨by simp,rfl,rfl,le_rfl,Undisturbed.update ?_⟩
      exact ⟨rfl,rfl,fun _ _ => subset_rfl,.inr ⟨rfl,rfl⟩⟩
  | call i =>
    simp only [step] at h
    split at h
    · simp at h
    · rename_i c k hpass
      cases h
      exact .inl ⟨i,c,k,rfl,hpass,rfl⟩

section

variable {f : Fleet ι} {s s' : System ι ρ} {a : Act ι ρ} (h : step f s a=some s')
include a h

theorem sound_step
    (hs : ∀ i,Sound f s i) (i : ι) : Sound f s' i := by
  cases step_cases h with
  | inl hcall =>
    obtain ⟨j,c,k,_,hpass,rfl⟩ := hcall
    exact sound_performed hs hpass i
  | inr hother =>
    obtain ⟨_,hlease,_,hclock,hnodes⟩ := hother
    exact sound_undisturbed (hs i) hlease hclock (hnodes i)

theorem informed_step
    (hon : LeaseOn s a) (hs : Informed f s) : Informed f s' := by
  refine ⟨sound_step h hs.sound,?_⟩
  intro j
  cases step_cases h with
  | inl hcall =>
    obtain ⟨i,c,k,rfl,hpass,rfl⟩ := hcall
    by_cases hj : j=i
    · subst hj
      rw [performed_nodes_self]
      cases c with
      | getCluster => exact hon (nextCall_of_pass hpass)
      | _ => exact hs.enabled j
    · rw [performed_nodes_other f s c k hj]
      exact hs.enabled j
  | inr hother =>
    cases (hother.2.2.2.2 j).pass with
    | inl hsame =>
      rw [hsame.2]
      exact hs.enabled j
    | inr hstart => rw [hstart.2]

end

end Cnmsql.RoleReconciler
