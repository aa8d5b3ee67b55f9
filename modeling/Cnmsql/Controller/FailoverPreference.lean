import Cnmsql.Controller.FailoverLoss

namespace Cnmsql.Controller

open Framework Replication Engine

section

variable [CaseMapping]

/-- The result's `reason` explains why no replica was chosen. -/
def elected (e : Election) : Option String :=
  if (selectFailoverCandidate e).reason = "" then some (selectFailoverCandidate e).name else none

def Election.reprefer (e : Election) (preferred : List String) (covered : String) : Election :=
  { e with preferred := preferred, archiveCovered := covered }

/-- What an elected replica meets; the losses are those the result reports. -/
structure Electable (e : Election) (c : FailoverCandidate) : Prop where
  listed : c.name∈e.observed.instanceNames
  replaces : c.name≠e.observed.primaryName
  unfenced : c.name∉e.observed.fenced
  undiverged : c.name∉e.knownDiverged
  applies : ∃ status,e.observed.instances.lookup c.name=some status ∧
    status.replica=true ∧ status.sqlRunning=true ∧
    ∀ d∈e.disowned,d.Canonical → ∀ t∈d.txns,t∉gtids status.gtid ∧ t∉gtids status.retrievedGTID
  missing : ∃ reference set,heldBy e c.name = .ok set ∧
    e.flavor.gtid.missingCount set reference = .ok c.transactionsBehind ∧
    e.flavor.transactions reference =
      {t | t∈e.flavor.transactions e.referenceGTID ∨ ∃ n∈candidates e,t∈held e n}
  transactions : ∀ bound∈e.maxTransactionsBehind,c.transactionsBehind≤bound
  lag : ∀ bound∈e.maxReplicationLag,∃ lost∈c.timeBehind,lost≤bound

variable {e : Election} {el : Eligible} {names : List String}

theorem not_holdsDisowned {d : GTIDSet} (hd : d.Canonical) {sets : List String}
    (h : holdsDisowned d sets=false) {raw : String} (hraw : raw∈sets) {t : Txn}
    (ht : t∈d.txns) : t∉gtids raw := by
  intro hmem
  have hset := List.any_eq_false.mp h raw hraw
  cases hp : parseGTIDSet raw with
  | error err => simp [gtids,hp] at hmem
  | ok set =>
    obtain ⟨hc,hinter⟩ := set.intersect_correct d (parseGTIDSet_canonical hp) hd
    rw [gtids_of_parse raw set hp] at hmem
    have hempty : (set.intersect d).txns=∅ := by
      rw [← GTIDSet.isEmpty_iff _ hc]
      simpa [hp] using hset
    rw [hinter] at hempty
    exact (Set.ext_iff.mp hempty t).mp ⟨hmem,ht⟩

theorem avoids_transactionsBehind (names : List String) :
    Avoids (· = "") (transactionsBehind e names) := by
  have hheld : ∀ n,Avoids (· = "") (heldBy e n) := fun n => avoids_mapError _ (by simp)
  refine (avoids_mapM hheld names).bind fun held => ?_
  refine (avoids_mapError _ (by simp)).bind fun reference => avoids_mapM (fun p => ?_) _
  exact (avoids_mapError _ (by simp)).bind fun _ => avoids_ok _

theorem eligible_explains {refusal : Refusal} (h : eligible e = .error refusal) :
    refusal.reason ≠ "" := by
  have hbad : Avoids (fun r : Refusal => r.reason = "") (eligible e) := by
    simp only [eligible]
    split
    · split <;> exact avoids_error (by simp)
    · refine .bind ?_ fun behind => .bind (avoids_require _ ?_) fun _ =>
        .bind (avoids_require _ ?_) fun _ => avoids_ok _
      · cases hb : transactionsBehind e (candidates e) with
        | error err => exact avoids_error (avoids_transactionsBehind _ err hb)
        | ok behind => exact avoids_ok _
      · -- the printed numbers are left as they are
        delta boundReason
        generalize toString (behindOf behind _)=missed,toString (e.maxTransactionsBehind.getD 0)=most
        simp
      · simp only [lagBlockReason]
        split <;> simp
  exact hbad refusal h

theorem parses_of_eligible (hf : e.flavor = .mysql) (h : eligible e = .ok el) :
    ∀ n∈el.names,Parses (e.observed.status n).gtid := by
  intro n hn
  obtain ⟨hbehind,hnames⟩ := eligible_eq_ok h
  obtain ⟨reference,-,hmeasured⟩ := transactionsBehind_correct hbehind
  obtain ⟨set,hset,-⟩ := hmeasured n (hnames n hn).1
  rw [heldBy,hf,mapError_eq_ok] at hset
  exact unionGTIDStrings_parses (mapError_eq_ok.mp hset) _ (by simp)

/-- Positions that parse can always be compared. -/
theorem exists_dominatesAll (hf : e.flavor = .mysql) {c : String}
    (hc : Parses (e.observed.status c).gtid) (h : ∀ n∈names,Parses (e.observed.status n).gtid) :
    ∃ b,dominatesAll e c names = .ok b := by
  induction names with
  | nil => exact ⟨true,rfl⟩
  | cons n names ih =>
    rw [List.forall_mem_cons] at h
    rw [dominatesAll]
    split
    · exact ih h.2
    · obtain ⟨r,hr,-⟩ := gtidContains_correct _ _ hc h.1
      rw [hf,show Flavor.mysql.gtid.contains _ _ = .ok r from mapError_eq_ok.mpr hr]
      cases r with
      | true => exact ih h.2
      | false => exact ⟨false,rfl⟩

theorem firstDominant_eq {l : List String} (h : ∀ n∈l,∃ b,dominatesAll e n names = .ok b) :
    firstDominant e names l = .ok (l.find? fun n => Dominates e names n) := by
  induction l with
  | nil => rfl
  | cons c l ih =>
    rw [List.forall_mem_cons] at h
    obtain ⟨⟨b,hb⟩,h⟩ := h
    have hdom : Dominates e names c ↔ b=true := by
      rw [← dominatesAll_eq_true,hb]
      simp
    rw [firstDominant,hb]
    cases b with
    | true =>
      rw [List.find?_cons_of_pos (by simpa using hdom)]
      rfl
    | false =>
      rw [List.find?_cons_of_neg (by simpa using hdom)]
      exact ih h

section

variable (hf : e.flavor = .mysql)
include hf

theorem firstDominant_mysql (h : eligible e = .ok el) :
    firstDominant e el.names el.names = .ok (el.names.find? fun n => Dominates e el.names n) := by
  have hparses := parses_of_eligible hf h
  exact firstDominant_eq fun n hn => exists_dominatesAll hf (hparses n hn) hparses

theorem elected_eq_some {c : String} (h : elected e=some c) :
    ∃ el,eligible e = .ok el ∧ c∈el.names ∧ Dominates e el.names c ∧
      selectFailoverCandidate e=⟨c,behindOf el.behind c,writesBehind e el.behind c,""⟩ := by
  cases hel : eligible e with
  | error refusal => simp [elected,selectFailoverCandidate,hel,eligible_explains hel] at h
  | ok el =>
    refine ⟨el,rfl,?_⟩
    have hfirst := firstDominant_mysql hf hel
    cases hfind : el.names.find? fun n => Dominates e el.names n with
    | none => simp [elected,selectFailoverCandidate,hel,hfirst,hfind] at h
    | some c' =>
      simp only [elected,selectFailoverCandidate,hel,hfirst,hfind,if_true,Option.some.injEq] at h ⊢
      subst h
      exact ⟨List.mem_of_find?_eq_some hfind,by simpa using List.find?_some hfind,rfl⟩

theorem elected_isSome (h : eligible e = .ok el) {c : String}
    (hc : c∈el.names) (hdom : Dominates e el.names c) : (elected e).isSome := by
  have hfirst := firstDominant_mysql hf h
  cases hfind : el.names.find? fun n => Dominates e el.names n with
  | none => exact absurd hdom (by simpa using List.find?_eq_none.mp hfind c hc)
  | some c' => simp [elected,selectFailoverCandidate,h,hfirst,hfind]

theorem electable_of_elected {c : String} (h : elected e=some c) :
    Electable e (selectFailoverCandidate e) := by
  obtain ⟨el,hel,hc,-,hresult⟩ := elected_eq_some hf h
  obtain ⟨hbehind,hnames⟩ := eligible_eq_ok hel
  obtain ⟨hcandidate,hlag,hwithin⟩ := hnames c hc
  obtain ⟨hlisted,hscreen⟩ := List.mem_filter.mp hcandidate
  obtain ⟨reference,hreference,hmeasured⟩ := transactionsBehind_correct hbehind
  obtain ⟨set,hset,hmissing⟩ := hmeasured c hcandidate
  obtain ⟨hprimary,hfenced,hdiverged,status,hstatus,hreplica,hrunning,howned⟩ :=
    screen_eq_candidate (of_decide_eq_true hscreen)
  rw [hresult]
  refine ⟨hlisted,hprimary,hfenced,hdiverged,⟨status,hstatus,hreplica,hrunning,?_⟩,
    ⟨reference,set,hset,hmissing,hreference⟩,hwithin,hlag⟩
  intro d hd hcanonical t ht
  have hnone : holdsDisowned d [status.gtid,status.retrievedGTID]=false := by
    simpa [Option.mem_def.mp hd] using howned
  exact ⟨not_holdsDisowned hcanonical hnone (by simp) ht,
    not_holdsDisowned hcanonical hnone (by simp) ht⟩

end

/-- Neither order changes which replicas are searched. -/
theorem eligible_reprefer (h : eligible e = .ok el) (preferred : List String) (covered : String) :
    ∃ names,eligible (e.reprefer preferred covered) = .ok ⟨names,el.behind⟩ ∧
      ∀ n, n∈names ↔ n∈el.names := by
  have hnames : candidates e≠[] := by
    intro hnil
    simp only [eligible,hnil,if_true] at h
    split at h <;> simp at h
  simp only [eligible,if_neg hnames,bind_eq_ok] at h
  obtain ⟨behind,hbehind,u,hin,v,hlag,hel⟩ := h
  cases hel
  refine ⟨_,?_,fun n => (mem_order (e.reprefer preferred covered) _ n).trans (mem_order e _ n).symm⟩
  simp only [eligible,show candidates (e.reprefer preferred covered)=candidates e from rfl,
    if_neg hnames,bind_eq_ok]
  exact ⟨behind,hbehind,u,hin,v,hlag,rfl⟩

theorem elected_reprefer (hf : e.flavor = .mysql) (preferred : List String) (covered : String)
    (h : (elected e).isSome) : (elected (e.reprefer preferred covered)).isSome := by
  obtain ⟨c,hc⟩ := Option.isSome_iff_exists.mp h
  obtain ⟨el,hel,hmem,hdom,-⟩ := elected_eq_some hf hc
  obtain ⟨names,hnames,hiff⟩ := eligible_reprefer hel preferred covered
  exact elected_isSome (e := e.reprefer preferred covered) hf hnames ((hiff c).mpr hmem)
    fun n hn => hdom n ((hiff n).mp hn)

/-- Preferences and the archive decide only among equally advanced replicas. -/
theorem elected_whatever_preferred (e : Election) (hf : e.flavor = .mysql) (preferred : List String)
    (covered : String) :
    ((elected e).isSome ↔ (elected (e.reprefer preferred covered)).isSome) ∧
      ∀ c∈elected e,Electable e (selectFailoverCandidate e) ∧
        ∀ c'∈elected (e.reprefer preferred covered), executed e c=executed e c' := by
  refine ⟨⟨elected_reprefer hf preferred covered,fun h =>
    elected_reprefer (e := e.reprefer preferred covered) hf e.preferred e.archiveCovered h⟩,?_⟩
  intro c hc
  refine ⟨electable_of_elected hf hc,?_⟩
  intro c' hc'
  obtain ⟨el,hel,hmem,hdom,-⟩ := elected_eq_some hf hc
  obtain ⟨el',hel',hmem',hdom',-⟩ := elected_eq_some (e := e.reprefer preferred covered) hf hc'
  -- both elections search the same replicas, so each leader has executed what the other has
  obtain ⟨names,hnames,hiff⟩ := eligible_reprefer hel preferred covered
  rw [hel'] at hnames
  cases hnames
  exact Set.Subset.antisymm (executed_of_dominates hdom' ((hiff c).mpr hmem))
    (executed_of_dominates hdom ((hiff c').mp hmem'))

end

def equalReplicas : Election := twoReplicas "u:1-2" "" "u:1-2" "u:1-2"

theorem elected_equalReplicas :
    elected equalReplicas=some "db-2" ∧ elected (equalReplicas.reprefer ["db-3"] "")=some "db-3" ∧
      executed equalReplicas "db-2"=executed equalReplicas "db-3" := by
  have h2 : elected equalReplicas=some "db-2" := by decide +kernel
  have h3 : elected (equalReplicas.reprefer ["db-3"] "")=some "db-3" := by decide +kernel
  exact ⟨h2,h3,((elected_whatever_preferred equalReplicas rfl ["db-3"] "").2 _ h2).2 _ h3⟩

end Cnmsql.Controller
