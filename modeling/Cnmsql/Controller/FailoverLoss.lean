import Cnmsql.Controller.Failover

namespace Cnmsql.Controller

open Framework Replication Engine

section

variable [CaseMapping] (e : Election) (name : String)

def executed : Set e.flavor.Transaction :=
  e.flavor.transactions (e.observed.status name).gtid

def retrieved : Set e.flavor.Transaction :=
  e.flavor.transactions (e.observed.status name).retrievedGTID

def held : Set e.flavor.Transaction :=
  executed e name ∪ retrieved e name

variable {e : Election}

theorem heldBy_correct {name set : String} (h : heldBy e name = .ok set) :
    e.flavor.transactions set=held e name := by
  rw [heldBy,mapError_eq_ok] at h
  rw [e.flavor.gtid_laws.union _ _ h]
  apply Set.ext
  intro t
  simp [held,executed,retrieved]

variable {names : List String} {behind : List (String × Int)} {n : String}

/-- Each candidate is measured against the given reference with all that candidates hold. -/
theorem transactionsBehind_correct (h : transactionsBehind e names = .ok behind) :
    ∃ reference,e.flavor.transactions reference =
        {t | t∈e.flavor.transactions e.referenceGTID ∨ ∃ n∈names,t∈held e n} ∧
      ∀ n∈names,∃ set,heldBy e n = .ok set ∧
        e.flavor.gtid.missingCount set reference = .ok (behindOf behind n) := by
  simp only [transactionsBehind,bind_eq_ok] at h
  obtain ⟨sets,hsets,reference,hunion,hbehind⟩ := h
  have hsets := forall₂_of_mapM hsets
  have hbehind := forall₂_of_mapM hbehind
  have hheld : ∀ t,(∃ raw∈sets,t∈e.flavor.transactions raw) ↔ ∃ n∈names, t∈held e n := by
    clear * - hsets
    intro t
    induction hsets with
    | nil => simp
    | cons hset _ ih => simp [heldBy_correct hset,ih]
  refine ⟨reference,?_,?_⟩
  · rw [e.flavor.gtid_laws.union _ _ (mapError_eq_ok.mp hunion)]
    apply Set.ext
    intro t
    simp [hheld]
  have hall : List.Forall₂ (fun n p => p.1=n ∧ ∃ set,heldBy e n = .ok set ∧
      e.flavor.gtid.missingCount set reference = .ok p.2) names behind := by
    clear * - hsets hbehind
    induction hsets generalizing behind with
    | nil =>
      simp only [List.zip_nil_left,List.forall₂_nil_left_iff] at hbehind
      rw [hbehind]
      exact List.Forall₂.nil
    | cons hset _ ih =>
      rw [List.zip_cons_cons,List.forall₂_cons_left_iff] at hbehind
      obtain ⟨p,rest,hp,hrest,rfl⟩ := hbehind
      simp only [bind_eq_ok,mapError_eq_ok] at hp
      obtain ⟨m,hm,hp⟩ := hp
      cases hp
      exact List.Forall₂.cons ⟨rfl,_,hset,hm⟩ (ih hrest)
  intro n hn
  obtain ⟨m,hlook,hm⟩ := lookup_of_forall₂ (P := fun n m => ∃ set,heldBy e n = .ok set ∧
    e.flavor.gtid.missingCount set reference = .ok m) hall hn
  simpa [behindOf,hlook] using hm

theorem screen_eq_candidate (h : screen e n = .candidate) :
    n≠e.observed.primaryName ∧ n∉e.observed.fenced ∧ n∉e.knownDiverged ∧
      ∃ status,e.observed.instances.lookup n=some status ∧
        status.replica=true ∧ status.sqlRunning=true ∧
        ¬e.disowned.any (holdsDisowned · [status.gtid,status.retrievedGTID]) := by
  simp only [screen] at h
  grind

theorem reported_of_mem_candidates (h : n∈candidates e) :
    n≠e.observed.primaryName ∧ ∃ status,e.observed.instances.lookup n=some status := by
  obtain ⟨hprimary,-,-,status,hstatus,-⟩ :=
    screen_eq_candidate (of_decide_eq_true (List.mem_filter.mp h).2)
  exact ⟨hprimary,status,hstatus⟩

theorem mem_order (e : Election) (names : List String) (n : String) :
    n∈orderByArchiveContinuity e (orderByPreference names e.preferred) ↔ n∈names := by
  have hpref : n∈orderByPreference names e.preferred ↔ n∈names := by
    unfold orderByPreference
    split
    · rfl
    · rw [List.mem_insertionSort]
  rw [← hpref]
  unfold orderByArchiveContinuity
  split
  · rfl
  · rw [List.mem_insertionSort]

omit [CaseMapping] in
theorem mem_withinBound {maxBehind : Option Int} : n∈withinBound names behind maxBehind ↔
      n∈names ∧ ∀ bound,maxBehind=some bound → behindOf behind n≤bound := by
  cases maxBehind <;> simp [withinBound]

omit [CaseMapping] in
theorem mem_withinLagBound {timeBehind : String → Option Int64} {maxLag : Option Int64} :
    n∈withinLagBound names timeBehind maxLag ↔
      n∈names ∧ ∀ bound,maxLag=some bound → ∃ lost,timeBehind n=some lost ∧ lost≤bound := by
  cases maxLag <;> simp [withinLagBound,Option.any_eq_true]

theorem eligible_eq_ok {el : Eligible} (h : eligible e = .ok el) :
    transactionsBehind e (candidates e) = .ok el.behind ∧ ∀ n∈el.names,n∈candidates e ∧
      (∀ bound,e.maxReplicationLag=some bound →
        ∃ lost,writesBehind e el.behind n=some lost ∧ lost≤bound) ∧
      ∀ bound,e.maxTransactionsBehind=some bound → behindOf el.behind n≤bound := by
  simp only [eligible] at h
  split at h
  · split at h
    · simp at h
    · simp at h
  · simp only [bind_eq_ok,mapError_eq_ok] at h
    obtain ⟨behind,hbehind,_,_,_,_,hel⟩ := h
    cases hel
    refine ⟨hbehind,?_⟩
    intro n hn
    rw [mem_order,mem_withinLagBound,mem_withinBound] at hn
    exact ⟨hn.1.1,hn.2,hn.1.2⟩

def Dominates (e : Election) (names : List String) (c : String) : Prop :=
  ∀ other∈names,c=other ∨
    e.flavor.gtid.contains (e.observed.status c).gtid (e.observed.status other).gtid = .ok true

instance (e : Election) (names : List String) : DecidablePred (Dominates e names) := fun _ =>
  inferInstanceAs (Decidable (∀ other∈names,_))

theorem dominatesAll_eq_true {e : Election} {c : String} {names : List String} :
    dominatesAll e c names = .ok true ↔ Dominates e names c := by
  induction names with
  | nil => simp [dominatesAll,Dominates]
  | cons n names ih =>
    rw [Dominates,List.forall_mem_cons,← Dominates,← ih,dominatesAll]
    split
    · rename_i hc
      simp [hc]
    · rename_i hc
      rw [bind_eq_ok]
      constructor
      · intro h
        obtain ⟨contained,hcon,h⟩ := h
        rw [mapError_eq_ok] at hcon
        cases contained with
        | false => simp at h
        | true => exact ⟨.inr hcon,by simpa using h⟩
      · intro h
        exact ⟨true,mapError_eq_ok.mpr (h.1.resolve_left hc),by simpa using h.2⟩

theorem executed_of_dominates {e : Election} {c : String} {names : List String}
    (h : Dominates e names c) {other : String} (ho : other∈names) :
    executed e other ⊆ executed e c := by
  cases h other ho with
  | inl heq => rw [heq]
  | inr hcon => exact e.flavor.gtid_laws.contains _ _ hcon

def Leads (e : Election) (names : List String) (c : String) : Prop :=
  names.find? (fun n => Dominates e names n)=some c

theorem firstDominant_eq_some {e : Election} {names l : List String} {c : String}
    (h : firstDominant e names l = .ok (some c)) :
    l.find? (fun n => Dominates e names n)=some c := by
  induction l with
  | nil => simp [firstDominant] at h
  | cons n l ih =>
    rw [firstDominant,bind_eq_ok] at h
    obtain ⟨dominant,hd,h⟩ := h
    cases dominant with
    | true =>
      have hn : Dominates e names n := dominatesAll_eq_true.mp hd
      simpa [hn] using h
    | false =>
      have hn : ¬Dominates e names n := by
        rw [← dominatesAll_eq_true,hd]
        simp
      rw [List.find?_cons_of_neg (by simpa using hn)]
      exact ih (by simpa using h)

theorem selectFailoverCandidate_name (h : (selectFailoverCandidate e).name ≠ "") :
    ∃ el,eligible e = .ok el ∧ Leads e el.names (selectFailoverCandidate e).name ∧
      (selectFailoverCandidate e).timeBehind =
        writesBehind e el.behind (selectFailoverCandidate e).name := by
  cases hel : eligible e with
  | error refusal => simp [selectFailoverCandidate,hel] at h
  | ok el =>
    refine ⟨el,rfl,?_⟩
    cases hf : firstDominant e el.names el.names with
    | error err => simp [selectFailoverCandidate,hel,hf] at h
    | ok found =>
      cases found with
      | none => simp [selectFailoverCandidate,hel,hf] at h
      | some c =>
        simp only [selectFailoverCandidate,hel,hf]
        exact ⟨firstDominant_eq_some hf,trivial⟩

/-- No eligible replica holds what `c` lacks, and none misses fewer. -/
def LosesLeast (e : Election) (el : Eligible) (c : String) : Prop :=
  (∀ other∈el.names,held e other ⊆ held e c) ∧
    ∀ other∈el.names,behindOf el.behind c≤behindOf el.behind other

theorem behindOf_le_of_held {el : Eligible} (h : eligible e = .ok el) {c other : String}
    (hc : c∈el.names) (ho : other∈el.names) (hheld : held e other ⊆ held e c) :
    behindOf el.behind c≤behindOf el.behind other := by
  obtain ⟨hbehind,hcand⟩ := eligible_eq_ok h
  obtain ⟨reference,_,hmeas⟩ := transactionsBehind_correct hbehind
  obtain ⟨setC,hsetC,hmissC⟩ := hmeas c (hcand c hc).1
  obtain ⟨setO,hsetO,hmissO⟩ := hmeas other (hcand other ho).1
  apply e.flavor.gtid_laws.missingCount setO setC reference _ _ hmissO hmissC
  rw [heldBy_correct hsetO,heldBy_correct hsetC]
  exact hheld

/-- The elected replica loses least exactly when the leading one holds all that any has retrieved.
-/
theorem selectFailoverCandidate_losesLeast_iff (e : Election)
    (h : (selectFailoverCandidate e).name ≠ "") :
    (∃ el,eligible e = .ok el ∧ LosesLeast e el (selectFailoverCandidate e).name) ↔
      ∃ el,eligible e = .ok el ∧ ∀ c,Leads e el.names c → ∀ other∈el.names,
        retrieved e other ⊆ held e c := by
  obtain ⟨el,hel,hleads,_⟩ := selectFailoverCandidate_name h
  generalize (selectFailoverCandidate e).name=c at hleads
  have hc : c∈el.names := List.mem_of_find?_eq_some hleads
  have hdom : Dominates e el.names c := by simpa using List.find?_some hleads
  have hfirst : ∀ d, Leads e el.names d ↔ d=c := by
    intro d
    rw [Leads,hleads,Option.some.injEq,eq_comm]
  simp only [hel,Except.ok.injEq,exists_eq_left',LosesLeast,hfirst,forall_eq]
  constructor
  · intro hleast other ho t ht
    exact hleast.1 other ho (.inr ht)
  · intro hret
    have hheld : ∀ other∈el.names, held e other ⊆ held e c := by
      intro other ho
      apply Set.union_subset
      · intro t ht
        exact .inl (executed_of_dominates hdom ho ht)
      · exact hret other ho
    exact ⟨hheld,fun other ho => behindOf_le_of_held hel hc ho (hheld other ho)⟩

end

/-- Two replicas of a failed primary with executed and retrieved sets. -/
def twoReplicas (gtid2 retrieved2 gtid3 retrieved3 : String) : Election where
  observed :=
    { primaryName := "db-1"
      instanceNames := ["db-1","db-2","db-3"]
      instances :=
        [⟨"db-2",⟨true,true,gtid2,retrieved2,"",none⟩⟩,
          ⟨"db-3",⟨true,true,gtid3,retrieved3,"",none⟩⟩].toAList }

def longerRelayLog : Election := twoReplicas "u:1-2" "u:1-3" "u:1" "u:1"

/-- `db-2` has applied most; only the relay log of `db-3` has the last. -/
def shorterRelayLog : Election := twoReplicas "u:1-2" "u:1-2" "u:1" "u:1-3"

theorem losesLeast_longerRelayLog :
    ∃ el,eligible longerRelayLog = .ok el ∧
      LosesLeast longerRelayLog el (selectFailoverCandidate longerRelayLog).name := by
  have hname : (selectFailoverCandidate longerRelayLog).name = "db-2" := by decide +kernel
  have hne : (selectFailoverCandidate longerRelayLog).name ≠ "" := by
    rw [hname]
    decide
  apply (selectFailoverCandidate_losesLeast_iff _ hne).mpr
  obtain ⟨el,hel,hleads,_⟩ := selectFailoverCandidate_name hne
  refine ⟨el,hel,?_⟩
  intro c hc other ho t ht
  rw [Leads,hleads,hname] at hc
  cases hc
  have hnames : eligible longerRelayLog = .ok ⟨["db-2","db-3"],[("db-2",0),("db-3", 2)]⟩ := by
    decide +kernel
  rw [hnames] at hel
  cases hel
  have hret : ∀ other∈["db-2","db-3"],
      ∀ t∈gtidList (longerRelayLog.observed.status other).retrievedGTID,
      t∈gtids (longerRelayLog.observed.status "db-2").retrievedGTID := by decide +kernel
  exact Set.mem_union_right _ (hret other ho t ((mem_gtidList _ t).mpr ht))

theorem elected_misses_retrieved :
    ∃ el,eligible shorterRelayLog = .ok el ∧
      (selectFailoverCandidate shorterRelayLog).name = "db-2" ∧ "db-3" ∈ el.names ∧
      ¬held shorterRelayLog "db-3" ⊆ held shorterRelayLog "db-2" ∧
      behindOf el.behind "db-3"<behindOf el.behind "db-2" := by
  refine ⟨⟨["db-2","db-3"],[("db-2",1),("db-3",0)]⟩,?_,?_,?_,?_,?_⟩
  · decide +kernel
  · decide +kernel
  · decide
  · intro hsub
    have h3 : (("u", 3) : Txn)∈gtids "u:1-3" := by decide +kernel
    have h2 : (("u", 3) : Txn)∉gtids "u:1-2" := by decide +kernel
    have hmem := hsub (Set.mem_union_right _ h3)
    cases hmem with
    | inl h => exact h2 h
    | inr h => exact h2 h
  · decide

end Cnmsql.Controller
