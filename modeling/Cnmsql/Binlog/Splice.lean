import Cnmsql.Binlog.Gaps

namespace Cnmsql.Binlog

open Framework Replication ObjectStore

variable (H : List Txn)

/-- A surviving history in commit order: each server numbers its own 1, 2, 3, … -/
def Numbered : Prop :=
  ∀ i (h : i<H.length),H[i].2=(H.take i).countP (fun t => t.1=H[i].1)+1

instance : Decidable (Numbered H) :=
  inferInstanceAs (Decidable (∀ i (_ : i<H.length),_))

def IsPrefixSet (E : Set Txn) : Prop := ∃ k,E={t | t∈H.take k}

def ServerHole (E : Set Txn) : Prop := ∃ u n j,1≤n ∧ n<j ∧ (u,n)∉E ∧ (u,j)∈E

private theorem mem_take_of_le_count (hH : Numbered H) (k : Nat)
    (hk : k≤H.length) (u : String) (n : Nat) (h1 : 1≤n)
    (hn : n≤(H.take k).countP (fun t => t.1=u)) : (u, n)∈H.take k := by
  induction k with
  | zero =>
    simp at hn
    omega
  | succ k ih =>
    have hlt : k<H.length := by omega
    have hnum := hH k hlt
    rw [List.take_succ_eq_append_getElem hlt] at hn ⊢
    rw [List.countP_append,List.countP_singleton] at hn
    rw [List.mem_append,List.mem_singleton]
    by_cases hle : n≤(H.take k).countP (fun t => t.1=u)
    · exact .inl (ih (by omega) hle)
    · right
      by_cases hu : H[k].1=u
      · rw [if_pos (by simpa using hu)] at hn
        rw [hu] at hnum
        have hnn : n=H[k].2 := by omega
        rw [hnn,← hu]
      · rw [if_neg (by simpa using hu)] at hn
        omega

variable {H : List Txn}

theorem prefix_not_serverHole (hH : Numbered H) (E : Set Txn) (hE : IsPrefixSet H E) :
    ¬ServerHole E := by
  intro h
  obtain ⟨u,n,j,h1,hlt,hn,hj⟩ := h
  obtain ⟨k,rfl⟩ := hE
  obtain ⟨i,hi,hget⟩ := List.mem_iff_getElem.mp hj
  rw [List.length_take] at hi
  rw [List.getElem_take] at hget
  have hnum := hH i (by omega)
  rw [hget] at hnum
  have hm := mem_take_of_le_count H hH i (by omega) u n h1 (by simp only at hnum; omega)
  exact hn (List.take_subset_take_left H (by omega) hm)

theorem prefix_pos (hH : Numbered H) {E : Set Txn} (hE : IsPrefixSet H E) {t : Txn} (ht : t∈E) :
    1≤t.2 := by
  obtain ⟨k,rfl⟩ := hE
  obtain ⟨i,hi,hget⟩ := List.mem_iff_getElem.mp (List.mem_of_mem_take ht)
  have := hH i hi
  rw [hget] at this
  omega

/-- Over a backup of the history, what `checkMySQLGaps` reports is a server's hole. -/
theorem skipped_iff_serverHole (hH : Numbered H) {A : Set Txn} (E : Set Txn) (hA : IsPrefixSet H A)
    (hAE : A ⊆ E) :
    (∃ t,Skipped A E t ∧
      ¬(t∉A ∧ (∃ i<t.2,(t.1,i)∈A) ∧ ∃ j > t.2,(t.1, j)∈A)) ↔ ServerHole E := by
  have hclosed := prefix_not_serverHole hH A hA
  constructor
  · intro h
    obtain ⟨t,⟨hn,h1,⟨j,hj,hjm⟩,_⟩,_⟩ := h
    exact ⟨t.1,t.2,j,h1,hj,hn,hjm⟩
  · intro h
    obtain ⟨u,n,j,h1,hlt,hn,hj⟩ := h
    refine ⟨(u,n),⟨hn,h1,⟨j,hlt,hj⟩,?_⟩,?_⟩
    · by_cases hnone : ∀ m,(u,m)∉A
      · exact .inr hnone
      · rw [not_forall] at hnone
        obtain ⟨m,hm⟩ := hnone
        rw [not_not] at hm
        have hm1 := prefix_pos hH hA hm
        have hone : (u, 1)∈A := by
          by_contra hnot
          have hne : m≠1 := by
            intro he
            exact hnot (he ▸ hm)
          exact hclosed ⟨u,1,m,le_refl _,by simp only at hm1; omega,hnot,hm⟩
        have hn1 : n≠1 := by
          intro he
          exact hn (he ▸ hAE hone)
        exact .inl ⟨1,by simp only; omega,hAE hone⟩
    · intro hhole
      obtain ⟨hna,_,j',hj',hjm'⟩ := hhole
      exact hclosed ⟨u,n,j',h1,hj',hna,hjm'⟩

section

variable [CaseMapping]

/-- A backup and an archive of one history, with nothing disowned. -/
structure ArchivedHistory (H : List Txn) (anchorGTID : String) (idx : ArchiveIndex) : Prop where
  numbered : Numbered H
  anchor_parses : Parses anchorGTID
  anchor_prefix : IsPrefixSet H (gtids anchorGTID)
  segments_parse : ∀ seg∈idx.segments,Parses seg.gtidSet
  segments_subset : ∀ t∈segmentTxns idx.segments,t∈H
  covered_parses : Parses idx.coveredGTIDSet
  forks_parse : ∀ raw∈disownedTexts idx,Parses raw
  nothing_disowned : disownedTxns idx=∅

def RecoveryTarget.IsLatest (target : RecoveryTarget) : Prop :=
  target.gtid = "" ∧ target.time=none

def reach (idx : ArchiveIndex) (anchorGTID : String) : Set Txn :=
  gtids anchorGTID ∪ segmentTxns idx.segments

variable {H : List Txn} {idx : ArchiveIndex} {anchorGTID : String} {target : RecoveryTarget}

theorem planReplayWithOps_latest (ht : target.IsLatest) (ha : Parses anchorGTID)
    (hp : ∀ seg∈idx.segments,Parses seg.gtidSet) (hc : Parses idx.coveredGTIDSet) :
    (gtids idx.coveredGTIDSet ⊆ reach idx anchorGTID ∧
      ∃ plan,planReplayWithOps mysqlGTIDSet (some idx) anchorGTID target = .ok plan) ∨
    (¬gtids idx.coveredGTIDSet ⊆ reach idx anchorGTID ∧
      planReplayWithOps mysqlGTIDSet (some idx) anchorGTID target = .error .forkedTimeline) := by
  obtain ⟨a,ha⟩ := ha
  obtain ⟨c,hc⟩ := hc
  have hcc := parseGTIDSet_canonical hc
  obtain ⟨planned,f,hw,hcf,hf,_,_⟩ :=
    walkSegments_correct idx.segments a (parseGTIDSet_canonical ha) hp
  have hcover : checkCoverage mysqlGTIDSet f idx.coveredGTIDSet =
      require (mysqlGTIDSet.contains f c=true) .forkedTimeline := by
    unfold checkCoverage
    split
    · rename_i he
      rw [he] at hc
      have hempty : c=∅ := by
        cases hc
        rfl
      rw [hempty]
      rfl
    · rw [mysql_parse,hc]
      rfl
  have htime : checkTimeTarget idx target = .ok () := by
    rw [checkTimeTarget,ht.2]
  have hrest : ∀ plan,applyTargetWithOps mysqlGTIDSet plan f a target = .ok plan := by
    intro plan
    rw [applyTargetWithOps,if_neg (not_not.mpr ht.1),ht.2]
  have hreach : reach idx anchorGTID=f.txns := by
    rw [reach,gtids_of_parse _ a ha,hf]
  rw [hreach,gtids_of_parse _ c hc,← mysql_contains hcf hcc]
  have hanchor : (mysqlGTIDSet.parse anchorGTID).mapError
      (ReplayError.parse "binlog: parsing anchor GTID") = .ok a := by
    rw [mysql_parse,ha]
    rfl
  unfold planReplayWithOps
  by_cases hb : mysqlGTIDSet.contains f c=true
  · left
    refine ⟨hb,_,bind_eq_ok.mpr ⟨(),htime,bind_eq_ok.mpr ⟨a,hanchor,
      bind_eq_ok.mpr ⟨(planned,f),hw,bind_eq_ok.mpr ⟨(),?_,hrest _⟩⟩⟩⟩⟩
    rw [hcover,require_eq_ok]
    exact hb
  · right
    refine ⟨hb,bind_eq_error.mpr (.inr ⟨(),htime,bind_eq_error.mpr (.inr
      ⟨a,hanchor,bind_eq_error.mpr (.inr ⟨(planned,f),hw,
        bind_eq_error.mpr (.inl ?_)⟩)⟩)⟩)⟩
    rw [hcover,require_eq_error]
    exact ⟨hb,rfl⟩

variable {plan plan₀ : ReplayPlan}

/-- The fork records fold into a plan that excludes none of what they disown yet. -/
theorem applyMySQLForks_latest (idx : ArchiveIndex) (ht : target.IsLatest)
    (hx : Rendered plan.excludeGTIDs) (hp : ∀ raw∈disownedTexts idx,Parses raw)
    (hd : gtids plan.excludeGTIDs ∩ disownedTxns idx=∅) :
    ∃ plan',applyMySQLForks idx target plan = .ok plan' := by
  obtain ⟨u,hu,hr,hg⟩ := unionGTIDStrings_correct _ hp
  have hdisowned : gtids u=disownedTxns idx := by
    rw [hg]
    ext t
    exact (mem_disownedTxns t).symm
  obtain ⟨d,hd',hrd,hgd⟩ := differenceGTIDStrings_correct u _ hr.parses hx.parses
  have hsame : d=u := by
    rw [rendered_eq_iff d u hrd hr,hgd,hdisowned,sdiff_eq_left,disjoint_comm,
      Set.disjoint_iff_inter_eq_empty]
    exact hd
  obtain ⟨x,hx',_,_⟩ := unionGTIDStrings_pair _ u hx.parses hr.parses
  refine ⟨{ plan with disownedGTIDs := u, excludeGTIDs := x },?_⟩
  rw [applyMySQLForks,hu]
  refine bind_eq_ok.mpr ⟨u,rfl,?_⟩
  rw [if_neg (not_not.mpr ht.1),hd',hx']
  refine bind_eq_ok.mpr ⟨d,rfl,bind_eq_ok.mpr ⟨(),?_,rfl⟩⟩
  rw [require_eq_ok]
  exact hsame

/-- What the checks of a latest recovery look for. -/
structure Accepted (idx : ArchiveIndex) (anchorGTID : String) : Prop where
  covered : gtids idx.coveredGTIDSet ⊆ reach idx anchorGTID
  no_fork : ¬UnrecordedFork idx.segments ∅
  no_hole : ¬ServerHole (reach idx anchorGTID)

theorem checkMySQLGaps_latest {idx : ArchiveIndex} (h : ArchivedHistory H anchorGTID idx)
    {result disowned : String} (hr : Parses result) (hres : gtids result=reach idx anchorGTID)
    (hd : Parses disowned) (hdis : gtids disowned=∅) :
    (¬ServerHole (reach idx anchorGTID) ∧ checkMySQLGaps anchorGTID result disowned = .ok ()) ∨
    (ServerHole (reach idx anchorGTID) ∧
      ∃ gap,checkMySQLGaps anchorGTID result disowned = .error (.archiveGap gap)) := by
  have hiff := skipped_iff_serverHole h.numbered (reach idx anchorGTID)
    h.anchor_prefix Set.subset_union_left
  have hchk := checkMySQLGaps_correct h.anchor_parses hr hd
  rw [hres,hdis] at hchk
  cases hchk with
  | inl hchk =>
    left
    refine ⟨?_,hchk.2⟩
    intro hhole
    obtain ⟨t,hs,hn⟩ := hiff.mpr hhole
    exact hn ((hchk.1 t hs).resolve_left (Set.notMem_empty t))
  | inr hchk =>
    obtain ⟨⟨t,hs,_,hn⟩,herr⟩ := hchk
    exact .inr ⟨hiff.mp ⟨t,hs,hn⟩,herr⟩

theorem planReplay_latest_ok (ht : target.IsLatest) :
    planReplay (some idx) anchorGTID target = .ok plan ↔
      ∃ plan₀,planReplayWithOps mysqlGTIDSet (some idx) anchorGTID target = .ok plan₀ ∧
        applyMySQLForks idx target plan₀ = .ok plan ∧
        checkUnrecordedForks idx plan.disownedGTIDs = .ok () ∧
        checkPlannedGaps anchorGTID plan = .ok () := by
  constructor
  · intro h
    unfold planReplay at h
    obtain ⟨plan₀,h₀,h⟩ := bind_eq_ok.mp h
    obtain ⟨plan',hf,h⟩ := bind_eq_ok.mp h
    obtain ⟨_,hforks,h⟩ := bind_eq_ok.mp h
    obtain ⟨_,hgaps,h⟩ := bind_eq_ok.mp h
    cases h
    exact ⟨plan₀,h₀,hf,runIf_eq_ok.mp hforks ht.1,runIf_eq_ok.mp hgaps ht⟩
  · intro h
    obtain ⟨plan₀,h₀,hf,hforks,hgaps⟩ := h
    refine bind_eq_ok.mpr ⟨plan₀,h₀,bind_eq_ok.mpr ⟨plan,hf,?_⟩⟩
    refine bind_eq_ok.mpr ⟨(),runIf_eq_ok.mpr fun _ => hforks,?_⟩
    exact bind_eq_ok.mpr ⟨(),runIf_eq_ok.mpr fun _ => hgaps,rfl⟩

theorem checkPlannedGaps_reach {idx : ArchiveIndex} {anchorGTID : String} (ha : Parses anchorGTID)
    (hparse : ∀ seg∈plan.segments,Parses seg.gtidSet)
    (hreach : gtids anchorGTID ∪ plannedTxns plan.segments=reach idx anchorGTID) :
    ∃ u,Parses u ∧ gtids u=reach idx anchorGTID ∧
      checkPlannedGaps anchorGTID plan=checkMySQLGaps anchorGTID u plan.disownedGTIDs := by
  have hall : ∀ raw∈anchorGTID::plan.segments.map ReplaySegment.gtidSet, Parses raw := by
    intro raw hraw
    rcases List.mem_cons.mp hraw with rfl | hraw
    · exact ha
    · obtain ⟨seg,hs,rfl⟩ := List.mem_map.mp hraw
      exact hparse seg hs
  obtain ⟨u,hu,hr,hg⟩ := unionGTIDStrings_correct _ hall
  refine ⟨u,hr.parses,?_,?_⟩
  · rw [hg,← hreach]
    ext t
    simp [plannedTxns]
  · rw [checkPlannedGaps,hu]
    rfl

section

variable (h₀ : planReplayWithOps mysqlGTIDSet (some idx) anchorGTID target = .ok plan₀)
  (hf : applyMySQLForks idx target plan₀ = .ok plan)
include h₀ hf

theorem planReplay_latest_plan (ht : target.IsLatest) :
    gtids anchorGTID ∪ plannedTxns plan.segments=reach idx anchorGTID ∧
      (∀ seg∈plan.segments,Parses seg.gtidSet) ∧ plan.includeGTIDs = "" ∧
      Parses plan.disownedGTIDs ∧ gtids plan.disownedGTIDs=disownedTxns idx := by
  have hp := planReplayWithOps_correct h₀
  obtain ⟨f1,f2,f3,f4,_,_⟩ :=
    applyMySQLForks_correct hp.exclude_rendered hf
  refine ⟨?_,?_,?_,f3.parses,f4⟩
  · rw [f1,reach]
    exact hp.reach
  · rw [f1]
    exact hp.planned_parse
  · rw [f2]
    exact hp.no_target ht.1

theorem planReplay_checks :
    planReplay (some idx) anchorGTID target=do
      runIf (target.gtid = "") (checkUnrecordedForks idx plan.disownedGTIDs)
      runIf (target.gtid = "" ∧ target.time=none) (checkPlannedGaps anchorGTID plan)
      return plan := by
  simp only [planReplay,h₀,hf,bind,Except.bind]

theorem planReplay_latest_cases (ht : target.IsLatest) :
    (UnrecordedFork idx.segments (disownedTxns idx) ∧
      ∃ a b c,planReplay (some idx) anchorGTID target = .error (.unrecordedFork a b c)) ∨
    (¬UnrecordedFork idx.segments (disownedTxns idx) ∧
      ((∀ t,Skipped (gtids anchorGTID) (reach idx anchorGTID) t →
          t∈disownedTxns idx ∨ Hole (gtids anchorGTID) t) ∧
          planReplay (some idx) anchorGTID target = .ok plan ∨
        (∃ t,Skipped (gtids anchorGTID) (reach idx anchorGTID) t ∧ t∉disownedTxns idx ∧
          ¬Hole (gtids anchorGTID) t) ∧
          ∃ gap,planReplay (some idx) anchorGTID target = .error (.archiveGap gap))) := by
  have hp := planReplayWithOps_correct h₀
  obtain ⟨hreach,hparse,-,hdp,hde⟩ := planReplay_latest_plan h₀ hf ht
  rw [planReplay_checks h₀ hf]
  have hforks := checkUnrecordedForks_correct hdp hp.segments_parse
  rw [hde] at hforks
  rcases hforks with ⟨hfork,hok⟩ | ⟨hfork,a,b,c,herr⟩
  · refine .inr ⟨hfork,?_⟩
    obtain ⟨u,hup,hgu,hgaps⟩ := checkPlannedGaps_reach hp.anchor_parses hparse hreach
    rw [runIf_eq_ok.mpr fun _ => hok,hgaps]
    have hcheck := checkMySQLGaps_correct hp.anchor_parses hup hdp
    rw [hgu,hde] at hcheck
    rcases hcheck with ⟨hnone,hpass⟩ | ⟨hskip,gap,herr⟩
    · refine .inl ⟨hnone,bind_eq_ok.mpr ⟨(),rfl,bind_eq_ok.mpr ⟨(),?_,rfl⟩⟩⟩
      exact runIf_eq_ok.mpr fun _ => hpass
    · refine .inr ⟨hskip,gap,bind_eq_error.mpr (.inr ⟨(),rfl,?_⟩)⟩
      exact bind_eq_error.mpr (.inl (runIf_eq_error.mpr ⟨ht,herr⟩))
  · refine .inl ⟨hfork,a,b,c,?_⟩
    rw [bind_eq_error,runIf_eq_error]
    exact .inl ⟨ht.1,herr⟩

end

/-- A latest recovery is planned exactly when the index passes every check, else fails as gap or
fork. -/
theorem planReplay_latest {idx : ArchiveIndex} (h : ArchivedHistory H anchorGTID idx)
    {target : RecoveryTarget} (ht : target.IsLatest) :
    (Accepted idx anchorGTID ∧ ∃ plan,planReplay (some idx) anchorGTID target = .ok plan) ∨
    (¬Accepted idx anchorGTID ∧ ∃ e,planReplay (some idx) anchorGTID target = .error e ∧
      (e.sentinel=some .errArchiveGap ∨ e.sentinel=some .errForkedTimeline)) := by
  have hiff := skipped_iff_serverHole h.numbered (reach idx anchorGTID)
    h.anchor_prefix Set.subset_union_left
  rcases planReplayWithOps_latest ht h.anchor_parses h.segments_parse
      h.covered_parses with ⟨hcov,plan₀,h₀⟩ | ⟨hcov,herr⟩
  · have hp := planReplayWithOps_correct h₀
    obtain ⟨plan,hf⟩ := applyMySQLForks_latest idx ht hp.exclude_rendered
      h.forks_parse (by rw [h.nothing_disowned,Set.inter_empty])
    have hcases := planReplay_latest_cases h₀ hf ht
    rw [h.nothing_disowned] at hcases
    rcases hcases with ⟨hfork,a,b,c,herr⟩ | ⟨hfork,⟨hnone,hok⟩ | ⟨⟨t,hs,-,hn⟩,gap,herr⟩⟩
    · exact .inr ⟨fun ha => ha.no_fork hfork,_,herr,.inr rfl⟩
    · refine .inl ⟨⟨hcov,hfork,fun hhole => ?_⟩,plan,hok⟩
      obtain ⟨t,hs,hn⟩ := hiff.mpr hhole
      exact hn ((hnone t hs).resolve_left (Set.notMem_empty t))
    · exact .inr ⟨fun ha => ha.no_hole (hiff.mp ⟨t,hs,hn⟩),_,herr,.inl rfl⟩
  · refine .inr ⟨fun ha => hcov ha.covered,.forkedTimeline,?_,.inr rfl⟩
    rw [planReplay]
    exact bind_eq_error.mpr (.inl herr)

/-- A latest recovery that passes both checks ends at a moment of the history; one that fails says
gap or fork. -/
structure NoSilentSplice (H : List Txn) (idx : ArchiveIndex) (anchorGTID : String)
    (target : RecoveryTarget) : Prop where
  passed : ∀ plan executed,planReplay (some idx) anchorGTID target = .ok plan →
    Parses executed → gtids executed=replayed plan (gtids anchorGTID) →
    verifyReplayedGTIDs plan anchorGTID executed = .ok () → IsPrefixSet H (gtids executed)
  plan_failed : ∀ e,planReplay (some idx) anchorGTID target = .error e →
    e.sentinel=some .errArchiveGap ∨ e.sentinel=some .errForkedTimeline
  verify_failed : ∀ plan executed e,planReplay (some idx) anchorGTID target = .ok plan →
    Parses executed → gtids executed=replayed plan (gtids anchorGTID) →
    verifyReplayedGTIDs plan anchorGTID executed = .error e →
    e.sentinel=some .errArchiveGap ∨ e.sentinel=some .errForkedTimeline

/-- What is missed before something held shows: as a missing number, as a tail never received, or in
the declared coverage. -/
def LossShows (H : List Txn) (idx : ArchiveIndex) (anchorGTID : String) : Prop :=
  ¬IsPrefixSet H (reach idx anchorGTID) →
    ServerHole (reach idx anchorGTID) ∨ UnrecordedFork idx.segments ∅ ∨
      ¬gtids idx.coveredGTIDSet ⊆ reach idx anchorGTID

theorem lossShows_iff :
    LossShows H idx anchorGTID ↔
      (Accepted idx anchorGTID → IsPrefixSet H (reach idx anchorGTID)) := by
  constructor
  · intro h ha
    by_contra hn
    rcases h hn with hh | hf | hc
    · exact ha.no_hole hh
    · exact ha.no_fork hf
    · exact hc ha.covered
  · intro h hn
    by_contra hc
    rw [not_or,not_or,not_not] at hc
    exact hn (h ⟨hc.2.2,hc.2.1,hc.1⟩)

theorem verifyReplayedGTIDs_latest {idx : ArchiveIndex} (h : ArchivedHistory H anchorGTID idx)
    {target : RecoveryTarget} (ht : target.IsLatest) (ha : Accepted idx anchorGTID)
    (hplan : planReplay (some idx) anchorGTID target = .ok plan) :
    replayed plan (gtids anchorGTID)=reach idx anchorGTID ∧
      ∀ executed,Parses executed → gtids executed=reach idx anchorGTID →
        verifyReplayedGTIDs plan anchorGTID executed = .ok () := by
  have hexact := (replayed_latest hplan ht.1).1
  rw [h.nothing_disowned,Set.sdiff_empty] at hexact
  refine ⟨hexact,?_⟩
  intro executed hp hg
  obtain ⟨plan₀,h₀,hf,-,-⟩ := (planReplay_latest_ok ht).mp hplan
  obtain ⟨_,_,hinc,hdp,hde⟩ := planReplay_latest_plan h₀ hf ht
  rw [h.nothing_disowned] at hde
  refine bind_eq_ok.mpr ⟨(),?_,?_⟩
  · rw [checkTargetPresent,if_pos hinc]
  · cases checkMySQLGaps_latest h hp hg hdp hde with
    | inl hgap => exact hgap.2
    | inr hgap => exact absurd hgap.1 ha.no_hole

/-- A latest recovery never splices exactly when what was lost shows. -/
theorem noSilentSplice_iff (H : List Txn) (anchorGTID : String) (idx : ArchiveIndex)
    (h : ArchivedHistory H anchorGTID idx) (target : RecoveryTarget) (ht : target.IsLatest) :
    NoSilentSplice H idx anchorGTID target ↔ LossShows H idx anchorGTID := by
  rw [lossShows_iff]
  constructor
  · intro hn ha
    cases planReplay_latest h ht with
    | inr hbad => exact absurd ha hbad.1
    | inl hok =>
      obtain ⟨_,plan,hplan⟩ := hok
      obtain ⟨hrep,hver⟩ := verifyReplayedGTIDs_latest h ht ha hplan
      obtain ⟨executed,_,hr,hg⟩ := unionGTIDStrings_correct
        (anchorGTID::idx.segments.map ArchiveSegment.gtidSet) (by
          intro raw hraw
          rcases List.mem_cons.mp hraw with rfl | hraw
          · exact h.anchor_parses
          · obtain ⟨seg,hs,rfl⟩ := List.mem_map.mp hraw
            exact h.segments_parse seg hs)
      have hge : gtids executed=reach idx anchorGTID := by
        rw [hg]
        ext t
        simp [reach,segmentTxns]
      rw [← hge]
      exact hn.passed plan executed hplan hr.parses (hge.trans hrep.symm)
        (hver executed hr.parses hge)
  · intro hprefix
    cases planReplay_latest h ht with
    | inr hbad =>
      obtain ⟨_,e,herr,hsent⟩ := hbad
      refine ⟨?_,?_,?_⟩
      · intro plan executed hplan
        rw [herr] at hplan
        cases hplan
      · intro e' he'
        rw [herr] at he'
        cases he'
        exact hsent
      · intro plan executed e' hplan
        rw [herr] at hplan
        cases hplan
    | inl hok =>
      obtain ⟨ha,plan,hplan⟩ := hok
      obtain ⟨hrep,hver⟩ := verifyReplayedGTIDs_latest h ht ha hplan
      refine ⟨?_,?_,?_⟩
      · intro plan' executed hplan' _ hge _
        rw [hplan] at hplan'
        cases hplan'
        rw [hge,hrep]
        exact hprefix ha
      · intro e he
        rw [hplan] at he
        cases he
      · intro plan' executed e hplan' hp hge he
        rw [hplan] at hplan'
        cases hplan'
        rw [hver executed hp (hge.trans hrep)] at he
        cases he

end

def handoverHistory : List Txn :=
  [("u",1),("u",2),("u",3),("u",4),("u",5),("v",1),("v",2),("v",3)]

/-- Everything is archived. -/
def handoverIndex : ArchiveIndex where
  segments := [
    { serverUUID := "u", gtidSet := "u:1-5" },
    { serverUUID := "v", gtidSet := "u:4-5,v:1-3" }]

/-- The file with the last two transactions of `u` never reached the archive. -/
def lostTailIndex : ArchiveIndex where
  segments := [
    { serverUUID := "u", gtidSet := "u:1-3" },
    { serverUUID := "v", gtidSet := "v:1-3" }]

private theorem segmentTxns_list {segs : List ArchiveSegment} (l : List Txn)
    (h : ∀ seg∈segs,∀ t∈gtidList seg.gtidSet,t∈l) : ∀ t∈segmentTxns segs, t∈l := by
  intro t ht
  obtain ⟨seg,hs,hm⟩ := ht
  exact h seg hs t ((mem_gtidList _ t).mpr hm)

private theorem archivedHistory_of_lists (idx : ArchiveIndex) (hn : Numbered H)
    (hp : ∀ seg∈idx.segments,(parseGTIDSet seg.gtidSet).isOk=true)
    (hs : ∀ seg∈idx.segments,∀ t∈gtidList seg.gtidSet,t∈H) (hc : idx.coveredGTIDSet = "")
    (hf : disownedTexts idx=[]) : ArchivedHistory H "" idx where
  numbered := hn
  anchor_parses := parses_empty
  anchor_prefix := ⟨0,by simp⟩
  segments_parse seg h := exists_ok _ (hp seg h)
  segments_subset := segmentTxns_list H hs
  covered_parses := hc ▸ parses_empty
  forks_parse := by simp [hf]
  nothing_disowned := by
    ext t
    simp [mem_disownedTxns,hf]

theorem noSilentSplice_iff_handover :
    ArchivedHistory handoverHistory "" handoverIndex ∧
      NoSilentSplice handoverHistory handoverIndex "" {} := by
  have h : ArchivedHistory handoverHistory "" handoverIndex :=
    archivedHistory_of_lists _ (by decide) (by decide) (by decide) rfl rfl
  refine ⟨h,(noSilentSplice_iff _ _ _ h {} ⟨rfl,rfl⟩).mpr ?_⟩
  intro hn
  exfalso
  apply hn
  refine ⟨8,?_⟩
  have hall : ∀ t∈handoverHistory,∃ seg∈handoverIndex.segments, t∈gtids seg.gtidSet := by
    decide
  ext t
  rw [reach,gtids_empty,Set.empty_union]
  constructor
  · intro ht
    exact segmentTxns_list handoverHistory (by decide) t ht
  · intro ht
    exact hall t ht

/-- The tail of `u` is missing and `v` starts at 1: no check sees it. -/
theorem noSilentSplice_lostTail :
    ArchivedHistory handoverHistory "" lostTailIndex ∧
      ¬NoSilentSplice handoverHistory lostTailIndex "" {} := by
  refine ⟨archivedHistory_of_lists _ (by decide) (by decide) (by decide) rfl rfl,?_⟩
  intro hn
  have hplan : planReplay (some lostTailIndex) "" {} =
      .ok { segments := lostTailIndex.segments.map replaySegment } := by decide
  have hrep : gtids "u:1-3,v:1-3" =
      replayed { segments := lostTailIndex.segments.map replaySegment } (gtids "") := by
    rw [replayed_eq,gtids_empty,Set.empty_union]
    ext t
    have hl : ∀ t∈gtidList "u:1-3,v:1-3",∃ seg∈lostTailIndex.segments.map replaySegment,
        t∈gtids seg.gtidSet := by decide
    have hr : ∀ seg∈lostTailIndex.segments.map replaySegment,∀ t∈gtidList seg.gtidSet,
        t∈gtids "u:1-3,v:1-3" := by decide
    constructor
    · intro ht
      exact ⟨hl t ((mem_gtidList _ t).mpr ht),.inl rfl,by simp⟩
    · intro ht
      obtain ⟨⟨seg,hs,hm⟩,_⟩ := ht
      exact hr seg hs t ((mem_gtidList _ t).mpr hm)
  obtain ⟨k,hk⟩ := hn.passed _ "u:1-3,v:1-3" hplan (exists_ok _ (by decide)) hrep (by decide)
  have hv : (("v",1) : Txn)∈handoverHistory.take k := by
    have hmem : (("v",1) : Txn)∈gtids "u:1-3,v:1-3" := by decide
    rw [hk] at hmem
    exact hmem
  have hu : (("u",4) : Txn)∉handoverHistory.take k := by
    have hmem : (("u",4) : Txn)∉gtids "u:1-3,v:1-3" := by decide
    rw [hk] at hmem
    exact hmem
  by_cases hle : k≤5
  · have h5 : (("v",1) : Txn)∉handoverHistory.take 5 := by decide
    exact h5 (List.take_subset_take_left _ hle hv)
  · have h6 : (("u",4) : Txn)∈handoverHistory.take 6 := by decide
    exact hu (List.take_subset_take_left _ (by omega) h6)

end Cnmsql.Binlog
