import Cnmsql.Binlog.Replay

namespace Cnmsql.Binlog

open Framework Replication ObjectStore

private theorem union_to_target {A P S T : Set Txn} (hreach : A ∪ P=A ∪ S) (hA : A ⊆ T)
    (hT : T ⊆ A ∪ S) : A ∪ {t | t∈P ∧ t∈T ∧ t∉A}=T := by
  ext t
  have hr := Set.ext_iff.mp hreach t
  have h1 : t∈A → t∈T := fun h => hA h
  have h2 : t∈T → t∈A ∪ S := fun h => hT h
  simp only [Set.mem_union,Set.mem_ofPred_eq] at hr h2 ⊢
  tauto

private theorem union_to_latest {A P S D : Set Txn} (hreach : A ∪ P=A ∪ S)
    (hd : A ∩ D=∅) : A ∪ {t | t∈P ∧ t∉A ∪ D}=(A ∪ S) \ D := by
  ext t
  have hr := Set.ext_iff.mp hreach t
  have h1 : t∈A → t∉D := fun h1 h2 => Set.eq_empty_iff_forall_notMem.mp hd t ⟨h1,h2⟩
  simp only [Set.mem_union,Set.mem_ofPred_eq,Set.mem_sdiff] at hr ⊢
  tauto

section

variable [CaseMapping]

def segmentTxns (segs : List ArchiveSegment) : Set Txn :=
  {t | ∃ seg∈segs,t∈gtids seg.gtidSet}

def plannedTxns (segs : List ReplaySegment) : Set Txn :=
  {t | ∃ seg∈segs,t∈gtids seg.gtidSet}

def disownedTxns (idx : ArchiveIndex) : Set Txn :=
  {t | (∃ seg∈idx.segments,∃ f,seg.fork=some f ∧ t∈gtids f.gtidSet) ∨
    ∃ d,idx.disowned=some d ∧ t∈gtids d.gtidSet}

def Applies (plan : ReplayPlan) (t : Txn) : Prop :=
  (plan.includeGTIDs = "" ∨ t∈gtids plan.includeGTIDs) ∧ t∉gtids plan.excludeGTIDs

variable (plan : ReplayPlan) (executed : Set Txn) (seg : ReplaySegment)

def replayOne : Set Txn :=
  executed ∪ {t | t∈gtids seg.gtidSet ∧ Applies plan t}

def replayed : Set Txn :=
  plan.segments.foldl (replayOne plan) executed

theorem segmentTxns_cons (seg : ArchiveSegment) (segs : List ArchiveSegment) :
    segmentTxns (seg::segs)=gtids seg.gtidSet ∪ segmentTxns segs := by
  ext t
  simp [segmentTxns]

theorem plannedTxns_cons (segs : List ReplaySegment) :
    plannedTxns (seg::segs)=gtids seg.gtidSet ∪ plannedTxns segs := by
  ext t
  simp [plannedTxns]

private theorem foldl_replayOne (segs : List ReplaySegment) (executed : Set Txn) :
    segs.foldl (replayOne plan) executed =
      executed ∪ {t | t∈plannedTxns segs ∧ Applies plan t} := by
  induction segs generalizing executed with
  | nil => simp [plannedTxns]
  | cons seg segs ih =>
    rw [List.foldl_cons,ih,replayOne,Set.union_assoc]
    congr 1
    ext t
    simp only [plannedTxns_cons,or_and_right,Set.mem_union,Set.mem_ofPred_eq]

variable {idx : ArchiveIndex} {anchorGTID : String} {target : RecoveryTarget} {plan : ReplayPlan}

theorem replayed_eq (executed : Set Txn) :
    replayed plan executed=executed ∪ {t | t∈plannedTxns plan.segments ∧ Applies plan t} :=
  foldl_replayOne plan plan.segments executed

theorem mysql_parse (raw : String) : mysqlGTIDSet.parse raw=parseGTIDSet raw := by
  by_cases h : raw = ""
  · subst h
    rfl
  · exact if_neg h

theorem mysql_contains {m o : GTIDSet} (hm : m.Canonical) (ho : o.Canonical) :
    mysqlGTIDSet.contains m o=true ↔ o.txns ⊆ m.txns := by
  change (if o.isEmpty then true else m.contains o)=true ↔ _
  cases he : o.isEmpty with
  | true =>
    have := (o.isEmpty_iff ho).mp he
    simp [this]
  | false =>
    simp only [Bool.false_eq_true,if_false]
    exact m.contains_iff o hm ho

variable (segs : List ArchiveSegment) (f : GTIDSet)

/-- A skipped segment brings nothing, so the planned ones reach as far as all. -/
theorem walkSegments_correct (hf : f.Canonical) (hp : ∀ seg∈segs,Parses seg.gtidSet) :
    ∃ planned,∃ f' : GTIDSet,walkSegments mysqlGTIDSet segs f = .ok (planned,f') ∧
      f'.Canonical ∧ f'.txns=f.txns ∪ segmentTxns segs ∧
      f'.txns=f.txns ∪ plannedTxns planned ∧ ∀ seg∈planned, Parses seg.gtidSet := by
  induction segs generalizing f with
  | nil => exact ⟨[],f,rfl,hf,by simp [segmentTxns],by simp [plannedTxns],by simp⟩
  | cons seg segs ih =>
    obtain ⟨s,hs⟩ := hp seg (by simp)
    have hc := parseGTIDSet_canonical hs
    have hg := gtids_of_parse _ s hs
    have hp' : ∀ x∈segs, Parses x.gtidSet := fun x hx => hp x (by simp [hx])
    have hstep : walkSegments mysqlGTIDSet (seg::segs) f =
        if !s.isEmpty && mysqlGTIDSet.contains f s then walkSegments mysqlGTIDSet segs f
        else do
          let (planned,frontier) ← walkSegments mysqlGTIDSet segs (f.union s)
          return (replaySegment seg::planned, frontier) := by
      rw [walkSegments,mysql_parse,hs]
      rfl
    rw [hstep]
    cases hb : !s.isEmpty && mysqlGTIDSet.contains f s with
    | true =>
      obtain ⟨planned,f',h1,h2,h3,h4,h5⟩ := ih f hf hp'
      have hsub := (mysql_contains hf hc).mp (Bool.and_eq_true_iff.mp hb).2
      refine ⟨planned,f',h1,h2,?_,h4,h5⟩
      rw [h3,segmentTxns_cons,hg,← Set.union_assoc,Set.union_eq_self_of_subset_right hsub]
    | false =>
      obtain ⟨hu,ht⟩ := f.union_correct s hf hc
      obtain ⟨planned,f',h1,h2,h3,h4,h5⟩ := ih (f.union s) hu hp'
      refine ⟨replaySegment seg::planned,f',?_,h2,?_,?_,?_⟩
      · simp only [h1]
        rfl
      · rw [h3,ht,segmentTxns_cons,hg,Set.union_assoc]
      · rw [h4,ht,plannedTxns_cons,replaySegment,hg,Set.union_assoc]
      · intro x hx
        rcases List.mem_cons.mp hx with rfl | hx
        · exact ⟨s,hs⟩
        · exact h5 x hx

theorem walkSegments_parses
    (r : List ReplaySegment × GTIDSet) (h : walkSegments mysqlGTIDSet segs f = .ok r) :
    ∀ seg∈segs, Parses seg.gtidSet := by
  induction segs generalizing f r with
  | nil => simp
  | cons seg segs ih =>
    rw [walkSegments,bind_eq_ok] at h
    obtain ⟨s,hs,h⟩ := h
    rw [mapError_eq_ok,mysql_parse] at hs
    intro x hx
    cases List.mem_cons.mp hx with
    | inl hx => exact hx ▸ ⟨s,hs⟩
    | inr hx =>
      split at h
      · exact ih f r h x hx
      · obtain ⟨r',hr',_⟩ := bind_eq_ok.mp h
        exact ih _ r' hr' x hx

/-- What `planReplayWithOps` guarantees of a plan it returns. -/
structure Planned (idx : ArchiveIndex) (anchorGTID : String) (target : RecoveryTarget)
    (plan : ReplayPlan) : Prop where
  anchor_parses : Parses anchorGTID
  segments_parse : ∀ seg∈idx.segments,Parses seg.gtidSet
  planned_parse : ∀ seg∈plan.segments,Parses seg.gtidSet
  exclude_rendered : Rendered plan.excludeGTIDs
  exclude_eq : gtids plan.excludeGTIDs=gtids anchorGTID
  /-- Skipping a segment the frontier contains loses nothing. -/
  reach : gtids anchorGTID ∪ plannedTxns plan.segments =
    gtids anchorGTID ∪ segmentTxns idx.segments
  covered : gtids idx.coveredGTIDSet ⊆ gtids anchorGTID ∪ segmentTxns idx.segments
  no_target : target.gtid = "" → plan.includeGTIDs = ""
  target_rendered : target.gtid ≠ "" → Rendered plan.includeGTIDs
  target_eq : target.gtid ≠ "" → gtids plan.includeGTIDs=gtids target.gtid
  anchor_le : target.gtid ≠ "" → gtids anchorGTID ⊆ gtids target.gtid
  target_le : target.gtid ≠ "" →
    gtids target.gtid ⊆ gtids anchorGTID ∪ segmentTxns idx.segments

theorem applyTargetWithOps_correct {plan' : ReplayPlan} {frontier anchor : GTIDSet}
    {target : RecoveryTarget} (hf : frontier.Canonical) (ha : anchor.Canonical)
    (h : applyTargetWithOps mysqlGTIDSet plan frontier anchor target = .ok plan') :
    plan'.segments=plan.segments ∧ plan'.excludeGTIDs=plan.excludeGTIDs ∧
      (target.gtid = "" → plan'.includeGTIDs=plan.includeGTIDs) ∧
      (target.gtid ≠ "" → Rendered plan'.includeGTIDs ∧
        gtids plan'.includeGTIDs=gtids target.gtid ∧ anchor.txns ⊆ gtids target.gtid ∧
        gtids target.gtid ⊆ frontier.txns) := by
  unfold applyTargetWithOps at h
  split at h
  · rename_i hne
    obtain ⟨want,hw,h⟩ := bind_eq_ok.mp h
    rw [mapError_eq_ok,mysql_parse] at hw
    obtain ⟨_,hb,h⟩ := bind_eq_ok.mp h
    obtain ⟨_,hr,h⟩ := bind_eq_ok.mp h
    have hc := parseGTIDSet_canonical hw
    rw [require_eq_ok,mysql_contains hc ha] at hb
    rw [require_eq_ok,mysql_contains hf hc] at hr
    have hg := gtids_of_parse _ want hw
    cases h
    refine ⟨rfl,rfl,fun he => absurd he hne,fun _ => ⟨⟨want,hc,rfl⟩,?_,?_,?_⟩⟩
    · rw [(gtids_string hc).2,hg]
    · rw [hg]
      exact hb
    · rw [hg]
      exact hr
  · rename_i he
    refine ⟨?_,?_,?_,fun hne => absurd hne he⟩
    all_goals cases ht : target.time with
      | none | some t =>
        simp only [ht] at h
        cases h
        simp

theorem planReplayWithOps_correct
    (h : planReplayWithOps mysqlGTIDSet (some idx) anchorGTID target = .ok plan) :
    Planned idx anchorGTID target plan := by
  unfold planReplayWithOps at h
  obtain ⟨_,_,h⟩ := bind_eq_ok.mp h
  obtain ⟨anchor,ha,h⟩ := bind_eq_ok.mp h
  obtain ⟨r,hw,h⟩ := bind_eq_ok.mp h
  obtain ⟨_,hcov,h⟩ := bind_eq_ok.mp h
  rw [mapError_eq_ok,mysql_parse] at ha
  have hp := walkSegments_parses idx.segments anchor r hw
  have hca := parseGTIDSet_canonical ha
  have hga := gtids_of_parse _ anchor ha
  obtain ⟨planned,f,hwalk,hcf,hfs,hfp,hpp⟩ := walkSegments_correct idx.segments anchor hca hp
  rw [hwalk] at hw
  cases hw
  obtain ⟨t1,t2,t3,t4⟩ := applyTargetWithOps_correct hcf hca h
  have hreach : gtids anchorGTID ∪ segmentTxns idx.segments=f.txns := by rw [hga,hfs]
  refine ⟨⟨anchor,ha⟩,hp,?_,?_,?_,?_,?_,?_,?_,?_,?_,?_⟩
  · rw [t1]
    exact hpp
  · rw [t2]
    exact ⟨anchor,hca,rfl⟩
  · rw [t2,hga]
    exact (gtids_string hca).2
  · rw [hreach,t1,hga,← hfp]
  · rw [hreach]
    unfold checkCoverage at hcov
    split at hcov
    · rename_i he
      rw [he,gtids_empty]
      exact Set.empty_subset _
    · obtain ⟨covered,hc,hr⟩ := bind_eq_ok.mp hcov
      rw [mapError_eq_ok,mysql_parse] at hc
      rw [require_eq_ok,mysql_contains hcf (parseGTIDSet_canonical hc)] at hr
      rw [gtids_of_parse _ covered hc]
      exact hr
  · intro he
    rw [t3 he]
  · exact fun hne => (t4 hne).1
  · exact fun hne => (t4 hne).2.1
  · intro hne
    rw [hga]
    exact (t4 hne).2.2.1
  · intro hne
    rw [hreach]
    exact (t4 hne).2.2.2

theorem mem_disownedTxns (t : Txn) :
    t∈disownedTxns idx ↔ ∃ raw∈disownedTexts idx, t∈gtids raw := by
  have hne : ∀ raw, t∈gtids raw → raw ≠ "" := by
    intro raw h he
    rw [he,gtids_empty] at h
    exact h
  simp only [disownedTexts,List.mem_append,List.mem_filterMap,Option.bind_eq_some_iff,
    Option.ite_none_right_eq_some,Option.some.injEq]
  constructor
  · intro h
    cases h with
    | inl h =>
      obtain ⟨seg,hs,f,hf,ht⟩ := h
      exact ⟨f.gtidSet,.inl ⟨seg,hs,f,hf,hne _ ht,rfl⟩,ht⟩
    | inr h =>
      obtain ⟨d,hd,ht⟩ := h
      refine ⟨d.gtidSet,.inr ?_,ht⟩
      simp [hd,hne _ ht]
  · intro h
    obtain ⟨raw,hraw,ht⟩ := h
    cases hraw with
    | inl hraw =>
      obtain ⟨seg,hs,f,hf,_,rfl⟩ := hraw
      exact .inl ⟨seg,hs,f,hf,ht⟩
    | inr hraw =>
      cases hd : idx.disowned with
      | none => simp [hd] at hraw
      | some d =>
        simp only [hd] at hraw
        split at hraw
        · rw [List.mem_singleton] at hraw
          exact .inr ⟨d,hd,hraw ▸ ht⟩
        · simp at hraw

/-- A recovery to a point excludes every disowned transaction, none of which the backup may hold; a
`targetGTID` keeps its bounds. -/
theorem applyMySQLForks_correct {plan' : ReplayPlan} (hx : Rendered plan.excludeGTIDs)
    (h : applyMySQLForks idx target plan = .ok plan') :
    plan'.segments=plan.segments ∧ plan'.includeGTIDs=plan.includeGTIDs ∧
      Rendered plan'.disownedGTIDs ∧ gtids plan'.disownedGTIDs=disownedTxns idx ∧
      (target.gtid ≠ "" → plan'.excludeGTIDs=plan.excludeGTIDs) ∧
      (target.gtid = "" →
        gtids plan'.excludeGTIDs=gtids plan.excludeGTIDs ∪ disownedTxns idx ∧
        gtids plan.excludeGTIDs ∩ disownedTxns idx=∅) := by
  unfold applyMySQLForks at h
  obtain ⟨allForks,hall,h⟩ := bind_eq_ok.mp h
  rw [mapError_eq_ok] at hall
  obtain ⟨u,hu,hr,hg⟩ := unionGTIDStrings_correct _ (unionGTIDStrings_parses hall)
  rw [hu,Except.ok.injEq] at hall
  subst hall
  have hd : gtids u=disownedTxns idx := by
    rw [hg]
    ext t
    exact (mem_disownedTxns t).symm
  split at h
  · rename_i hne
    obtain ⟨mixed,_,h⟩ := bind_eq_ok.mp h
    cases h
    exact ⟨rfl,rfl,hr,hd,fun _ => rfl,fun he => absurd he hne⟩
  · rename_i he
    obtain ⟨onDead,hdead,h⟩ := bind_eq_ok.mp h
    obtain ⟨_,hreq,h⟩ := bind_eq_ok.mp h
    obtain ⟨exclude,hex,h⟩ := bind_eq_ok.mp h
    rw [mapError_eq_ok] at hdead hex
    rw [require_eq_ok] at hreq
    cases h
    refine ⟨rfl,rfl,hr,hd,fun hne => absurd hne he,fun _ => ⟨?_,?_⟩⟩
    · obtain ⟨x,hx',_,hgx⟩ := unionGTIDStrings_pair _ u hx.parses hr.parses
      rw [hx'] at hex
      cases hex
      rw [hgx,hd]
    · obtain ⟨d,hd',_,hgd⟩ := differenceGTIDStrings_correct u _ hr.parses hx.parses
      rw [hd'] at hdead
      cases hdead
      rw [hreq,hd] at hgd
      rw [Set.eq_empty_iff_forall_notMem]
      intro t ht
      have hm := ht.2
      rw [hgd] at hm
      exact hm.2 ht.1

section

variable (h : planReplay (some idx) anchorGTID target = .ok plan)
include h

theorem planReplay_planned :
    ∃ plan₀,Planned idx anchorGTID target plan₀ ∧ applyMySQLForks idx target plan₀ = .ok plan := by
  unfold planReplay at h
  obtain ⟨plan₀,h0,h⟩ := bind_eq_ok.mp h
  obtain ⟨plan₁,h1,h⟩ := bind_eq_ok.mp h
  obtain ⟨_,_,h⟩ := bind_eq_ok.mp h
  obtain ⟨_,_,h⟩ := bind_eq_ok.mp h
  cases h
  exact ⟨plan₀,planReplayWithOps_correct h0,h1⟩

theorem planReplay_reach :
    gtids anchorGTID ∪ plannedTxns plan.segments =
      gtids anchorGTID ∪ segmentTxns idx.segments := by
  obtain ⟨plan₀,hp,hf⟩ := planReplay_planned h
  obtain ⟨f1,_⟩ := applyMySQLForks_correct hp.exclude_rendered hf
  rw [f1]
  exact hp.reach

theorem replayed_target (hne : target.gtid ≠ "") (hnon : (gtids target.gtid).Nonempty) :
    replayed plan (gtids anchorGTID)=gtids target.gtid := by
  have hreach := planReplay_reach h
  obtain ⟨plan₀,hp,hf⟩ := planReplay_planned h
  obtain ⟨_,f2,_,_,f5,_⟩ :=
    applyMySQLForks_correct hp.exclude_rendered hf
  have hinc : plan₀.includeGTIDs ≠ "" := by
    intro he
    rw [rendered_eq_empty _ (hp.target_rendered hne),hp.target_eq hne] at he
    exact hnon.ne_empty he
  rw [replayed_eq]
  simp only [Applies,f2,hinc,false_or,hp.target_eq hne,f5 hne,hp.exclude_eq]
  exact union_to_target hreach (hp.anchor_le hne) (hp.target_le hne)

theorem replayed_latest (he : target.gtid = "") :
    replayed plan (gtids anchorGTID) =
        (gtids anchorGTID ∪ segmentTxns idx.segments) \ disownedTxns idx ∧
      gtids anchorGTID ∩ disownedTxns idx=∅ := by
  have hreach := planReplay_reach h
  obtain ⟨plan₀,hp,hf⟩ := planReplay_planned h
  obtain ⟨_,f2,_,_,_,f6⟩ :=
    applyMySQLForks_correct hp.exclude_rendered hf
  obtain ⟨hx,hd⟩ := f6 he
  rw [hp.exclude_eq] at hd hx
  refine ⟨?_,hd⟩
  rw [replayed_eq]
  simp only [Applies,f2,hp.no_target he,true_or,true_and,hx]
  exact union_to_latest hreach hd

end

/-- Replaying a plan ends exactly at the target: the target set if it names a transaction, else
everything archived and not disowned. -/
theorem planReplay_exact (idx : ArchiveIndex) (anchorGTID : String) (target : RecoveryTarget)
    (plan : ReplayPlan) (h : planReplay (some idx) anchorGTID target = .ok plan) :
    (target.gtid ≠ "" → (gtids target.gtid).Nonempty →
      replayed plan (gtids anchorGTID)=gtids target.gtid) ∧
    (target.gtid = "" → target.time=none →
      replayed plan (gtids anchorGTID) =
        (gtids anchorGTID ∪ segmentTxns idx.segments) \ disownedTxns idx ∧
      gtids anchorGTID ∩ disownedTxns idx=∅) ∧
    gtids anchorGTID ∪ plannedTxns plan.segments =
      gtids anchorGTID ∪ segmentTxns idx.segments := by
  refine ⟨?_,?_,?_⟩
  · exact replayed_target h
  · intro he _
    exact replayed_latest h he
  · exact planReplay_reach h

end

/-- A primary `u` that failed over to `v`: `u` archived two transactions `v` never received. -/
def failoverIndex : ArchiveIndex where
  segments := [
    { serverUUID := "u", gtidSet := "u:1-5", fork := some { gtidSet := "u:4-5" } },
    { serverUUID := "v", gtidSet := "u:1-3,v:1-2" }]

theorem planReplay_exact_failover :
    (∃ plan,planReplay (some failoverIndex) "u:1-2" {} = .ok plan ∧
      replayed plan (gtids "u:1-2") =
        (gtids "u:1-2" ∪ segmentTxns failoverIndex.segments) \ disownedTxns failoverIndex) ∧
    ∃ plan,planReplay (some failoverIndex) "u:1-2" { gtid := "u:1-3,v:1" } = .ok plan ∧
      replayed plan (gtids "u:1-2")=gtids "u:1-3,v:1" := by
  obtain ⟨p,hp⟩ := exists_ok (planReplay (some failoverIndex) "u:1-2" {}) (by decide)
  obtain ⟨q,hq⟩ := exists_ok (planReplay (some failoverIndex) "u:1-2" { gtid := "u:1-3,v:1" })
    (by decide)
  refine ⟨⟨p,hp,?_⟩,q,hq,?_⟩
  · exact ((planReplay_exact failoverIndex "u:1-2" {} p hp).2.1 rfl rfl).1
  · exact (planReplay_exact failoverIndex "u:1-2" { gtid := "u:1-3,v:1" } q hq).1 (by decide)
      ⟨("v",1),by decide⟩

/-- A `targetGTID` of blanks parses as the empty set: everything replays. -/
theorem planReplay_blank_target_replays_all :
    ∃ plan,planReplay (some failoverIndex) "" { gtid := " " } = .ok plan ∧
      replayed plan (gtids "")≠gtids " " := by
  refine ⟨{ segments := failoverIndex.segments.map replaySegment, disownedGTIDs := "u:4-5" },
    by decide,?_⟩
  intro h
  have hm : (("u", 5) : Txn)∈gtids " " := by
    rw [← h,replayed_eq]
    exact .inr ⟨⟨_,List.mem_cons_self,by decide⟩,.inl rfl,by decide⟩
  revert hm
  decide

end Cnmsql.Binlog
