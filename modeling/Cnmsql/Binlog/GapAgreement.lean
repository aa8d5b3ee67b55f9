import Cnmsql.Binlog.Recoverable

namespace Cnmsql.Binlog

open Framework Replication ObjectStore

section

/-- Recovery to `E` skipped it, and neither disowned ones nor the backup's holes explain it. -/
def Unexplained (A E D : Set Txn) (t : Txn) : Prop := Skipped A E t ∧ t∉D ∧ ¬Hole A t

/-- Recovery goes past it with a transaction not disowned, from one before unless the backup has
none of its server. -/
def Spanned (A U D : Set Txn) (t : Txn) : Prop :=
  (∃ j > t.2,(t.1,j)∈U \ D) ∧ ((∃ i<t.2,(t.1,i)∈U \ D) ∨ ∀ n,(t.1,n)∉A)

variable {A U D : Set Txn} {t : Txn}

/-- Of the planned holes those stay that surviving transactions span. -/
theorem unexplained_sdiff_iff : Unexplained A (U \ D) D t ↔ Unexplained A U D t ∧ Spanned A U D t := by
  constructor
  · rintro ⟨⟨hnot,hpos,⟨j,hj,hjU⟩,hbefore⟩,hD,hhole⟩
    refine ⟨⟨⟨fun ht => hnot ⟨ht,hD⟩,hpos,⟨j,hj,hjU.1⟩,?_⟩,hD,hhole⟩,⟨j,hj,hjU⟩,hbefore⟩
    exact hbefore.imp_left fun ⟨i,hi,hiU⟩ => ⟨i,hi,hiU.1⟩
  · rintro ⟨⟨⟨hnot,hpos,-,-⟩,hD,hhole⟩,habove,hbefore⟩
    exact ⟨⟨fun ht => hnot ht.1,hpos,habove,hbefore⟩,hD,hhole⟩

variable [CaseMapping]

def SaysGap {α : Type} (r : Except ReplayError α) : Prop :=
  ∃ e,r = .error e ∧ e.sentinel=some .errArchiveGap

theorem saysGap_checkMySQLGaps {anchorGTID result disowned : String} (ha : Parses anchorGTID)
    (hr : Parses result) (hd : Parses disowned) :
    SaysGap (checkMySQLGaps anchorGTID result disowned) ↔
      ∃ t,Unexplained (gtids anchorGTID) (gtids result) (gtids disowned) t := by
  rcases checkMySQLGaps_correct ha hr hd with
    ⟨hnone,hok⟩ | ⟨⟨t,hskip,hnot,hhole⟩,gap,herr⟩
  · rw [hok]
    refine iff_of_false (by simp [SaysGap]) ?_
    rintro ⟨t,hskip,hnot,hhole⟩
    exact (hnone t hskip).elim hnot hhole
  · rw [herr]
    exact iff_of_true ⟨_,rfl,rfl⟩ ⟨t,hskip,hnot,hhole⟩

variable (idx : ArchiveIndex) (anchorGTID : String) (target : RecoveryTarget) (plan : ReplayPlan)

/-- Planning gets past the frontier and the fork records, with this plan. -/
structure PastForks : Prop where
  planned : ∃ plan₀,planReplayWithOps mysqlGTIDSet (some idx) anchorGTID target = .ok plan₀ ∧
    applyMySQLForks idx target plan₀ = .ok plan
  forks : checkUnrecordedForks idx plan.disownedGTIDs = .ok ()

structure Replays (executed : String) : Prop where
  parses : Parses executed
  eq : gtids executed=(gtids anchorGTID ∪ plannedTxns plan.segments) \ gtids plan.disownedGTIDs

variable {idx : ArchiveIndex} {anchorGTID executed : String} {target : RecoveryTarget}
  {plan : ReplayPlan}

theorem saysGap_planReplay (ht : target.IsLatest) (h : PastForks idx anchorGTID target plan) :
    SaysGap (planReplay (some idx) anchorGTID target) ↔
      SaysGap (checkPlannedGaps anchorGTID plan) := by
  obtain ⟨plan₀,h₀,hf⟩ := h.planned
  have hforks : runIf (target.gtid = "") (checkUnrecordedForks idx plan.disownedGTIDs) = .ok () :=
    runIf_eq_ok.mpr fun _ => h.forks
  rw [planReplay_checks h₀ hf,hforks,runIf,
    if_pos (show target.gtid = "" ∧ target.time=none from ht)]
  cases checkPlannedGaps anchorGTID plan with
  | error e => simp [SaysGap,bind,Except.bind]
  | ok _ => simp [SaysGap,bind,Except.bind,pure,Except.pure]

/-- The two gap checks of a latest recovery agree exactly if an unexplained hole comes with one that
surviving transactions span. -/
theorem gapChecks_agree_iff (ht : target.IsLatest) (h : PastForks idx anchorGTID target plan)
    (hexec : Replays anchorGTID plan executed) :
    (SaysGap (planReplay (some idx) anchorGTID target) ↔
      SaysGap (verifyReplayedGTIDs plan anchorGTID executed)) ↔
    ((∃ t,Unexplained (gtids anchorGTID) (reach idx anchorGTID) (disownedTxns idx) t) →
      ∃ t,Unexplained (gtids anchorGTID) (reach idx anchorGTID) (disownedTxns idx) t ∧
        Spanned (gtids anchorGTID) (reach idx anchorGTID) (disownedTxns idx) t) := by
  obtain ⟨plan₀,h₀,hf⟩ := h.planned
  have hp := planReplayWithOps_correct h₀
  obtain ⟨hreach,hparse,hinclude,hdp,hde⟩ :=
    planReplay_latest_plan h₀ hf ht
  obtain ⟨u,hup,hgu,hcheck⟩ := checkPlannedGaps_reach hp.anchor_parses hparse hreach
  have hverify : verifyReplayedGTIDs plan anchorGTID executed =
      checkMySQLGaps anchorGTID executed plan.disownedGTIDs := by
    rw [verifyReplayedGTIDs,checkTargetPresent,if_pos hinclude]
    rfl
  rw [saysGap_planReplay ht h,hcheck,hverify,saysGap_checkMySQLGaps hp.anchor_parses hup hdp,
    saysGap_checkMySQLGaps hp.anchor_parses hexec.parses hdp,hexec.eq,hreach,hgu,hde]
  simp only [unexplained_sdiff_iff]
  constructor
  · intro hagree hhole
    exact hagree.mp hhole
  · intro hspan
    refine ⟨hspan,?_⟩
    rintro ⟨t,hhole,-⟩
    exact ⟨t,hhole⟩

end

def forkedSegment (own disowned : String) : ArchiveIndex where
  segments := [{ serverUUID := "u", gtidSet := own, fork := some { gtidSet := disowned } }]
  coveredGTIDSet := own

def forkedPlan (own disowned exclude : String) : ReplayPlan where
  segments := [⟨"u",[],own,some { gtidSet := disowned }⟩]
  anchorGTID := "u:1"
  excludeGTIDs := exclude
  disownedGTIDs := disowned

theorem pastForks_forkedSegment {own disowned exclude : String}
    (h : (do
      let plan₀ ← planReplayWithOps mysqlGTIDSet (some (forkedSegment own disowned)) "u:1" {}
      let plan ← applyMySQLForks (forkedSegment own disowned) {} plan₀
      checkUnrecordedForks (forkedSegment own disowned) plan.disownedGTIDs
      return plan) = .ok (forkedPlan own disowned exclude)) :
    PastForks (forkedSegment own disowned) "u:1" {} (forkedPlan own disowned exclude) := by
  obtain ⟨plan₀,h₀,h⟩ := bind_eq_ok.mp h
  obtain ⟨plan,hf,h⟩ := bind_eq_ok.mp h
  obtain ⟨_,hforks,h⟩ := bind_eq_ok.mp h
  cases h
  exact ⟨⟨plan₀,h₀,hf⟩,hforks⟩

theorem replays_forkedPlan {own disowned exclude executed : String} (hown : Parses own)
    (hdis : Parses disowned) (hanchor : unionGTIDStrings ["u:1",own] = .ok own)
    (h : differenceGTIDStrings own disowned = .ok executed) :
    Replays "u:1" (forkedPlan own disowned exclude) executed := by
  obtain ⟨r,hr,hrendered,hg⟩ := differenceGTIDStrings_correct own disowned hown hdis
  cases hr.symm.trans h
  refine ⟨hrendered.parses,?_⟩
  have hunion := gtids_of_union hanchor
  have hplanned : plannedTxns (forkedPlan own disowned exclude).segments=gtids own := by
    simp [forkedPlan,plannedTxns]
  rw [hg,hplanned,← hunion]
  rfl

theorem gapChecks_agree_spanned :
    (SaysGap (planReplay (some (forkedSegment "u:1-3:5-6" "u:6")) "u:1" {}) ↔
      SaysGap (verifyReplayedGTIDs (forkedPlan "u:1-3:5-6" "u:6" "u:1:6") "u:1" "u:1-3:5")) := by
  refine (gapChecks_agree_iff ⟨rfl,rfl⟩ (pastForks_forkedSegment (by decide +kernel))
    (replays_forkedPlan (by decide) (by decide) (by decide) (by decide))).mpr fun _ => ?_
  have hreach : ∀ n,("u",n)∈reach (forkedSegment "u:1-3:5-6" "u:6") "u:1" ↔
      ("u",n)∈gtids "u:1" ∨ ("u", n)∈gtids "u:1-3:5-6" := by
    simp [reach,segmentTxns,forkedSegment]
  have hdis : ∀ n,("u",n)∈disownedTxns (forkedSegment "u:1-3:5-6" "u:6") ↔
      ("u", n)∈gtids "u:6" := by
    simp [disownedTxns,forkedSegment]
  have hspan : ("u",5)∈reach (forkedSegment "u:1-3:5-6" "u:6") "u:1" \
      disownedTxns (forkedSegment "u:1-3:5-6" "u:6") :=
    ⟨(hreach 5).mpr (by decide),fun h => absurd ((hdis 5).mp h) (by decide)⟩
  have hfirst : ("u",1)∈reach (forkedSegment "u:1-3:5-6" "u:6") "u:1" \
      disownedTxns (forkedSegment "u:1-3:5-6" "u:6") :=
    ⟨(hreach 1).mpr (by decide),fun h => absurd ((hdis 1).mp h) (by decide)⟩
  refine ⟨("u",4),⟨⟨?_,by decide,⟨5,by decide,hspan.1⟩,.inl ⟨1,by decide,hfirst.1⟩⟩,?_,?_⟩,
    ⟨5,by decide,hspan⟩,.inl ⟨1,by decide,hfirst⟩⟩
  · exact fun h => absurd ((hreach 4).mp h) (by decide)
  · exact fun h => absurd ((hdis 4).mp h) (by decide)
  · rintro ⟨-,-,j,hj,hmem⟩
    have hall : ∀ t∈gtidList "u:1", t.2≤1 := by decide
    have := hall _ ((mem_gtidList _ _).mpr hmem)
    omega

/-- The hole lies in a dead branch's tail: it is refused, and replay leaves none. -/
theorem gapChecks_dead_tail :
    PastForks (forkedSegment "u:1-5:8-10" "u:4-5:8-10") "u:1" {}
      (forkedPlan "u:1-5:8-10" "u:4-5:8-10" "u:1:4-5:8-10") ∧
    Replays "u:1" (forkedPlan "u:1-5:8-10" "u:4-5:8-10" "u:1:4-5:8-10") "u:1-3" ∧
    planReplay (some (forkedSegment "u:1-5:8-10" "u:4-5:8-10")) "u:1" {} =
      .error (.archiveGap "u:6-7") ∧
    verifyReplayedGTIDs (forkedPlan "u:1-5:8-10" "u:4-5:8-10" "u:1:4-5:8-10") "u:1" "u:1-3" = .ok () :=
  ⟨pastForks_forkedSegment (by decide +kernel),
    replays_forkedPlan (by decide) (by decide) (by decide) (by decide),by decide +kernel,by decide⟩

end Cnmsql.Binlog
