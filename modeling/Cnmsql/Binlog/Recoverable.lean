import Cnmsql.Binlog.Splice

namespace Cnmsql.Binlog

open Framework Replication ObjectStore

def oneSegment (held : String) : ArchiveIndex where
  segments := [{ serverUUID := "u", gtidSet := held }]
  coveredGTIDSet := held

section

variable [CaseMapping]
  {idx : ArchiveIndex} {anchorGTID : String} {target : RecoveryTarget} {plan : ReplayPlan}

/-- What a latest recovery needs: records parse, backup and segments have what the archive claims to
cover, the backup holds nothing disowned, every dead branch is recorded, and what is skipped is
disowned or a hole of the backup. -/
@[mk_iff] structure Recoverable (idx : ArchiveIndex) (anchorGTID : String) : Prop where
  anchor_parses : Parses anchorGTID
  segments_parse : ∀ seg∈idx.segments,Parses seg.gtidSet
  covered_parses : Parses idx.coveredGTIDSet
  forks_parse : ∀ raw∈disownedTexts idx,Parses raw
  covered : gtids idx.coveredGTIDSet ⊆ reach idx anchorGTID
  live : gtids anchorGTID ∩ disownedTxns idx=∅
  no_fork : ¬UnrecordedFork idx.segments (disownedTxns idx)
  no_gap : ∀ t,Skipped (gtids anchorGTID) (reach idx anchorGTID) t →
    t∈disownedTxns idx ∨ Hole (gtids anchorGTID) t

theorem planReplayWithOps_parses
    (h : planReplayWithOps mysqlGTIDSet (some idx) anchorGTID target = .ok plan) :
    Parses idx.coveredGTIDSet ∧ (target.gtid ≠ "" → Parses target.gtid) := by
  unfold planReplayWithOps at h
  obtain ⟨_,_,h⟩ := bind_eq_ok.mp h
  obtain ⟨anchor,_,h⟩ := bind_eq_ok.mp h
  obtain ⟨r,_,h⟩ := bind_eq_ok.mp h
  obtain ⟨_,hcov,h⟩ := bind_eq_ok.mp h
  constructor
  · unfold checkCoverage at hcov
    split at hcov
    · rename_i he
      rw [he]
      exact parses_empty
    · obtain ⟨covered,hc,_⟩ := bind_eq_ok.mp hcov
      rw [mapError_eq_ok,mysql_parse] at hc
      exact ⟨covered,hc⟩
  · intro hne
    rw [applyTargetWithOps,if_pos hne] at h
    obtain ⟨want,hw,_⟩ := bind_eq_ok.mp h
    rw [mapError_eq_ok,mysql_parse] at hw
    exact ⟨want,hw⟩

theorem applyMySQLForks_parses {plan' : ReplayPlan}
    (h : applyMySQLForks idx target plan = .ok plan') : ∀ raw∈disownedTexts idx, Parses raw := by
  unfold applyMySQLForks at h
  obtain ⟨allForks,hall,_⟩ := bind_eq_ok.mp h
  rw [mapError_eq_ok] at hall
  exact unionGTIDStrings_parses hall

theorem recoverable_of_planReplay (ht : target.IsLatest)
    (h : planReplay (some idx) anchorGTID target = .ok plan) : Recoverable idx anchorGTID := by
  obtain ⟨plan₀,h₀,hf,-,-⟩ := (planReplay_latest_ok ht).mp h
  have hp := planReplayWithOps_correct h₀
  rcases planReplay_latest_cases h₀ hf ht with
    ⟨-,a,b,c,herr⟩ | ⟨hfork,⟨hnone,-⟩ | ⟨-,gap,herr⟩⟩
  · cases h.symm.trans herr
  · exact ⟨hp.anchor_parses,hp.segments_parse,(planReplayWithOps_parses h₀).1,
      applyMySQLForks_parses hf,hp.covered,(replayed_latest h ht.1).2,hfork,hnone⟩
  · cases h.symm.trans herr

theorem Recoverable.planReplay (h : Recoverable idx anchorGTID) (ht : target.IsLatest) :
    ∃ plan,planReplay (some idx) anchorGTID target = .ok plan := by
  rcases planReplayWithOps_latest ht h.anchor_parses h.segments_parse
    h.covered_parses with ⟨-,plan₀,h₀⟩ | ⟨hnot,-⟩
  · have hp := planReplayWithOps_correct h₀
    obtain ⟨plan,hf⟩ := applyMySQLForks_latest idx ht hp.exclude_rendered h.forks_parse
      (by rw [hp.exclude_eq]; exact h.live)
    rcases planReplay_latest_cases h₀ hf ht with
      ⟨hfork,-⟩ | ⟨-,⟨-,hok⟩ | ⟨⟨t,hskip,hnot,hhole⟩,-⟩⟩
    · exact absurd hfork h.no_fork
    · exact ⟨plan,hok⟩
    · exact absurd (h.no_gap t hskip) (not_or.mpr ⟨hnot,hhole⟩)
  · exact absurd h.covered hnot

theorem planReplay_iff_recoverable (idx : ArchiveIndex) (anchorGTID : String) (ht : target.IsLatest) :
    (∃ plan,planReplay (some idx) anchorGTID target = .ok plan) ↔ Recoverable idx anchorGTID := by
  constructor
  · intro h
    obtain ⟨plan,hplan⟩ := h
    exact recoverable_of_planReplay ht hplan
  · intro h
    exact h.planReplay ht

/-- A latest recovery ends in the same set from every backup between its own and that end. -/
theorem planReplay_from_later_backup {later : String} (ht : target.IsLatest)
    (h : planReplay (some idx) anchorGTID target = .ok plan) (hp : Parses later)
    (hle : gtids anchorGTID ⊆ gtids later)
    (hend : gtids later ⊆ replayed plan (gtids anchorGTID)) :
    ∃ plan',planReplay (some idx) later target = .ok plan' ∧
      replayed plan' (gtids later)=replayed plan (gtids anchorGTID) := by
  have hr := recoverable_of_planReplay ht h
  rw [(replayed_latest h ht.1).1] at hend
  have hreach : reach idx later=reach idx anchorGTID := by
    apply Set.Subset.antisymm
    · exact Set.union_subset (hend.trans Set.sdiff_subset) Set.subset_union_right
    · exact Set.union_subset_union_left _ hle
  have hlater : Recoverable idx later := by
    refine { hr with anchor_parses := hp, covered := hreach ▸ hr.covered, live := ?_, no_gap := ?_ }
    · rw [← Set.disjoint_iff_inter_eq_empty]
      exact Set.disjoint_sdiff_left.mono_left hend
    · intro t hskip
      rw [hreach] at hskip
      obtain ⟨hout,h1,hafter,hbefore⟩ := hskip
      -- A source the later backup lacks the earlier one lacks too.
      have hskip := hr.no_gap t ⟨hout,h1,hafter,hbefore.imp_right fun hno n hn => hno n (hle hn)⟩
      apply hskip.imp_right
      intro hhole
      obtain ⟨-,⟨i,hi,hmi⟩,j,hj,hmj⟩ := hhole
      exact ⟨fun hm => hout (hreach ▸ .inl hm),⟨i,hi,hle hmi⟩,j,hj,hle hmj⟩
  obtain ⟨plan',h'⟩ := hlater.planReplay ht
  refine ⟨plan',h',?_⟩
  rw [(replayed_latest h' ht.1).1,(replayed_latest h ht.1).1]
  exact congrArg (· \ disownedTxns idx) hreach

end

theorem planReplay_from_failover_backup : ∃ plan plan',
    planReplay (some failoverIndex) "u:1-2" {} = .ok plan ∧
    planReplay (some failoverIndex) "u:1-3,v:1" {} = .ok plan' ∧
    replayed plan' (gtids "u:1-3,v:1")=replayed plan (gtids "u:1-2") := by
  obtain ⟨plan,h⟩ := exists_ok (planReplay (some failoverIndex) "u:1-2" {}) (by decide)
  refine ⟨plan,(planReplay_from_later_backup ⟨rfl,rfl⟩ h (by decide) (by decide) ?_).imp
    fun _ h' => ⟨h,h'⟩⟩
  have hheld : gtids "u:1-3,v:1" ⊆ gtids "u:1-3,v:1-2" := by decide
  have hlive : ∀ t∈gtidList "u:1-3,v:1",t∉gtids "u:4-5" := by decide
  rw [(replayed_latest h rfl).1]
  intro t ht
  refine ⟨.inr ⟨_,List.mem_cons_of_mem _ List.mem_cons_self,hheld ht⟩,?_⟩
  simpa [disownedTxns,failoverIndex] using hlive t ((mem_gtidList _ t).mpr ht)

end Cnmsql.Binlog
