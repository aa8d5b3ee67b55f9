import Cnmsql.Binlog.Recoverable
import Cnmsql.ObjectStore.RetentionHorizon
import Cnmsql.ObjectStore.RetentionCrash

namespace Cnmsql.Binlog

open Framework Replication ObjectStore List

/-- The index with the segments that keep a file; a rewrite changes nothing the planner reads of
them. -/
def surviving (deleted : Deleted) (idx : ArchiveIndex) : ArchiveIndex :=
  { idx with segments := idx.segments.filter fun seg => ¬Emptied deleted seg }

section

variable [CaseMapping] {idx : ArchiveIndex} {deleted : Deleted} {anchorGTID : String} (now : Time)

theorem segmentTxns_rewriteIndex : segmentTxns (rewriteIndex idx deleted now).segments =
    segmentTxns (surviving deleted idx).segments := by
  rw [segments_rewriteIndex]
  ext t
  simp only [segmentTxns,Set.mem_ofPred_eq,mem_map,exists_exists_and_eq_and]
  rfl

omit [CaseMapping] in
theorem disownedTexts_rewriteIndex :
    disownedTexts (rewriteIndex idx deleted now)=disownedTexts (surviving deleted idx) := by
  unfold disownedTexts
  rw [segments_rewriteIndex,filterMap_map]
  rfl

theorem disownedTxns_rewriteIndex :
    disownedTxns (rewriteIndex idx deleted now)=disownedTxns (surviving deleted idx) := by
  ext t
  rw [mem_disownedTxns,mem_disownedTxns,disownedTexts_rewriteIndex]

theorem unrecordedFork_rewriteIndex (known : Set Txn) :
    UnrecordedFork (rewriteIndex idx deleted now).segments known ↔
      UnrecordedFork (surviving deleted idx).segments known := by
  rw [UnrecordedFork,segments_rewriteIndex,pairwise_map]
  rfl

theorem recoverable_rewriteIndex :
    Recoverable (rewriteIndex idx deleted now) anchorGTID ↔
      Recoverable (surviving deleted idx) anchorGTID := by
  have hreach : reach (rewriteIndex idx deleted now) anchorGTID =
      reach (surviving deleted idx) anchorGTID := by
    rw [reach,segmentTxns_rewriteIndex,reach]
  have hparse : (∀ seg∈(rewriteIndex idx deleted now).segments,Parses seg.gtidSet) ↔
      ∀ seg∈(surviving deleted idx).segments, Parses seg.gtidSet := by
    rw [segments_rewriteIndex,forall_mem_map]
    rfl
  rw [recoverable_iff,recoverable_iff,hparse,hreach,disownedTexts_rewriteIndex,
    disownedTxns_rewriteIndex,unrecordedFork_rewriteIndex]
  rfl

theorem segmentTxns_surviving : segmentTxns (surviving deleted idx).segments ⊆ segmentTxns idx.segments := by
  intro t ht
  obtain ⟨seg,hseg,hmem⟩ := ht
  exact ⟨seg,(mem_filter.mp hseg).1,hmem⟩

theorem disownedTxns_surviving : disownedTxns (surviving deleted idx) ⊆ disownedTxns idx := by
  intro t ht
  cases ht with
  | inl hfork =>
    obtain ⟨seg,hseg,fork,hfork,hmem⟩ := hfork
    exact .inl ⟨seg,(mem_filter.mp hseg).1,fork,hfork,hmem⟩
  | inr hdisowned => exact .inr hdisowned

omit [CaseMapping] in
theorem disownedTexts_surviving {raw : String} (h : raw∈disownedTexts (surviving deleted idx)) :
    raw∈disownedTexts idx := by
  unfold disownedTexts at h ⊢
  rw [mem_append] at h ⊢
  refine h.imp_left ?_
  intro hfork
  obtain ⟨seg,hseg,htext⟩ := mem_filterMap.mp hfork
  exact mem_filterMap.mpr ⟨seg,(mem_filter.mp hseg).1,htext⟩

/-- What a pass that drops segments leaves of a recovery: what they held is in the backup or a
segment that keeps a file, and so is every fork record still needed. -/
structure Survives (deleted : Deleted) (idx : ArchiveIndex) (anchorGTID : String) : Prop where
  carried : segmentTxns idx.segments ⊆ reach (surviving deleted idx) anchorGTID
  recorded : ∀ t∈segmentTxns (surviving deleted idx).segments,
    t∈disownedTxns idx → t∈disownedTxns (surviving deleted idx)
  explained : ∀ t,Skipped (gtids anchorGTID) (reach idx anchorGTID) t → t∈disownedTxns idx →
    t∈disownedTxns (surviving deleted idx) ∨ Hole (gtids anchorGTID) t

theorem reach_surviving (h : segmentTxns idx.segments ⊆ reach (surviving deleted idx) anchorGTID) :
    reach (surviving deleted idx) anchorGTID=reach idx anchorGTID := by
  apply Set.Subset.antisymm
  · exact Set.union_subset_union_right _ segmentTxns_surviving
  · exact Set.union_subset Set.subset_union_left h

section

variable (h : Survives deleted idx anchorGTID) (hidx : Recoverable idx anchorGTID)
include h hidx

theorem Survives.recoverable
    (hcovered : gtids idx.coveredGTIDSet=segmentTxns idx.segments) :
    Recoverable (surviving deleted idx) anchorGTID where
  anchor_parses := hidx.anchor_parses
  segments_parse seg hseg := hidx.segments_parse seg (mem_filter.mp hseg).1
  covered_parses := hidx.covered_parses
  forks_parse raw hraw := hidx.forks_parse raw (disownedTexts_surviving hraw)
  covered := hcovered ▸ h.carried
  live := by
    rw [Set.eq_empty_iff_forall_notMem]
    intro t ht
    exact Set.eq_empty_iff_forall_notMem.mp hidx.live t ⟨ht.1,disownedTxns_surviving ht.2⟩
  no_fork := by
    have hpairs := not_not.mp hidx.no_fork
    refine not_not.mpr ((hpairs.sublist filter_sublist).imp_of_mem ?_)
    intro earlier later hearlier _ hknown t ht
    exact h.recorded t ⟨earlier,hearlier,ht.2.1⟩ (hknown t ht)
  no_gap t ht := by
    rw [reach_surviving h.carried] at ht
    cases hidx.no_gap t ht with
    | inl hdisowned => exact h.explained t ht hdisowned
    | inr hhole => exact .inr hhole

theorem Survives.same :
    reach (surviving deleted idx) anchorGTID \ disownedTxns (surviving deleted idx) =
      reach idx anchorGTID \ disownedTxns idx := by
  rw [← reach_surviving h.carried]
  ext t
  refine and_congr_right ?_
  intro hreach
  refine not_congr ⟨fun ht => disownedTxns_surviving ht,?_⟩
  intro ht
  cases hreach with
  | inl hanchor => exact absurd ⟨hanchor,ht⟩ (Set.eq_empty_iff_forall_notMem.mp hidx.live t)
  | inr hseg => exact h.recorded t hseg ht

end

/-- A latest recovery survives a retention pass with the same result exactly if it needs nothing of
the dropped segments. -/
theorem planReplay_rewriteIndex_iff (hcovered : gtids idx.coveredGTIDSet=segmentTxns idx.segments)
    {plan : ReplayPlan} (hplan : planReplay (some idx) anchorGTID {} = .ok plan) (deleted : Deleted)
    (now : Time) :
    (∃ plan',planReplay (some (rewriteIndex idx deleted now)) anchorGTID {} = .ok plan' ∧
      replayed plan' (gtids anchorGTID)=replayed plan (gtids anchorGTID)) ↔
    Survives deleted idx anchorGTID := by
  have hlatest : RecoveryTarget.IsLatest {} := ⟨rfl,rfl⟩
  have hidx := recoverable_of_planReplay hlatest hplan
  have hbefore := (replayed_latest hplan rfl).1
  have hafter : ∀ plan',planReplay (some (rewriteIndex idx deleted now)) anchorGTID {} = .ok plan' →
      replayed plan' (gtids anchorGTID) =
        reach (surviving deleted idx) anchorGTID \ disownedTxns (surviving deleted idx) := by
    intro plan' hplan'
    rw [(replayed_latest hplan' rfl).1,segmentTxns_rewriteIndex,
      disownedTxns_rewriteIndex]
    rfl
  constructor
  · intro h
    obtain ⟨plan',hplan',hsame⟩ := h
    have hkept := (recoverable_rewriteIndex now).mp (recoverable_of_planReplay hlatest hplan')
    have hcarried : segmentTxns idx.segments ⊆ reach (surviving deleted idx) anchorGTID :=
      hcovered ▸ hkept.covered
    refine ⟨hcarried,?_,?_⟩
    · intro t ht hdisowned
      by_contra hnot
      have hreplayed : t∈replayed plan' (gtids anchorGTID) := by
        rw [hafter plan' hplan']
        exact ⟨.inr ht,hnot⟩
      rw [hsame,hbefore] at hreplayed
      exact hreplayed.2 hdisowned
    · intro t ht _
      rw [← reach_surviving hcarried] at ht
      exact hkept.no_gap t ht
  · intro h
    obtain ⟨plan',hplan'⟩ :=
      ((recoverable_rewriteIndex now).mpr (h.recoverable hidx hcovered)).planReplay hlatest
    refine ⟨plan',hplan',?_⟩
    rw [hafter plan' hplan',h.same hidx,hbefore]
    rfl

end

/-- A primary `u` handed over to `v` after its third transaction. -/
def handedOver (own : String) (fork : Option ArchiveFork) (covered : String) : ArchiveIndex where
  segments := [
    { serverUUID := "u", binlogs := ["binlog.000001"], gtidSet := own, fork },
    { serverUUID := "v", binlogs := ["binlog.000001"], gtidSet := "u:1-3,v:1-2" }]
  coveredGTIDSet := covered

theorem segmentTxns_handedOver {own covered : String} (fork : Option ArchiveFork)
    (h : unionGTIDStrings [own,"u:1-3,v:1-2"] = .ok covered) :
    gtids covered=segmentTxns (handedOver own fork covered).segments := by
  rw [gtids_of_union h,handedOver,segmentTxns_cons,segmentTxns_cons]
  simp [segmentTxns]

def filesOf (u : String) : Deleted := AList.insert u ["binlog.000001"] ∅

theorem planReplay_rewriteIndex_handedOver : ∃ plan plan',
    planReplay (some (handedOver "u:1-3" none "u:1-3,v:1-2")) "u:1-3" {} = .ok plan ∧
    planReplay (some (rewriteIndex (handedOver "u:1-3" none "u:1-3,v:1-2") (filesOf "u") 0)) "u:1-3" {} =
      .ok plan' ∧ replayed plan' (gtids "u:1-3")=replayed plan (gtids "u:1-3") := by
  obtain ⟨plan,hplan⟩ :=
    exists_ok (planReplay (some (handedOver "u:1-3" none "u:1-3,v:1-2")) "u:1-3" {}) (by decide +kernel)
  have hunion : unionGTIDStrings ["u:1-3","u:1-3,v:1-2"] = .ok "u:1-3,v:1-2" := by decide
  have hdisowned : disownedTxns (handedOver "u:1-3" none "u:1-3,v:1-2")=∅ := by
    simp [disownedTxns,handedOver]
  have hsurvives : Survives (filesOf "u") (handedOver "u:1-3" none "u:1-3,v:1-2") "u:1-3" := by
    refine ⟨?_,?_,?_⟩
    · intro t ht
      obtain ⟨seg,hseg,hmem⟩ := ht
      rcases mem_cons.mp hseg with rfl | hlater
      · exact .inl hmem
      · refine .inr ⟨seg,mem_filter.mpr ⟨hseg,?_⟩,hmem⟩
        rw [mem_singleton.mp hlater]
        decide
    · rw [hdisowned]
      intro t _ ht
      cases ht
    · rw [hdisowned]
      intro t _ ht
      cases ht
  obtain ⟨plan',hplan',hsame⟩ := (planReplay_rewriteIndex_iff (segmentTxns_handedOver none hunion) hplan
    (filesOf "u") 0).mpr hsurvives
  exact ⟨plan,plan',hplan,hplan',hsame⟩

/-- The old primary's file holds two disowned transactions and what the backup has; without it the
coverage claimed is missing. -/
theorem planReplay_rewriteIndex_disowned :
    let idx := handedOver "u:1-5" (some { gtidSet := "u:4-5" }) "u:1-5,v:1-2"
    gtids idx.coveredGTIDSet=segmentTxns idx.segments ∧
    gtids "u:1-5" ⊆ gtids "u:1-3" ∪ disownedTxns idx ∧
    (∃ plan,planReplay (some idx) "u:1-3" {} = .ok plan) ∧
    planReplay (some (rewriteIndex idx (filesOf "u") 0)) "u:1-3" {} = .error .forkedTimeline := by
  have hfile : unionGTIDStrings ["u:1-3","u:4-5"] = .ok "u:1-5" := by decide
  refine ⟨segmentTxns_handedOver _ (by decide),?_,exists_ok _ (by decide +kernel),by decide +kernel⟩
  rw [gtids_of_union hfile]
  refine Set.union_subset_union_right _ ?_
  intro t ht
  exact .inl ⟨_,mem_cons_self,_,rfl,ht⟩

theorem mem_addDeleted (old : List BinlogEntry) (deleted : Deleted) (u : String) :
    u∈old.foldl addDeleted deleted ↔ u∈deleted ∨ ∃ file∈old, file.metadata.serverUUID=u := by
  induction old generalizing deleted with
  | nil => simp
  | cons file old ih =>
    rw [foldl_cons,ih,addDeleted,AList.mem_insert]
    grind

theorem emptied_iff_losesAll (old : List BinlogEntry) (seg : ArchiveSegment) :
    Emptied (old.foldl addDeleted ∅) seg ↔ LosesAll old seg := by
  unfold Emptied LosesAll deletedOf
  simp only [mem_addDeleted,mem_foldl_addDeleted]
  simp

def kept (sorted : List BaseBackup) (binlogs : List ArchivedBinlog) (cutoff : Time) (idx : ArchiveIndex) :
    ArchiveIndex :=
  { idx with segments := idx.segments.filter fun seg =>
      ¬LosesAll ((outdated sorted binlogs (some idx) cutoff).map (·.toBinlogEntry)) seg }

section

variable [CaseMapping]
  (sorted : List BaseBackup) (binlogs : List ArchivedBinlog) (index : Option ArchiveIndex)

/-- If a listed backup can be recovered, a retained one can be from what is kept. -/
def LeavesRecoveryPoint (cutoff : Time) : Prop :=
  ∀ idx,index=some idx → (∃ b∈sorted,Recoverable idx b.anchorGTID) →
    ∃ b∈retained cutoff sorted,Recoverable (kept sorted binlogs cutoff idx) b.anchorGTID

theorem recoverable_indexAfter (idx : ArchiveIndex) (cutoff now : Time) (anchorGTID : String) :
    (∃ plan,planReplay ((planRetention sorted binlogs (some idx) cutoff now).indexAfter (some idx))
      anchorGTID {} = .ok plan) ↔ Recoverable (kept sorted binlogs cutoff idx) anchorGTID := by
  have hnew := (sweeps_planRetention sorted binlogs (some idx) cutoff now).newIndex
  have hkept : kept sorted binlogs cutoff idx=surviving
      (((outdated sorted binlogs (some idx) cutoff).map (·.toBinlogEntry)).foldl addDeleted ∅) idx := by
    simp only [kept,surviving,emptied_iff_losesAll]
  rw [RetentionPlan.indexAfter,hnew]
  split
  · rename_i hnone
    rw [Option.none_or,planReplay_iff_recoverable idx anchorGTID ⟨rfl,rfl⟩,kept,hnone]
    simp [LosesAll]
  · rw [Option.map_some,Option.some_or,planReplay_iff_recoverable _ anchorGTID ⟨rfl,rfl⟩,
      recoverable_rewriteIndex,hkept]

theorem recovery_point_iff {backups sorted : List BaseBackup} (hsorted : SortedBackups backups sorted)
    (binlogs : List ArchivedBinlog) (index : Option ArchiveIndex) (cutoff now : Time) :
    ((∃ b∈backups,∃ plan,planReplay index b.anchorGTID {} = .ok plan) →
      ∃ b∈retained cutoff sorted,∃ plan,
        planReplay ((planRetention sorted binlogs index cutoff now).indexAfter index) b.anchorGTID {} =
          .ok plan) ↔
    LeavesRecoveryPoint sorted binlogs index cutoff := by
  cases index with
  | none =>
    constructor
    · intro _ idx hidx
      cases hidx
    · intro _ h
      obtain ⟨b,_,plan,hplan⟩ := h
      cases hplan
  | some idx =>
    have hlisted : (∃ b∈backups,∃ plan,planReplay (some idx) b.anchorGTID {} = .ok plan) ↔
        ∃ b∈sorted,Recoverable idx b.anchorGTID := by
      simp only [planReplay_iff_recoverable idx _ (⟨rfl,rfl⟩ : RecoveryTarget.IsLatest {}),
        hsorted.1.mem_iff]
    simp only [hlisted,recoverable_indexAfter,LeavesRecoveryPoint,Option.some.injEq,forall_eq']

end

def twoBackups (anchorGTID : String) : List BaseBackup :=
  [⟨⟨"old","old",1,2⟩,"u:1-3"⟩,⟨⟨"new","new",10,11⟩,anchorGTID⟩]

theorem sorted_twoBackups (anchorGTID : String) :
    SortedBackups (twoBackups anchorGTID) (twoBackups anchorGTID) :=
  ⟨List.Perm.refl _,by simp [twoBackups]⟩

/-- The archive loses `u`'s segment, and the newer backup can be recovered. -/
theorem recovery_point_handedOver :
    LeavesRecoveryPoint (twoBackups "u:1-3") [archived "binlog.000001" "u:1-3" 5]
      (some (handedOver "u:1-3" none "u:1-3,v:1-2")) 5 := by
  refine (recovery_point_iff (sorted_twoBackups "u:1-3") _ _ 5 0).mp ?_
  intro _
  refine ⟨⟨⟨"new","new",10,11⟩,"u:1-3"⟩,by decide,exists_ok _ ?_⟩
  decide +kernel

/-- The newest backup, on the dead branch, is kept, and the recoverable one expires. -/
theorem recovery_point_deadBranch :
    let index := some (handedOver "u:1-5" (some { gtidSet := "u:4-5" }) "u:1-5,v:1-2")
    SortedBackups (twoBackups "u:1-5") (twoBackups "u:1-5") ∧
    (∃ b∈twoBackups "u:1-5",∃ plan,planReplay index b.anchorGTID {} = .ok plan) ∧
    ∀ b∈retained 5 (twoBackups "u:1-5"),
      planReplay ((planRetention (twoBackups "u:1-5") [] index 5 0).indexAfter index) b.anchorGTID {} =
        .error (.backupOnDeadBranch "u:4-5") := by
  refine ⟨sorted_twoBackups _,⟨⟨⟨"old","old",1,2⟩,"u:1-3"⟩,by decide,exists_ok _ (by decide +kernel)⟩,?_⟩
  intro b hb
  have hnew : b=⟨⟨"new","new",10,11⟩,"u:1-5"⟩ := mem_singleton.mp hb
  rw [hnew]
  decide +kernel

end Cnmsql.Binlog
