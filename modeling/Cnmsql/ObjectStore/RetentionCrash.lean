import Cnmsql.ObjectStore.Retention

namespace Cnmsql.ObjectStore

open List

def Listed (s : Store) (u n : String) : Prop :=
  ∃ index,s.lookup .index=some index ∧
    ∃ seg∈index.segments,seg.serverUUID=u ∧ n∈seg.binlogs

def IndexBacked (s : Store) : Prop := ∀ u n,Listed s u n → .binlog u n∈s

def Consistent (s : Store) : Prop :=
  ∀ u n,Listed s u n → .binlog u n∈s ∧
    ∃ m,s.lookup (.binlogManifest u n)=some m ∧ m.serverUUID=u ∧ m.binlogName=n

variable (keys : List Key) (s : Store) (k : Key)

theorem lookup_foldl_remove :
    ((keys.map Step.remove).foldl runStep s).lookup k=if k∈keys then none else s.lookup k := by
  induction keys generalizing s with
  | nil => simp
  | cons key keys ih =>
    rw [map_cons,foldl_cons,ih,runStep]
    by_cases hk : k=key
    · subst hk
      simp [AList.lookup_erase]
    · simp [hk,AList.lookup_erase_ne hk]

theorem mem_foldl_remove : k∈(keys.map Step.remove).foldl runStep s ↔ k∉keys ∧ k∈s := by
  rw [← AList.lookup_isSome,lookup_foldl_remove,← AList.lookup_isSome]
  by_cases hk : k∈keys
  · simp [hk]
  · simp [hk]

theorem listed_foldl_remove {keys : List Key} (s : Store) (hk : Key.index∉keys) (u n : String) :
    Listed ((keys.map Step.remove).foldl runStep s) u n ↔ Listed s u n := by
  rw [Listed,lookup_foldl_remove,if_neg hk,Listed]

theorem listed_rewriteIndex (index : ArchiveIndex) (deleted : Deleted) (now : Time)
    (u n : String) :
    (∃ seg∈(rewriteIndex index deleted now).segments,seg.serverUUID=u ∧ n∈seg.binlogs) ↔
      (∃ seg∈index.segments,seg.serverUUID=u ∧ n∈seg.binlogs) ∧
        n∉(deleted.lookup u).getD [] := by
  rw [segments_rewriteIndex]
  constructor
  · intro h
    obtain ⟨seg',hseg',rfl,hn⟩ := h
    obtain ⟨seg,hseg,rfl⟩ := mem_map.mp hseg'
    obtain ⟨hn,hkept⟩ := mem_filter.mp hn
    exact ⟨⟨seg,(mem_filter.mp hseg).1,rfl,hn⟩,of_decide_eq_true hkept⟩
  · intro h
    obtain ⟨⟨seg,hseg,rfl,hn⟩,hkept⟩ := h
    have hfull : ¬Emptied deleted seg := fun hgone => hkept (hgone.2 n hn)
    exact ⟨trimmed deleted seg,mem_map_of_mem (mem_filter.mpr ⟨hseg,decide_eq_true hfull⟩),
      rfl,mem_filter.mpr ⟨hn,decide_eq_true hkept⟩⟩

theorem mem_listArchivedBinlogs {s : Store} {entry : BinlogEntry}
    (h : entry∈listArchivedBinlogs s) :
    ∃ u n,entry.binlogKey = .binlog u n ∧ entry.manifestKey = .binlogManifest u n ∧
      s.lookup (.binlogManifest u n)=some entry.metadata := by
  obtain ⟨⟨key,content⟩,he,hm⟩ := mem_filterMap.mp h
  cases key with
  | binlogManifest u n =>
    simp only [Option.some.injEq] at hm
    subst hm
    exact ⟨u,n,rfl,rfl,AList.mem_lookup_iff.mpr he⟩
  | backupManifest dir => simp at hm
  | backupFile dir name => simp at hm
  | binlog u n => simp at hm
  | index => simp at hm

variable (old : List BinlogEntry) (deleted : Deleted) (u n : String)

theorem mem_foldl_addDeleted : n∈((old.foldl addDeleted deleted).lookup u).getD [] ↔
      n∈(deleted.lookup u).getD [] ∨
        ∃ entry∈old,entry.metadata.serverUUID=u ∧ entry.metadata.binlogName=n := by
  induction old generalizing deleted with
  | nil => simp
  | cons entry old ih =>
    rw [foldl_cons,ih,addDeleted]
    by_cases hu : u=entry.metadata.serverUUID
    · subst hu
      rw [AList.lookup_insert]
      simp only [Option.getD_some,mem_cons,exists_eq_or_imp,true_and]
      tauto
    · rw [AList.lookup_insert_ne hu]
      simp only [mem_cons,exists_eq_or_imp,Ne.symm hu,false_and,false_or]

variable {s : Store} {cutoff planned : Time} {plan : RetentionPlan}

theorem PlanRetention.selected {now : Time} (h : PlanRetention s cutoff now plan) :
    ∃ old : List BinlogEntry,(∀ entry∈old,entry∈listArchivedBinlogs s) ∧
      plan.deleteBinlogKeys=old.flatMap (fun entry => [entry.binlogKey,entry.manifestKey]) ∧
      plan.deletedBinlogs=old.foldl addDeleted ∅ := by
  have hnone : ∀ p : RetentionPlan,p.deleteBinlogKeys=[] → p.deletedBinlogs=∅ →
      ∃ old : List BinlogEntry,(∀ entry∈old,entry∈listArchivedBinlogs s) ∧
        p.deleteBinlogKeys=old.flatMap (fun entry => [entry.binlogKey,entry.manifestKey]) ∧
        p.deletedBinlogs=old.foldl addDeleted ∅ := by
    intro p hk hd
    exact ⟨[],by simp,by simp [hk],by simp [hd]⟩
  obtain ⟨sorted,_,rfl⟩ := h
  unfold planSorted
  split
  · exact hnone _ rfl rfl
  · simp only
    split
    · unfold applyBinlogGC
      split
      · exact hnone _ rfl rfl
      · split
        · exact hnone _ rfl rfl
        · simp only
          split
          · exact hnone _ rfl rfl
          · exact ⟨_,fun entry he => (mem_filter.mp he).1,rfl,rfl⟩
    · exact hnone _ rfl rfl

def expiryKeys (s : Store) (plan : RetentionPlan) : List Key :=
  plan.deleteBackupPrefixes.flatMap (listPrefix s)++plan.deleteBinlogKeys

theorem expirySteps_eq (s : Store) (plan : RetentionPlan) (now : Time) :
    expirySteps s plan now=(expiryKeys s plan).map Step.remove ++
      if plan.deletedBinlogs.entries.isEmpty then []
      else [.rewriteArchiveIndex plan.deletedBinlogs now] := by
  simp [expirySteps,backupExpirySteps,binlogExpirySteps,expiryKeys]

theorem take_expirySteps (s : Store) (plan : RetentionPlan) (now : Time) (k : Nat)
    (hk : k<(expirySteps s plan now).length) :
    (expirySteps s plan now).take k=((expiryKeys s plan).take k).map Step.remove := by
  rw [expirySteps_eq] at hk ⊢
  have hlen : k≤((expiryKeys s plan).map Step.remove).length := by
    split at hk
    · simp only [append_nil] at hk
      exact hk.le
    · simp only [length_append,length_singleton] at hk
      omega
  rw [take_append_of_le_length hlen,map_take]

theorem mem_listPrefix {s : Store} {dir : String} {key : Key} (h : key∈listPrefix s dir) :
    key = .backupManifest dir ∨ ∃ name, key = .backupFile dir name := by
  rw [listPrefix,mem_filter] at h
  cases key with
  | backupManifest d =>
    left
    rw [eq_of_beq h.2]
  | backupFile d name =>
    right
    exact ⟨name,by rw [eq_of_beq h.2]⟩
  | binlog u n => simp at h
  | binlogManifest u n => simp at h
  | index => simp at h

theorem not_mem_backupKeys (s : Store) (plan : RetentionPlan) (u n : String) :
    .binlog u n∉plan.deleteBackupPrefixes.flatMap (listPrefix s) ∧
    .binlogManifest u n∉plan.deleteBackupPrefixes.flatMap (listPrefix s) ∧
    .index∉plan.deleteBackupPrefixes.flatMap (listPrefix s) := by
  have hkind : ∀ key∈plan.deleteBackupPrefixes.flatMap (listPrefix s),
      (∃ dir,key = .backupManifest dir) ∨ ∃ dir name, key = .backupFile dir name := by
    intro key h
    obtain ⟨dir,_,hd⟩ := mem_flatMap.mp h
    cases mem_listPrefix hd with
    | inl hm => exact .inl ⟨dir,hm⟩
    | inr hf => exact .inr ⟨dir,hf⟩
  exact ⟨fun h => by simpa using hkind _ h,fun h => by simpa using hkind _ h,
    fun h => by simpa using hkind _ h⟩

theorem binlog_mem_take (hold : ∀ entry∈old,∃ u n,entry.binlogKey = .binlog u n ∧
      entry.manifestKey = .binlogManifest u n) (u n : String) (j : Nat)
    (h : .binlogManifest u n ∈
      (old.flatMap fun entry => [entry.binlogKey,entry.manifestKey]).take j) :
    .binlog u n∈(old.flatMap fun entry => [entry.binlogKey,entry.manifestKey]).take j := by
  induction old generalizing j with
  | nil => simp at h
  | cons entry old ih =>
    obtain ⟨u',n',hb,hm⟩ := hold entry mem_cons_self
    rw [flatMap_cons,hb,hm] at h ⊢
    match j with
    | 0 => simp at h
    | 1 => simp at h
    | j+2 =>
      simp only [cons_append,nil_append,take_succ_cons,mem_cons,
        reduceCtorEq,false_or,Key.binlogManifest.injEq,Key.binlog.injEq] at h ⊢
      cases h with
      | inl hun => exact .inl hun
      | inr h => exact .inr (ih (fun e he => hold e (mem_cons_of_mem _ he)) j h)

section

variable (h : PlanRetention s cutoff planned plan)
include h

theorem index_not_mem_expiryKeys :
    Key.index∉expiryKeys s plan := by
  obtain ⟨old,hold,hkeys,_⟩ := h.selected
  rw [expiryKeys,mem_append,not_or]
  apply And.intro (not_mem_backupKeys s plan "" "").2.2
  rw [hkeys]
  intro hi
  obtain ⟨entry,he,hk⟩ := mem_flatMap.mp hi
  obtain ⟨u,n,hb,hm,_⟩ := mem_listArchivedBinlogs (hold entry he)
  simp [hb,hm] at hk

theorem index_not_mem_take (k : Nat) :
    Key.index∉(expiryKeys s plan).take k :=
  fun hi => index_not_mem_expiryKeys h (mem_of_mem_take hi)

/-- What a pass removes, the plan drops from the index under the manifest's names. -/
theorem deleted_of_mem_expiryKeys {u n : String}
    {m : BinlogMetadata} (hm : s.lookup (.binlogManifest u n)=some m)
    (hk : .binlog u n∈expiryKeys s plan ∨ .binlogManifest u n∈expiryKeys s plan) :
    m.binlogName∈(plan.deletedBinlogs.lookup m.serverUUID).getD [] := by
  obtain ⟨old,hold,hkeys,hdel⟩ := h.selected
  have hback := not_mem_backupKeys s plan u n
  simp only [expiryKeys,mem_append,hback.1,hback.2.1,false_or,hkeys,
    mem_flatMap] at hk
  have hentry : ∃ entry∈old, entry.metadata=m := by
    cases hk with
    | inl hk =>
      obtain ⟨entry,he,hk⟩ := hk
      obtain ⟨u',n',hb,hm',hl⟩ := mem_listArchivedBinlogs (hold entry he)
      simp only [hb,hm',mem_cons,Key.binlog.injEq,reduceCtorEq,not_mem_nil,
        or_false] at hk
      rw [← hk.1,← hk.2,hm] at hl
      exact ⟨entry,he,(Option.some.inj hl).symm⟩
    | inr hk =>
      obtain ⟨entry,he,hk⟩ := hk
      obtain ⟨u',n',hb,hm',hl⟩ := mem_listArchivedBinlogs (hold entry he)
      simp only [hb,hm',mem_cons,Key.binlogManifest.injEq,reduceCtorEq,false_or,
        not_mem_nil,or_false] at hk
      rw [← hk.1,← hk.2,hm] at hl
      exact ⟨entry,he,(Option.some.inj hl).symm⟩
  rw [hdel,mem_foldl_addDeleted]
  obtain ⟨entry,he,rfl⟩ := hentry
  exact .inr ⟨entry,he,rfl,rfl⟩

end

theorem lookup_expirySteps (s : Store) (plan : RetentionPlan) (now : Time) (k : Key)
    (hk : k ≠ .index) :
    ((expirySteps s plan now).foldl runStep s).lookup k =
      if k∈expiryKeys s plan then none else s.lookup k := by
  rw [expirySteps_eq,foldl_append,← lookup_foldl_remove]
  split
  · rfl
  · rw [foldl_cons,foldl_nil,runStep]
    split
    · rfl
    · rw [AList.lookup_insert_ne hk]

theorem listed_expirySteps (h : PlanRetention s cutoff planned plan) (now : Time) (u n : String) :
    Listed ((expirySteps s plan now).foldl runStep s) u n ↔
      Listed s u n ∧ n∉(plan.deletedBinlogs.lookup u).getD [] := by
  have hindex := index_not_mem_expiryKeys h
  rw [expirySteps_eq,foldl_append]
  split
  · rename_i hempty
    have hempty : plan.deletedBinlogs=∅ := AList.ext (isEmpty_iff.mp hempty)
    rw [foldl_nil,listed_foldl_remove _ hindex,hempty,AList.lookup_empty]
    simp
  · rw [foldl_cons,foldl_nil,runStep,lookup_foldl_remove,if_neg hindex]
    cases hl : s.lookup .index with
    | none =>
      rw [listed_foldl_remove _ hindex]
      simp [Listed,hl]
    | some index =>
      have hiff := listed_rewriteIndex index plan.deletedBinlogs now u n
      simp only [Listed,hl,AList.lookup_insert,Option.some.injEq,exists_eq_left',hiff]

theorem Consistent.of_kept {s' : Store} (hs : Consistent s)
    (hkept : ∀ u n,Listed s' u n → Listed s u n ∧ s'.lookup (.binlog u n)=s.lookup (.binlog u n) ∧ s'.lookup (.binlogManifest u n)=s.lookup (.binlogManifest u n)) :
    Consistent s' := by
  intro u n hl
  obtain ⟨hl,hb,hm⟩ := hkept u n hl
  rw [hm,← AList.lookup_isSome,hb,AList.lookup_isSome]
  exact hs u n hl

theorem Consistent.complete (hs : Consistent s) (h : PlanRetention s cutoff planned plan)
    (now : Time) : Consistent ((expirySteps s plan now).foldl runStep s) := by
  apply hs.of_kept
  intro u n hl
  rw [listed_expirySteps h] at hl
  -- the file is still named, so its own manifest kept it out of the plan
  obtain ⟨_,m,hm,hu,hn⟩ := hs u n hl.1
  have hkeep := mt (deleted_of_mem_expiryKeys h hm)
  rw [hu,hn,not_or] at hkeep
  have hkeep := hkeep hl.2
  rw [lookup_expirySteps _ _ _ _ (by simp),lookup_expirySteps _ _ _ _ (by simp),
    if_neg hkeep.1,if_neg hkeep.2]
  exact ⟨hl.1,rfl,rfl⟩

theorem Consistent.indexBacked (hs : Consistent s) : IndexBacked s :=
  fun u n hl => (hs u n hl).1

theorem Consistent.passes {s s' : Store} (hs : Consistent s)
    (h : Relation.ReflTransGen RetentionPass s s') : Consistent s' := by
  induction h with
  | refl => exact hs
  | tail _ hpass ih =>
    obtain ⟨cutoff,planned,now,plan,hplan,rfl⟩ := hpass
    exact ih.complete hplan now

/-- A pass stopped before it removed a file the index names harms nothing. -/
theorem Consistent.stopped (hs : Consistent s) (h : PlanRetention s cutoff planned plan) (k : Nat)
    (hfree : ∀ u n, .binlog u n∈(expiryKeys s plan).take k → ¬Listed s u n) :
    Consistent ((((expiryKeys s plan).take k).map Step.remove).foldl runStep s) := by
  apply hs.of_kept
  intro u n hl
  rw [listed_foldl_remove _ (index_not_mem_take h k)] at hl
  have hb : .binlog u n∉(expiryKeys s plan).take k := fun hb => hfree u n hb hl
  have hm : .binlogManifest u n∉(expiryKeys s plan).take k := by
    intro hm
    apply hb
    obtain ⟨old,hold,hkeys,_⟩ := h.selected
    rw [expiryKeys,take_append,mem_append,hkeys] at hm ⊢
    cases hm with
    | inl hm => exact absurd (mem_of_mem_take hm) (not_mem_backupKeys s plan u n).2.1
    | inr hm =>
      right
      apply binlog_mem_take old _ u n _ hm
      intro entry he
      obtain ⟨u',n',hb',hm',_⟩ := mem_listArchivedBinlogs (hold entry he)
      exact ⟨u',n',hb',hm'⟩
  rw [lookup_foldl_remove,lookup_foldl_remove,if_neg hb,if_neg hm]
  exact ⟨hl,rfl,rfl⟩

/-- A stopped pass, and complete ones after it, leave the index naming only present objects exactly
when it had finished or not yet removed a file the index names. -/
theorem indexBacked_after_stop_iff (s : Store) (hs : Consistent s) (cutoff planned now : Time)
    (plan : RetentionPlan) (hplan : PlanRetention s cutoff planned plan) (k : Nat) :
    (∀ s',Relation.ReflTransGen RetentionPass (stoppedAfter s plan now k) s' → IndexBacked s') ↔
      ((expirySteps s plan now).length≤k ∨
        ∀ u n,Step.remove (.binlog u n)∈(expirySteps s plan now).take k → ¬Listed s u n) := by
  by_cases hk : (expirySteps s plan now).length≤k
  · simp only [hk,true_or,iff_true]
    intro s' hrun
    rw [stoppedAfter,take_of_length_le hk] at hrun
    exact ((hs.complete hplan now).passes hrun).indexBacked
  · have htake := take_expirySteps s plan now k (by omega)
    have hmem : ∀ key,Step.remove key∈(expirySteps s plan now).take k ↔
        key∈(expiryKeys s plan).take k := by
      intro key
      simp only [htake,mem_map,Step.remove.injEq,exists_eq_right]
    simp only [hk,false_or,hmem]
    rw [stoppedAfter,htake]
    constructor
    · intro hall u n hrem hl
      have hback := hall _ Relation.ReflTransGen.refl u n
        ((listed_foldl_remove _ (index_not_mem_take hplan k) u n).mpr hl)
      rw [mem_foldl_remove] at hback
      exact hback.1 hrem
    · intro hfree s' hrun
      exact ((hs.stopped hplan k hfree).passes hrun).indexBacked

/-- The index names a file whose object is gone and that no manifest describes. -/
def Lost (s : Store) (u n : String) : Prop :=
  Listed s u n ∧ .binlog u n∉s ∧
    ∀ entry∈listArchivedBinlogs s,
      ¬(entry.metadata.serverUUID=u ∧ entry.metadata.binlogName=n)

theorem listArchivedBinlogs_complete {now : Time} {entry : BinlogEntry}
    (h : entry∈listArchivedBinlogs ((expirySteps s plan now).foldl runStep s)) :
    entry∈listArchivedBinlogs s := by
  obtain ⟨u,n,hb,hm,hl⟩ := mem_listArchivedBinlogs h
  rw [lookup_expirySteps _ _ _ _ (by simp),Option.ite_none_left_eq_some] at hl
  apply mem_filterMap.mpr
  refine ⟨⟨.binlogManifest u n,entry.metadata⟩,AList.mem_lookup_iff.mp hl.2,?_⟩
  show some (BinlogEntry.mk (.binlog u n) (.binlogManifest u n) entry.metadata)=some entry
  rw [← hb,← hm]

/-- No later pass takes a lost file out of the index: its manifest is gone. -/
theorem Lost.passes {s s' : Store} {u n : String} (hs : Lost s u n)
    (h : Relation.ReflTransGen RetentionPass s s') : Lost s' u n := by
  induction h with
  | refl => exact hs
  | tail _ hpass ih =>
    obtain ⟨cutoff,planned,now,plan,hplan,rfl⟩ := hpass
    obtain ⟨hl,hb,hman⟩ := ih
    refine ⟨(listed_expirySteps hplan now u n).mpr ⟨hl,?_⟩,?_,?_⟩
    · obtain ⟨old,hold,_,hdel⟩ := hplan.selected
      rw [hdel,mem_foldl_addDeleted,AList.lookup_empty]
      simp only [Option.getD_none,not_mem_nil,false_or,not_exists,not_and]
      intro entry he hu hn
      exact hman entry (hold entry he) ⟨hu,hn⟩
    · rw [← AList.lookup_isSome,lookup_expirySteps _ _ _ _ (by simp)]
      split
      · simp
      · rw [AList.lookup_isSome]
        exact hb
    · intro entry he
      exact hman entry (listArchivedBinlogs_complete he)

/-- Two backups and one archived file that ends between them. -/
def twoBackups : Store :=
  [ ⟨.backupManifest "b1",BackupMetadata.mk "b1" 5 10⟩,
    ⟨.backupManifest "b2",BackupMetadata.mk "b2" 90 100⟩,
    ⟨.binlog "u" "binlog.000001",()⟩,
    ⟨.binlogManifest "u" "binlog.000001",BinlogMetadata.mk "u" "binlog.000001" 50⟩,
    ⟨.index,{ segments := [{ serverUUID := "u", binlogs := ["binlog.000001"] }] }⟩ ].toAList

theorem listed_twoBackups (h : Listed twoBackups u n) : u = "u" ∧ n = "binlog.000001" := by
  obtain ⟨index,hi,seg,hs,hu,hn⟩ := h
  have hindex : twoBackups.lookup .index =
      some { segments := [{ serverUUID := "u", binlogs := ["binlog.000001"] }] } := rfl
  rw [hindex,Option.some.injEq] at hi
  subst hi
  rw [mem_singleton] at hs
  subst hs
  exact ⟨hu.symm,by simpa using hn⟩

theorem consistent_twoBackups : Consistent twoBackups := by
  intro u n hl
  obtain ⟨rfl,rfl⟩ := listed_twoBackups u n hl
  exact ⟨by decide,BinlogMetadata.mk "u" "binlog.000001" 50,rfl,rfl,rfl⟩

/-- At cutoff 60 `b1` expires, and the file before `b2` with it. -/
def twoBackupsPlan : RetentionPlan :=
  planSorted (listBaseBackups twoBackups) (listArchivedBinlogs twoBackups)
    (twoBackups.lookup .index) 60 200

theorem planRetention_twoBackups : PlanRetention twoBackups 60 200 twoBackupsPlan :=
  ⟨listBaseBackups twoBackups,⟨List.Perm.refl _,by decide⟩,rfl⟩

/-- Run to its end, the plan leaves an index that names no missing file. -/
theorem indexBacked_after_whole_pass :
    Consistent twoBackups ∧ PlanRetention twoBackups 60 200 twoBackupsPlan ∧
    ∀ s',Relation.ReflTransGen RetentionPass (stoppedAfter twoBackups twoBackupsPlan 200 4) s' →
      IndexBacked s' :=
  ⟨consistent_twoBackups,planRetention_twoBackups,
    (indexBacked_after_stop_iff twoBackups consistent_twoBackups 60 200 200 twoBackupsPlan
      planRetention_twoBackups 4).mpr (.inl (by decide))⟩

/-- Stopped before the index rewrite, the index names a removed file, and no complete pass repairs
that. -/
theorem index_names_missing_binlog :
    Consistent twoBackups ∧ PlanRetention twoBackups 60 200 twoBackupsPlan ∧
    ∀ s',Relation.ReflTransGen RetentionPass (stoppedAfter twoBackups twoBackupsPlan 200 3) s' →
      ¬IndexBacked s' := by
  refine ⟨consistent_twoBackups,planRetention_twoBackups,?_⟩
  intro s' hrun hback
  have hlost : Lost (stoppedAfter twoBackups twoBackupsPlan 200 3) "u" "binlog.000001" := by
    refine ⟨⟨_,rfl,{ serverUUID := "u", binlogs := ["binlog.000001"] },?_,rfl,?_⟩,?_,?_⟩
    · decide
    · decide
    · decide
    · decide
  have hlost' := hlost.passes hrun
  exact hlost'.2.1 (hback _ _ hlost'.1)

end Cnmsql.ObjectStore
