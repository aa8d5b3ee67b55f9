import Cnmsql.Binlog.MariaReplay
import Cnmsql.Binlog.Recoverable

namespace Cnmsql.Binlog

open Framework Replication ObjectStore Engine

section

/-- Whether the segments carry MariaDB positions; the first that says anything decides. -/
def mariadbArchive (idx : ArchiveIndex) : Bool :=
  match idx.segments.find? (·.gtidSet ≠ "") with
  | none => false
  | some seg => (parseMariaPos seg.gtidSet).toOption.isSome

/-- A segment's range in a domain up to its fork cut, if anything is left. -/
def livingRange (d : UInt32) (seg : ArchiveSegment) : Option (Nat × Nat) :=
  match parseMariaPos seg.gtidSet with
  | .error _ => none
  | .ok pos => (pos.lookup d).bind fun e =>
    let start := if mariaSeqForDomain seg.startGTIDSet d=0 then 1
      else mariaSeqForDomain seg.startGTIDSet d
    let stop := match seg.fork.bind fun f => f.afterSeq.lookup d.toNat with
      | some cut => if cut<e.seq.toNat then cut else e.seq.toNat
      | none => e.seq.toNat
    if start ≤ stop then some (start,stop) else none

/-- The stretches between sorted ranges; sequence numbers are 64 bits wide. -/
def gapLoop (d : UInt32) : Nat → List (Nat × Nat) → List String
  | _,[] => []
  | reached,iv::rest =>
    (if (reached+1) % 2^64 < iv.1 then
      [toString d ++ "-" ++ toString ((reached+1) % 2^64) ++ ".." ++ toString (iv.1-1)]
    else [])++gapLoop d (max reached iv.2) rest

def mariadbGaps (idx : ArchiveIndex) : List String :=
  (archiveDomains idx).flatMap fun d =>
    match (idx.segments.filterMap (livingRange d)).insertionSort (·.1≤·.1) with
    | [] => []
    | iv::rest => gapLoop d iv.2 rest

variable [CaseMapping]

/-- What the archive is missing between transactions it holds; before the first one is no gap. -/
def archiveGaps (idx : Option ArchiveIndex) : List String :=
  match idx with
  | none => []
  | some idx =>
    if idx.segments=[] then []
    else
      match parseGTIDSet idx.coveredGTIDSet,mariadbArchive idx with
      | .ok covered,false => if covered.holes.isEmpty then [] else [covered.holes.string]
      | _,_ => mariadbGaps idx

/-- A MySQL archive without forks, whose recorded coverage is what its segments hold. -/
structure PlainIndex (idx : ArchiveIndex) : Prop where
  mysql : mariadbArchive idx=false
  unforked : ∀ seg∈idx.segments,seg.fork=none
  undisowned : idx.disowned=none
  segments_parse : ∀ seg∈idx.segments,Parses seg.gtidSet
  covered_parses : Parses idx.coveredGTIDSet
  covered : gtids idx.coveredGTIDSet=segmentTxns idx.segments

variable {idx : ArchiveIndex} {anchorGTID : String}

theorem PlainIndex.disownedTexts_eq (h : PlainIndex idx) : disownedTexts idx=[] := by
  rw [disownedTexts,h.undisowned,List.append_nil,List.filterMap_eq_nil_iff]
  intro seg hseg
  rw [h.unforked seg hseg]
  rfl

theorem PlainIndex.disownedTxns_eq (h : PlainIndex idx) : disownedTxns idx=∅ := by
  ext t
  rw [mem_disownedTxns,h.disownedTexts_eq]
  simp

theorem PlainIndex.archiveGaps_spec (h : PlainIndex idx) :
    (archiveGaps (some idx)=[] ∧ ∀ t,¬Hole (segmentTxns idx.segments) t) ∨
      ∃ gap,archiveGaps (some idx)=[gap] ∧ ':'∈gap.toList ∧ Parses gap ∧
        ∀ t,t∈gtids gap ↔ Hole (segmentTxns idx.segments) t := by
  obtain ⟨c,hc⟩ := h.covered_parses
  have hcanon := parseGTIDSet_canonical hc
  obtain ⟨hholes,hmem⟩ := c.holes_correct hcanon
  have hcovered : c.txns=segmentTxns idx.segments := by
    rw [← gtids_of_parse _ c hc,h.covered]
  rw [hcovered] at hmem
  unfold archiveGaps
  by_cases hsegs : idx.segments=[]
  · refine .inl ⟨if_pos hsegs,fun t ht => ?_⟩
    obtain ⟨-,⟨i,-,hi⟩,-⟩ := ht
    simp [hsegs,segmentTxns] at hi
  · simp only [if_neg hsegs,hc,h.mysql]
    by_cases hempty : c.holes.isEmpty=true
    · refine .inl ⟨if_pos hempty,fun t ht => ?_⟩
      rw [GTIDSet.isEmpty_iff _ hholes] at hempty
      have := (hmem t).mpr ht
      rw [hempty] at this
      exact this
    · refine .inr ⟨_,if_neg hempty,?_,(gtids_string hholes).1,fun t => ?_⟩
      · exact colon_mem_string _ hholes hempty
      · rw [(gtids_string hholes).2]
        exact hmem t

theorem planReplay_anchor_error (idx : ArchiveIndex) {target : RecoveryTarget} (ht : target.IsLatest)
    (ha : ¬Parses anchorGTID) :
    ∃ e,planReplay (some idx) anchorGTID target =
      .error (.parse "binlog: parsing anchor GTID" e) := by
  cases hparse : parseGTIDSet anchorGTID with
  | ok s => exact absurd ⟨s,hparse⟩ ha
  | error e =>
    have htime : checkTimeTarget idx target = .ok () := by
      rw [checkTimeTarget,ht.2]
    refine ⟨e,bind_eq_error.mpr (.inl ?_)⟩
    refine bind_eq_error.mpr (.inr ⟨(),htime,bind_eq_error.mpr (.inl ?_)⟩)
    rw [mysql_parse,hparse]
    rfl

section

variable (h : PlainIndex idx) {target : RecoveryTarget} (ht : target.IsLatest)
include h ht

theorem PlainIndex.planReplay_cases (ha : Parses anchorGTID) :
    (UnrecordedFork idx.segments ∅ ∧
      ∃ a b c,planReplay (some idx) anchorGTID target = .error (.unrecordedFork a b c)) ∨
    (¬UnrecordedFork idx.segments ∅ ∧
      ((∀ t,Skipped (gtids anchorGTID) (reach idx anchorGTID) t → Hole (gtids anchorGTID) t) ∧
          (∃ plan,planReplay (some idx) anchorGTID target = .ok plan) ∨
        (∃ t,Skipped (gtids anchorGTID) (reach idx anchorGTID) t ∧ ¬Hole (gtids anchorGTID) t) ∧
          ∃ gap,planReplay (some idx) anchorGTID target = .error (.archiveGap gap))) := by
  have hcov : gtids idx.coveredGTIDSet ⊆ reach idx anchorGTID := by
    rw [h.covered]
    exact Set.subset_union_right
  rcases planReplayWithOps_latest ht ha h.segments_parse h.covered_parses with
    ⟨-,plan₀,h₀⟩ | ⟨hnot,-⟩
  · have hp := planReplayWithOps_correct h₀
    obtain ⟨plan,hf⟩ := applyMySQLForks_latest idx ht hp.exclude_rendered
      (by simp [h.disownedTexts_eq]) (by rw [h.disownedTxns_eq,Set.inter_empty])
    have hcases := planReplay_latest_cases h₀ hf ht
    rw [h.disownedTxns_eq] at hcases
    rcases hcases with hfork | ⟨hfork,⟨hnone,hok⟩ | ⟨⟨t,hskip,-,hhole⟩,herr⟩⟩
    · exact .inl hfork
    · refine .inr ⟨hfork,.inl ⟨fun t hskip => ?_,plan,hok⟩⟩
      exact (hnone t hskip).resolve_left (Set.notMem_empty t)
    · exact .inr ⟨hfork,.inr ⟨⟨t,hskip,hhole⟩,herr⟩⟩
  · exact absurd hcov hnot

theorem PlainIndex.planReplay_gap_iff :
    (∃ e,planReplay (some idx) anchorGTID target = .error e ∧ e.sentinel=some .errArchiveGap) ↔
      Parses anchorGTID ∧ ¬UnrecordedFork idx.segments ∅ ∧
        ∃ t,Skipped (gtids anchorGTID) (reach idx anchorGTID) t ∧ ¬Hole (gtids anchorGTID) t := by
  by_cases ha : Parses anchorGTID
  · rcases h.planReplay_cases ht ha with
      ⟨hfork,a,b,c,herr⟩ | ⟨hfork,⟨hnone,plan,hok⟩ | ⟨hskip,gap,herr⟩⟩
    · simp [herr,hfork,ReplayError.sentinel]
    · simp only [hok,reduceCtorEq,false_and,exists_false,false_iff,not_and,not_exists,not_not]
      exact fun _ _ t => hnone t
    · simp only [herr,ha,hfork,hskip,Except.error.injEq,exists_eq_left',not_false_eq_true,
        and_self,iff_true]
      rfl
  · obtain ⟨e,herr⟩ := planReplay_anchor_error idx ht ha
    simp [herr,ha,ReplayError.sentinel]

end

end

/-- The archive goes on where the backup ends: of a source both know, neither starts more than one
past the other's end, and any other source is archived from its first transaction. -/
def Joins (A C : Set Txn) : Prop :=
  ∀ u,(∃ n,(u,n)∈C) →
    ((∃ i,(u,i)∈A) →
      (∃ n i,(u,n)∈C ∧ (u,i)∈A ∧ n ≤ i+1) ∧
        ∃ n i,(u,n)∈C ∧ (u,i)∈A ∧ i≤n+1) ∧
    ((∀ i,(u,i)∉A) → (u,1)∈C)

variable {A C : Set Txn}

theorem exists_first {S : Set Txn} {u : String} {n : Nat} (h : (u,n)∈S) :
    ∃ m,(u,m)∈S ∧ ∀ k < m,(u, k)∉S := by
  classical
  have hex : ∃ m,(u, m)∈S := ⟨n,h⟩
  exact ⟨Nat.find hex,Nat.find_spec hex,fun k hk => Nat.find_min hex hk⟩

/-- Where the archive does not join the backup, recovery skips what lies between. -/
theorem joins_of_explained (hC : ∀ t∈C,1≤t.2)
    (h : ∀ t,Skipped A (A ∪ C) t → Hole A t) : Joins A C := by
  rintro u ⟨n,hn⟩
  obtain ⟨first,hfirst,hbelow⟩ := exists_first hn
  have hpos := hC _ hfirst
  refine ⟨?_,?_⟩
  · rintro ⟨i,hi⟩
    constructor
    · -- the archive starts past everything the backup has
      by_contra hnone
      push Not at hnone
      have hgap := fun i hi => hnone first i hfirst hi
      have hiFirst := hgap i hi
      have hskip : Skipped A (A ∪ C) (u, first-1) := by
        refine ⟨?_,by simp only; omega,⟨first,by simp only; omega,.inr hfirst⟩,
          .inl ⟨i,by simp only; omega,.inl hi⟩⟩
        rintro (hin | hin)
        · have := hgap _ hin
          omega
        · exact hbelow _ (by omega) hin
      obtain ⟨-,-,j,hj,hjA⟩ := h _ hskip
      have := hgap j hjA
      simp only at hj
      omega
    · -- the backup starts past everything the archive has
      by_contra hnone
      push Not at hnone
      obtain ⟨start,hstart,hbefore⟩ := exists_first hi
      have hgap := fun n hn => hnone n start hn hstart
      have hnStart := hgap n hn
      have hskip : Skipped A (A ∪ C) (u, start-1) := by
        refine ⟨?_,by simp only; omega,⟨start,by simp only; omega,.inl hstart⟩,
          .inl ⟨n,by simp only; omega,.inr hn⟩⟩
        rintro (hin | hin)
        · exact hbefore _ (by omega) hin
        · have := hgap _ hin
          omega
      obtain ⟨-,⟨j,hj,hjA⟩,-⟩ := h _ hskip
      simp only at hj
      exact hbefore j (by omega) hjA
  · intro hnone
    by_contra hone
    have hne : first≠1 := by
      rintro rfl
      exact hone hfirst
    have hskip : Skipped A (A ∪ C) (u, 1) := by
      refine ⟨?_,le_refl _,⟨first,by simp only at hpos ⊢; omega,.inr hfirst⟩,.inr hnone⟩
      rintro (hin | hin)
      · exact hnone 1 hin
      · exact hone hin
    obtain ⟨-,⟨j,-,hj⟩,-⟩ := h _ hskip
    exact hnone j hj

theorem Joins.explained (hjoin : Joins A C) (hholes : ∀ t,Hole C t → t∈A) {t : Txn}
    (hskip : Skipped A (A ∪ C) t) : Hole A t := by
  obtain ⟨u,k⟩ := t
  obtain ⟨hnot,hpos,⟨j,hj,hjE⟩,hbefore⟩ := hskip
  have hkA : (u, k)∉A := fun hin => hnot (.inl hin)
  have hkC : (u, k)∉C := fun hin => hnot (.inr hin)
  -- the archive does not hold the source on both sides of what is skipped
  have hside : ∀ i<k,(u,i)∈C → ∀ j > k,(u, j)∉C := by
    intro i hi hiC j hj hjC
    exact hkA (hholes (u,k) ⟨hkC,⟨i,hi,hiC⟩,j,hj,hjC⟩)
  simp only at hpos hj
  by_cases hlacks : ∀ i,(u,i)∉A
  · have hjC : (u, j)∈C := hjE.resolve_left (hlacks j)
    have hone := (hjoin u ⟨j,hjC⟩).2 hlacks
    have hne : k≠1 := by
      rintro rfl
      exact hkC hone
    exact absurd hjC (hside 1 (by omega) hone j hj)
  · obtain ⟨i,hi,hiE⟩ := hbefore.resolve_right hlacks
    push Not at hlacks
    refine ⟨hkA,?_,?_⟩
    · by_contra hnone
      push Not at hnone
      have hiC : (u, i)∈C := hiE.resolve_left (hnone i hi)
      obtain ⟨-,n,a,hn,ha,hle⟩ := (hjoin u ⟨i,hiC⟩).1 hlacks
      have ha' : k<a := by
        by_contra hge
        have hne : a≠k := fun he => hkA (he ▸ ha)
        exact hnone a (by simp only; omega) ha
      have hn' : n<k := by
        by_contra hge
        have hne : n≠k := fun he => hkC (he ▸ hn)
        exact hside i hi hiC n (by omega) hn
      omega
    · by_contra hnone
      push Not at hnone
      have hjC : (u, j)∈C := hjE.resolve_left (hnone j hj)
      obtain ⟨⟨n,a,hn,ha,hle⟩,-⟩ := (hjoin u ⟨j,hjC⟩).1 hlacks
      have ha' : a<k := by
        by_contra hge
        have hne : a≠k := fun he => hkA (he ▸ ha)
        exact hnone a (by simp only; omega) ha
      have hn' : k<n := by
        by_contra hge
        have hne : n≠k := fun he => hkC (he ▸ hn)
        exact hside n (by omega) hn j hj hjC
      omega

end Cnmsql.Binlog
