import Cnmsql.Binlog.MariaReplay

namespace Cnmsql.Binlog

open Framework Replication ObjectStore Engine List

theorem lookup_putSeq (k domain seq : Nat) (cuts : List (Nat × Nat)) :
    (putSeq domain seq cuts).lookup k=if k=domain then some seq else cuts.lookup k := by
  induction cuts with
  | nil =>
    by_cases hk : k=domain
    · simp [putSeq,hk]
    · have hbeq : (k == domain)=false := by simpa using hk
      simp [putSeq,lookup_cons,hbeq,hk]
  | cons e rest ih =>
    obtain ⟨k',c⟩ := e
    unfold putSeq
    by_cases he : k'=domain
    · subst he
      by_cases hk : k=k'
      · simp [hk]
      · have hbeq : (k == k')=false := by simpa using hk
        simp [lookup_cons,hbeq,hk]
    · simp only [he,if_false,lookup_cons,ih]
      by_cases hk : k=k'
      · subst hk
        simp [he]
      · have hbeq : (k == k')=false := by simpa using hk
        simp [hbeq]

theorem lowerCuts_lookup (delta : List (Nat × Nat)) {cuts : List (Nat × Nat)} {k c : Nat}
    (h : cuts.lookup k=some c) (grew : Bool) :
    ∃ c'≤c,(lowerCuts delta cuts grew).1.lookup k=some c' := by
  induction delta generalizing cuts c grew with
  | nil => exact ⟨c,le_refl c,h⟩
  | cons d rest ih =>
    obtain ⟨domain,seq⟩ := d
    unfold lowerCuts
    split_ifs with hlow
    · exact ih h grew
    · by_cases hk : k=domain
      · subst hk
        have hlt : seq<c := by simpa [h] using hlow
        have hput : (putSeq k seq cuts).lookup k=some seq := by simp [lookup_putSeq]
        obtain ⟨c',hc',hlook⟩ := ih hput true
        exact ⟨c',by omega,hlook⟩
      · have hput : (putSeq domain seq cuts).lookup k=some c := by simp [lookup_putSeq,hk,h]
        exact ih hput true

theorem lowerCuts_unchanged {delta cuts : List (Nat × Nat)} {grew : Bool}
    (h : (lowerCuts delta cuts grew).2=false) : grew=false ∧ (lowerCuts delta cuts grew).1=cuts := by
  induction delta generalizing cuts grew with
  | nil => exact ⟨h,rfl⟩
  | cons e rest ih =>
    obtain ⟨domain,seq⟩ := e
    unfold lowerCuts at h ⊢
    split_ifs at h ⊢
    · exact ih h
    · exact absurd (ih h).1 (by simp)

/-- What lowered cuts spare: what both the old ones and the lowering ones do. -/
theorem lowerCuts_spares {delta : List (Nat × Nat)} (hkeys : (delta.map Prod.fst).Nodup)
    (cuts : List (Nat × Nat)) (grew : Bool) (k x : Nat) :
    (∀ c∈(lowerCuts delta cuts grew).1.lookup k,x≤c) ↔
      (∀ c∈cuts.lookup k,x≤c) ∧ ∀ c∈delta.lookup k, x≤c := by
  induction delta generalizing cuts grew with
  | nil => simp [lowerCuts]
  | cons e rest ih =>
    obtain ⟨domain,seq⟩ := e
    rw [map_cons,nodup_cons] at hkeys
    have ih := ih hkeys.2
    unfold lowerCuts
    by_cases hk : k=domain
    · subst hk
      have hrest : rest.lookup k=none := by
        rw [lookup_eq_none_iff]
        intro e he
        have hne : k≠e.1 := by
          intro heq
          exact hkeys.1 (mem_map.mpr ⟨e,he,heq.symm⟩)
        simpa using hne
      have hhead : ((k,seq)::rest).lookup k=some seq := by simp
      rw [hhead]
      split_ifs with hlow
      · rw [ih,hrest]
        cases hc : cuts.lookup k with
        | none => simp [hc] at hlow
        | some c =>
          have hle : c ≤ seq := by simpa [hc] using hlow
          simp only [Option.mem_def,Option.some.injEq,forall_eq',reduceCtorEq,false_imp_iff,
            implies_true,and_true]
          omega
      · have hput : (putSeq k seq cuts).lookup k=some seq := by simp [lookup_putSeq]
        rw [ih,hrest,hput]
        cases hc : cuts.lookup k with
        | none => simp
        | some c =>
          have hlt : seq<c := by simpa [hc] using hlow
          simp only [Option.mem_def,Option.some.injEq,forall_eq',reduceCtorEq,false_imp_iff,
            implies_true,and_true]
          omega
    · have hbeq : (k == domain)=false := by simpa using hk
      have htail : ((domain,seq)::rest).lookup k=rest.lookup k := by
        rw [lookup_cons,hbeq]
      rw [htail]
      split_ifs
      · exact ih cuts grew
      · rw [ih,lookup_putSeq,if_neg hk]

theorem lookup_judged (F : UInt32 → Option UInt64) (ds : List UInt32) (d : UInt32) :
    (ds.filterMap fun d => (F d).map fun seq => (d.toNat,seq.toNat)).lookup d.toNat =
      if d∈ds then (F d).map (·.toNat) else none := by
  induction ds with
  | nil => rfl
  | cons d' ds ih =>
    rw [filterMap_cons]
    by_cases hd : d=d'
    · subst hd
      cases hF : F d with
      | none =>
        simp only [Option.map_none]
        rw [ih,hF]
        simp
      | some seq => simp
    · have hmem : d∈d'::ds ↔ d∈ds := by simp [hd]
      have hbeq : (d.toNat == d'.toNat)=false := by simpa [UInt32.toNat_inj] using hd
      cases F d' with
      | none =>
        simp only [Option.map_none]
        rw [ih,if_congr hmem rfl rfl]
      | some seq =>
        simp only [Option.map_some]
        rw [lookup_cons,hbeq,if_congr hmem rfl rfl]
        exact ih

theorem judge_cut (timeline : MariaDBTimeline) (position : String) (epochs : List ArchiveEpoch)
    {seg : ArchiveSegment} {p : MariaPos} (hp : parseMariaPos seg.gtidSet = .ok p) :
    ∃ delta,(mariadbForkJudge timeline position epochs).judge seg = .ok delta ∧
      (∀ f∈delta,f.gtidSet = "" ∧ (f.afterSeq.map Prod.fst).Nodup) ∧
      ∀ d : UInt32,(delta.bind fun f => f.afterSeq.lookup d.toNat) =
        ((p.lookup d).bind (timeline.deadAfter d)).map (·.toNat) := by
  have hlook := lookup_judged (fun d => (p.lookup d).bind (timeline.deadAfter d)) p.domains
  have hnone : ∀ d,d∉p.domains → (p.lookup d).bind (timeline.deadAfter d)=none := by
    intro d hd
    rw [p.mem_domains,Option.not_isSome_iff_eq_none] at hd
    rw [hd]
    rfl
  have hread : ∀ d : UInt32,(if d∈p.domains then
      ((p.lookup d).bind (timeline.deadAfter d)).map (·.toNat) else none) =
        ((p.lookup d).bind (timeline.deadAfter d)).map (·.toNat) := by
    intro d
    split_ifs with hd
    · rfl
    · rw [hnone d hd]
      rfl
  simp only [mariadbForkJudge,hp]
  refine ⟨_,rfl,?_,?_⟩
  · intro f hf
    split_ifs at hf
    · cases hf
    · cases hf
      refine ⟨rfl,?_⟩
      rw [map_filterMap]
      refine p.nodup_domains.filterMap ?_
      intro d d' n hn hn'
      simp only [Option.map_map,Option.mem_def,Option.map_eq_some_iff,Function.comp_apply] at hn hn'
      obtain ⟨_,_,rfl⟩ := hn
      obtain ⟨_,_,heq⟩ := hn'
      exact (UInt32.toNat_inj.mp heq).symm
  · intro d
    rw [← hread d,← hlook d]
    split_ifs with hnil
    · rw [hnil]
      rfl
    · rfl

variable [CaseMapping]

/-- A merged record keeps each cut of the old one, lower or as it is. -/
theorem mergeFork_cut {existing delta merged : Option ArchiveFork} {authority identity : String}
    {now : Time} {grew : Bool} (h : mergeFork existing delta authority now identity = .ok (merged,grew))
    {k c : Nat} (hcut : (existing.bind fun f => f.afterSeq.lookup k)=some c) :
    ∃ c'≤c,(merged.bind fun f => f.afterSeq.lookup k)=some c' := by
  obtain ⟨old,rfl,hold⟩ := Option.bind_eq_some_iff.mp hcut
  unfold mergeFork at h
  cases delta with
  | none =>
    cases h
    exact ⟨c,le_refl c,hcut⟩
  | some delta =>
    simp only at h
    split_ifs at h
    · cases h
      exact ⟨c,le_refl c,hcut⟩
    all_goals
      obtain ⟨union,_,h⟩ := bind_eq_ok.mp h
      split_ifs at h
      · cases h
        exact ⟨c,le_refl c,hcut⟩
      · cases h
        exact lowerCuts_lookup delta.afterSeq hold false

/-- A merged MariaDB record spares what both its parts do. -/
theorem mergeFork_spares (existing : Option ArchiveFork) {delta : Option ArchiveFork}
    (hdelta : ∀ f∈delta,f.gtidSet = "" ∧ (f.afterSeq.map Prod.fst).Nodup) (authority : String)
    (now : Time) (identity : String) :
    ∃ merged grew,mergeFork existing delta authority now identity = .ok (merged,grew) ∧
      ∀ k x,(∀ c∈merged.bind fun f => f.afterSeq.lookup k,x≤c) ↔
        (∀ c∈existing.bind fun f => f.afterSeq.lookup k,x≤c) ∧
          ∀ c∈delta.bind fun f => f.afterSeq.lookup k, x≤c := by
  unfold mergeFork
  cases delta with
  | none => exact ⟨existing,false,rfl,by simp⟩
  | some delta =>
    obtain ⟨hset,hkeys⟩ := hdelta delta rfl
    simp only [hset,true_and]
    split_ifs with hnil
    · exact ⟨existing,false,rfl,by simp [hnil]⟩
    · cases existing with
      | none =>
        obtain ⟨s,hs⟩ := parses_empty
        simp only [hs]
        exact ⟨_,_,rfl,by simp⟩
      | some existing =>
        have hspares := lowerCuts_spares hkeys existing.afterSeq false
        change ∃ merged grew,(if existing.gtidSet=existing.gtidSet ∧
          (lowerCuts delta.afterSeq existing.afterSeq false).2=false then _ else _)=_ ∧ _
        split_ifs with hsame
        · refine ⟨_,_,rfl,?_⟩
          intro k x
          rw [(lowerCuts_unchanged hsame.2).2] at hspares
          exact hspares k x
        · exact ⟨_,_,rfl,hspares⟩

/-- Folding the archived timeline in leaves each segment a record that spares what its old one and
the verdicts do. -/
theorem applyArchiveTimeline_folds {idx : ArchiveIndex}
    (hparse : ∀ seg∈idx.segments,∃ p,parseMariaPos seg.gtidSet = .ok p) :
    ∃ folded,applyArchiveTimeline idx = .ok folded ∧
      List.Forall₂ (fun seg seg' : ArchiveSegment => seg'.serverUUID=seg.serverUUID ∧
        ∀ p,parseMariaPos seg.gtidSet = .ok p → ∀ (d : UInt32) (x : Nat),
          (∀ c∈forkCut (replaySegment seg') d,x≤c) ↔
            (∀ c∈forkCut (replaySegment seg) d,x≤c) ∧
              ∀ cut∈(p.lookup d).bind ((engineTimeline idx.mariadbTimeline).deadAfter d),
                x≤cut.toNat)
        idx.segments folded.segments := by
  unfold applyArchiveTimeline
  split_ifs with hnil
  · refine ⟨idx,rfl,forall₂_same.mpr ?_⟩
    intro seg _
    refine ⟨rfl,?_⟩
    intro p _ d x
    -- an empty timeline has no verdict
    have hnone : ∀ e,(engineTimeline idx.mariadbTimeline).deadAfter d e=none := by
      intro e
      rw [hnil]
      simp [engineTimeline,MariaDBTimeline.deadAfter,MariaDBTimeline.verdict]
    simp [hnone]
  · have hrounds : ∀ seg∈idx.segments,∃ seg' : ArchiveSegment,(do
        let delta ← (mariadbForkJudge (engineTimeline idx.mariadbTimeline) ""
          idx.mariadbTimeline).judge seg
        let r ← mergeFork seg.fork delta "" 0 "restore"
        return { seg with fork := r.1 } : Except String ArchiveSegment) = .ok seg' := by
      intro seg hseg
      obtain ⟨p,hp⟩ := hparse seg hseg
      obtain ⟨delta,hjudge,hdelta,_⟩ := judge_cut (engineTimeline idx.mariadbTimeline) ""
        idx.mariadbTimeline hp
      obtain ⟨merged,grew,hmerge,_⟩ := mergeFork_spares seg.fork hdelta "" 0 "restore"
      exact ⟨{ seg with fork := merged },bind_eq_ok.mpr ⟨delta,hjudge,
        bind_eq_ok.mpr ⟨(merged,grew),hmerge,rfl⟩⟩⟩
    obtain ⟨segments,hsegs⟩ := exists_mapM hrounds
    refine ⟨{ idx with segments := segments },bind_eq_ok.mpr ⟨segments,hsegs,rfl⟩,?_⟩
    refine (forall₂_of_mapM hsegs).imp ?_
    intro seg seg' hround
    obtain ⟨delta,hjudge,hround⟩ := bind_eq_ok.mp hround
    obtain ⟨⟨fork,grew⟩,hmerge,hround⟩ := bind_eq_ok.mp hround
    cases hround
    refine ⟨rfl,?_⟩
    intro p hp d x
    obtain ⟨delta',hjudge',hdelta,hlook⟩ := judge_cut (engineTimeline idx.mariadbTimeline) ""
      idx.mariadbTimeline hp
    cases hjudge.symm.trans hjudge'
    obtain ⟨merged,grew',hmerge',hspares⟩ := mergeFork_spares seg.fork hdelta "" 0 "restore"
    cases hmerge.symm.trans hmerge'
    have hboth := hspares d.toNat x
    rw [hlook d] at hboth
    simp only [Option.mem_map,forall_exists_index,and_imp,forall_apply_eq_imp_iff₂] at hboth
    exact hboth

theorem applyArchiveTimeline_spec {idx folded : ArchiveIndex}
    (h : applyArchiveTimeline idx = .ok folded) :
    folded.disowned=idx.disowned ∧
      List.Forall₂ (fun seg seg' : ArchiveSegment => seg'.gtidSet=seg.gtidSet ∧
        ∀ k c,(seg.fork.bind fun f => f.afterSeq.lookup k)=some c →
          ∃ c'≤c,(seg'.fork.bind fun f => f.afterSeq.lookup k)=some c')
        idx.segments folded.segments := by
  unfold applyArchiveTimeline at h
  split_ifs at h
  · cases h
    refine ⟨rfl,forall₂_same.mpr ?_⟩
    exact fun seg _ => ⟨rfl,fun k c hc => ⟨c,le_refl c,hc⟩⟩
  · obtain ⟨segments,hsegs,h⟩ := bind_eq_ok.mp h
    cases h
    refine ⟨rfl,(forall₂_of_mapM hsegs).imp ?_⟩
    intro seg seg' hseg
    obtain ⟨delta,_,hseg⟩ := bind_eq_ok.mp hseg
    obtain ⟨⟨fork,grew⟩,hmerge,hseg⟩ := bind_eq_ok.mp hseg
    cases hseg
    exact ⟨rfl,fun k c hc => mergeFork_cut hmerge hc⟩

end Cnmsql.Binlog
