import Cnmsql.Binlog.PositionalReplay
import Cnmsql.Binlog.SegmentSelection

namespace Cnmsql.Binlog

open Framework ObjectStore Engine List

section

variable {d : UInt32} {a : Nat} {T : Time}

def Late (d : UInt32) (a : Nat) (T : Time) (b : TxnBoundary) : Prop :=
  b.domain=d ∧ a<b.seq ∧ b.time≠0 ∧ T≤b.time

theorem foldl_first (bs : List TxnBoundary) (init : Nat) :
    let first := bs.foldl (fun (first : Nat) b =>
      if b.domain=d ∧ a<b.seq ∧ b.time≠0 ∧ T≤b.time ∧ b.seq<first then b.seq
      else first) init
    (first=init ∨ ∃ b∈bs,Late d a T b ∧ b.seq=first) ∧ first ≤ init ∧
      ∀ b∈bs, Late d a T b → first≤b.seq := by
  induction bs generalizing init with
  | nil => simp
  | cons c bs ih =>
    rw [foldl_cons]
    split
    · rename_i hc
      have ih := ih c.seq
      have hlate : Late d a T c := ⟨hc.1,hc.2.1,hc.2.2.1,hc.2.2.2.1⟩
      grind
    · rename_i hc
      have ih := ih init
      have hlate : Late d a T c → init≤c.seq := by
        rintro ⟨h₁,h₂,h₃,h₄⟩
        by_contra hlt
        exact hc ⟨h₁,h₂,h₃,h₄,by omega⟩
      grind

theorem foldl_before (bs : List TxnBoundary) (first init : Nat) :
    let before := bs.foldl (fun (before : Nat) b =>
      if b.domain=d ∧ before<b.seq ∧ b.seq<first then b.seq else before) init
    (before=init ∨ ∃ b∈bs,b.domain=d ∧ b.seq<first ∧ b.seq=before) ∧ init≤before ∧
      ∀ b∈bs,b.domain=d → b.seq<first → b.seq≤before := by
  induction bs generalizing init with
  | nil => simp
  | cons c bs ih =>
    rw [foldl_cons]
    split
    · rename_i hc
      have ih := ih c.seq
      grind
    · rename_i hc
      have ih := ih init
      grind

/-- Where a time target may stop: the anchor, and what is held past it with nothing stamped at or
after the target on the way. -/
def StopsAt (d : UInt32) (a : Nat) (T : Time) (files : List PositionalFile) : Set Nat :=
  {x | x=a ∨ a<x ∧ Held d files x ∧
    ∀ f∈files,∀ b∈f.boundaries,b.seq≤x → ¬Late d a T b}

/-- The time bound is the last transaction before `first`, the first one stamped at or after the
target or the sentinel. -/
theorem seqBeforeTime_spec (files : List PositionalFile) (highest : Nat) :
    ∃ first,(first=(highest+1) % 2^64 ∨
        ∃ b∈files.flatMap (·.boundaries),Late d a T b ∧ b.seq=first) ∧
      first≤(highest+1) % 2^64 ∧
      (∀ b∈files.flatMap (·.boundaries),Late d a T b → first≤b.seq) ∧
      (seqBeforeTime files d a highest T=a ∨ ∃ b∈files.flatMap (·.boundaries),
        b.domain=d ∧ b.seq<first ∧ b.seq=seqBeforeTime files d a highest T) ∧
      a ≤ seqBeforeTime files d a highest T ∧
      ∀ b∈files.flatMap (·.boundaries),b.domain=d → b.seq<first →
        b.seq ≤ seqBeforeTime files d a highest T := by
  obtain ⟨hmem,hle,hleast⟩ := foldl_first (d := d) (a := a) (T := T)
    (files.flatMap (·.boundaries)) ((highest+1) % 2^64)
  exact ⟨_,hmem,hle,hleast,foldl_before _ _ _⟩

/-- A time target is bound by the last transaction before the first one stamped at or after it. -/
theorem isGreatest_seqBeforeTime {files : List PositionalFile} {highest : Nat}
    (hhighest : highestMariadbSeq files d=some highest) (hlt : highest+1<2^64) :
    IsGreatest (StopsAt d a T files) (seqBeforeTime files d a highest T) := by
  have hgreatest := isGreatest_highest hhighest
  obtain ⟨first,hfmem,-,hfleast,hbmem,hbge,hbgreatest⟩ :=
    seqBeforeTime_spec (d := d) (a := a) (T := T) files highest
  rw [Nat.mod_eq_of_lt hlt] at hfmem
  simp only [mem_flatMap] at hfmem hfleast hbmem hbgreatest
  constructor
  · rcases hbmem with heq | ⟨b,⟨f,hf,hb⟩,hbd,hbf,heq⟩
    · exact .inl heq
    · rcases Nat.eq_or_lt_of_le hbge with heq | hlt
      · exact .inl heq.symm
      · refine .inr ⟨hlt,⟨f,hf,b,hb,hbd,heq⟩,?_⟩
        intro g hg c hc hle hlate
        have := hfleast c ⟨g,hg,hc⟩ hlate
        omega
  · rintro x (rfl | ⟨hax,⟨f,hf,b,hb,hbd,rfl⟩,hearly⟩)
    · exact hbge
    · refine hbgreatest b ⟨f,hf,hb⟩ hbd ?_
      rcases hfmem with rfl | ⟨c,⟨g,hg,hc⟩,hlate,rfl⟩
      · have := hgreatest.2 ⟨f,hf,b,hb,hbd,rfl⟩
        omega
      · by_contra hle
        exact hearly g hg c hc (by omega) hlate

/-- The sequence a plan replays to, `none` when there is nothing to replay. -/
def resolvedTarget (plan : PositionalPlan) (cut : List PositionalFile) (a : Nat) : Option Nat :=
  if plan.targetSeq≠0 then some plan.targetSeq
  else
    match highestMariadbSeq cut plan.domain with
    | none => none
    | some highest =>
      if highest≤a then none
      else if plan.targetTime=0 then some highest
      else
        let target := seqBeforeTime cut plan.domain a highest plan.targetTime
        if target≤a then none else some target

theorem planMariadbReplay_eq (plan : PositionalPlan) (files : List PositionalFile) (a : Nat) :
    planMariadbReplay plan files a =
      (checkMariadbAuthors (applyMariadbForks files plan.segments plan.domain plan.target)
        plan.domain a) >>= fun _ =>
      match resolvedTarget plan (applyMariadbForks files plan.segments plan.domain plan.target) a with
      | none => .ok []
      | some t => planMariadbPositionalFiles
          (applyMariadbForks files plan.segments plan.domain plan.target) plan.domain a t := by
  unfold planMariadbReplay resolvedTarget
  simp only
  generalize applyMariadbForks files plan.segments plan.domain plan.target=cut
  congr 1
  funext _
  by_cases hseq : plan.targetSeq≠0
  · simp only [if_pos hseq]
  · simp only [if_neg hseq]
    cases highestMariadbSeq cut plan.domain with
    | none => rfl
    | some highest =>
      simp only
      split_ifs <;> rfl

theorem planMariadbReplay_eq_ok {plan : PositionalPlan} {files : List PositionalFile} {a : Nat}
    {chunks : List ReplayChunk} {cut : List PositionalFile}
    (hcut : applyMariadbForks files plan.segments plan.domain plan.target=cut) :
    planMariadbReplay plan files a = .ok chunks ↔
      checkMariadbAuthors cut plan.domain a = .ok () ∧
        (resolvedTarget plan cut a=none ∧ chunks=[] ∨
          ∃ t,resolvedTarget plan cut a=some t ∧
            planMariadbPositionalFiles cut plan.domain a t = .ok chunks) := by
  rw [planMariadbReplay_eq,hcut,check_bind_eq_ok]
  refine and_congr_right fun _ => ?_
  cases resolvedTarget plan cut a with
  | none => simp [eq_comm]
  | some t => simp

end

section

variable {segs : List ReplaySegment} {d : UInt32} {target : Option MariaDBGTID}

theorem branchHolder_of_unforked (h : ∀ s∈segs,s.fork=none) :
    branchHolder segs d target=("", 0) := by
  cases target with
  | none => rfl
  | some g =>
    have hnone : segs.findSome? (fun s => (holdsTarget d g s).map (s.serverUUID, ·))=none := by
      rw [List.findSome?_eq_none_iff]
      intro s hs
      simp [holdsTarget,forkCut,h s hs]
    simp [branchHolder,hnone]

theorem applyMariadbForks_of_unforked (h : ∀ s∈segs,s.fork=none) (files : List PositionalFile)
    (d : UInt32) (target : Option MariaDBGTID) : applyMariadbForks files segs d target=files := by
  have hcuts : segmentCuts segs d target=∅ := by
    unfold segmentCuts
    rw [branchHolder_of_unforked h]
    simp only [ne_eq,not_true_eq_false,if_false]
    induction segs with
    | nil => rfl
    | cons s segs ih =>
      rw [forall_mem_cons] at h
      rw [foldl_cons,forkCut,h.1]
      exact ih h.2
  rw [applyMariadbForks,hcuts]
  generalize []=exhausted
  induction files generalizing exhausted with
  | nil => rfl
  | cons f files ih => simp [cutFiles,ih]

def latestSeq (idx : ArchiveIndex) (d : UInt32) : Nat :=
  idx.segments.foldl (fun m seg => max m (mariaSeqForDomain seg.gtidSet d)) 0

theorem capSegments_of_unforked {idx : ArchiveIndex} (hidx : SingleDomain idx d)
    (h : ∀ seg∈idx.segments,seg.fork=none) (p : MariadbPositional) :
    capSegments idx.segments p =
      (idx.segments,if p.targetSeq≠0 then p.targetSeq else latestSeq idx p.domain) := by
  have hcap : ∀ seg∈idx.segments,capSegment p.domain "" 0 seg =
      (seg,mariaSeqForDomain seg.gtidSet p.domain) := by
    intro seg hseg
    obtain ⟨hsingle,hnames⟩ := hidx seg hseg
    obtain ⟨pos,hpos,-⟩ := (namesOnly_iff d seg.gtidSet).mp hnames
    rw [segmentAuthor_stop hsingle hpos,capSegment]
    cases segmentAuthor (replaySegment seg) p.domain with
    | none => rfl
    | some author => simp [forkCut,replaySegment,h seg hseg]
  have hunforked : ∀ s∈idx.segments.map replaySegment, s.fork=none := by
    intro s hs
    obtain ⟨seg,hseg,rfl⟩ := mem_map.mp hs
    exact h seg hseg
  unfold capSegments latestSeq
  rw [branchHolder_of_unforked hunforked]
  simp only [map_congr_left hcap,map_map,foldl_map,Function.comp_def,map_id']

def Agrees (files : List PositionalFile) (v : SegmentRange) : Prop :=
  v.start≤v.stop ∧
    ((files.filter (·.segment=v.seg.serverUUID)).flatMap (·.boundaries)).map (·.seq) =
      List.range' v.start (v.stop+1-v.start)

structure Downloaded (idx : ArchiveIndex) (d : UInt32) (segments : List ReplaySegment)
    (files : List PositionalFile) : Prop where
  paths : (files.map (·.path)).Nodup
  whole : ∀ f∈files,f.endPos=0
  runs : ∀ f∈files,Run d f.boundaries
  source : ∀ f∈files,∃ s∈segments,s.serverUUID=f.segment
  ranges : ∀ v∈segmentRanges idx.segments d,
    (∃ s∈segments,s.serverUUID=v.seg.serverUUID) → Agrees files v

variable {idx : ArchiveIndex} {d : UInt32} {segments : List ReplaySegment}
  {files : List PositionalFile}

instance (v : SegmentRange) : Decidable (Agrees files v) := inferInstanceAs (Decidable (_ ∧ _))

instance : Decidable (Downloaded idx d segments files) :=
  decidable_of_iff ((files.map (·.path)).Nodup ∧ (∀ f∈files,f.endPos=0) ∧
    (∀ f∈files,Run d f.boundaries) ∧ (∀ f∈files,∃ s∈segments,s.serverUUID=f.segment) ∧
    ∀ v∈segmentRanges idx.segments d,
      (∃ s∈segments,s.serverUUID=v.seg.serverUUID) → Agrees files v)
    ⟨fun h => ⟨h.1,h.2.1,h.2.2.1,h.2.2.2.1,h.2.2.2.2⟩,
      fun h => ⟨h.paths,h.whole,h.runs,h.source,h.ranges⟩⟩

theorem Downloaded.readable (h : Downloaded idx d segments files) :
    ∀ f∈files,Readable (diskOf files) d f := by
  intro f hf
  have hdisk := diskOf_eq h.paths hf
  refine ⟨hdisk ▸ h.runs f hf,?_⟩
  rw [hdisk,h.whole f hf]
  rfl

theorem Agrees.mem_iff {v : SegmentRange} (h : Agrees files v) (x : Nat) :
    (v.start≤x ∧ x≤v.stop) ↔
      ∃ f∈files,f.segment=v.seg.serverUUID ∧ ∃ b∈f.boundaries, b.seq=x := by
  have hmem : x∈List.range' v.start (v.stop+1-v.start) ↔ v.start≤x ∧ x≤v.stop := by
    have := h.1
    rw [mem_range'_1]
    omega
  rw [← hmem,← h.2]
  simp only [mem_map,mem_flatMap,mem_filter,decide_eq_true_eq]
  constructor
  · rintro ⟨b,⟨f,⟨hf,hseg⟩,hb⟩,rfl⟩
    exact ⟨f,hf,hseg,b,hb,rfl⟩
  · rintro ⟨f,hf,hseg,b,hb,rfl⟩
    exact ⟨b,⟨f,⟨hf,hseg⟩,hb⟩,rfl⟩

section

variable (h : Downloaded idx d segments files) {sel : List SegmentRange}
include h

theorem Downloaded.held_of_covered
    (hsel : ∀ v∈sel,v∈segmentRanges idx.segments d ∧
      ∃ s∈segments,s.serverUUID=v.seg.serverUUID) {x : Nat} (hx : Covered sel x) :
    Held d files x := by
  obtain ⟨v,hv,hvx⟩ := hx
  obtain ⟨hrange,hseg⟩ := hsel v hv
  obtain ⟨f,hf,-,b,hb,rfl⟩ := ((h.ranges v hrange hseg).mem_iff x).mp hvx
  exact ⟨f,hf,b,hb,(h.runs f hf).domain b hb,rfl⟩

theorem Downloaded.covered_of_held
    (hsel : ∀ v∈sel,v∈segmentRanges idx.segments d)
    (hall : ∀ s∈segments,∃ v∈sel,v.seg.serverUUID=s.serverUUID) {x : Nat}
    (hx : Held d files x) : Covered sel x := by
  obtain ⟨f,hf,b,hb,-,rfl⟩ := hx
  obtain ⟨s,hs,hsf⟩ := h.source f hf
  obtain ⟨v,hv,hvs⟩ := hall s hs
  have hagrees := h.ranges v (hsel v hv) ⟨s,hs,hvs.symm⟩
  exact ⟨v,hv,(hagrees.mem_iff b.seq).mpr ⟨f,hf,by rw [hvs,hsf],b,hb,rfl⟩⟩

end

end

variable {idx : ArchiveIndex} {d : UInt32} {anchorGTID : String} {target : RecoveryTarget}
  {p p₀ : MariadbPositional} {files : List PositionalFile} {chunks : List ReplayChunk} {t : Nat}

/-- The sequence a target stands for. Sequence 0 and the zero time read as no target. -/
def StandsFor (idx : ArchiveIndex) (d : UInt32) (files : List PositionalFile) (a : Nat)
    (target : RecoveryTarget) (t : Nat) : Prop :=
  if target.gtid ≠ "" then t≠0 ∧ ∃ d',singleDomainMariaGTID target.gtid = .ok (some (d',t))
  else
    match target.time with
    | some T => T≠0 ∧ IsGreatest (StopsAt d a T files) t
    | none => t=latestSeq idx d

theorem lt_leadingEdge (d : UInt32) (a : Nat) (files : List PositionalFile) :
    a<leadingEdge d a files := by
  by_cases h : ∃ x,a<x ∧ Held d files x
  · exact (isLeast_leadingEdge h).1.1
  · rw [leadingEdge_of_not_held h]
    omega

theorem range_eq_nil {a : Nat} (h : t≤a) :
    List.range' (leadingEdge d a files) (t+1-leadingEdge d a files)=[] := by
  have := lt_leadingEdge d a files
  rw [show t+1-leadingEdge d a files=0 by omega]
  rfl

theorem le_latestSeq {v : SegmentRange} (h : v∈segmentRanges idx.segments d) :
    v.stop≤latestSeq idx d := by
  obtain ⟨seg,hseg,hv⟩ := mem_segmentRanges.mp h
  rw [(segmentRange_eq_some hv).2.1,latestSeq]
  exact le_foldl_max (fun seg : ArchiveSegment => mariaSeqForDomain seg.gtidSet d) hseg

theorem selected_ranges {a t' : Nat} {selected : List ReplaySegment} (hlt : a<t')
    (h : selectMariadbSegments idx.segments d a t' = .ok selected) :
    ∃ sel,selectLoop t' (segmentRanges idx.segments d).length a (segmentRanges idx.segments d) [] =
        .ok sel ∧
      (∀ v∈sel,v∈segmentRanges idx.segments d ∧
        ∃ s∈selected.map fun s => segmentByUUID (idx.segments.map replaySegment) s.serverUUID,
          s.serverUUID=v.seg.serverUUID) ∧
      ∀ s∈selected.map fun s => segmentByUUID (idx.segments.map replaySegment) s.serverUUID,
        s∈idx.segments.map replaySegment ∧ ∃ v∈sel,v.seg.serverUUID=s.serverUUID := by
  obtain ⟨sel,hsel,rfl⟩ := selectMariadbSegments_eq_ok hlt h
  obtain ⟨picked,hpicked,hsub,-⟩ := selectLoop_covered hsel
  rw [nil_append] at hpicked
  subst hpicked
  have huuid : ∀ v∈sel,(segmentByUUID (idx.segments.map replaySegment)
      v.seg.serverUUID).serverUUID=v.seg.serverUUID ∧
      segmentByUUID (idx.segments.map replaySegment) v.seg.serverUUID ∈
        idx.segments.map replaySegment := by
    intro v hv
    obtain ⟨seg,hseg,hrange⟩ := mem_segmentRanges.mp (hsub hv)
    refine segmentByUUID_serverUUID ⟨replaySegment seg,mem_map_of_mem hseg,?_⟩
    rw [(segmentRange_eq_some hrange).1]
    rfl
  refine ⟨sel,hsel,?_,?_⟩
  · intro v hv
    refine ⟨hsub hv,_,mem_map_of_mem (mem_map_of_mem hv),(huuid v hv).1⟩
  · intro s hs
    rw [map_map,mem_map] at hs
    obtain ⟨v,hv,rfl⟩ := hs
    exact ⟨(huuid v hv).2,v,hv,(huuid v hv).1.symm⟩

/-- How the segments to download were chosen: all, none, or those that cover the way. -/
inductive Choice (idx : ArchiveIndex) (d : UInt32) (target : RecoveryTarget) (a aim : Nat) :
    List ReplaySegment → Prop
  | everything (h : segmentsHaveRanges idx.segments=false ∨ target.time.isSome) :
      Choice idx d target a aim (idx.segments.map replaySegment)
  | nothing (h : aim≤a) : Choice idx d target a aim []
  | cover (segments : List ReplaySegment) (sel : List SegmentRange) (hlt : a<aim)
      (hsel : selectLoop aim (segmentRanges idx.segments d).length a
        (segmentRanges idx.segments d) [] = .ok sel)
      (hranges : ∀ v∈sel,v∈segmentRanges idx.segments d ∧
        ∃ s∈segments,s.serverUUID=v.seg.serverUUID)
      (hsegments : ∀ s∈segments,s∈idx.segments.map replaySegment ∧
        ∃ v∈sel,v.seg.serverUUID=s.serverUUID) :
      Choice idx d target a aim segments

theorem choice_of_prepareSelection (hidx : SingleDomain idx d)
    (hforks : ∀ seg∈idx.segments,seg.fork=none) (hunselected : p₀.selected=false)
    (hnil : p₀.segments=[]) (h : prepareSelection idx target p₀ = .ok p) :
    p.domain=p₀.domain ∧ p.anchorSeq=p₀.anchorSeq ∧ p.targetSeq=p₀.targetSeq ∧
      p.target=p₀.target ∧
      Choice idx p.domain target p.anchorSeq
        (if p.targetSeq≠0 then p.targetSeq else latestSeq idx p.domain)
        (p.plan (idx.segments.map replaySegment) target).segments := by
  have hcap := capSegments_of_unforked hidx hforks p₀
  rcases prepareSelection_eq_ok h with ⟨rfl,hwhy⟩ | ⟨rfl,hle⟩ | ⟨selected,hlt,hsel,rfl⟩
  · refine ⟨rfl,rfl,rfl,rfl,?_⟩
    simp only [MariadbPositional.plan,hunselected,Bool.false_eq_true,if_false]
    exact .everything hwhy
  · rw [hcap] at hle
    refine ⟨rfl,rfl,rfl,rfl,?_⟩
    simp only [MariadbPositional.plan,if_true,hnil]
    exact .nothing hle
  · rw [hcap] at hlt hsel
    obtain ⟨sel,hloop,hranges,hsegments⟩ := selected_ranges hlt hsel
    refine ⟨rfl,rfl,rfl,rfl,?_⟩
    simp only [MariadbPositional.plan,if_true]
    exact .cover _ sel hlt hloop hranges hsegments

variable {a aim : Nat} {segments : List ReplaySegment}

theorem Choice.unforked (h : Choice idx d target a aim segments)
    (hforks : ∀ seg∈idx.segments,seg.fork=none) : ∀ s∈segments, s.fork=none := by
  have hall : ∀ s∈idx.segments.map replaySegment, s.fork=none := by
    intro s hs
    obtain ⟨seg,hseg,rfl⟩ := mem_map.mp hs
    exact hforks seg hseg
  cases h with
  | everything h => exact hall
  | nothing h => simp
  | cover _ sel hlt hsel hranges hsegments => exact fun s hs => hall s (hsegments s hs).1

/-- Nothing archived past the anchor comes before what the files begin with. -/
theorem Choice.leading (h : Choice idx d target a aim segments)
    (hdl : Downloaded idx d segments files) {x : Nat} (hax : a<x)
    (hx : x<leadingEdge d a files) : ¬Archived idx d x := by
  intro harchived
  have hedge : ∀ y,a<y → y≤x → ¬Held d files y := by
    intro y hay hyx hheld
    have := (isLeast_leadingEdge ⟨y,hay,hheld⟩).2 ⟨hay,hheld⟩
    omega
  cases h with
  | everything h =>
    refine hedge x hax le_rfl (hdl.held_of_covered (fun v hv => ⟨hv,?_⟩) harchived)
    obtain ⟨seg,hseg,hrange⟩ := mem_segmentRanges.mp hv
    refine ⟨replaySegment seg,mem_map_of_mem hseg,?_⟩
    rw [(segmentRange_eq_some hrange).1]
    rfl
  | nothing h =>
    have hnone : ¬∃ y, a<y ∧ Held d files y := by
      rintro ⟨y,-,f,hf,-⟩
      obtain ⟨s,hs,-⟩ := hdl.source f hf
      simp at hs
    rw [leadingEdge_of_not_held hnone] at hx
    omega
  | cover _ sel hlt hsel hranges hsegments =>
    have hnonempty : ∀ v∈sel, v.start≤v.stop := fun v hv =>
      (hdl.ranges v (hranges v hv).1 (hranges v hv).2).1
    obtain ⟨y,hay,hyx,hcov⟩ := selectLoop_leading hlt hsel hnonempty hax harchived
    exact hedge y hay hyx (hdl.held_of_covered hranges hcov)

theorem Choice.highest (h : Choice idx d target a (latestSeq idx d) segments)
    (hdl : Downloaded idx d segments files) (hranges : segmentsHaveRanges idx.segments=true)
    (htime : target.time=none) (hlt : a<latestSeq idx d) :
    highestMariadbSeq files d=some (latestSeq idx d) := by
  cases h with
  | everything h => simp [hranges,htime] at h
  | nothing h => omega
  | cover _ sel hlt hsel hranges hsegments =>
    obtain ⟨picked,hpicked,-,hreach,-⟩ := selectLoop_covered hsel
    rw [nil_append] at hpicked
    subst hpicked
    obtain ⟨v,hv,hvt⟩ := hreach hlt
    have hstop : v.stop=latestSeq idx d := le_antisymm (le_latestSeq (hranges v hv).1) hvt
    have hnonempty := (hdl.ranges v (hranges v hv).1 (hranges v hv).2).1
    rw [highestMariadbSeq_eq_some_iff]
    constructor
    · exact hdl.held_of_covered hranges ⟨v,hv,by omega,by omega⟩
    · intro x hx
      obtain ⟨u,hu,hux⟩ := hdl.covered_of_held (fun v hv => (hranges v hv).1)
        (fun s hs => (hsegments s hs).2) hx
      exact hux.2.trans (le_latestSeq (hranges u hu).1)

theorem resolvedTarget_time {plan : PositionalPlan} (hzero : plan.targetSeq=0)
    (htime : plan.targetTime≠0) (hseqs : ∀ x,Held plan.domain files x → x+1<2^64)
    (ht : IsGreatest (StopsAt plan.domain a plan.targetTime files) t) :
    resolvedTarget plan files a=some t ∧ a<t ∨ resolvedTarget plan files a=none ∧ t≤a := by
  unfold resolvedTarget
  rw [if_neg (by simp [hzero])]
  cases hhighest : highestMariadbSeq files plan.domain with
  | none =>
    refine .inr ⟨rfl,?_⟩
    rcases ht.1 with rfl | ⟨-,hheld,-⟩
    · exact le_rfl
    · exact absurd hheld (not_held_of_highest_none hhighest t)
  | some highest =>
    have hgreatest := isGreatest_highest hhighest
    have hlt := hseqs highest hgreatest.1
    simp only [htime,if_false,(isGreatest_seqBeforeTime hhighest hlt).unique ht]
    by_cases hle : highest≤a
    · refine .inr ⟨if_pos hle,?_⟩
      rcases ht.1 with rfl | ⟨-,hheld,-⟩
      · exact le_rfl
      · exact (hgreatest.2 hheld).trans hle
    · rw [if_neg hle]
      by_cases hta : t≤a
      · exact .inr ⟨if_pos hta,hta⟩
      · exact .inl ⟨if_neg hta,Nat.not_le.mp hta⟩

theorem resolvedTarget_latest {plan : PositionalPlan} (hzero : plan.targetSeq=0)
    (htime : plan.targetTime=0) (hnone : target.time=none)
    (hchoice : Choice idx plan.domain target a (latestSeq idx plan.domain) segments)
    (hdl : Downloaded idx plan.domain segments files)
    (hranges : segmentsHaveRanges idx.segments=true) :
    resolvedTarget plan files a=some (latestSeq idx plan.domain) ∨
      resolvedTarget plan files a=none ∧ latestSeq idx plan.domain≤a := by
  by_cases hlt : a<latestSeq idx plan.domain
  · left
    unfold resolvedTarget
    rw [if_neg (by simp [hzero]),hchoice.highest hdl hranges hnone hlt]
    simp only [htime,if_true]
    exact if_neg (by omega)
  · have hfiles : files=[] := by
      rw [eq_nil_iff_forall_not_mem]
      intro f hf
      obtain ⟨s,hs,-⟩ := hdl.source f hf
      cases hchoice with
      | everything h => simp [hranges,hnone] at h
      | nothing h => simp at hs
      | cover _ sel hlt' => exact hlt hlt'
    subst hfiles
    exact .inr ⟨by simp [resolvedTarget,hzero,highestMariadbSeq],by omega⟩

/-- A prepared and planned recovery replays the sequences from `leadingEdge` to the target's, once
and in order; nothing is recorded between the anchor and the edge. -/
theorem recovery_replays_range (hidx : SingleDomain idx d)
    (hforks : ∀ seg∈idx.segments,seg.fork=none)
    (hprepared : prepareMariadbPositional idx anchorGTID target = .ok p)
    (henabled : p.enabled=true)
    (hdl : Downloaded idx d (p.plan (idx.segments.map replaySegment) target).segments files)
    (hseqs : ∀ f∈files,∀ b∈f.boundaries,b.seq+1<2^64)
    (hplanned : planMariadbReplay (p.plan (idx.segments.map replaySegment) target) files
      p.anchorSeq = .ok chunks)
    (ht : StandsFor idx d files p.anchorSeq target t) :
    (streamed (diskOf files) chunks).map (·.seq) =
        List.range' (leadingEdge d p.anchorSeq files) (t+1-leadingEdge d p.anchorSeq files) ∧
      ∀ x,p.anchorSeq<x → x<leadingEdge d p.anchorSeq files → ¬Archived idx d x := by
  obtain ⟨p₀,hselection,hunselected,hnil,-,hkind⟩ :=
    prepareMariadbPositional_eq_ok hprepared henabled
  obtain ⟨hdomain,-,htargetSeq,-,hchoice⟩ :=
    choice_of_prepareSelection hidx hforks hunselected hnil hselection
  rw [← hdomain,← htargetSeq] at hkind
  have hcut := applyMariadbForks_of_unforked (hchoice.unforked hforks) files p.domain p.target
  obtain ⟨-,hresolved⟩ := (planMariadbReplay_eq_ok hcut).mp hplanned
  rcases hkind with ⟨hgtid,hparsed,-⟩ | ⟨hgtid,hdomains,hzero,-⟩
  · rw [StandsFor,if_pos hgtid] at ht
    obtain ⟨hne,d',hd'⟩ := ht
    have heq : d'=p.domain ∧ t=p.targetSeq := by
      rw [hparsed] at hd'
      simpa [eq_comm] using hd'
    obtain ⟨rfl,rfl⟩ := heq
    have hresolve : resolvedTarget (p.plan (idx.segments.map replaySegment) target) files
        p.anchorSeq=some p.targetSeq := if_pos hne
    rw [hresolve] at hresolved
    obtain ⟨t',ht',hplan⟩ := hresolved.resolve_left (by simp)
    cases ht'
    -- the target's domain is the archive's: the plan found something of it
    obtain rfl : p.domain=d := by
      obtain ⟨highest,hhighest⟩ := exists_highest_of_plan hplan
      obtain ⟨f,hf,b,hb,hbd,-⟩ := (isGreatest_highest hhighest).1
      exact hbd.symm.trans ((hdl.runs f hf).domain b hb)
    exact ⟨streamed_eq_range (fun f hf => (hdl.readable f hf).trimmed) hplan,fun x hax hx => hchoice.leading hdl hax hx⟩
  · have hmem : p.domain∈archiveDomains idx := by simp [hdomains]
    obtain ⟨rfl,hranges⟩ := eq_of_mem_archiveDomains hidx hmem
    refine ⟨?_,fun x hax hx => hchoice.leading hdl hax hx⟩
    have hnil : ¬target.gtid ≠ "" := not_not.mpr hgtid
    have hbound : resolvedTarget (p.plan (idx.segments.map replaySegment) target) files
          p.anchorSeq=some t ∨
        resolvedTarget (p.plan (idx.segments.map replaySegment) target) files p.anchorSeq=none ∧
          t≤p.anchorSeq := by
      rw [StandsFor,if_neg hnil] at ht
      cases htime : target.time with
      | none =>
        simp only [htime] at ht
        subst ht
        rw [if_neg (by simp [hzero])] at hchoice
        exact resolvedTarget_latest hzero (by simp [MariadbPositional.plan,htime]) htime hchoice hdl
          hranges
      | some T =>
        simp only [htime] at ht
        have hT : (p.plan (idx.segments.map replaySegment) target).targetTime=T := by
          simp [MariadbPositional.plan,htime,hgtid]
        refine (resolvedTarget_time hzero (by rw [hT]; exact ht.1) ?_ ?_).imp_left And.left
        · rintro x ⟨f,hf,b,hb,-,rfl⟩
          exact hseqs f hf b hb
        · rw [hT]
          exact ht.2
    rcases hbound with hbound | ⟨hbound,hle⟩
    · rw [hbound] at hresolved
      obtain ⟨t',ht',hplan⟩ := hresolved.resolve_left (by simp)
      cases ht'
      exact streamed_eq_range (fun f hf => (hdl.readable f hf).trimmed) hplan
    · rw [hbound] at hresolved
      obtain ⟨-,rfl⟩ := hresolved.resolve_right (by simp)
      rw [range_eq_nil hle]
      rfl

/-- What the authors wrote from `first` on, at offsets from `offset` on. -/
def logOf (first offset : Nat) (authors : List UInt32) : List TxnBoundary :=
  authors.zipIdx.map fun s => ⟨0,s.1,first+s.2,offset+100*s.2,0⟩

/-- Server 1 archived up to 5; server 2 logged 3 to 5 again and went on to 8. -/
def relogIndex : ArchiveIndex :=
  { segments := [
      { serverUUID := "a", gtidSet := "0-1-5", startGTIDSet := "0-1-1" },
      { serverUUID := "b", gtidSet := "0-2-8", startGTIDSet := "0-1-3" }] }

def relogFiles : List PositionalFile :=
  [⟨"b_1","b",logOf 3 256 [1,1,1,2],0⟩,⟨"b_2","b",logOf 7 256 [2,2],0⟩]

/-- The recovery to 0-2-7 takes the second segment alone. -/
def relogReplay : MariadbPositional where
  enabled := true
  anchorSeq := 2
  targetSeq := 7
  target := some ⟨0,2,7⟩
  selected := true
  segments := [⟨"b",[],"0-2-8",none⟩]

theorem recovery_replays_range_failover :
    prepareMariadbPositional relogIndex "0-1-2" { gtid := "0-2-7" } = .ok relogReplay ∧
      planMariadbReplay
        (relogReplay.plan (relogIndex.segments.map replaySegment) { gtid := "0-2-7" })
        relogFiles 2 = .ok [⟨["b_1"],256,0⟩,⟨["b_2"],0,356⟩] ∧
      (streamed (diskOf relogFiles) [⟨["b_1"],256,0⟩,⟨["b_2"],0,356⟩]).map (·.seq) =
        List.range' 3 5 := by
  have hprepared : prepareMariadbPositional relogIndex "0-1-2" { gtid := "0-2-7" } =
      .ok relogReplay := rfl
  have hplanned : planMariadbReplay
      (relogReplay.plan (relogIndex.segments.map replaySegment) { gtid := "0-2-7" })
      relogFiles 2 = .ok [⟨["b_1"],256,0⟩,⟨["b_2"],0,356⟩] := rfl
  have ht : StandsFor relogIndex 0 relogFiles 2 { gtid := "0-2-7" } 7 :=
    ⟨by decide,0,rfl⟩
  exact ⟨hprepared,hplanned,(recovery_replays_range (by decide +kernel) (by decide) hprepared rfl
    (by decide +kernel) (by decide +kernel) hplanned ht).1⟩

def lateIndex : ArchiveIndex :=
  { segments := [{ serverUUID := "a", gtidSet := "0-1-12", startGTIDSet := "0-1-10" }] }

def lateFiles : List PositionalFile := [⟨"a_1","a",logOf 10 256 [1,1,1],0⟩]

def lateReplay : MariadbPositional where
  enabled := true
  anchorSeq := 3
  selected := true
  segments := [⟨"a",[],"0-1-12",none⟩]

/-- The backup holds up to 3 and the archive begins with 10: the recovery succeeds without 4 to 9.
-/
theorem lateArchive_spliced :
    ¬∀ (idx : ArchiveIndex) (d : UInt32) (anchorGTID : String) (target : RecoveryTarget)
      (p : MariadbPositional) (files : List PositionalFile) (chunks : List ReplayChunk) (t : Nat),
      SingleDomain idx d → (∀ seg∈idx.segments,seg.fork=none) →
      prepareMariadbPositional idx anchorGTID target = .ok p → p.enabled=true →
      Downloaded idx d (p.plan (idx.segments.map replaySegment) target).segments files →
      (∀ f∈files,∀ b∈f.boundaries,b.seq+1<2^64) →
      planMariadbReplay (p.plan (idx.segments.map replaySegment) target) files p.anchorSeq =
        .ok chunks →
      StandsFor idx d files p.anchorSeq target t →
      (streamed (diskOf files) chunks).map (·.seq) =
        List.range' (p.anchorSeq+1) (t-p.anchorSeq) := by
  intro h
  have ht : StandsFor lateIndex 0 lateFiles 3 {} 12 := by
    rw [StandsFor,if_neg (by simp)]
    decide +kernel
  have hprepared : prepareMariadbPositional lateIndex "0-1-3" {} = .ok lateReplay := by
    decide +kernel
  have hreplayed := h lateIndex 0 "0-1-3" {} lateReplay lateFiles [⟨["a_1"],256,0⟩] 12
    (by decide +kernel) (by decide) hprepared rfl (by decide +kernel) (by decide +kernel)
    (by decide +kernel) ht
  revert hreplayed
  decide +kernel

end Cnmsql.Binlog
