import Cnmsql.Binlog.ForkCuts
import Cnmsql.Binlog.MariaRecovery

namespace Cnmsql.Binlog

open Framework ObjectStore Engine List

section

variable {d : UInt32} {a : Nat}

def OneAuthor (d : UInt32) (a : Nat) (bs : List TxnBoundary) : Prop :=
  ∀ b∈bs,∀ b'∈bs,b.domain=d → b'.domain=d → a<b.seq → b.seq=b'.seq →
    b.server=b'.server

theorem checkAuthors_eq_ok (authors : Map Nat UInt32) (bs : List TxnBoundary) :
    checkAuthors d a authors bs = .ok () ↔
      (∀ b∈bs,b.domain=d → a<b.seq → ∀ s∈authors.lookup b.seq,s=b.server) ∧
        OneAuthor d a bs := by
  induction bs generalizing authors with
  | nil => simp [checkAuthors,OneAuthor]
  | cons b bs ih =>
    have hsplit : OneAuthor d a (b::bs) ↔ OneAuthor d a bs ∧
        ∀ c∈bs,b.domain=d → c.domain=d → a<b.seq → b.seq=c.seq → b.server=c.server := by
      simp only [OneAuthor,forall_mem_cons]
      grind
    rw [checkAuthors,hsplit,forall_mem_cons]
    by_cases hskip : b.domain≠d ∨ b.seq≤a
    · rw [if_pos hskip,ih]
      grind
    · rw [if_neg hskip]
      have hinsert : (∀ c∈bs,c.domain=d → a<c.seq →
          ∀ s∈(authors.insert b.seq b.server).lookup c.seq,s=c.server) ↔
          ∀ c∈bs,c.domain=d → a<c.seq →
            (c.seq=b.seq → b.server=c.server) ∧
            (c.seq≠b.seq → ∀ s∈authors.lookup c.seq, s=c.server) := by
        refine forall₄_congr fun c _ _ _ => ?_
        by_cases hc : c.seq=b.seq
        · rw [hc,AList.lookup_insert]
          simp
        · simp [hc,AList.lookup_insert_ne hc]
      cases hl : authors.lookup b.seq with
      | none =>
        simp only [ih,hinsert]
        grind
      | some s =>
        simp only
        by_cases hs : s=b.server
        · rw [if_neg (by simpa using hs),ih,hinsert]
          grind
        · rw [if_pos hs]
          rw [not_or,not_not,Nat.not_le] at hskip
          refine iff_of_false (by simp) fun h => hs ?_
          exact h.1.1 hskip.1 hskip.2 s (by simp)

theorem checkMariadbAuthors_eq_ok (files : List PositionalFile) :
    checkMariadbAuthors files d a = .ok () ↔ OneAuthor d a (files.flatMap (·.boundaries)) := by
  rw [checkMariadbAuthors,checkAuthors_eq_ok]
  simp

end

section

variable {d : UInt32} {disk : String → List TxnBoundary} {a t : Nat}

def replaySet (disk : String → List TxnBoundary) (chunks : List ReplayChunk) :
    Set (UInt32 × Nat) :=
  {txn | ∃ b∈streamed disk chunks,(b.server,b.seq)=txn}

variable {files : List PositionalFile}

theorem held_iff_mem (hruns : ∀ f∈files,Run d f.boundaries) (x : Nat) :
    Held d files x ↔ ∃ b∈files.flatMap (·.boundaries), b.seq=x := by
  simp only [Held,mem_flatMap]
  constructor
  · rintro ⟨f,hf,b,hb,-,rfl⟩
    exact ⟨b,⟨f,hf,hb⟩,rfl⟩
  · rintro ⟨b,⟨f,hf,hb⟩,rfl⟩
    exact ⟨f,hf,b,hb,(hruns f hf).domain b hb,rfl⟩

variable {chunks : List ReplayChunk}

/-- A plan over files of one author a sequence replays all up to the target. -/
theorem replaySet_of_plan (hfiles : ∀ f∈files,Readable disk d f)
    (hauthor : OneAuthor d a (files.flatMap (·.boundaries)))
    (h : planMariadbPositionalFiles files d a t = .ok chunks) :
    replaySet disk chunks =
      {txn | ∃ b∈files.flatMap (·.boundaries),a<b.seq ∧ b.seq≤t ∧ (b.server, b.seq)=txn} := by
  have hruns : ∀ f∈files, Run d f.boundaries := fun f hf => (hfiles f hf).kept
  have hperm : (sortFilesByDomainSeq files d).Perm files := perm_insertionSort _ _
  have hsorted : ∀ f∈sortFilesByDomainSeq files d, Run d f.boundaries := fun f hf =>
    hruns f (hperm.mem_iff.mp hf)
  have hdomain : ∀ b∈files.flatMap (·.boundaries), b.domain=d := by
    intro b hb
    obtain ⟨f,hf,hb⟩ := mem_flatMap.mp hb
    exact (hruns f hf).domain b hb
  have hmem : ∀ b∈fresh d t a (sortFilesByDomainSeq files d),
      a<b.seq ∧ b.seq≤t ∧ b∈files.flatMap (·.boundaries) := by
    intro b hb
    obtain ⟨hlt,hle,f,hf,hbf⟩ := lt_of_mem_fresh hb
    exact ⟨hlt,hle,mem_flatMap.mpr ⟨f,hperm.mem_iff.mp hf,hbf⟩⟩
  rw [replaySet,((planMariadbPositionalFiles_spec fun f hf => (hfiles f hf).trimmed).2 chunks h).2.2.2]
  ext txn
  constructor
  · rintro ⟨b,hb,rfl⟩
    obtain ⟨hlt,hle,hin⟩ := hmem b hb
    exact ⟨b,hin,hlt,hle,rfl⟩
  · rintro ⟨b,hb,hlt,hle,rfl⟩
    have hheld : b.seq∈(fresh d t a (sortFilesByDomainSeq files d)).map (·.seq) := by
      rw [mem_fresh hsorted (sorted_sortFilesByDomainSeq files),held_of_perm hperm,
        held_iff_mem hruns]
      exact ⟨hlt,hle,b,hb,rfl⟩
    obtain ⟨c,hc,hseq⟩ := mem_map.mp hheld
    have hin := (hmem c hc).2.2
    have hserver := hauthor b hb c hin (hdomain b hb) (hdomain c hin) hlt hseq.symm
    exact ⟨c,hc,by rw [hserver,hseq]⟩

theorem reach_of_plan (hfiles : ∀ f∈files,Readable disk d f)
    (h : planMariadbPositionalFiles files d a t = .ok chunks) :
    (∃ x,t≤x ∧ Held d files x) ∧ a≤t ∧ Whole d a t files := by
  obtain ⟨⟨highest,hhighest,hle⟩,hat,hwhole,-⟩ :=
    (planMariadbPositionalFiles_spec fun f hf => (hfiles f hf).trimmed).2 chunks h
  exact ⟨⟨highest,hle,(isGreatest_highest hhighest).1⟩,hat,hwhole⟩

theorem seqBeforeTime_congr {files' : List PositionalFile} {highest : Nat} {T : Time}
    (hruns : ∀ f∈files,Run d f.boundaries) (hruns' : ∀ f∈files',Run d f.boundaries)
    (hheld : ∀ x,a<x → (Held d files x ↔ Held d files' x))
    (hlate : ∀ x,(∃ b∈files.flatMap (·.boundaries),Late d a T b ∧ b.seq=x) ↔
      ∃ b∈files'.flatMap (·.boundaries),Late d a T b ∧ b.seq=x) :
    seqBeforeTime files d a highest T=seqBeforeTime files' d a highest T := by
  obtain ⟨first,hmem,hle,hleast,hbefore⟩ :=
    seqBeforeTime_spec (d := d) (a := a) (T := T) files highest
  obtain ⟨first',hmem',hle',hleast',hbefore'⟩ :=
    seqBeforeTime_spec (d := d) (a := a) (T := T) files' highest
  obtain rfl : first=first' := by
    apply le_antisymm
    · rcases hmem' with rfl | hmem'
      · exact hle
      · obtain ⟨b,hb,hbl,rfl⟩ := (hlate first').mpr hmem'
        exact hleast b hb hbl
    · rcases hmem with rfl | hmem
      · exact hle'
      · obtain ⟨b,hb,hbl,rfl⟩ := (hlate first).mp hmem
        exact hleast' b hb hbl
  have hone : ∀ {bs bs' : List PositionalFile} {m m' : Nat},
      (∀ f∈bs,Run d f.boundaries) → (∀ f∈bs',Run d f.boundaries) →
      (∀ x,a<x → Held d bs x → Held d bs' x) →
      (m=a ∨ ∃ b∈bs.flatMap (·.boundaries),b.domain=d ∧ b.seq<first ∧ b.seq=m) →
      a ≤ m' → (∀ b∈bs'.flatMap (·.boundaries),b.domain=d → b.seq<first → b.seq ≤ m') →
      m ≤ m' := by
    intro bs bs' m m' hr hr' hsub hmem hge hall
    rcases hmem with rfl | ⟨b,hb,hbd,hbf,rfl⟩
    · exact hge
    · by_cases hab : a<b.seq
      · obtain ⟨c,hc,hseq⟩ := (held_iff_mem hr' b.seq).mp
          (hsub b.seq hab ((held_iff_mem hr b.seq).mpr ⟨b,hb,rfl⟩))
        rw [← hseq]
        obtain ⟨f,hf,hcf⟩ := mem_flatMap.mp hc
        exact hall c hc ((hr' f hf).domain c hcf) (by omega)
      · omega
  exact le_antisymm
    (hone hruns hruns' (fun x hx => (hheld x hx).mp) hbefore.1 hbefore'.2.1 hbefore'.2.2)
    (hone hruns' hruns (fun x hx => (hheld x hx).mpr) hbefore'.1 hbefore.2.1 hbefore.2.2)

variable {all part : List PositionalFile} {aim : Nat}

/-- Some files holding every sequence past the anchor up to `aim`. -/
structure Suffices (disk : String → List TxnBoundary) (d : UInt32) (a aim : Nat)
    (all part : List PositionalFile) : Prop where
  readable : ∀ f∈all,Readable disk d f
  readable' : ∀ f∈part,Readable disk d f
  subset : part.flatMap (·.boundaries) ⊆ all.flatMap (·.boundaries)
  covers : ∀ b∈all.flatMap (·.boundaries),a<b.seq → b.seq≤aim →
    ∃ b'∈part.flatMap (·.boundaries),b'.seq=b.seq

variable (h : Suffices disk d a aim all part)
include h

theorem Suffices.runs : ∀ f∈all, Run d f.boundaries :=
  fun f hf => (h.readable f hf).kept

theorem Suffices.runs' : ∀ f∈part, Run d f.boundaries :=
  fun f hf => (h.readable' f hf).kept

theorem Suffices.held_iff {x : Nat} (hax : a<x) (hx : x≤aim) : Held d part x ↔ Held d all x := by
  rw [held_iff_mem h.runs,held_iff_mem h.runs']
  constructor
  · rintro ⟨b,hb,rfl⟩
    exact ⟨b,h.subset hb,rfl⟩
  · rintro ⟨b,hb,rfl⟩
    exact h.covers b hb hax hx

theorem Suffices.held_of_part {x : Nat} (hx : Held d part x) : Held d all x := by
  obtain ⟨b,hb,rfl⟩ := (held_iff_mem h.runs' x).mp hx
  exact (held_iff_mem h.runs b.seq).mpr ⟨b,h.subset hb,rfl⟩

variable (hauthor : OneAuthor d a (all.flatMap (·.boundaries)))
include hauthor

theorem Suffices.oneAuthor :
    OneAuthor d a (part.flatMap (·.boundaries)) :=
  fun b hb b' hb' => hauthor b (h.subset hb) b' (h.subset hb')

/-- Planning over files that suffice replays the same as over all. -/
theorem Suffices.plan (ht : t≤aim)
    (hreach : ∃ x,t≤x ∧ Held d part x) (hplan : planMariadbPositionalFiles all d a t = .ok chunks) :
    ∃ chunks',planMariadbPositionalFiles part d a t = .ok chunks' ∧
      replaySet disk chunks'=replaySet disk chunks := by
  obtain ⟨-,hat,hwhole⟩ := reach_of_plan h.readable hplan
  obtain ⟨chunks',hchunks'⟩ : ∃ chunks',planMariadbPositionalFiles part d a t = .ok chunks' := by
    refine (planMariadbPositionalFiles_spec fun f hf => (h.readable' f hf).trimmed).1 ⟨?_,hat,?_⟩
    · obtain ⟨x,hx,hheld⟩ := hreach
      cases hhighest : highestMariadbSeq part d with
      | none => exact absurd hheld (not_held_of_highest_none hhighest x)
      | some highest => exact ⟨highest,rfl,hx.trans ((isGreatest_highest hhighest).2 hheld)⟩
    · intro w x hw hwx hxt hheld
      rw [h.held_iff (by omega) (by omega)]
      exact hwhole w x hw hwx hxt (h.held_of_part hheld)
  refine ⟨chunks',hchunks',?_⟩
  rw [replaySet_of_plan h.readable hauthor hplan,
    replaySet_of_plan h.readable' (h.oneAuthor hauthor) hchunks']
  ext txn
  constructor
  · rintro ⟨b,hb,hlt,hle,rfl⟩
    exact ⟨b,h.subset hb,hlt,hle,rfl⟩
  · rintro ⟨b,hb,hlt,hle,rfl⟩
    obtain ⟨c,hc,hseq⟩ := h.covers b hb hlt (by omega)
    have hdomain : ∀ b∈all.flatMap (·.boundaries), b.domain=d := by
      intro b hb
      obtain ⟨f,hf,hb⟩ := mem_flatMap.mp hb
      exact (h.runs f hf).domain b hb
    have hserver := hauthor b hb c (h.subset hc) (hdomain b hb) (hdomain c (h.subset hc)) hlt
      hseq.symm
    exact ⟨c,hc,by omega,by omega,by rw [hserver,hseq]⟩

theorem Suffices.resolvedTarget_eq
    (hstamps : ∀ b∈all.flatMap (·.boundaries),∀ b'∈all.flatMap (·.boundaries),b.server=b'.server → b.seq=b'.seq → b.time=b'.time)
    (haim : ∀ x,Held d all x → x≤aim) {plan : PositionalPlan} (hdomain : plan.domain=d)
    (hzero : plan.targetSeq=0) : resolvedTarget plan part a=resolvedTarget plan all a := by
  unfold resolvedTarget
  rw [if_neg (by simp [hzero]),if_neg (by simp [hzero]),hdomain]
  have hpast : ∀ x,a<x → (Held d part x ↔ Held d all x) := fun x hx =>
    ⟨h.held_of_part,fun hheld => (h.held_iff hx (haim x hheld)).mpr hheld⟩
  cases hall : highestMariadbSeq all d with
  | none =>
    cases hpart : highestMariadbSeq part d with
    | none => rfl
    | some highest =>
      exact absurd (h.held_of_part (isGreatest_highest hpart).1) (not_held_of_highest_none hall _)
  | some highest =>
    obtain ⟨hheld,hgreatest⟩ := isGreatest_highest hall
    by_cases hle : highest≤a
    · simp only [if_pos hle]
      cases hpart : highestMariadbSeq part d with
      | none => rfl
      | some highest' =>
        have := hgreatest (h.held_of_part (isGreatest_highest hpart).1)
        simp only
        rw [if_pos (by omega)]
    · have hpart : highestMariadbSeq part d=some highest := by
        rw [highestMariadbSeq_eq_some_iff]
        exact ⟨(hpast highest (by omega)).mpr hheld,fun x hx => hgreatest (h.held_of_part hx)⟩
      have htime : seqBeforeTime part d a highest plan.targetTime =
          seqBeforeTime all d a highest plan.targetTime := by
        refine seqBeforeTime_congr h.runs' h.runs hpast fun x => ⟨?_,?_⟩
        · rintro ⟨b,hb,hlate,rfl⟩
          exact ⟨b,h.subset hb,hlate,rfl⟩
        · rintro ⟨b,hb,⟨hbd,hlt,hstamp⟩,rfl⟩
          have hbheld := (held_iff_mem h.runs b.seq).mpr ⟨b,hb,rfl⟩
          obtain ⟨c,hc,hseq⟩ := h.covers b hb hlt (haim _ hbheld)
          obtain ⟨f,hf,hcf⟩ := mem_flatMap.mp hc
          have hcd := (h.runs' f hf).domain c hcf
          have hserver := hauthor b hb c (h.subset hc) hbd hcd hlt hseq.symm
          have hsame := hstamps b hb c (h.subset hc) hserver hseq.symm
          exact ⟨c,hc,⟨hcd,by omega,hsame ▸ hstamp⟩,hseq⟩
      simp only [hpart,htime]

end

section

/-- The segments of the index, as a replay reads them. -/
abbrev replaySegments (idx : ArchiveIndex) : List ReplaySegment := idx.segments.map replaySegment

variable (logs : String → List PositionalFile)

def filesUnder (segs : List ReplaySegment) : List PositionalFile :=
  segs.flatMap fun s => logs s.serverUUID

def txnsOf (uuid : String) : List TxnBoundary :=
  (logs uuid).flatMap (·.boundaries)

/-- The logs of each segment: runs of the domain that agree with the recorded range. -/
structure Stored (idx : ArchiveIndex) (d : UInt32) (disk : String → List TxnBoundary)
    (logs : String → List PositionalFile) : Prop where
  single : SingleDomain idx d
  distinct : (idx.segments.map (·.serverUUID)).Nodup
  named : ∀ seg∈idx.segments,seg.serverUUID ≠ ""
  files : ∀ seg∈idx.segments,∀ f∈logs seg.serverUUID,f.segment=seg.serverUUID ∧
    f.endPos=0 ∧ Run d f.boundaries ∧ disk f.path=f.boundaries
  ranges : ∀ seg∈idx.segments,(txnsOf logs seg.serverUUID).map (·.seq) =
    match segmentRange d seg with
    | none => []
    | some v => List.range' v.start (v.stop+1-v.start)
  nonempty : ∀ seg∈idx.segments,∀ v∈segmentRange d seg,v.start≤v.stop
  stamps : ∀ seg∈idx.segments,∀ seg'∈idx.segments,∀ b∈txnsOf logs seg.serverUUID,
    ∀ b'∈txnsOf logs seg'.serverUUID,b.server=b'.server → b.seq=b'.seq → b.time=b'.time

variable {idx : ArchiveIndex} {d : UInt32} {disk : String → List TxnBoundary}
  {logs : String → List PositionalFile}

theorem Stored.identified (h : Stored idx d disk logs) :
    Identified (replaySegments idx) := by
  intro s hs s' hs' huuid
  obtain ⟨seg,hseg,rfl⟩ := mem_map.mp hs
  obtain ⟨seg',hseg',rfl⟩ := mem_map.mp hs'
  rw [inj_on_of_nodup_map h.distinct hseg hseg' huuid]

theorem Stored.mem_iff (h : Stored idx d disk logs) {seg : ArchiveSegment}
    (hseg : seg∈idx.segments) (x : Nat) :
    (∃ b∈txnsOf logs seg.serverUUID,b.seq=x) ↔
      ∃ v,segmentRange d seg=some v ∧ v.start≤x ∧ x≤v.stop := by
  have hmem : (∃ b∈txnsOf logs seg.serverUUID,b.seq=x) ↔
      x∈(txnsOf logs seg.serverUUID).map (·.seq) := mem_map.symm
  rw [hmem,h.ranges seg hseg]
  cases hrange : segmentRange d seg with
  | none => simp
  | some v =>
    have := h.nonempty seg hseg v hrange
    simp only [mem_range'_1,Option.some.injEq,exists_eq_left']
    omega

structure Chosen (idx : ArchiveIndex) (segs : List ReplaySegment) : Prop where
  mem : ∀ s∈segs,s∈idx.segments.map replaySegment
  distinct : (segs.map (·.serverUUID)).Nodup

theorem Stored.chosen_all (h : Stored idx d disk logs) :
    Chosen idx (replaySegments idx) where
  mem _ hs := hs
  distinct := by
    rw [map_map]
    exact h.distinct

variable {segs : List ReplaySegment}

theorem Stored.file (h : Stored idx d disk logs) (hsegs : Chosen idx segs) {f : PositionalFile}
    (hf : f∈filesUnder logs segs) :
    f.endPos=0 ∧ Run d f.boundaries ∧ disk f.path=f.boundaries := by
  obtain ⟨s,hs,hf⟩ := mem_flatMap.mp hf
  obtain ⟨seg,hseg,rfl⟩ := mem_map.mp (hsegs.mem s hs)
  exact (h.files seg hseg f hf).2

theorem Stored.ordered (h : Stored idx d disk logs) (hsegs : Chosen idx segs) :
    Ordered (filesUnder logs segs) := by
  rw [Ordered,filesUnder,pairwise_flatMap]
  constructor
  · intro s hs
    obtain ⟨seg,hseg,rfl⟩ := mem_map.mp (hsegs.mem s hs)
    have hasc : ((txnsOf logs seg.serverUUID).map (·.seq)).Pairwise (·<·) := by
      rw [h.ranges seg hseg]
      split
      · exact List.Pairwise.nil
      · exact pairwise_lt_range' _
    rw [pairwise_map,txnsOf,pairwise_flatMap] at hasc
    exact hasc.2.imp fun hfg _ b hb c hc => hfg b hb c hc
  · have hne := pairwise_map.mp hsegs.distinct
    refine hne.imp_of_mem ?_
    intro s s' hs hs' hne f hf g hg hseg
    obtain ⟨seg,hmem,rfl⟩ := mem_map.mp (hsegs.mem s hs)
    obtain ⟨seg',hmem',rfl⟩ := mem_map.mp (hsegs.mem s' hs')
    refine absurd ?_ hne
    rw [(h.files seg hmem f hf).1,(h.files seg' hmem' g hg).1] at hseg
    exact hseg

variable {target : Option MariaDBGTID}

theorem Stored.readable (h : Stored idx d disk logs) (hsegs : Chosen idx segs) :
    ∀ f∈applyMariadbForks (filesUnder logs segs) segs d target, Readable disk d f :=
  fun f hf => readable_cutFiles (fun _ hf _ => (h.file hsegs hf).2.1)
    (fun _ hf _ => (h.file hsegs hf).1) (fun _ hf _ => (h.file hsegs hf).2.2) [] f hf rfl

theorem Stored.mem_cut (h : Stored idx d disk logs) (hsegs : Chosen idx segs) (b : TxnBoundary) :
    b∈(applyMariadbForks (filesUnder logs segs) segs d target).flatMap (·.boundaries) ↔
      ∃ s∈segs,b∈txnsOf logs s.serverUUID ∧
        ∀ c,cutOf d (branchHolder segs d target).1 (branchHolder segs d target).2 s=some c →
          b.seq≤c := by
  have hident : Identified segs := fun s hs s' hs' =>
    h.identified s (hsegs.mem s hs) s' (hsegs.mem s' hs')
  have hcut := fun u => mem_cutFiles (u := u) (segmentCuts segs d target)
    (fun f hf _ => (h.file hsegs hf).2.1) ((h.ordered hsegs).filter _) [] (by simp)
  rw [mem_flatMap,applyMariadbForks]
  constructor
  · rintro ⟨f,hf,hb⟩
    obtain ⟨g,hg,hseg,hbg,hle⟩ := (hcut f.segment b).mp ⟨f,hf,rfl,hb⟩
    obtain ⟨s,hs,hgs⟩ := mem_flatMap.mp hg
    have huuid : g.segment=s.serverUUID := by
      obtain ⟨seg,hmem,rfl⟩ := mem_map.mp (hsegs.mem s hs)
      exact (h.files seg hmem g hgs).1
    refine ⟨s,hs,mem_flatMap.mpr ⟨g,hgs,hbg⟩,fun c hc => hle c ?_⟩
    rw [← hseg,huuid,lookup_segmentCuts hident hs]
    exact hc
  · rintro ⟨s,hs,hb,hle⟩
    obtain ⟨g,hgs,hbg⟩ := mem_flatMap.mp hb
    have huuid : g.segment=s.serverUUID := by
      obtain ⟨seg,hmem,rfl⟩ := mem_map.mp (hsegs.mem s hs)
      exact (h.files seg hmem g hgs).1
    obtain ⟨f,hf,-,hbf⟩ := (hcut s.serverUUID b).mpr
      ⟨g,mem_flatMap.mpr ⟨s,hs,hgs⟩,huuid,hbg,fun c hc => hle c (by
        rw [← hc,lookup_segmentCuts hident hs])⟩
    exact ⟨f,hf,hbf⟩

variable {holder : String} {branchCut : Nat}

def limitOf (d : UInt32) (holder : String) (branchCut : Nat) (seg : ArchiveSegment) : Option Nat :=
  if holder ≠ "" then (if seg.serverUUID≠holder then some branchCut else none)
  else forkCut (replaySegment seg) d

variable {seg : ArchiveSegment}

theorem capSegment_spec (holder : String) (branchCut : Nat) (hsingle : ','∉seg.gtidSet.toList)
    (hnames : namesOnly d seg.gtidSet=true) :
    (capSegment d holder branchCut seg).1.serverUUID=seg.serverUUID ∧
      (capSegment d holder branchCut seg).1.startGTIDSet=seg.startGTIDSet ∧
      mariaSeqForDomain (capSegment d holder branchCut seg).1.gtidSet d =
        (capSegment d holder branchCut seg).2 ∧
      (capSegment d holder branchCut seg).2 =
        match limitOf d holder branchCut seg with
        | none => mariaSeqForDomain seg.gtidSet d
        | some limit => min limit (mariaSeqForDomain seg.gtidSet d) := by
  obtain ⟨p,hp,-⟩ := (namesOnly_iff d seg.gtidSet).mp hnames
  have hstop := segmentAuthor_stop (d := d) hsingle hp
  unfold capSegment
  cases hauthor : segmentAuthor (replaySegment seg) d with
  | none =>
    rw [hauthor] at hstop
    simp only [Option.map_none,Option.getD_none] at hstop
    refine ⟨rfl,rfl,hstop,?_⟩
    rw [hstop]
    cases limitOf d holder branchCut seg <;> simp
  | some author =>
    obtain ⟨server,stop⟩ := author
    rw [hauthor,Option.map_some,Option.getD_some] at hstop
    have hlt : stop<2^64 := by
      simp only [segmentAuthor,replaySegment,hp,Option.map_eq_some_iff,Prod.mk.injEq] at hauthor
      obtain ⟨e,-,-,rfl⟩ := hauthor
      exact e.seq.toNat_lt
    simp only at hstop ⊢
    rw [← limitOf,hstop]
    cases limitOf d holder branchCut seg with
    | none => exact ⟨rfl,rfl,hstop,rfl⟩
    | some limit =>
      simp only
      split
      · rename_i hcap
        obtain ⟨hparse,hcomma⟩ := parseMariaPos_tripleString d ⟨server,UInt64.ofNat limit⟩
        refine ⟨rfl,rfl,?_,(Nat.min_eq_left (by omega)).symm⟩
        rw [mariaSeqForDomain_eq_reached hcomma hparse,MariaPos.reached_keep,if_pos rfl]
        simp [MariaPos.reached,UInt64.toNat_ofNat_of_lt' (show limit<2^64 by omega)]
      · exact ⟨rfl,rfl,hstop,(Nat.min_eq_right (by omega)).symm⟩

def capRange (d : UInt32) (holder : String) (branchCut : Nat) (seg : ArchiveSegment) :
    Option SegmentRange :=
  segmentRange d (capSegment d holder branchCut seg).1

def CapsAsCut (d : UInt32) (holder : String) (branchCut : Nat) (seg : ArchiveSegment) : Prop :=
  holder ≠ "" → seg.serverUUID≠holder → ∀ own∈forkCut (replaySegment seg) d,own<branchCut →
    mariaSeqForDomain seg.gtidSet d≤own

instance (seg : ArchiveSegment) : Decidable (CapsAsCut d holder branchCut seg) :=
  inferInstanceAs (Decidable (_ → _ → ∀ own∈forkCut _ _,_))

theorem cut_iff_limit (h : CapsAsCut d holder branchCut seg) {x : Nat}
    (hx : x ≤ mariaSeqForDomain seg.gtidSet d) :
    (∀ c,cutOf d holder branchCut (replaySegment seg)=some c → x≤c) ↔
      ∀ limit,limitOf d holder branchCut seg=some limit → x≤limit := by
  unfold cutOf limitOf
  by_cases hholder : holder ≠ ""
  · rw [if_pos hholder,if_pos hholder]
    by_cases huuid : seg.serverUUID=holder
    · simp [huuid,replaySegment]
    · rw [if_neg (show ¬(replaySegment seg).serverUUID=holder from huuid),if_pos huuid]
      cases hown : forkCut (replaySegment seg) d with
      | none => simp
      | some own =>
        have hcap := h hholder huuid own hown
        simp only [Option.some.injEq,forall_eq']
        split
        · rename_i hlt
          have := hcap hlt
          omega
        · rfl
  · rw [if_neg hholder,if_neg hholder]

/-- The range selection sees of a segment holds what the cut leaves of it. -/
theorem Stored.capRange_iff (h : Stored idx d disk logs) (hseg : seg∈idx.segments)
    (hcaps : CapsAsCut d holder branchCut seg) (x : Nat) :
    (∃ v,capRange d holder branchCut seg=some v ∧ v.start≤x ∧ x≤v.stop) ↔
      (∃ b∈txnsOf logs seg.serverUUID,b.seq=x) ∧
        ∀ c,cutOf d holder branchCut (replaySegment seg)=some c → x≤c := by
  obtain ⟨hsingle,hnames⟩ := h.single seg hseg
  obtain ⟨-,hstart,hread,hstop⟩ := capSegment_spec holder branchCut hsingle hnames
  rw [capRange,exists_segmentRange_iff,h.mem_iff hseg,exists_segmentRange_iff,hread,hstop,
    rangeStart,hstart,← rangeStart]
  constructor
  · rintro ⟨hx,hle⟩
    have hend : x ≤ mariaSeqForDomain seg.gtidSet d := by
      split at hle
      · exact hle
      · exact (le_min_iff.mp hle).2
    refine ⟨⟨hx,hend⟩,(cut_iff_limit hcaps hend).mpr fun limit hlimit => ?_⟩
    simp only [hlimit] at hle
    exact (le_min_iff.mp hle).1
  · rintro ⟨⟨hx,hend⟩,hcut⟩
    refine ⟨hx,?_⟩
    have hlimit := (cut_iff_limit hcaps hend).mp hcut
    split
    · exact hend
    · rename_i limit heq
      exact le_min (hlimit limit heq) hend

end

variable {idx : ArchiveIndex} {d : UInt32} {disk : String → List TxnBoundary}
  {logs : String → List PositionalFile} {holder : String} {branchCut : Nat}

def capRanges (idx : ArchiveIndex) (d : UInt32) (holder : String) (branchCut : Nat) :
    List SegmentRange :=
  idx.segments.filterMap (capRange d holder branchCut)

theorem mem_capRanges {v : SegmentRange} :
    v∈capRanges idx d holder branchCut ↔
      ∃ seg∈idx.segments,capRange d holder branchCut seg=some v := by
  simp [capRanges]

theorem Stored.capRange_uuid (h : Stored idx d disk logs) {seg : ArchiveSegment}
    (hseg : seg∈idx.segments) {v : SegmentRange} (hv : capRange d holder branchCut seg=some v) :
    v.seg.serverUUID=seg.serverUUID := by
  obtain ⟨hsingle,hnames⟩ := h.single seg hseg
  rw [(segmentRange_eq_some hv).1]
  exact (capSegment_spec holder branchCut hsingle hnames).1

theorem Stored.distinct_capRanges (h : Stored idx d disk logs) :
    ((capRanges idx d holder branchCut).map (·.seg.serverUUID)).Nodup := by
  have hsub : ((capRanges idx d holder branchCut).map (·.seg.serverUUID)).Sublist
      (idx.segments.map (·.serverUUID)) := by
    have hall : ∀ segs : List ArchiveSegment,segs ⊆ idx.segments →
        ((segs.filterMap (capRange d holder branchCut)).map (·.seg.serverUUID)).Sublist
          (segs.map (·.serverUUID)) := by
      intro segs
      induction segs with
      | nil => simp
      | cons seg segs ih =>
        intro hsegs
        rw [cons_subset] at hsegs
        have ih := ih hsegs.2
        cases hv : capRange d holder branchCut seg with
        | none => simpa [hv] using ih.cons _
        | some v =>
          rw [filterMap_cons_some hv,map_cons,map_cons,
            h.capRange_uuid hsegs.1 hv]
          exact ih.cons_cons _
    exact hall idx.segments (List.Subset.refl _)
  exact h.distinct.sublist hsub

theorem Stored.segmentByUUID_eq (h : Stored idx d disk logs) {seg : ArchiveSegment}
    (hseg : seg∈idx.segments) :
    segmentByUUID (replaySegments idx) seg.serverUUID=replaySegment seg := by
  have hmem := mem_map_of_mem (f := replaySegment) hseg
  obtain ⟨huuid,hin⟩ := segmentByUUID_serverUUID ⟨replaySegment seg,hmem,rfl⟩
  exact h.identified _ hin _ hmem huuid

def handedBack (idx : ArchiveIndex) (sel : List SegmentRange) : List ReplaySegment :=
  sel.map fun v => segmentByUUID (idx.segments.map replaySegment) v.seg.serverUUID

variable {sel : List SegmentRange}

section

variable (h : Stored idx d disk logs) (hsel : sel ⊆ capRanges idx d holder branchCut)
include h hsel

theorem Stored.mem_handedBack (s : ReplaySegment) :
    s∈handedBack idx sel ↔ ∃ seg∈idx.segments,s=replaySegment seg ∧
      ∃ v∈sel,capRange d holder branchCut seg=some v := by
  rw [handedBack,mem_map]
  constructor
  · rintro ⟨v,hv,rfl⟩
    obtain ⟨seg,hseg,hrange⟩ := mem_capRanges.mp (hsel hv)
    refine ⟨seg,hseg,?_,v,hv,hrange⟩
    rw [h.capRange_uuid hseg hrange,h.segmentByUUID_eq hseg]
  · rintro ⟨seg,hseg,rfl,v,hv,hrange⟩
    exact ⟨v,hv,by rw [h.capRange_uuid hseg hrange,h.segmentByUUID_eq hseg]⟩

theorem Stored.chosen_handedBack
    (hdistinct : (sel.map (·.seg.serverUUID)).Nodup) : Chosen idx (handedBack idx sel) where
  mem s hs := by
    obtain ⟨seg,hseg,rfl,-⟩ := (h.mem_handedBack hsel s).mp hs
    exact mem_map_of_mem hseg
  distinct := by
    have huuids : (handedBack idx sel).map (·.serverUUID)=sel.map (·.seg.serverUUID) := by
      rw [handedBack,map_map]
      refine map_congr_left fun v hv => ?_
      obtain ⟨seg,hseg,hrange⟩ := mem_capRanges.mp (hsel hv)
      have huuid := h.capRange_uuid hseg hrange
      simp only [Function.comp_apply,huuid,h.segmentByUUID_eq hseg]
      rfl
    rw [huuids]
    exact hdistinct

end

variable {target : Option MariaDBGTID}
  (h : Stored idx d disk logs) (hcaps : ∀ seg∈idx.segments,CapsAsCut d holder branchCut seg)
include h hcaps

theorem Stored.covered_iff
    (hsel : sel ⊆ capRanges idx d holder branchCut)
    (hdistinct : (sel.map (·.seg.serverUUID)).Nodup)
    (hholder : branchHolder (handedBack idx sel) d target=(holder,branchCut)) (x : Nat) :
    Covered sel x ↔ ∃ b∈(applyMariadbForks (filesUnder logs (handedBack idx sel)) (handedBack idx sel)
      d target).flatMap (·.boundaries), b.seq=x := by
  simp only [h.mem_cut (h.chosen_handedBack hsel hdistinct),hholder]
  constructor
  · rintro ⟨v,hv,hvx⟩
    obtain ⟨seg,hseg,hrange⟩ := mem_capRanges.mp (hsel hv)
    obtain ⟨⟨b,hb,rfl⟩,hcut⟩ := (h.capRange_iff hseg (hcaps seg hseg) x).mp ⟨v,hrange,hvx⟩
    exact ⟨b,⟨replaySegment seg,(h.mem_handedBack hsel _).mpr ⟨seg,hseg,rfl,v,hv,hrange⟩,hb,
      hcut⟩,rfl⟩
  · rintro ⟨b,⟨s,hs,hb,hcut⟩,rfl⟩
    obtain ⟨seg,hseg,rfl,v,hv,hrange⟩ := (h.mem_handedBack hsel s).mp hs
    obtain ⟨w,hw,hwx⟩ := (h.capRange_iff hseg (hcaps seg hseg) b.seq).mpr ⟨⟨b,hb,rfl⟩,hcut⟩
    rw [hrange] at hw
    cases hw
    exact ⟨v,hv,hwx⟩

theorem Stored.covered_all_iff
    (hholder : branchHolder (replaySegments idx) d target=(holder,branchCut))
    (x : Nat) :
    Covered (capRanges idx d holder branchCut) x ↔
      ∃ b∈(applyMariadbForks (filesUnder logs (replaySegments idx))
        (replaySegments idx) d target).flatMap (·.boundaries), b.seq=x := by
  simp only [h.mem_cut h.chosen_all,hholder]
  constructor
  · rintro ⟨v,hv,hvx⟩
    obtain ⟨seg,hseg,hrange⟩ := mem_capRanges.mp hv
    obtain ⟨⟨b,hb,rfl⟩,hcut⟩ := (h.capRange_iff hseg (hcaps seg hseg) x).mp ⟨v,hrange,hvx⟩
    exact ⟨b,⟨replaySegment seg,mem_map_of_mem hseg,hb,hcut⟩,rfl⟩
  · rintro ⟨b,⟨s,hs,hb,hcut⟩,rfl⟩
    obtain ⟨seg,hseg,rfl⟩ := mem_map.mp hs
    obtain ⟨v,hv,hvx⟩ := (h.capRange_iff hseg (hcaps seg hseg) b.seq).mpr ⟨⟨b,hb,rfl⟩,hcut⟩
    exact ⟨v,mem_capRanges.mpr ⟨seg,hseg,hv⟩,hvx⟩

end Cnmsql.Binlog
