import Cnmsql.Binlog.ForkSelection

namespace Cnmsql.Binlog

open Framework ObjectStore Engine List

section

variable {idx : ArchiveIndex} {p : MariadbPositional} {holder : String} {branchCut : Nat}
  {disk : String → List TxnBoundary} {logs : String → List PositionalFile}

def capHighest (idx : ArchiveIndex) (d : UInt32) (holder : String) (branchCut : Nat) : Nat :=
  idx.segments.foldl (fun m seg => max m (capSegment d holder branchCut seg).2) 0

theorem capSegments_eq (h : branchHolder (replaySegments idx) p.domain p.target=(holder,branchCut)) :
    segmentRanges (capSegments idx.segments p).1 p.domain =
        capRanges idx p.domain holder branchCut ∧
      (capSegments idx.segments p).2 =
        if p.targetSeq≠0 then p.targetSeq else capHighest idx p.domain holder branchCut := by
  unfold capSegments
  rw [h]
  constructor
  · simp only [segmentRanges,capRanges,map_map,filterMap_map]
    rfl
  · simp only [foldl_map]
    rfl

/-- The range selection sees of a segment ends where it is capped. -/
theorem Stored.capRange_stop (h : Stored idx p.domain disk logs) (holder : String) (branchCut : Nat)
    {seg : ArchiveSegment}
    (hseg : seg∈idx.segments) :
    (∀ v∈capRange p.domain holder branchCut seg,v.stop=(capSegment p.domain holder branchCut seg).2) ∧
      ((capSegment p.domain holder branchCut seg).2≠0 →
        ∃ v,capRange p.domain holder branchCut seg=some v) := by
  obtain ⟨hsingle,hnames⟩ := h.single seg hseg
  have hread := (capSegment_spec holder branchCut hsingle hnames).2.2.1
  constructor
  · intro v hv
    rw [(segmentRange_eq_some hv).2.1,hread]
  · intro hpos
    unfold capRange segmentRange
    simp only
    rw [if_neg (by rw [hread]; exact hpos)]
    exact ⟨_,rfl⟩

end

section

variable {idx : ArchiveIndex} {d : UInt32} {target : Option MariaDBGTID}
  {disk : String → List TxnBoundary} {logs : String → List PositionalFile}
  {holder : String} {branchCut : Nat}

/-- Fork records that selection and planning read alike: no other cut undercuts the target's branch,
one record at most holds the target, and a cut before a segment's first transaction is at a sequence
kept elsewhere. -/
structure ReadAlike (idx : ArchiveIndex) (d : UInt32) (target : Option MariaDBGTID)
    (holder : String) (branchCut : Nat) : Prop where
  branch : branchHolder (idx.segments.map replaySegment) d target=(holder,branchCut)
  caps : ∀ seg∈idx.segments,CapsAsCut d holder branchCut seg
  one : ∀ g∈target,∀ seg∈idx.segments,∀ seg'∈idx.segments,
    (holdsTarget d g (replaySegment seg)).isSome → (holdsTarget d g (replaySegment seg')).isSome →
      seg=seg'
  ends : ∀ v∈capRanges idx d holder branchCut,
    v.start≤v.stop ∨ Covered (capRanges idx d holder branchCut) v.stop

variable {g : MariaDBGTID}

theorem branchHolder_eq_none {segs : List ReplaySegment} (h : ∀ s∈segs,holdsTarget d g s=none) :
    branchHolder segs d (some g)=("", 0) := by
  have hnone : segs.findSome? (fun s => (holdsTarget d g s).map (s.serverUUID, ·))=none := by
    rw [List.findSome?_eq_none_iff]
    intro s hs
    simp [h s hs]
  simp [branchHolder,hnone]

theorem branchHolder_eq_of_holds {segs : List ReplaySegment} {s : ReplaySegment} {cut : Nat}
    (hs : s∈segs) (hcut : holdsTarget d g s=some cut)
    (hone : ∀ s'∈segs,(holdsTarget d g s').isSome → s'=s) :
    branchHolder segs d (some g)=(s.serverUUID, cut) := by
  have hsome : segs.findSome? (fun s => (holdsTarget d g s).map (s.serverUUID,·)) =
      some (s.serverUUID, cut) := by
    cases hfind : segs.findSome? (fun s => (holdsTarget d g s).map (s.serverUUID,·)) with
    | none =>
      rw [List.findSome?_eq_none_iff] at hfind
      have := hfind s hs
      simp [hcut] at this
    | some found =>
      obtain ⟨s',hs',hfound⟩ := exists_of_findSome?_eq_some hfind
      rw [Option.map_eq_some_iff] at hfound
      obtain ⟨cut',hcut',rfl⟩ := hfound
      obtain rfl := hone s' hs' (by simp [hcut'])
      rw [hcut] at hcut'
      cases hcut'
      rfl
  simp [branchHolder,hsome]

theorem lt_of_holdsTarget {s : ReplaySegment} {cut : Nat} (h : holdsTarget d g s=some cut) :
    cut<g.seq := by
  unfold holdsTarget at h
  split at h
  · split at h
    · rename_i hin
      cases h
      exact hin.2.1
    · cases h
  · cases h

/-- The segments taken keep the target's branch: no other goes past its cut. -/
theorem Stored.branchHolder_handedBack (h : Stored idx d disk logs)
    (hforks : ReadAlike idx d target holder branchCut) {sel : List SegmentRange}
    (hsel : sel ⊆ capRanges idx d holder branchCut) {aim : Nat}
    (haim : ∀ g∈target,g.seq≠0 → g.seq≤aim) (hreach : ∃ v∈sel,aim≤v.stop) :
    branchHolder (handedBack idx sel) d target=(holder, branchCut) := by
  cases target with
  | none => exact hforks.branch
  | some g =>
    by_cases hnone : ∀ seg∈idx.segments,holdsTarget d g (replaySegment seg)=none
    · have hall : ∀ s∈replaySegments idx, holdsTarget d g s=none := by
        intro s hs
        obtain ⟨seg,hseg,rfl⟩ := mem_map.mp hs
        exact hnone seg hseg
      rw [← hforks.branch,branchHolder_eq_none hall]
      refine branchHolder_eq_none fun s hs => ?_
      obtain ⟨seg,hseg,rfl,-⟩ := (h.mem_handedBack hsel s).mp hs
      exact hnone seg hseg
    · push Not at hnone
      obtain ⟨seg,hseg,hne⟩ := hnone
      obtain ⟨cut,hcut⟩ := Option.ne_none_iff_exists'.mp hne
      have hone : ∀ seg'∈idx.segments,(holdsTarget d g (replaySegment seg')).isSome →
          seg'=seg := fun seg' hseg' hsome =>
        hforks.one g rfl seg' hseg' seg hseg hsome (by simp [hcut])
      have hall : branchHolder (replaySegments idx) d (some g) =
          (seg.serverUUID, cut) := by
        refine branchHolder_eq_of_holds (mem_map_of_mem hseg) hcut fun s hs hsome => ?_
        obtain ⟨seg',hseg',rfl⟩ := mem_map.mp hs
        rw [hone seg' hseg' hsome]
      rw [hforks.branch] at hall
      obtain ⟨rfl,rfl⟩ := Prod.mk.inj hall
      have hlt := lt_of_holdsTarget hcut
      have hreached := haim g rfl (by omega)
      -- the range that reaches the target is the holder's: every other one ends at the cut
      obtain ⟨v,hv,hstop⟩ := hreach
      obtain ⟨seg',hseg',hrange⟩ := mem_capRanges.mp (hsel hv)
      obtain rfl : seg'=seg := by
        by_contra hother
        have huuid : seg'.serverUUID≠seg.serverUUID := fun heq =>
          hother (inj_on_of_nodup_map h.distinct hseg' hseg heq)
        obtain ⟨hsingle,hnames⟩ := h.single seg' hseg'
        obtain ⟨-,-,hread,hend⟩ := capSegment_spec seg.serverUUID branchCut hsingle hnames
        have hlimit : limitOf d seg.serverUUID branchCut seg'=some branchCut := by
          simp [limitOf,h.named seg hseg,huuid]
        rw [(segmentRange_eq_some hrange).2.1,hread,hend,hlimit] at hstop
        have := (le_min_iff.mp hstop).1
        omega
      refine branchHolder_eq_of_holds ((h.mem_handedBack hsel _).mpr
        ⟨seg',hseg,rfl,v,hv,hrange⟩) hcut fun s hs hsome => ?_
      obtain ⟨seg'',hseg'',rfl,-⟩ := (h.mem_handedBack hsel s).mp hs
      rw [hone seg'' hseg'' hsome]

variable {a aim : Nat}

def cutLogs (logs : String → List PositionalFile) (d : UInt32) (target : Option MariaDBGTID)
    (segs : List ReplaySegment) : List PositionalFile :=
  applyMariadbForks (filesUnder logs segs) segs d target

theorem Stored.held_cutLogs (h : Stored idx d disk logs) {segs : List ReplaySegment}
    (hsegs : Chosen idx segs) (x : Nat) :
    Held d (cutLogs logs d target segs) x ↔
      ∃ b∈(cutLogs logs d target segs).flatMap (·.boundaries), b.seq=x :=
  held_iff_mem (fun f hf => (h.readable hsegs f hf).kept) x

variable (h : Stored idx d disk logs) (hforks : ReadAlike idx d target holder branchCut)
include h hforks

/-- What the selected segments keep is enough for the way. -/
theorem Stored.suffices {rounds : Nat} {sel : List SegmentRange} (hlt : a<aim)
    (haim : ∀ g∈target,g.seq≠0 → g.seq≤aim)
    (hloop : selectLoop aim rounds a (capRanges idx d holder branchCut) [] = .ok sel) :
    Suffices disk d a aim (cutLogs logs d target (replaySegments idx))
        (cutLogs logs d target (handedBack idx sel)) ∧
      ∃ x,aim≤x ∧ Held d (cutLogs logs d target (handedBack idx sel)) x := by
  obtain ⟨picked,hpicked,hsub,hreach,-,hcovered⟩ := selectLoop_covered hloop
  rw [nil_append] at hpicked
  subst hpicked
  obtain ⟨hdistinct,hnonempty⟩ : (sel.map (·.seg.serverUUID)).Nodup ∧
      ∀ v∈sel, v.start≤v.stop := by
    obtain ⟨picked,hpicked,-,htaken⟩ :=
      selectLoop_picked hloop h.distinct_capRanges fun _ => hforks.ends
    rw [nil_append] at hpicked
    rw [hpicked]
    exact htaken
  have hbranch := h.branchHolder_handedBack hforks hsub haim (hreach hlt)
  have hchosen := h.chosen_handedBack hsub hdistinct
  have hpart := h.covered_iff hforks.caps hsub hdistinct hbranch
  have hall := h.covered_all_iff hforks.caps hforks.branch
  refine ⟨⟨h.readable h.chosen_all,h.readable hchosen,?_,?_⟩,?_⟩
  · intro b hb
    rw [cutLogs,h.mem_cut hchosen,hbranch] at hb
    rw [cutLogs,h.mem_cut h.chosen_all,hforks.branch]
    obtain ⟨s,hs,hb⟩ := hb
    exact ⟨s,hchosen.mem s hs,hb⟩
  · intro b hb hab hle
    have hin := hcovered rfl b.seq b.seq hab le_rfl hle ((hall b.seq).mpr ⟨b,hb,rfl⟩)
    exact (hpart b.seq).mp hin
  · obtain ⟨v,hv,hstop⟩ := hreach hlt
    exact ⟨v.stop,hstop,(h.held_cutLogs hchosen v.stop).mpr
      ((hpart v.stop).mp ⟨v,hv,hnonempty v hv,le_rfl⟩)⟩

theorem Stored.covered_held (x : Nat) :
    Covered (capRanges idx d holder branchCut) x ↔ Held d (cutLogs logs d target (replaySegments idx)) x :=
  (h.covered_all_iff hforks.caps hforks.branch x).trans (h.held_cutLogs h.chosen_all x).symm

/-- Selection succeeds towards whatever planning over all the files could reach. -/
theorem Stored.selection_ok (hwhole : Whole d a aim (cutLogs logs d target (replaySegments idx)))
    (hreach : ∃ x,aim≤x ∧ Held d (cutLogs logs d target (replaySegments idx)) x)
    {segments : List ArchiveSegment}
    (hranges : segmentRanges segments d=capRanges idx d holder branchCut) :
    ∃ selected,selectMariadbSegments segments d a aim = .ok selected := by
  have hall := h.covered_held hforks
  have hstops : ∃ v∈capRanges idx d holder branchCut, aim≤v.stop := by
    obtain ⟨x,hx,hheld⟩ := hreach
    obtain ⟨v,hv,-,hle⟩ := (hall x).mpr hheld
    exact ⟨v,hv,hx.trans hle⟩
  by_cases hlt : a<aim
  · obtain ⟨sel,hsel⟩ := exists_selection (t := aim) (a := a) hforks.ends hstops
      fun w x hw hwx hxt hcov => (hall x).mpr (hwhole w x hw hwx hxt ((hall w).mp hcov))
    rw [selectMariadbSegments_reached hlt (hranges ▸ hstops),hranges,hsel]
    exact ⟨_,rfl⟩
  · exact ⟨[],if_pos (by omega)⟩

end

section

variable {idx : ArchiveIndex} {anchorGTID : String} {target : RecoveryTarget}
  {p₀ : MariadbPositional}

def requested (idx : ArchiveIndex) (anchorGTID : String) (target : RecoveryTarget) :
    Option MariadbPositional :=
  if target.gtid ≠ "" then
    match singleDomainMariaGTID target.gtid,parseMariaDBGTID target.gtid with
    | .ok (some (domain,seq)), .ok g => some {
        enabled := true
        domain := domain
        anchorSeq := mariaSeqForDomain anchorGTID domain
        targetSeq := seq
        target := some g }
    | _,_ => none
  else
    match archiveDomains idx with
    | [domain] => some {
        enabled := true
        domain := domain
        anchorSeq := mariaSeqForDomain anchorGTID domain }
    | _ => none

theorem requested_spec (h : requested idx anchorGTID target=some p₀) :
    p₀.selected=false ∧ p₀.segments=[] ∧ (∀ g∈p₀.target,g.seq=p₀.targetSeq) ∧
      (target.gtid = "" → p₀.targetSeq=0 ∧ p₀.target=none) ∧
      ((target.gtid = "" → checkMariadbAnchor (replaySegments idx) idx.disowned anchorGTID
          p₀.domain = .ok ()) →
        prepareMariadbPositional idx anchorGTID target=prepareSelection idx target p₀) := by
  unfold requested at h
  unfold prepareMariadbPositional
  by_cases hgtid : target.gtid ≠ ""
  · rw [if_pos hgtid] at h ⊢
    cases hsingle : singleDomainMariaGTID target.gtid with
    | error e => simp [hsingle] at h
    | ok parsed =>
      cases hparse : parseMariaDBGTID target.gtid with
      | error e => simp [hsingle,hparse] at h
      | ok g =>
        cases parsed with
        | none => simp [hsingle] at h
        | some parsed =>
          obtain ⟨domain,seq⟩ := parsed
          simp only [hsingle,hparse,Option.some.injEq] at h
          subst h
          have hagree := gtid_readings_agree hsingle hparse
          exact ⟨rfl,rfl,by rintro _ ⟨rfl⟩; exact hagree.2,fun h => absurd h hgtid,fun _ => rfl⟩
  · rw [if_neg hgtid] at h ⊢
    rw [not_not] at hgtid
    split at h
    · rename_i domain hdomains
      cases h
      refine ⟨rfl,rfl,by simp,fun _ => ⟨rfl,rfl⟩,fun hanchor => ?_⟩
      rw [hdomains]
      simp only [hanchor hgtid]
      rfl
    · cases h

end

variable {idx : ArchiveIndex} {d : UInt32} {disk : String → List TxnBoundary}
  {logs : String → List PositionalFile} {anchorGTID : String} {target : RecoveryTarget}
  {p p₀ : MariadbPositional} {holder : String} {branchCut : Nat} {chunks : List ReplayChunk}

/-- Planned over its segments' files alone, the prepared replay replays what `chunks` do; without a
segment, nothing. -/
def ReplaysAs (disk : String → List TxnBoundary) (logs : String → List PositionalFile)
    (idx : ArchiveIndex) (target : RecoveryTarget) (p : MariadbPositional)
    (chunks : List ReplayChunk) : Prop :=
  p.selected=true ∧ p.segments=[] ∧ replaySet disk chunks=∅ ∨
    ∃ chunks',planMariadbReplay (p.plan (idx.segments.map replaySegment) target)
        (filesUnder logs (p.plan (idx.segments.map replaySegment) target).segments) p.anchorSeq =
        .ok chunks' ∧
      replaySet disk chunks'=replaySet disk chunks

theorem replaySet_nil : replaySet disk []=∅ := by
  simp [replaySet,streamed]

variable {files : List PositionalFile}

theorem replaySet_eq_empty {a t : Nat} (h : t≤a) (hfiles : ∀ f∈files,Readable disk d f)
    (hauthor : OneAuthor d a (files.flatMap (·.boundaries)))
    (hplan : planMariadbPositionalFiles files d a t = .ok chunks) : replaySet disk chunks=∅ := by
  rw [replaySet_of_plan hfiles hauthor hplan,Set.eq_empty_iff_forall_notMem]
  rintro txn ⟨b,-,hlt,hle,-⟩
  omega

theorem Stored.stamps_cut (h : Stored idx d disk logs) {target : Option MariaDBGTID} :
    ∀ b∈(cutLogs logs d target (replaySegments idx)).flatMap (·.boundaries),
      ∀ b'∈(cutLogs logs d target (replaySegments idx)).flatMap (·.boundaries),
        b.server=b'.server → b.seq=b'.seq → b.time=b'.time := by
  intro b hb b' hb'
  rw [cutLogs,h.mem_cut h.chosen_all] at hb hb'
  obtain ⟨s,hs,hb,-⟩ := hb
  obtain ⟨s',hs',hb',-⟩ := hb'
  obtain ⟨seg,hseg,rfl⟩ := mem_map.mp hs
  obtain ⟨seg',hseg',rfl⟩ := mem_map.mp hs'
  exact h.stamps seg hseg seg' hseg' b hb b' hb'

/-- Nothing left is past where the segments are capped highest, and there something is left. -/
theorem Stored.held_cap (h : Stored idx p₀.domain disk logs)
    (hforks : ReadAlike idx p₀.domain p₀.target holder branchCut) :
    (∀ x,Held p₀.domain (cutLogs logs p₀.domain p₀.target (replaySegments idx)) x →
      x≤capHighest idx p₀.domain holder branchCut) ∧
    (0<capHighest idx p₀.domain holder branchCut →
      Held p₀.domain (cutLogs logs p₀.domain p₀.target (replaySegments idx))
        (capHighest idx p₀.domain holder branchCut)) := by
  have hup : ∀ x,Held p₀.domain (cutLogs logs p₀.domain p₀.target (replaySegments idx)) x →
      x≤capHighest idx p₀.domain holder branchCut := by
    intro x hx
    obtain ⟨v,hv,-,hle⟩ := (h.covered_held hforks x).mpr hx
    obtain ⟨seg,hseg,hrange⟩ := mem_capRanges.mp hv
    rw [(h.capRange_stop holder branchCut hseg).1 v hrange] at hle
    exact hle.trans (le_foldl_max (fun seg => (capSegment p₀.domain holder branchCut seg).2) hseg)
  refine ⟨hup,fun hpos => ?_⟩
  obtain ⟨seg,hseg,hcap⟩ := (lt_foldl_max_iff (fun seg => (capSegment p₀.domain holder branchCut seg).2)
    idx.segments (capHighest idx p₀.domain holder branchCut-1)).mp (Nat.sub_one_lt_of_lt hpos)
  obtain ⟨hstop,hrange⟩ := h.capRange_stop holder branchCut hseg
  obtain ⟨v,hrange⟩ := hrange (by omega)
  have hmem := mem_capRanges.mpr ⟨seg,hseg,hrange⟩
  have hheld := (h.covered_held hforks v.stop).mp
    ((hforks.ends v hmem).elim (fun hle => ⟨v,hmem,hle,le_rfl⟩) id)
  have hle := hup _ hheld
  rw [hstop v hrange] at hle hheld
  obtain heq : (capSegment p₀.domain holder branchCut seg).2=capHighest idx p₀.domain holder branchCut := by
    omega
  rwa [heq] at hheld

theorem selectMariadbSegments_error {segments : List ArchiveSegment} {a t : Nat}
    {e : MariaReplayError} (hlt : a<t) (hreach : ∃ v∈segmentRanges segments d,t≤v.stop)
    (h : selectMariadbSegments segments d a t = .error e) : e = .forkedTimeline := by
  rw [selectMariadbSegments_reached hlt hreach] at h
  cases hloop : selectLoop t (segmentRanges segments d).length a (segmentRanges segments d) [] with
  | error e' =>
    rw [hloop] at h
    cases h
    exact selectLoop_error hloop
  | ok sel =>
    rw [hloop] at h
    cases h

variable {a aim t : Nat} {all part : List PositionalFile} {plan : PositionalPlan}

theorem resolvedTarget_of_seq (h : plan.targetSeq≠0) (files : List PositionalFile) (a : Nat) :
    resolvedTarget plan files a=some plan.targetSeq := if_pos h

theorem resolvedTarget_of_highest (hzero : plan.targetSeq=0) (htime : plan.targetTime=0)
    (haim : IsGreatest {x | Held plan.domain all x} aim) (hlt : a<aim) :
    resolvedTarget plan all a=some aim := by
  unfold resolvedTarget
  rw [if_neg (by simp [hzero]),highestMariadbSeq_eq_some_iff.mpr haim]
  simp only [htime,if_true]
  exact if_neg (by omega)

theorem Suffices.replay (plan plan' : PositionalPlan) (h : Suffices disk plan.domain a aim all part)
    (hauthor : OneAuthor plan.domain a (all.flatMap (·.boundaries)))
    (hreach : ∃ x,aim≤x ∧ Held plan.domain part x)
    (hsame : resolvedTarget plan' part a=resolvedTarget plan all a)
    (hbound : ∀ t,resolvedTarget plan all a=some t → (∃ x,t≤x ∧ Held plan.domain all x) → t≤aim)
    (hdomain : plan'.domain=plan.domain)
    (hcut : applyMariadbForks files plan'.segments plan'.domain plan'.target=part)
    (hresolved : resolvedTarget plan all a=none ∧ chunks=[] ∨ ∃ t,resolvedTarget plan all a=some t ∧ planMariadbPositionalFiles all plan.domain a t = .ok chunks) :
    ∃ chunks',planMariadbReplay plan' files a = .ok chunks' ∧
      replaySet disk chunks'=replaySet disk chunks := by
  have hauthors := (checkMariadbAuthors_eq_ok part).mpr (h.oneAuthor hauthor)
  simp only [planMariadbReplay_eq_ok hcut,hdomain,hauthors,true_and,hsame]
  rcases hresolved with ⟨hnone,rfl⟩ | ⟨t,ht,hplan⟩
  · exact ⟨[],.inl ⟨hnone,rfl⟩,rfl⟩
  · have hta := hbound t ht (reach_of_plan h.readable hplan).1
    obtain ⟨x,hx,hheld⟩ := hreach
    obtain ⟨chunks',hchunks',hset⟩ := h.plan hauthor hta ⟨x,hta.trans hx,hheld⟩ hplan
    exact ⟨chunks',.inr ⟨t,ht,hchunks'⟩,hset⟩

theorem Stored.prepareSelection_replaysAs (h : Stored idx p₀.domain disk logs)
    (hunselected : p₀.selected=false) (hnil : p₀.segments=[])
    (hseq : ∀ g∈p₀.target,g.seq=p₀.targetSeq)
    (hforks : ReadAlike idx p₀.domain p₀.target holder branchCut)
    (hplanned : planMariadbReplay (p₀.plan (replaySegments idx) target)
      (filesUnder logs (replaySegments idx)) p₀.anchorSeq = .ok chunks) :
    ∃ p,prepareSelection idx target p₀ = .ok p ∧ ReplaysAs disk logs idx target p chunks := by
  set plan := p₀.plan (replaySegments idx) target
  set capped := capSegments idx.segments p₀
  have hsegments : plan.segments=replaySegments idx := by
    simp [plan,MariadbPositional.plan,hunselected]
  have hsame : ReplaysAs disk logs idx target p₀ chunks :=
    .inr ⟨chunks,by rw [hsegments]; exact hplanned,rfl⟩
  have hcut : applyMariadbForks (filesUnder logs (replaySegments idx)) plan.segments plan.domain
      plan.target=cutLogs logs p₀.domain p₀.target (replaySegments idx) := by
    rw [hsegments]
    rfl
  obtain ⟨hauthors,hresolved⟩ := (planMariadbReplay_eq_ok hcut).mp hplanned
  have hauthor := (checkMariadbAuthors_eq_ok _).mp hauthors
  have hreadable : ∀ f∈cutLogs logs p₀.domain p₀.target (replaySegments idx),
      Readable disk p₀.domain f := h.readable h.chosen_all
  obtain ⟨hranges,haim⟩ := capSegments_eq hforks.branch
  unfold prepareSelection
  by_cases hhave : segmentsHaveRanges idx.segments=false
  · rw [if_pos hhave]
    exact ⟨p₀,rfl,hsame⟩
  rw [if_neg hhave]
  simp only
  generalize hall : cutLogs logs p₀.domain p₀.target (replaySegments idx)=all
    at hcut hauthor hresolved
  have hreadable : ∀ f∈all, Readable disk p₀.domain f := hall ▸ hreadable
  -- an open target is bounded by what the segments are capped to, a GTID is what is aimed at
  have hopen : p₀.targetSeq=0 → ∀ x,Held p₀.domain all x → x≤capped.2 := by
    intro hzero x hx
    rw [haim,if_neg (by simp [hzero])]
    exact (h.held_cap hforks).1 x (hall ▸ hx)
  have hbound : ∀ t,resolvedTarget plan all p₀.anchorSeq=some t →
      (∃ x,t≤x ∧ Held p₀.domain all x) → t≤capped.2 := by
    intro t ht hheld
    by_cases hzero : p₀.targetSeq=0
    · obtain ⟨x,hx,hheld⟩ := hheld
      exact hx.trans (hopen hzero x hheld)
    · rw [resolvedTarget_of_seq hzero] at ht
      cases ht
      rw [haim,if_pos hzero]
      exact le_rfl
  by_cases hle : capped.2≤p₀.anchorSeq
  · rw [if_pos hle]
    refine ⟨_,rfl,.inl ⟨rfl,hnil,?_⟩⟩
    rcases hresolved with ⟨-,rfl⟩ | ⟨t,ht,hplan⟩
    · exact replaySet_nil
    · have hta := hbound t ht (reach_of_plan hreadable hplan).1
      exact replaySet_eq_empty (hta.trans hle) hreadable hauthor hplan
  · rw [if_neg hle]
    rw [Nat.not_le] at hle
    have hcap : p₀.targetSeq=0 → IsGreatest {x | Held p₀.domain all x} capped.2 := by
      intro hzero
      refine ⟨?_,hopen hzero⟩
      rw [haim,if_neg (by simp [hzero])] at hle ⊢
      exact hall ▸ (h.held_cap hforks).2 (by omega)
    cases hsel : selectMariadbSegments capped.1 p₀.domain p₀.anchorSeq capped.2 with
    | error e =>
      -- only a time target leaves room for a hole that planning did not meet
      have htime : p₀.targetSeq=0 ∧ plan.targetTime≠0 := by
        by_contra hclosed
        have hresolve : resolvedTarget plan all p₀.anchorSeq=some capped.2 := by
          by_cases hzero : p₀.targetSeq=0
          · rw [not_and,not_not] at hclosed
            exact resolvedTarget_of_highest hzero (hclosed hzero) (hcap hzero) hle
          · rw [resolvedTarget_of_seq hzero,haim,if_pos hzero]
            rfl
        rw [hresolve] at hresolved
        obtain ⟨t,ht,hplan⟩ := hresolved.resolve_left (by simp)
        cases ht
        obtain ⟨hreach,-,hwhole⟩ := reach_of_plan hreadable hplan
        obtain ⟨selected,hselected⟩ := h.selection_ok hforks (hall ▸ hwhole) (hall ▸ hreach) hranges
        rw [hsel] at hselected
        cases hselected
      have hreach : ∃ v∈segmentRanges capped.1 p₀.domain, capped.2≤v.stop := by
        rw [hranges]
        obtain ⟨v,hv,-,hstop⟩ := (h.covered_held hforks _).mpr (hall ▸ (hcap htime.1).1)
        exact ⟨v,hv,hstop⟩
      have hsome : target.time.isSome := by
        rw [Option.isSome_iff_ne_none]
        intro hnone
        simp [plan,MariadbPositional.plan,hnone] at htime
      obtain rfl := selectMariadbSegments_error hle hreach hsel
      simp only
      rw [if_pos ⟨rfl,hsome⟩]
      exact ⟨p₀,rfl,hsame⟩
    | ok selected =>
      obtain ⟨sel,hloop,rfl⟩ := selectMariadbSegments_eq_ok hle hsel
      rw [hranges] at hloop
      have hgtid : ∀ g∈p₀.target, g.seq≠0 → g.seq≤capped.2 := by
        intro g hg hne
        rw [hseq g hg] at hne ⊢
        rw [haim,if_pos hne]
      obtain ⟨hsuffices,hreach⟩ := h.suffices hforks hle hgtid hloop
      rw [hall] at hsuffices
      simp only
      refine ⟨_,rfl,.inr ?_⟩
      have hback : (sel.map fun v => replaySegment v.seg).map
          (fun s => segmentByUUID (replaySegments idx) s.serverUUID) =
            handedBack idx sel := by
        rw [map_map]
        rfl
      simp only [hback]
      refine Suffices.replay plan (MariadbPositional.plan { p₀ with
          selected := true
          segments := handedBack idx sel } (replaySegments idx) target)
        hsuffices hauthor hreach ?_ hbound rfl rfl hresolved
      by_cases hzero : p₀.targetSeq=0
      · exact hsuffices.resolvedTarget_eq hauthor (hall ▸ h.stamps_cut) (hopen hzero) rfl hzero
      · simp [resolvedTarget,plan,MariadbPositional.plan,hzero]

theorem cutFiles_subset (cuts : Map String Nat) (exhausted : List String)
    (files : List PositionalFile) {f : PositionalFile} (hf : f∈cutFiles d cuts exhausted files) :
    ∃ g∈files,f.boundaries ⊆ g.boundaries := by
  induction files generalizing exhausted with
  | nil => simp [cutFiles] at hf
  | cons g files ih =>
    have hrest : ∀ exhausted,f∈cutFiles d cuts exhausted files →
        ∃ g'∈g::files,f.boundaries ⊆ g'.boundaries := by
      intro exhausted hf
      obtain ⟨g',hg',hsub⟩ := ih exhausted hf
      exact ⟨g',mem_cons_of_mem _ hg',hsub⟩
    have hhead : ∀ g' exhausted,g'.boundaries ⊆ g.boundaries →
        f∈g'::cutFiles d cuts exhausted files → ∃ g'∈g::files,f.boundaries ⊆ g'.boundaries := by
      intro g' exhausted hsub hf
      rcases mem_cons.mp hf with rfl | hf
      · exact ⟨g,mem_cons_self,hsub⟩
      · exact hrest exhausted hf
    rw [cutFiles] at hf
    simp only at hf
    split at hf
    · exact hhead g _ (List.Subset.refl _) hf
    · split at hf
      · exact hrest _ hf
      · split at hf
        · exact hhead g _ (List.Subset.refl _) hf
        · split at hf
          · exact hrest _ hf
          · exact hhead _ _ ( takeWhile_prefix _).subset hf

/-- In a domain the archive has nothing of, planning succeeds without a chunk for sequence 0. -/
theorem Stored.prepareSelection_foreign (h : Stored idx d disk logs) (hdomain : p₀.domain≠d)
    (hunselected : p₀.selected=false) (hnil : p₀.segments=[])
    (hplanned : planMariadbReplay (p₀.plan (replaySegments idx) target)
      (filesUnder logs (replaySegments idx)) p₀.anchorSeq = .ok chunks) :
    ∃ p,prepareSelection idx target p₀ = .ok p ∧ ReplaysAs disk logs idx target p chunks := by
  obtain ⟨-,hresolved⟩ := (planMariadbReplay_eq_ok rfl).mp hplanned
  generalize hall : applyMariadbForks _ _ _ _ = all at hresolved
  have hnone : highestMariadbSeq all p₀.domain=none := by
    cases hhighest : highestMariadbSeq all p₀.domain with
    | none => rfl
    | some highest =>
      obtain ⟨f,hf,b,hb,hbd,-⟩ := (isGreatest_highest hhighest).1
      rw [← hall] at hf
      obtain ⟨g,hg,hsub⟩ := cutFiles_subset _ _ _ hf
      exact absurd (hbd.symm.trans ((h.file h.chosen_all hg).2.1.domain b (hsub hb))) hdomain
  have hchunks : p₀.targetSeq=0 ∧ chunks=[] := by
    rcases hresolved with ⟨hres,rfl⟩ | ⟨t,-,hplan⟩
    · refine ⟨?_,rfl⟩
      by_contra hne
      rw [resolvedTarget_of_seq hne] at hres
      cases hres
    · obtain ⟨highest,hhighest⟩ := exists_highest_of_plan hplan
      exact absurd (hhighest.symm.trans hnone) (by simp)
  obtain ⟨hzero,rfl⟩ := hchunks
  have hcap : (capSegments idx.segments p₀).2=0 := by
    have hcaps : ∀ holder branchCut,∀ seg∈idx.segments,
        capSegment p₀.domain holder branchCut seg=(seg, 0) := by
      intro holder branchCut seg hseg
      obtain ⟨q,hq,hother⟩ := (namesOnly_iff d seg.gtidSet).mp (h.single seg hseg).2
      have hauthor : segmentAuthor (replaySegment seg) p₀.domain=none := by
        simp [segmentAuthor,replaySegment,hq,hother _ hdomain]
      rw [capSegment,hauthor]
    obtain ⟨⟨holder,branchCut⟩,hb⟩ : ∃ branch,
      branchHolder (replaySegments idx) p₀.domain p₀.target=branch := ⟨_,rfl⟩
    rw [(capSegments_eq hb).2,if_neg (by simp [hzero])]
    exact Nat.le_zero.mp ((foldl_max_le_iff _ idx.segments 0 0).mpr
      ⟨le_rfl,fun seg hseg => by rw [hcaps holder branchCut seg hseg]⟩)
  unfold prepareSelection
  by_cases hhave : segmentsHaveRanges idx.segments=false
  · rw [if_pos hhave]
    refine ⟨p₀,rfl,.inr ⟨[],?_,rfl⟩⟩
    simpa [MariadbPositional.plan,hunselected] using hplanned
  · rw [if_neg hhave]
    simp only [hcap,Nat.zero_le,if_true]
    exact ⟨_,rfl,.inl ⟨rfl,hnil,replaySet_nil⟩⟩

/-- Pruning the download keeps the outcome: the selected segments' files replay what all files do.
-/
theorem pruned_replay_same (h : Stored idx d disk logs)
    (hrequest : requested idx anchorGTID target=some p₀)
    (hforks : ReadAlike idx p₀.domain p₀.target holder branchCut)
    (hanchor : target.gtid = "" → checkMariadbAnchor (idx.segments.map replaySegment) idx.disowned
      anchorGTID p₀.domain = .ok ())
    (hplanned : planMariadbReplay (p₀.plan (idx.segments.map replaySegment) target)
      (filesUnder logs (idx.segments.map replaySegment)) p₀.anchorSeq = .ok chunks) :
    ∃ p,prepareMariadbPositional idx anchorGTID target = .ok p ∧
      ReplaysAs disk logs idx target p chunks := by
  obtain ⟨hunselected,hnil,hseq,-,hprepare⟩ := requested_spec hrequest
  rw [hprepare hanchor]
  by_cases hdomain : p₀.domain=d
  · subst hdomain
    exact h.prepareSelection_replaysAs hunselected hnil hseq hforks hplanned
  · exact h.prepareSelection_foreign hdomain hunselected hnil hplanned

/-- Server 1 forked after 4 and wrote two more; server 2 went on. -/
def forkIndex : ArchiveIndex :=
  { segments := [
      { serverUUID := "a", gtidSet := "0-1-6", startGTIDSet := "0-1-1",
        fork := some { afterSeq := [(0, 4)] } },
      { serverUUID := "b", gtidSet := "0-2-8", startGTIDSet := "0-2-5" }] }

def forkLogs (u : String) : List PositionalFile :=
  if u = "a" then [⟨"a_1","a",logOf 1 256 [1,1,1],0⟩,⟨"a_2","a",logOf 4 256 [1,1,1],0⟩]
  else if u = "b" then [⟨"b_1","b",logOf 5 256 [2,2,2,2],0⟩]
  else []

def forkDisk : String → List TxnBoundary := diskOf (forkLogs "a" ++ forkLogs "b")

theorem stored_forkIndex : Stored forkIndex 0 forkDisk forkLogs where
  single := by decide +kernel
  distinct := by decide
  named := by decide
  files := by decide +kernel
  ranges := by decide +kernel
  nonempty := by decide +kernel
  stamps := by decide +kernel

/-- The recovery to 0-1-6, on the dead branch, from a backup at 2. -/
def forkRequest : MariadbPositional where
  enabled := true
  anchorSeq := 2
  targetSeq := 6
  target := some ⟨0,1,6⟩

theorem pruned_replay_same_dead_branch :
    requested forkIndex "0-1-2" { gtid := "0-1-6" }=some forkRequest ∧
      ∃ p,prepareMariadbPositional forkIndex "0-1-2" { gtid := "0-1-6" } = .ok p ∧
        ReplaysAs forkDisk forkLogs forkIndex { gtid := "0-1-6" } p
          [⟨["a_1","a_2"],456,0⟩] := by
  have hrequest : requested forkIndex "0-1-2" { gtid := "0-1-6" }=some forkRequest := by
    decide +kernel
  have hforks : ReadAlike forkIndex 0 (some ⟨0,1,6⟩) "a" 4 := {
    branch := by decide +kernel
    caps := by decide +kernel
    one := by decide +kernel
    ends := by decide +kernel }
  exact ⟨hrequest,pruned_replay_same stored_forkIndex hrequest hforks (by simp) (by decide +kernel)⟩

/-- A backup on the dead branch: planning goes on from its sequence, and recovery is refused. -/
theorem deadBranch_refused :
    ¬∀ (idx : ArchiveIndex) (d : UInt32) (disk : String → List TxnBoundary)
      (logs : String → List PositionalFile) (anchorGTID : String) (target : RecoveryTarget)
      (p₀ : MariadbPositional) (chunks : List ReplayChunk),
      Stored idx d disk logs → requested idx anchorGTID target=some p₀ →
      planMariadbReplay (p₀.plan (idx.segments.map replaySegment) target)
        (filesUnder logs (idx.segments.map replaySegment)) p₀.anchorSeq = .ok chunks →
      ∃ p,prepareMariadbPositional idx anchorGTID target = .ok p ∧
        ∃ chunks',planMariadbReplay (p.plan (idx.segments.map replaySegment) target)
            (filesUnder logs (p.plan (idx.segments.map replaySegment) target).segments) p.anchorSeq =
            .ok chunks' ∧
          replaySet disk chunks'=replaySet disk chunks := by
  intro h
  obtain ⟨p,hp,-⟩ := h forkIndex 0 forkDisk forkLogs "0-1-6" {}
    { enabled := true, anchorSeq := 6 } [⟨["b_1"],456,0⟩] stored_forkIndex (by decide +kernel)
    (by decide +kernel)
  have hrefused : prepareMariadbPositional forkIndex "0-1-6" {} =
      .error (.anchorPastFork ⟨0,1,6⟩ "a" 4) := by decide +kernel
  rw [hrefused] at hp
  cases hp

end Cnmsql.Binlog
