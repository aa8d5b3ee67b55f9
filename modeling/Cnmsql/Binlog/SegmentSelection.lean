import Cnmsql.Binlog.MariaTexts

namespace Cnmsql.Binlog

open Framework ObjectStore Engine List

section

def Covered (ranges : List SegmentRange) (x : Nat) : Prop :=
  ∃ v∈ranges,v.start≤x ∧ x≤v.stop

instance (ranges : List SegmentRange) (x : Nat) : Decidable (Covered ranges x) :=
  inferInstanceAs (Decidable (∃ v∈ranges,_))

section

variable (current : Nat) (ranges : List SegmentRange)
include current ranges

theorem furthest_concat (v : SegmentRange) :
    furthest current (ranges++[v]) =
      if v.stop≤current ∨ current+1<v.start then furthest current ranges
      else
        match furthest current ranges with
        | none => some v
        | some b => if b.stop<v.stop then some v else some b := by
  rw [furthest,foldl_append]
  rfl

theorem earliest_concat (v : SegmentRange) :
    earliest current (ranges++[v]) =
      if v.stop≤current then earliest current ranges
      else
        match earliest current ranges with
        | none => some v
        | some b => if v.start<b.start then some v else some b := by
  rw [earliest,foldl_append]
  rfl

theorem furthest_spec :
    match furthest current ranges with
    | none => ∀ v∈ranges,v.stop≤current ∨ current+1<v.start
    | some b => b∈ranges ∧ current<b.stop ∧ b.start≤current+1 ∧
        ∀ v∈ranges,v.start≤current+1 → v.stop≤b.stop := by
  induction ranges using List.reverseRecOn with
  | nil => simp [furthest]
  | append_singleton ranges v ih =>
    rw [furthest_concat]
    cases hf : furthest current ranges with
    | none | some b =>
      simp only [hf] at ih
      grind

theorem earliest_spec :
    match earliest current ranges with
    | none => ∀ v∈ranges,v.stop≤current
    | some b => b∈ranges ∧ current<b.stop ∧
        ∀ v∈ranges,current<v.stop → b.start≤v.start := by
  induction ranges using List.reverseRecOn with
  | nil => simp [earliest]
  | append_singleton ranges v ih =>
    rw [earliest_concat]
    cases hf : earliest current ranges with
    | none | some b =>
      simp only [hf] at ih
      grind

end

variable {current t : Nat} {out : List SegmentRange} {best : SegmentRange} {ranges : List SegmentRange}

/-- A round takes a range past `current` that goes on from it, or first of all the earliest one. -/
theorem pick_spec
    (h : (furthest current ranges).or (if out=[] then earliest current ranges else none)=some best) :
    best∈ranges ∧ current<best.stop ∧
      (best.start≤current+1 ∨
        out=[] ∧ ∀ v∈ranges,current<v.stop → best.start≤v.start) := by
  have hfar := furthest_spec current ranges
  have hearly := earliest_spec current ranges
  cases hf : furthest current ranges with
  | some b =>
    rw [hf,Option.some_or,Option.some.injEq] at h
    subst h
    simp only [hf] at hfar
    exact ⟨hfar.1,hfar.2.1,.inl hfar.2.2.1⟩
  | none =>
    rw [hf,Option.none_or] at h
    split at h
    · rename_i hout
      simp only [h] at hearly
      exact ⟨hearly.1,hearly.2.1,.inr ⟨hout,hearly.2.2⟩⟩
    · cases h

theorem exists_pick (out : List SegmentRange) (h : Covered ranges (current+1)) :
    ∃ best,(furthest current ranges).or (if out=[] then earliest current ranges else none) =
      some best := by
  have hfar := furthest_spec current ranges
  cases hf : furthest current ranges with
  | some b => exact ⟨b,rfl⟩
  | none =>
    simp only [hf] at hfar
    obtain ⟨v,hv,hstart,hstop⟩ := h
    have := hfar v hv
    omega

theorem selectLoop_done (h : t≤current) (rounds : Nat) (ranges out : List SegmentRange) :
    selectLoop t rounds current ranges out = .ok out := by
  unfold selectLoop
  rw [if_pos h]

theorem selectLoop_zero (h : ¬t≤current) (ranges out : List SegmentRange) :
    selectLoop t 0 current ranges out = .error .forkedTimeline := by
  unfold selectLoop
  rw [if_neg h]

theorem selectLoop_succ (h : ¬t≤current) (rounds : Nat) (ranges out : List SegmentRange) :
    selectLoop t (rounds+1) current ranges out =
      match (furthest current ranges).or (if out=[] then earliest current ranges else none) with
      | none => .error .forkedTimeline
      | some best => selectLoop t rounds best.stop (ranges.erase best) (out++[best]) := by
  rw [selectLoop]
  exact if_neg h

theorem selectLoop_error {t rounds current : Nat} {ranges out : List SegmentRange}
    {e : MariaReplayError} (h : selectLoop t rounds current ranges out = .error e) :
    e = .forkedTimeline := by
  induction rounds generalizing current ranges out with
  | zero =>
    by_cases hdone : t≤current
    · rw [selectLoop_done hdone] at h
      cases h
    · rw [selectLoop_zero hdone] at h
      cases h
      rfl
  | succ rounds ih =>
    by_cases hdone : t≤current
    · rw [selectLoop_done hdone] at h
      cases h
    · rw [selectLoop_succ hdone] at h
      split at h
      · cases h
        rfl
      · exact ih h

theorem covered_erase {x : Nat} (h : Covered ranges x)
    (hx : best.stop<x) : Covered (ranges.erase best) x := by
  obtain ⟨v,hv,hstart,hstop⟩ := h
  refine ⟨v,(mem_erase_of_ne ?_).mpr hv,hstart,hstop⟩
  rintro rfl
  omega

theorem selectLoop_ok {t rounds current : Nat} {ranges out : List SegmentRange}
    (hrounds : ranges.length≤rounds) (hcovered : ∀ x,current<x → x≤t → Covered ranges x) :
    ∃ sel,selectLoop t rounds current ranges out = .ok sel := by
  induction rounds generalizing current ranges out with
  | zero =>
    obtain rfl : ranges=[] := length_eq_zero_iff.mp (by omega)
    by_cases hdone : t≤current
    · exact ⟨out,selectLoop_done hdone _ _ _⟩
    · obtain ⟨v,hv,-⟩ := hcovered (current+1) (by omega) (by omega)
      simp at hv
  | succ rounds ih =>
    by_cases hdone : t≤current
    · exact ⟨out,selectLoop_done hdone _ _ _⟩
    · have hnext : Covered ranges (current+1) := hcovered _ (by omega) (by omega)
      obtain ⟨best,hbest⟩ := exists_pick out hnext
      obtain ⟨hmem,hstop,-⟩ := pick_spec hbest
      rw [selectLoop_succ hdone,hbest]
      refine ih ?_ ?_
      · rw [length_erase_of_mem hmem]
        omega
      · intro x hx hxt
        exact covered_erase (hcovered x (by omega) hxt) hx

/-- What a round takes holds something, unless nothing holds where it ends. -/
theorem pick_nonempty
    (h : (furthest current ranges).or (if out=[] then earliest current ranges else none)=some best)
    (hends : out=[] → ∀ v∈ranges,v.start≤v.stop ∨ Covered ranges v.stop) :
    best.start≤best.stop := by
  obtain ⟨hmem,hstop,hstart | ⟨hnil,hleast⟩⟩ := pick_spec h
  · omega
  · rcases hends hnil best hmem with hle | ⟨w,hw,hwstart,hwstop⟩
    · exact hle
    · have := hleast w hw (by omega)
      omega

/-- Selection succeeds when the ranges hold everything from their first sequence past the anchor. -/
theorem exists_selection {a : Nat} {ranges : List SegmentRange}
    (hends : ∀ v∈ranges,v.start≤v.stop ∨ Covered ranges v.stop)
    (hreach : ∃ v∈ranges,t≤v.stop)
    (hcovered : ∀ w x,a<w → w≤x → x≤t → Covered ranges w → Covered ranges x) :
    ∃ sel,selectLoop t ranges.length a ranges [] = .ok sel := by
  by_cases hdone : t≤a
  · exact ⟨[],selectLoop_done hdone _ _ _⟩
  by_cases hfirst : Covered ranges (a+1)
  · exact selectLoop_ok le_rfl fun x hx hxt => hcovered (a+1) x (by omega) hx hxt hfirst
  · obtain ⟨v,hv,hvt⟩ := hreach
    obtain ⟨rounds,hrounds⟩ : ∃ rounds, ranges.length=rounds+1 :=
      Nat.exists_eq_succ_of_ne_zero (by
        rw [Ne,length_eq_zero_iff]
        rintro rfl
        simp at hv)
    rw [hrounds]
    have hearly := earliest_spec a ranges
    obtain ⟨best,hbest⟩ : ∃ best,(furthest a ranges).or
        (if ([] : List SegmentRange)=[] then earliest a ranges else none)=some best := by
      cases furthest a ranges with
      | some b => exact ⟨b,rfl⟩
      | none =>
        cases he : earliest a ranges with
        | some b => exact ⟨b,by simp⟩
        | none =>
          simp only [he] at hearly
          have := hearly v hv
          omega
    obtain ⟨hmem,hstop,-⟩ := pick_spec hbest
    have hle := pick_nonempty hbest fun _ => hends
    -- the leading edge: nothing holds the sequence after the anchor
    have hstart : a+1<best.start := by
      by_contra hle
      exact hfirst ⟨best,hmem,by omega,by omega⟩
    rw [selectLoop_succ hdone,hbest]
    refine selectLoop_ok ?_ ?_
    · rw [length_erase_of_mem hmem]
      omega
    · intro x hx hxt
      exact covered_erase (hcovered best.start x (by omega) (by omega) hxt
        ⟨best,hmem,le_rfl,hle⟩) hx

/-- The recursion rule of a selection: when it is done, and from its next round. -/
@[elab_as_elim]
theorem selectLoop_rec {t : Nat}
    {motive : Nat → List SegmentRange → List SegmentRange → List SegmentRange → Prop}
    (done : ∀ current ranges out,t≤current → motive current ranges out out)
    (round : ∀ current ranges out best sel,current<t →
      (furthest current ranges).or (if out=[] then earliest current ranges else none)=some best →
      motive best.stop (ranges.erase best) (out++[best]) sel → motive current ranges out sel)
    {rounds current : Nat} {ranges out sel : List SegmentRange}
    (h : selectLoop t rounds current ranges out = .ok sel) : motive current ranges out sel := by
  induction rounds generalizing current ranges out with
  | zero =>
    by_cases hdone : t≤current
    · rw [selectLoop_done hdone] at h
      cases h
      exact done _ _ _ hdone
    · rw [selectLoop_zero hdone] at h
      cases h
  | succ rounds ih =>
    by_cases hdone : t≤current
    · rw [selectLoop_done hdone] at h
      cases h
      exact done _ _ _ hdone
    · rw [selectLoop_succ hdone] at h
      split at h
      · cases h
      · rename_i best hbest
        exact round current ranges out best sel (by omega) hbest (ih h)

section

variable {rounds : Nat} {ranges sel : List SegmentRange}
  (h : selectLoop t rounds current ranges out = .ok sel)
include h

/-- What was taken covers all the ranges do, from their first sequence past the anchor to the
target. -/
theorem selectLoop_covered :
    ∃ picked,sel=out++picked ∧ picked ⊆ ranges ∧
      (current<t → ∃ v∈picked,t≤v.stop) ∧
      (out≠[] → ∀ x,current<x → x≤t → Covered picked x) ∧
      (out=[] → ∀ w x,current<w → w≤x → x≤t → Covered ranges w → Covered picked x) := by
  refine selectLoop_rec ?_ ?_ h
  · intro current ranges out hdone
    exact ⟨[],by simp,by simp,fun hlt => by omega,fun _ x hx hxt => by omega,
      fun _ w x hw hwx hxt => by omega⟩
  · rintro current ranges out best sel hlt hbest ⟨picked,hsel,hsub,hreach,hrest,-⟩
    obtain ⟨hmem,hstop,hstart⟩ := pick_spec hbest
    have hrest := hrest (by simp)
    have hpast : ∀ x,best.start≤x → x≤t → Covered (best::picked) x := by
      intro x hx hxt
      by_cases hin : x≤best.stop
      · exact ⟨best,mem_cons_self,hx,hin⟩
      · obtain ⟨v,hv,hvx⟩ := hrest x (by omega) hxt
        exact ⟨v,mem_cons_of_mem _ hv,hvx⟩
    refine ⟨best::picked,by simp [hsel],?_,?_,?_,?_⟩
    · rw [cons_subset]
      exact ⟨hmem,fun v hv => mem_of_mem_erase (hsub hv)⟩
    · intro _
      by_cases hlast : t≤best.stop
      · exact ⟨best,mem_cons_self,hlast⟩
      · obtain ⟨v,hv,hvt⟩ := hreach (by omega)
        exact ⟨v,mem_cons_of_mem _ hv,hvt⟩
    · intro hout x hx hxt
      rcases hstart with hstart | ⟨hnil,-⟩
      · exact hpast x (by omega) hxt
      · exact absurd hnil hout
    · rintro-w x hw hwx hxt ⟨v,hv,hvw⟩
      rcases hstart with hstart | ⟨-,hleast⟩
      · exact hpast x (by omega) hxt
      · have := hleast v hv (by omega)
        exact hpast x (by omega) hxt

theorem selectLoop_picked (hdistinct : (ranges.map (·.seg.serverUUID)).Nodup)
    (hends : out=[] → ∀ v∈ranges,v.start≤v.stop ∨ Covered ranges v.stop) :
    ∃ picked,sel=out++picked ∧ picked ⊆ ranges ∧ (picked.map (·.seg.serverUUID)).Nodup ∧
      ∀ v∈picked, v.start≤v.stop := by
  revert hdistinct hends
  refine selectLoop_rec ?_ ?_ h
  · intro current ranges out hdone hdistinct hends
    exact ⟨[],by simp,by simp,by simp,by simp⟩
  · intro current ranges out best sel hlt hbest ih hdistinct hends
    have hmem := (pick_spec hbest).1
    have herase : ((best::ranges.erase best).map (·.seg.serverUUID)).Nodup :=
      ((perm_cons_erase hmem).map _).nodup_iff.mp hdistinct
    rw [map_cons,nodup_cons] at herase
    obtain ⟨picked,hsel,hsub,hnodup,hnonempty⟩ := ih herase.2 (by simp)
    refine ⟨best::picked,by simp [hsel],?_,?_,?_⟩
    · rw [cons_subset]
      exact ⟨hmem,fun v hv => mem_of_mem_erase (hsub hv)⟩
    · rw [map_cons,nodup_cons]
      refine ⟨fun hin => herase.1 ?_,hnodup⟩
      obtain ⟨v,hv,huuid⟩ := mem_map.mp hin
      exact mem_map.mpr ⟨v,hsub hv,huuid⟩
    · rw [forall_mem_cons]
      exact ⟨pick_nonempty hbest hends,hnonempty⟩

end

/-- The first range taken begins no later than anything held past the anchor. -/
theorem selectLoop_leading {t a rounds : Nat} {ranges sel : List SegmentRange} (hlt : a<t)
    (h : selectLoop t rounds a ranges [] = .ok sel)
    (hnonempty : ∀ v∈sel,v.start≤v.stop) {w : Nat} (hw : a<w) (hcov : Covered ranges w) :
    ∃ y, a<y ∧ y≤w ∧ Covered sel y := by
  cases rounds with
  | zero =>
    rw [selectLoop_zero (by omega)] at h
    cases h
  | succ rounds =>
    rw [selectLoop_succ (by omega)] at h
    split at h
    · cases h
    · rename_i best hbest
      obtain ⟨hmem,hstop,hstart⟩ := pick_spec hbest
      obtain ⟨picked,rfl,-⟩ := selectLoop_covered h
      obtain ⟨v,hv,hvw⟩ := hcov
      have hle := hnonempty best (by simp)
      have hbegin : best.start ≤ max w (a+1) := by
        rcases hstart with hstart | ⟨-,hleast⟩
        · omega
        · have := hleast v hv (by omega)
          omega
      exact ⟨max best.start (a+1),by omega,by omega,best,by simp,by omega,by omega⟩

end

section

/-- Whether a text is a position that names no domain but one. -/
def namesOnly (d : UInt32) (text : String) : Bool :=
  match parseMariaPos text with
  | .error _ => false
  | .ok p => p.keys.all (·=d)

theorem namesOnly_iff (d : UInt32) (text : String) :
    namesOnly d text=true ↔
      ∃ p,parseMariaPos text = .ok p ∧ ∀ d', d'≠d → p.lookup d'=none := by
  unfold namesOnly
  cases parseMariaPos text with
  | error e => simp
  | ok p =>
    simp only [all_eq_true,decide_eq_true_eq,Except.ok.injEq,exists_eq_left',
      AList.lookup_eq_none]
    exact ⟨fun h d' hne hmem => hne (h d' hmem),fun h x hx => by_contra fun hne => h x hne hx⟩

variable (idx : ArchiveIndex) (d : UInt32)

def SingleDomain : Prop :=
  ∀ seg∈idx.segments, ','∉seg.gtidSet.toList ∧ namesOnly d seg.gtidSet=true

instance : Decidable (SingleDomain idx d) :=
  inferInstanceAs (Decidable (∀ seg∈idx.segments,_))

def Archived (x : Nat) : Prop :=
  Covered (segmentRanges idx.segments d) x

variable {d : UInt32} {v : SegmentRange} {seg : ArchiveSegment}

theorem mem_segmentRanges {segments : List ArchiveSegment} :
    v∈segmentRanges segments d ↔ ∃ seg∈segments, segmentRange d seg=some v := by
  simp [segmentRanges]

theorem segmentRange_eq_some (h : segmentRange d seg=some v) :
    v.seg=seg ∧ v.stop=mariaSeqForDomain seg.gtidSet d ∧ v.stop≠0 := by
  unfold segmentRange at h
  simp only at h
  split at h
  · cases h
  · cases h
    exact ⟨rfl,rfl,by assumption⟩

def rangeStart (d : UInt32) (seg : ArchiveSegment) : Nat :=
  if mariaSeqForDomain seg.startGTIDSet d=0 then 1 else mariaSeqForDomain seg.startGTIDSet d

theorem segmentRange_start (h : segmentRange d seg=some v) : v.start=rangeStart d seg := by
  unfold segmentRange at h
  simp only at h
  split at h
  · cases h
  · cases h
    rfl

theorem exists_segmentRange_iff (seg : ArchiveSegment) (x : Nat) :
    (∃ v,segmentRange d seg=some v ∧ v.start≤x ∧ x≤v.stop) ↔
      rangeStart d seg≤x ∧ x ≤ mariaSeqForDomain seg.gtidSet d := by
  have hpos : 0<rangeStart d seg := by
    unfold rangeStart
    split <;> omega
  constructor
  · rintro ⟨v,hv,hx⟩
    rw [segmentRange_start hv,(segmentRange_eq_some hv).2.1] at hx
    exact hx
  · intro hx
    refine ⟨⟨seg,rangeStart d seg,mariaSeqForDomain seg.gtidSet d⟩,?_,hx⟩
    unfold segmentRange
    exact if_neg (by omega)

theorem segmentAuthor_stop (hsingle : ','∉seg.gtidSet.toList) {p : MariaPos}
    (hp : parseMariaPos seg.gtidSet = .ok p) :
    mariaSeqForDomain seg.gtidSet d=((segmentAuthor (replaySegment seg) d).map (·.2)).getD 0 := by
  rw [mariaSeqForDomain_eq_reached hsingle hp,MariaPos.reached]
  simp only [segmentAuthor,replaySegment,hp,Option.map_map]
  rfl

theorem segmentByUUID_serverUUID {segs : List ReplaySegment} {uuid : String}
    (h : ∃ s∈segs,s.serverUUID=uuid) : (segmentByUUID segs uuid).serverUUID=uuid ∧
      segmentByUUID segs uuid∈segs := by
  unfold segmentByUUID
  cases hf : segs.reverse.find? (·.serverUUID=uuid) with
  | none =>
    rw [List.find?_eq_none] at hf
    obtain ⟨s,hs,heq⟩ := h
    exact absurd (hf s (mem_reverse.mpr hs)) (by simpa using heq)
  | some s =>
    have hmem := mem_of_find?_eq_some hf
    have heq := List.find?_some hf
    exact ⟨by simpa using heq,by simpa using hmem⟩

theorem mem_foldl_seen (ds out : List UInt32) (x : UInt32) :
    x∈ds.foldl (fun out d => if d∈out then out else out++[d]) out ↔ x∈out ∨ x∈ds := by
  induction ds generalizing out with
  | nil => simp
  | cons y ds ih =>
    rw [foldl_cons,ih,mem_cons]
    split
    · rename_i hy
      refine ⟨Or.imp_right .inr,?_⟩
      rintro (h | rfl | h)
      · exact .inl h
      · exact .inl hy
      · exact .inr h
    · rw [mem_append,mem_singleton,or_assoc]

theorem mem_archiveDomains {idx : ArchiveIndex} {x : UInt32} :
    x∈archiveDomains idx ↔
      ∃ seg∈idx.segments,∃ p,parseMariaPos seg.gtidSet = .ok p ∧ (p.lookup x).isSome := by
  rw [archiveDomains,mem_insertionSort]
  have hfold : ∀ (segs : List ArchiveSegment) (out : List UInt32),
      x∈segs.foldl (fun out seg =>
        match parseMariaPos seg.gtidSet with
        | .error _ => out
        | .ok pos => pos.domains.foldl (fun out d => if d∈out then out else out++[d]) out) out ↔
        x∈out ∨ ∃ seg∈segs,∃ p,parseMariaPos seg.gtidSet = .ok p ∧ (p.lookup x).isSome := by
    intro segs
    induction segs with
    | nil => simp
    | cons seg segs ih =>
      intro out
      rw [foldl_cons,ih]
      cases hp : parseMariaPos seg.gtidSet with
      | error e => simp [hp]
      | ok p => simp [hp,mem_foldl_seen,MariaPos.mem_domains,or_assoc]
  exact (hfold idx.segments []).trans (by simp)

theorem eq_of_mem_archiveDomains {idx : ArchiveIndex} (h : SingleDomain idx d) {d' : UInt32}
    (hmem : d'∈archiveDomains idx) :
    d'=d ∧ segmentsHaveRanges idx.segments=true := by
  obtain ⟨seg,hseg,p,hp,hlookup⟩ := mem_archiveDomains.mp hmem
  obtain ⟨q,hq,hother⟩ := (namesOnly_iff d seg.gtidSet).mp (h seg hseg).2
  obtain rfl : p=q := by
    rw [hp] at hq
    exact Except.ok.inj hq
  constructor
  · by_contra hne
    simp [hother d' hne] at hlookup
  · rw [segmentsHaveRanges,any_eq_true]
    refine ⟨seg,hseg,decide_eq_true ?_⟩
    intro hempty
    rw [hempty] at hp
    cases hp
    simp at hlookup

variable {α : Type} (f : α → Nat)

theorem foldl_max_le_iff (l : List α) (m n : Nat) :
    l.foldl (fun m v => max m (f v)) m≤n ↔ m≤n ∧ ∀ v∈l, f v≤n := by
  induction l generalizing m with
  | nil => simp
  | cons v l ih => simp only [foldl_cons,ih,Nat.max_le,forall_mem_cons,and_assoc]

theorem lt_foldl_max_iff (l : List α) (n : Nat) :
    n<l.foldl (fun m v => max m (f v)) 0 ↔ ∃ v∈l, n<f v := by
  rw [← Nat.not_le,foldl_max_le_iff]
  simp

theorem le_foldl_max {l : List α} {v : α} (h : v∈l) : f v≤l.foldl (fun m v => max m (f v)) 0 :=
  ((foldl_max_le_iff f l 0 _).mp (Nat.le_refl _)).2 v h

end

variable {idx : ArchiveIndex} {anchorGTID : String} {target : RecoveryTarget}
  {p p₀ : MariadbPositional}

theorem prepareSelection_eq_ok (h : prepareSelection idx target p₀ = .ok p) :
    (p=p₀ ∧ (segmentsHaveRanges idx.segments=false ∨ target.time.isSome)) ∨
    (p={ p₀ with selected := true } ∧ (capSegments idx.segments p₀).2≤p₀.anchorSeq) ∨
    ∃ selected,p₀.anchorSeq<(capSegments idx.segments p₀).2 ∧
      selectMariadbSegments (capSegments idx.segments p₀).1 p₀.domain p₀.anchorSeq
        (capSegments idx.segments p₀).2 = .ok selected ∧
      p={ p₀ with
        selected := true
        segments := selected.map fun s =>
          segmentByUUID (idx.segments.map replaySegment) s.serverUUID } := by
  unfold prepareSelection at h
  split at h
  · rename_i hranges
    cases h
    exact .inl ⟨rfl,.inl hranges⟩
  · simp only at h
    split at h
    · rename_i hle
      cases h
      exact .inr (.inl ⟨rfl,hle⟩)
    · rename_i hle
      split at h
      · split at h
        · rename_i htime
          cases h
          exact .inl ⟨rfl,.inr htime.2⟩
        · cases h
      · rename_i selected hsel
        cases h
        exact .inr (.inr ⟨selected,by omega,hsel,rfl⟩)

theorem prepareMariadbPositional_eq_ok
    (h : prepareMariadbPositional idx anchorGTID target = .ok p) (henabled : p.enabled=true) :
    ∃ p₀,prepareSelection idx target p₀ = .ok p ∧ p₀.selected=false ∧ p₀.segments=[] ∧
      p₀.anchorSeq=mariaSeqForDomain anchorGTID p₀.domain ∧
      ((target.gtid ≠ "" ∧ singleDomainMariaGTID target.gtid = .ok (some (p₀.domain,p₀.targetSeq)) ∧
          ∃ g,parseMariaDBGTID target.gtid = .ok g ∧ p₀.target=some g) ∨
        (target.gtid = "" ∧ archiveDomains idx=[p₀.domain] ∧ p₀.targetSeq=0 ∧
          p₀.target=none ∧ checkMariadbAnchor (idx.segments.map replaySegment) idx.disowned
            anchorGTID p₀.domain = .ok ())) := by
  unfold prepareMariadbPositional at h
  split at h
  · rename_i hgtid
    rw [bind_eq_ok] at h
    obtain ⟨parsed,hparsed,h⟩ := h
    rw [mapError_eq_ok] at hparsed
    split at h
    · cases h
      simp at henabled
    · rw [bind_eq_ok] at h
      obtain ⟨g,hg,h⟩ := h
      rw [mapError_eq_ok] at hg
      exact ⟨_,h,rfl,rfl,rfl,.inl ⟨hgtid,hparsed,g,hg,rfl⟩⟩
  · rename_i hgtid
    rw [not_not] at hgtid
    split at h
    · cases h
      simp at henabled
    · rename_i domain hdomains
      rw [check_bind_eq_ok] at h
      exact ⟨_,h.2,rfl,rfl,rfl,.inr ⟨hgtid,hdomains,rfl,rfl,h.1⟩⟩
    · split at h
      · cases h
      · cases h
        simp at henabled

variable {segments : List ArchiveSegment} {d : UInt32} {a t : Nat}

theorem selectMariadbSegments_eq (hlt : a<t) : selectMariadbSegments segments d a t =
    if ∃ v∈segmentRanges segments d,t-1<v.stop then
      (selectLoop t (segmentRanges segments d).length a (segmentRanges segments d) []).map
        (·.map fun v => replaySegment v.seg)
    else .error .targetBeyondArchive := by
  rw [selectMariadbSegments,if_neg (by omega)]
  simp only [← lt_foldl_max_iff]
  split
  · rw [if_neg (by omega)]
  · rw [if_pos (by omega)]
    rfl

theorem selectMariadbSegments_reached (hlt : a<t)
    (hreach : ∃ v∈segmentRanges segments d,t≤v.stop) :
    selectMariadbSegments segments d a t =
      (selectLoop t (segmentRanges segments d).length a (segmentRanges segments d) []).map
        (·.map fun v => replaySegment v.seg) := by
  rw [selectMariadbSegments_eq hlt,if_pos (hreach.imp fun v hv => ⟨hv.1,by omega⟩)]

theorem selectMariadbSegments_eq_ok {selected : List ReplaySegment} (hlt : a<t)
    (h : selectMariadbSegments segments d a t = .ok selected) :
    ∃ sel,selectLoop t (segmentRanges segments d).length a (segmentRanges segments d) [] = .ok sel ∧
      selected=sel.map fun v => replaySegment v.seg := by
  rw [selectMariadbSegments_eq hlt] at h
  split at h
  · cases hsel : selectLoop t (segmentRanges segments d).length a (segmentRanges segments d) [] with
    | error e =>
      rw [hsel] at h
      cases h
    | ok sel =>
      rw [hsel] at h
      cases h
      exact ⟨sel,rfl,rfl⟩
  · cases h

end Cnmsql.Binlog
