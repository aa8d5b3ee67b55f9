import Cnmsql.Binlog.SegmentSelection

namespace Cnmsql.Binlog

open ObjectStore

/-- Where a cover begins: right after the anchor if some range does, else where the first range past
it begins. -/
def coverStart (a : Nat) (ranges : List SegmentRange) : Nat :=
  if ∃ v∈ranges,v.start≤a+1 ∧ a+1≤v.stop then a+1
  else ((ranges.filter fun v => a<v.stop).map (·.start)).min?.getD (a+1)

def CoversTo (a t : Nat) (ranges picked : List SegmentRange) : Prop :=
  ∀ x,coverStart a ranges≤x → x≤t → Covered picked x

/-- Selection fails for the target exactly when no range reaches it, for a hole exactly when there
is one, and else takes no hole. -/
structure GreedyCover (segments : List ArchiveSegment) (d : UInt32) (a t : Nat) : Prop where
  beyond : selectMariadbSegments segments d a t = .error .targetBeyondArchive ↔
    ∀ v∈segmentRanges segments d,v.stop<t
  forked : selectMariadbSegments segments d a t = .error .forkedTimeline ↔
    (∃ v∈segmentRanges segments d,t≤v.stop) ∧
      ¬CoversTo a t (segmentRanges segments d) (segmentRanges segments d)
  succeeds : (∃ selected,selectMariadbSegments segments d a t = .ok selected) ↔
    (∃ v∈segmentRanges segments d,t≤v.stop) ∧
      CoversTo a t (segmentRanges segments d) (segmentRanges segments d)
  selected : ∀ selected,selectMariadbSegments segments d a t = .ok selected →
    ∃ picked ⊆ segmentRanges segments d,selected=picked.map (fun v => replaySegment v.seg) ∧
      CoversTo a t (segmentRanges segments d) picked

variable {a t : Nat} {ranges : List SegmentRange}

theorem isLeast_coverStart (hvalid : ∀ v∈ranges,v.start≤v.stop)
    (hreach : ∃ v∈ranges,a<v.stop) :
    IsLeast {x | a<x ∧ Covered ranges x} (coverStart a ranges) := by
  unfold coverStart
  split
  · rename_i hnext
    exact ⟨⟨by omega,hnext⟩,fun x hx => hx.1⟩
  · rename_i hnext
    cases hmin : ((ranges.filter fun v => a<v.stop).map (·.start)).min? with
    | none =>
      rw [List.min?_eq_none_iff,List.map_eq_nil_iff,List.filter_eq_nil_iff] at hmin
      obtain ⟨v,hv,hlt⟩ := hreach
      exact absurd (decide_eq_true hlt) (hmin v hv)
    | some first =>
      rw [List.min?_eq_some_iff] at hmin
      obtain ⟨hmem,hleast⟩ := hmin
      obtain ⟨v,hv,rfl⟩ := List.mem_map.mp hmem
      rw [List.mem_filter,decide_eq_true_eq] at hv
      -- a range that begins no later than right after the anchor would hold that sequence
      have hpast : a+1<v.start := by
        by_contra hle
        exact hnext ⟨v,hv.1,by omega,hv.2⟩
      refine ⟨⟨by simp only [Option.getD_some]; omega,v,hv.1,le_rfl,hvalid v hv.1⟩,?_⟩
      rintro x ⟨hx,w,hw,hstart,hstop⟩
      have hle := hleast w.start (List.mem_map_of_mem
        (List.mem_filter.mpr ⟨hw,decide_eq_true (by omega)⟩))
      exact hle.trans hstart

theorem exists_selectLoop_iff (hlt : a<t) (hvalid : ∀ v∈ranges,v.start≤v.stop)
    (hreach : ∃ v∈ranges,t≤v.stop) :
    ((∃ sel,selectLoop t ranges.length a ranges [] = .ok sel) ↔ CoversTo a t ranges ranges) ∧
      ∀ sel,selectLoop t ranges.length a ranges [] = .ok sel →
        sel ⊆ ranges ∧ CoversTo a t ranges sel := by
  have hpast : ∃ v∈ranges, a<v.stop := by
    obtain ⟨v,hv,hstop⟩ := hreach
    exact ⟨v,hv,by omega⟩
  obtain ⟨⟨hedge,hcovered⟩,hleast⟩ := isLeast_coverStart hvalid hpast
  have hsound : ∀ sel,selectLoop t ranges.length a ranges [] = .ok sel →
      sel ⊆ ranges ∧ CoversTo a t ranges sel := by
    intro sel hsel
    obtain ⟨picked,rfl,hsub,-,-,hall⟩ := selectLoop_covered hsel
    exact ⟨hsub,fun x hx hxt => hall rfl _ x hedge hx hxt hcovered⟩
  refine ⟨⟨?_,?_⟩,hsound⟩
  · rintro ⟨sel,hsel⟩ x hx hxt
    obtain ⟨v,hv,hvx⟩ := (hsound sel hsel).2 x hx hxt
    exact ⟨v,(hsound sel hsel).1 hv,hvx⟩
  · intro hcovers
    apply exists_selection (fun v hv => .inl (hvalid v hv)) hreach
    intro w x hw hwx hxt hheld
    exact hcovers x ((hleast ⟨hw,hheld⟩).trans hwx) hxt

/-- Where every range is one, greedy selection is sound and complete. -/
theorem greedyCover_of_valid (segments : List ArchiveSegment) (d : UInt32) (hlt : a<t)
    (hvalid : ∀ v∈segmentRanges segments d,v.start≤v.stop) : GreedyCover segments d a t := by
  by_cases hreach : ∃ v∈segmentRanges segments d, t≤v.stop
  · have hsel := selectMariadbSegments_reached hlt hreach
    obtain ⟨hiff,hsound⟩ := exists_selectLoop_iff hlt hvalid hreach
    have hshort : ¬∀ v∈segmentRanges segments d, v.stop<t := by
      intro hall
      obtain ⟨v,hv,hstop⟩ := hreach
      exact absurd (hall v hv) (by omega)
    cases hloop : selectLoop t (segmentRanges segments d).length a (segmentRanges segments d) [] with
    | error e =>
      obtain rfl := selectLoop_error hloop
      rw [hloop] at hsel hiff
      have hhole := mt hiff.mpr (by simp)
      constructor
      · simp [hsel,Except.map,hshort]
      · simp [hsel,Except.map,hreach,hhole]
      · simp [hsel,Except.map,hhole]
      · simp [hsel,Except.map]
    | ok sel =>
      have hcovers := hiff.mp ⟨sel,hloop⟩
      rw [hloop] at hsel
      constructor
      · simp [hsel,Except.map,hshort]
      · simp [hsel,Except.map,hcovers]
      · simp [hsel,Except.map,hreach,hcovers]
      · intro selected hselected
        rw [hsel] at hselected
        cases hselected
        exact ⟨sel,(hsound sel hloop).1,rfl,(hsound sel hloop).2⟩
  · have hall : ∀ v∈segmentRanges segments d, v.stop<t := by
      intro v hv
      by_contra hle
      exact hreach ⟨v,hv,by omega⟩
    have hbeyond : selectMariadbSegments segments d a t = .error .targetBeyondArchive := by
      rw [selectMariadbSegments_eq hlt,if_neg]
      rintro ⟨v,hv,hle⟩
      exact hreach ⟨v,hv,by omega⟩
    constructor
    · simpa [hbeyond] using hall
    · simp [hbeyond,hreach]
    · simp [hbeyond,hreach]
    · simp [hbeyond]

def adjoining : List ArchiveSegment :=
  [{ serverUUID := "a", gtidSet := "0-1-5", startGTIDSet := "0-1-1" },
    { serverUUID := "b", gtidSet := "0-2-9", startGTIDSet := "0-2-6" }]

theorem greedyCover_adjoining : GreedyCover adjoining 0 2 8 :=
  greedyCover_of_valid adjoining 0 (by decide) (by decide +kernel)

/-- A segment that starts past its end is taken first and leads nowhere, though the next holds
everything. -/
def inverted : List ArchiveSegment :=
  [{ serverUUID := "a", gtidSet := "0-1-5", startGTIDSet := "0-1-8" },
    { serverUUID := "b", gtidSet := "0-2-20", startGTIDSet := "0-2-8" }]

theorem greedyCover_fails_inverted :
    ¬∀ (segments : List ArchiveSegment) (d : UInt32) (a t : Nat),a<t →
      GreedyCover segments d a t := by
  intro hclaim
  have hfork : selectMariadbSegments inverted 0 0 20 = .error .forkedTimeline := by decide +kernel
  obtain ⟨-,hhole⟩ := (hclaim inverted 0 0 20 (by decide)).forked.mp hfork
  have hstart : coverStart 0 (segmentRanges inverted 0)=8 := by decide +kernel
  have hlast : ∃ v∈segmentRanges inverted 0, v.start≤8 ∧ 20≤v.stop := by decide +kernel
  obtain ⟨v,hv,hv8,hv20⟩ := hlast
  apply hhole
  intro x hx hxt
  rw [hstart] at hx
  exact ⟨v,hv,by omega,by omega⟩

end Cnmsql.Binlog
