import Cnmsql.Binlog.SegmentCover

namespace Cnmsql.Binlog

open ObjectStore List

variable {a t current : Nat} {ranges out sel : List SegmentRange}

/-- A choice that reaches the target without a hole from where a cover begins. -/
def IsCover (a t : Nat) (ranges choice : List SegmentRange) : Prop :=
  choice ⊆ ranges ∧ (∃ v∈choice,t≤v.stop) ∧ CoversTo a t ranges choice

/-- From `current`, `n` of the ranges are enough to the target. -/
def Reaches (ranges : List SegmentRange) (current t n : Nat) : Prop :=
  ∃ choice ⊆ ranges,choice.length≤n ∧ ∀ x,current<x → x≤t → Covered choice x

/-- The first listed of the ranges that end past the anchor and begin first. -/
def leadingRange (a : Nat) (ranges : List SegmentRange) : Option SegmentRange :=
  ranges.find? fun v => a<v.stop ∧ ∀ w∈ranges,a<w.stop → v.start≤w.start

/-- Where the archive begins past the anchor, the leading range takes no more ranges than any other
that begins there. -/
def LeadsWell (a t : Nat) (ranges : List SegmentRange) : Prop :=
  (∃ v∈ranges,v.start≤a+1 ∧ a+1≤v.stop) ∨
    ∀ f∈leadingRange a ranges,∀ v∈ranges,v.start=f.start → a<v.stop →
      ∀ n,Reaches ranges v.stop t n → Reaches ranges f.stop t n

variable {f : SegmentRange}

theorem earliest_split (h : earliest a ranges=some f) :
    ∃ l r,ranges=l++f::r ∧ ∀ w∈l, a<w.stop → f.start<w.start := by
  induction ranges using List.reverseRecOn generalizing f with
  | nil => simp [earliest] at h
  | append_singleton ranges v ih =>
    have hearly := earliest_spec a ranges
    have hkeep : ∀ {f},earliest a ranges=some f → ∃ l r,ranges++[v]=l++f::r ∧
        ∀ w∈l, a<w.stop → f.start<w.start := by
      intro f hf
      obtain ⟨l,r,rfl,hl⟩ := ih hf
      exact ⟨l,r++[v],by simp,hl⟩
    rw [earliest_concat] at h
    split at h
    · exact hkeep h
    · cases he : earliest a ranges with
      | none =>
        simp only [he,Option.some.injEq] at h hearly
        subst h
        exact ⟨ranges,[],rfl,fun w hw hlt => absurd (hearly w hw) (by omega)⟩
      | some b =>
        simp only [he] at h hearly
        split at h
        · cases h
          exact ⟨ranges,[],rfl,fun w hw hlt => by have := hearly.2.2 w hw hlt; omega⟩
        · cases h
          exact hkeep he

theorem earliest_eq_leadingRange (a : Nat) (ranges : List SegmentRange) :
    earliest a ranges=leadingRange a ranges := by
  have hearly := earliest_spec a ranges
  cases he : earliest a ranges with
  | none =>
    simp only [he] at hearly
    refine (List.find?_eq_none.mpr fun v hv => ?_).symm
    have := hearly v hv
    simp only [decide_eq_true_eq]
    omega
  | some f =>
    simp only [he] at hearly
    obtain ⟨l,r,hlr,hl⟩ := earliest_split he
    rw [leadingRange,eq_comm,List.find?_eq_some_iff_append]
    refine ⟨decide_eq_true hearly.2,l,r,hlr,fun w hw => ?_⟩
    simp only [Bool.not_eq_true',decide_eq_false_iff_not]
    rintro ⟨hlt,hfirst⟩
    have := hl w hw hlt
    have := hfirst f hearly.1 hearly.2.1
    omega

/-- The exchange argument: what holds the next sequence ends no later than the range taken, so the
rest still covers. -/
theorem selectLoop_fewest {rounds : Nat} (h : selectLoop t rounds current ranges out = .ok sel) :
    out≠[] ∨ (∃ v∈ranges,v.start≤current+1 ∧ current+1≤v.stop) →
    ∃ picked,sel=out++picked ∧ ∀ choice : List SegmentRange,
      (∀ v∈choice,v∈ranges ∨ v.stop≤current) →
      (∀ x,current<x → x≤t → Covered choice x) → picked.length≤choice.length := by
  refine selectLoop_rec ?_ ?_ h
  · intro current ranges out hdone _
    exact ⟨[],by simp,by simp⟩
  · intro current ranges out best sel hlt hbest ih hgoes
    have hfar := furthest_spec current ranges
    have hpick : furthest current ranges=some best := by
      cases hf : furthest current ranges with
      | some b => simpa [hf] using hbest
      | none =>
        simp only [hf] at hfar
        rcases hgoes with hout | ⟨v,hv,hvx⟩
        · simp [hf,hout] at hbest
        · have := hfar v hv
          omega
    simp only [hpick] at hfar
    obtain ⟨hmem,hstop,-,hgreatest⟩ := hfar
    obtain ⟨picked,rfl,hfewest⟩ := ih (.inl (by simp))
    refine ⟨best::picked,by simp,fun choice hchoice hcovers => ?_⟩
    obtain ⟨w,hw,hwx⟩ := hcovers (current+1) (by omega) (by omega)
    have hwstop : w.stop≤best.stop :=
      hgreatest w ((hchoice w hw).resolve_right (by omega)) hwx.1
    have hle := hfewest (choice.erase w) ?_ ?_
    · rw [length_erase_of_mem hw] at hle
      have := length_pos_of_mem hw
      simp only [length_cons]
      omega
    · intro v hv
      rcases hchoice v (mem_of_mem_erase hv) with hin | hdone
      · by_cases heq : v=best
        · exact .inr (by rw [heq])
        · exact .inl ((mem_erase_of_ne heq).mpr hin)
      · exact .inr (by omega)
    · intro x hx hxt
      exact covered_erase (hcovers x (by omega) hxt) (by omega)

theorem coverStart_leading (h : earliest a ranges=some f)
    (hgoes : ¬∃ v∈ranges,v.start≤a+1 ∧ a+1≤v.stop) : coverStart a ranges=f.start := by
  have hearly := earliest_spec a ranges
  simp only [h] at hearly
  have hmin : ((ranges.filter fun v => a<v.stop).map (·.start)).min?=some f.start := by
    rw [List.min?_eq_some_iff]
    refine ⟨mem_map_of_mem (mem_filter.mpr ⟨hearly.1,decide_eq_true hearly.2.1⟩),?_⟩
    intro x hx
    obtain ⟨v,hv,rfl⟩ := mem_map.mp hx
    rw [mem_filter,decide_eq_true_eq] at hv
    exact hearly.2.2 v hv.1 hv.2
  rw [coverStart,if_neg hgoes,hmin,Option.getD_some]

/-- Past a leading range the rest of a selection decides whether it is minimal. -/
theorem leading_minimal_iff {picked : List SegmentRange} (hf : earliest a ranges=some f)
    (hgoes : ¬∃ v∈ranges,v.start≤a+1 ∧ a+1≤v.stop) (hsub : picked ⊆ ranges)
    (hcovers : ∀ x,f.stop<x → x≤t → Covered picked x)
    (hfewest : ∀ n,Reaches ranges f.stop t n → picked.length≤n) :
    (∀ choice,IsCover a t ranges choice → (f::picked).length≤choice.length) ↔
      ∀ v∈ranges,v.start=f.start → a<v.stop →
        ∀ n,Reaches ranges v.stop t n → Reaches ranges f.stop t n := by
  have hearly := earliest_spec a ranges
  simp only [hf] at hearly
  obtain ⟨hmem,hstop,hleast⟩ := hearly
  simp only [IsCover,CoversTo,coverStart_leading hf hgoes,length_cons]
  by_cases hdone : t≤f.stop
  · have hall : ∀ n, Reaches ranges f.stop t n := fun n => ⟨[],by simp,by simp,fun x hx hxt => by omega⟩
    refine iff_of_true ?_ fun _ _ _ _ n _ => hall n
    rintro choice ⟨-,⟨r,hr,-⟩,-⟩
    have := hfewest 0 (hall 0)
    have := length_pos_of_mem hr
    omega
  -- the selection goes on from `f`, so `f` begins before the target
  obtain ⟨w,hw,hwx⟩ := hcovers (f.stop+1) (by omega) (by omega)
  have hbegins := hleast w (hsub hw) (by omega)
  constructor
  · rintro hmin v hv hvs hva n ⟨choice,hchoice,hlen,hrest⟩
    have hcover : ∀ x,f.start≤x → x≤t → Covered (v::choice) x := by
      intro x hx hxt
      by_cases hin : x≤v.stop
      · exact ⟨v,by simp,by omega,hin⟩
      · obtain ⟨u,hu,hux⟩ := hrest x (by omega) hxt
        exact ⟨u,by simp [hu],hux⟩
    obtain ⟨r,hr,-,hrt⟩ := hcover t (by omega) le_rfl
    have := hmin (v::choice) ⟨cons_subset.mpr ⟨hv,hchoice⟩,⟨r,hr,hrt⟩,hcover⟩
    simp only [length_cons] at this
    exact ⟨picked,hsub,by omega,hcovers⟩
  · rintro hgood choice ⟨hchoice,-,hcover⟩
    obtain ⟨v,hv,hvx⟩ := hcover f.start le_rfl (by omega)
    have hpast : a+1<f.start := by
      by_contra hle
      exact hgoes ⟨f,hmem,by omega,hstop⟩
    have := hleast v (hchoice hv) (by omega)
    have := hfewest (choice.length-1) (hgood v (hchoice hv) (by omega) (by omega) _
      ⟨choice.erase v,fun u hu => hchoice (mem_of_mem_erase hu),
        (length_erase_of_mem hv).le,fun x hx hxt => covered_erase (hcover x (by omega) hxt) hx⟩)
    have := length_pos_of_mem hv
    omega

variable {segments : List ArchiveSegment} {d : UInt32} {selected : List ReplaySegment}

/-- Greedy selection is minimal exactly when the archive begins at the anchor or its leading range
is as good as any that begins there. -/
theorem selection_minimal_iff (hlt : a<t) (h : selectMariadbSegments segments d a t = .ok selected) :
    (∀ choice,IsCover a t (segmentRanges segments d) choice → selected.length≤choice.length) ↔
      LeadsWell a t (segmentRanges segments d) := by
  obtain ⟨sel,hsel,rfl⟩ := selectMariadbSegments_eq_ok hlt h
  generalize segmentRanges segments d=ranges at hsel ⊢
  rw [length_map]
  by_cases hgoes : ∃ v∈ranges,v.start≤a+1 ∧ a+1≤v.stop
  · obtain ⟨picked,rfl,hfewest⟩ := selectLoop_fewest hsel (.inr hgoes)
    refine iff_of_true (fun choice hchoice => ?_) (.inl hgoes)
    refine hfewest choice (fun v hv => .inl (hchoice.1 hv)) fun x hx hxt => hchoice.2.2 x ?_ hxt
    rw [coverStart,if_pos hgoes]
    exact hx
  · rw [LeadsWell,or_iff_right hgoes,← earliest_eq_leadingRange]
    generalize ranges.length=rounds at hsel
    cases rounds with
    | zero =>
      rw [selectLoop_zero (by omega)] at hsel
      cases hsel
    | succ rounds =>
      rw [selectLoop_succ (by omega)] at hsel
      split at hsel
      · cases hsel
      rename_i f hf
      have hfar := furthest_spec a ranges
      have hearly : earliest a ranges=some f := by
        cases hfurthest : furthest a ranges with
        | none => simpa [hfurthest] using hf
        | some b =>
          simp only [hfurthest] at hfar
          exact absurd ⟨b,hfar.1,hfar.2.2.1,hfar.2.1⟩ hgoes
      obtain ⟨picked,rfl,hfewest⟩ := selectLoop_fewest hsel (.inl (by simp))
      obtain ⟨picked',heq,hsub,-,hcovers,-⟩ := selectLoop_covered hsel
      obtain rfl := append_cancel_left heq
      simp only [hearly,Option.mem_some,forall_eq']
      refine leading_minimal_iff hearly hgoes (fun v hv => mem_of_mem_erase (hsub hv))
        (hcovers (by simp)) ?_
      rintro n ⟨choice,hchoice,hlen,hrest⟩
      refine (hfewest choice (fun v hv => ?_) hrest).trans hlen
      by_cases heq : v=f
      · exact .inr (by rw [heq])
      · exact .inl ((mem_erase_of_ne heq).mpr (hchoice hv))

theorem adjoining_minimal :
    selectMariadbSegments adjoining 0 2 8 = .ok (adjoining.map replaySegment) ∧
      ∀ choice,IsCover 2 8 (segmentRanges adjoining 0) choice → 2≤choice.length := by
  have h : selectMariadbSegments adjoining 0 2 8 = .ok (adjoining.map replaySegment) := by
    decide +kernel
  exact ⟨h,(selection_minimal_iff (by decide) h).mpr (.inl (by decide +kernel))⟩

def sameStart : List ArchiveSegment :=
  [{ serverUUID := "a", gtidSet := "0-1-6", startGTIDSet := "0-1-5" },
    { serverUUID := "b", gtidSet := "0-2-10", startGTIDSet := "0-2-5" }]

/-- Two segments begin past the anchor together, the shorter listed first: both are selected though
the longer one covers. -/
theorem sameStart_not_minimal :
    selectMariadbSegments sameStart 0 1 10 = .ok (sameStart.map replaySegment) ∧
      IsCover 1 10 (segmentRanges sameStart 0) [⟨sameStart.getLast (by decide),5,10⟩] := by
  refine ⟨by decide +kernel,by decide +kernel,by decide,fun x hx hxt => ?_⟩
  rw [show coverStart 1 (segmentRanges sameStart 0)=5 by decide +kernel] at hx
  exact ⟨_,mem_singleton_self _,hx,hxt⟩

end Cnmsql.Binlog
