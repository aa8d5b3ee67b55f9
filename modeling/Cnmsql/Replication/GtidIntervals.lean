import Mathlib.Order.Interval.Finset.Nat
import Cnmsql.Framework.Intervals
import Cnmsql.Framework.Text

namespace Cnmsql.Replication

open Framework List

abbrev GTIDInterval := Span

/-- Numbered from 1, not empty, inside `int64`. -/
structure Valid (iv : GTIDInterval) : Prop where
  one_le : 1 ≤ iv.start
  start_le : iv.start ≤ iv.stop
  stop_le : iv.stop ≤ maxInt64

instance (iv : GTIDInterval) : Decidable (Valid iv) :=
  decidable_of_iff (1 ≤ iv.start ∧ iv.start ≤ iv.stop ∧ iv.stop ≤ maxInt64)
    ⟨fun h => ⟨h.1,h.2.1,h.2.2⟩,fun h => ⟨h.one_le,h.start_le,h.stop_le⟩⟩

/-- The loop of `normalizeIntervals`; `last` is the interval `out` ends in. -/
def coalesce (last : GTIDInterval) : List GTIDInterval → List GTIDInterval
  | [] => [last]
  | iv::rest =>
    if last.stop=maxInt64 ∨ iv.start≤last.stop+1 then
      coalesce (if iv.stop > last.stop then { last with stop := iv.stop } else last) rest
    else last::coalesce iv rest

/-- Sort by start and merge ranges that overlap or touch. -/
def normalizeIntervals (l : List GTIDInterval) : List GTIDInterval :=
  if l.length≤1 then l
  else match l.insertionSort (fun a b => a.start≤b.start) with
    | [] => []
    | first::rest => coalesce first rest

variable (lo : Nat) (last : GTIDInterval) (l : List GTIDInterval)

private theorem coalesce_lower (hlast : lo≤last.start) (hl : ∀ iv∈l,lo ≤ iv.start) :
    ∀ iv∈coalesce last l, lo ≤ iv.start := by
  induction l generalizing last with
  | nil => simpa [coalesce] using hlast
  | cons a l ih =>
    have ha := hl a (by simp)
    have ht : ∀ iv∈l, lo ≤ iv.start := fun iv h => hl iv (by simp [h])
    simp only [coalesce]
    split
    · exact ih _ (by split <;> exact hlast) ht
    · intro iv hiv
      rcases mem_cons.mp hiv with rfl | hiv
      · exact hlast
      · exact ih a ha ht iv hiv

/-- One pass over sorted intervals yields the normal form of the same numbers. -/
theorem coalesce_correct (hv : Valid last)
    (hl : ∀ iv∈l,Valid iv) (hs : (last::l).Pairwise (fun a b => a.start≤b.start)) :
    Separated (coalesce last l) ∧ (∀ iv∈coalesce last l,Valid iv) ∧
      points (coalesce last l)=points (last::l) := by
  induction l generalizing last with
  | nil => exact ⟨separated_singleton last hv.start_le,by simpa [coalesce] using hv,rfl⟩
  | cons a l ih =>
    obtain ⟨hlast,hsl⟩ := pairwise_cons.mp hs
    obtain ⟨hsa,hsl'⟩ := pairwise_cons.mp hsl
    have ha : Valid a := hl a (by simp)
    have hl' : ∀ iv∈l, Valid iv := fun iv h => hl iv (by simp [h])
    have hla := hlast a (by simp)
    simp only [coalesce]
    split
    · rename_i hm
      have hm' : a.start≤last.stop+1 := by
        rcases hm with hm | hm
        · have := ha.start_le
          have := ha.stop_le
          omega
        · exact hm
      set w : GTIDInterval := if a.stop > last.stop then { last with stop := a.stop } else last
        with hw
      have hstart : w.start=last.start := by rw [hw]; split <;> rfl
      have hstop : w.stop=max last.stop a.stop := by
        rw [hw]; split <;> [(change a.stop=_; omega); omega]
      have hvw : Valid w := by
        refine ⟨?_,?_,?_⟩
        · rw [hstart]; exact hv.one_le
        · rw [hstart,hstop]; have := hv.start_le; omega
        · rw [hstop]; have := hv.stop_le; have := ha.stop_le; omega
      obtain ⟨h1,h2,h3⟩ := ih w hvw hl' (by
        refine pairwise_cons.mpr ⟨?_,hsl'⟩
        intro b hb
        rw [hstart]
        exact hlast b (by simp [hb]))
      refine ⟨h1,h2,?_⟩
      rw [h3,points_cons,points_cons,points_cons,← Set.union_assoc]
      congr 1
      ext n
      have := ha.start_le
      have := hv.start_le
      simp only [Span.Has,hstart,hstop,Set.mem_ofPred_eq,Set.mem_union]
      omega
    · rename_i hm
      rw [not_or] at hm
      obtain ⟨h1,h2,h3⟩ := ih a ha hl' hsl
      have hlow := coalesce_lower a.start a l (le_refl _) hsa
      refine ⟨?_,?_,?_⟩
      · rw [separated_cons]
        refine ⟨hv.start_le,?_,h1⟩
        intro b hb
        have := hlow b hb
        omega
      · intro iv hiv
        rcases mem_cons.mp hiv with rfl | hiv
        · exact hv
        · exact h2 iv hiv
      · rw [points_cons,h3,← points_cons]

variable (iv : GTIDInterval) (l mine : List GTIDInterval)

theorem normalizeIntervals_correct (hl : ∀ iv∈l,Valid iv) :
    Separated (normalizeIntervals l) ∧ (∀ iv∈normalizeIntervals l,Valid iv) ∧
      points (normalizeIntervals l)=points l := by
  unfold normalizeIntervals
  split
  · rename_i hlen
    match l,hlen with
    | [],_ => exact ⟨separated_nil,by simp,rfl⟩
    | [iv],_ => exact ⟨separated_singleton iv (hl iv (by simp)).start_le,hl,rfl⟩
  · have hperm := perm_insertionSort (fun a b : GTIDInterval => a.start≤b.start) l
    have hsort : (l.insertionSort (fun a b => a.start≤b.start)).Pairwise
        (fun a b : GTIDInterval => a.start≤b.start) := by
      have : Std.Total (fun a b : GTIDInterval => a.start≤b.start) :=
        ⟨fun a b => Nat.le_total a.start b.start⟩
      have : IsTrans GTIDInterval (fun a b : GTIDInterval => a.start≤b.start) :=
        ⟨fun a b c hab hbc => Nat.le_trans hab hbc⟩
      exact pairwise_insertionSort _ l
    generalize l.insertionSort (fun a b : GTIDInterval => a.start≤b.start)=m at hperm hsort
    cases m with
    | nil =>
      rw [← points_perm _ _ hperm]
      exact ⟨separated_nil,by simp,rfl⟩
    | cons a m =>
      have hm : ∀ iv∈a::m, Valid iv := fun iv h => hl iv (hperm.mem_iff.mp h)
      rw [← points_perm _ _ hperm]
      exact coalesce_correct a m (hm a (by simp)) (fun iv h => hm iv (by simp [h])) hsort

theorem normalizeIntervals_of_separated (hs : Separated l) (hl : ∀ iv∈l,Valid iv) :
    normalizeIntervals l=l := by
  obtain ⟨h1,_,h3⟩ := normalizeIntervals_correct l hl
  exact separated_unique _ _ h1 hs h3

/-- The sweep of `minus`: `start` is the first number still unaccounted for. -/
def minusFrom (start stop : Nat) : List GTIDInterval → List GTIDInterval
  | [] => [⟨start,stop⟩]
  | m::sub =>
    if m.stop<start then minusFrom start stop sub
    else if m.start > stop then [⟨start,stop⟩]
    else (if m.start > start then [⟨start,m.start-1⟩] else []) ++
      (if m.stop ≥ stop then [] else minusFrom (m.stop+1) stop sub)

def minus (iv : GTIDInterval) (sub : List GTIDInterval) : List GTIDInterval :=
  minusFrom iv.start iv.stop sub

private theorem pieceBefore_correct (start : Nat) (m : GTIDInterval) :
    Separated (if m.start > start then [⟨start,m.start-1⟩] else []) ∧
      (∀ iv∈(if m.start > start then [(⟨start,m.start-1⟩ : GTIDInterval)] else []),
        start ≤ iv.start ∧ iv.stop+1=m.start) ∧
      ∀ n,n∈points (if m.start > start then [⟨start,m.start-1⟩] else []) ↔
        start≤n ∧ n < m.start := by
  split
  · refine ⟨separated_singleton _ (by simp only; omega),?_,?_⟩
    · simp only [mem_singleton,forall_eq]
      omega
    · intro n
      simp only [mem_points,mem_singleton,exists_eq_left,Span.Has]
      omega
  · refine ⟨separated_nil,by simp,?_⟩
    intro n
    simp only [points_nil,Set.mem_empty_iff_false,false_iff]
    omega

theorem minusFrom_correct (start stop : Nat) (hle : start ≤ stop) (sub : List GTIDInterval)
    (hs : Separated sub) :
    Separated (minusFrom start stop sub) ∧
      (∀ iv∈minusFrom start stop sub,start ≤ iv.start ∧ iv.stop ≤ stop) ∧
      ∀ n,n∈points (minusFrom start stop sub) ↔ start≤n ∧ n ≤ stop ∧ n∉points sub := by
  induction sub generalizing start with
  | nil =>
    refine ⟨separated_singleton ⟨start,stop⟩ hle,by simp [minusFrom],?_⟩
    intro n
    simp [minusFrom,Span.Has]
  | cons m sub ih =>
    obtain ⟨hm,_,_⟩ := (separated_cons m sub).mp hs
    have htail := separated_tail_lt m sub hs
    have hmem : ∀ n,n∈points (m::sub) ↔ (m.start≤n ∧ n ≤ m.stop) ∨ n∈points sub := by
      intro n
      rw [points_cons]
      rfl
    have hbefore : ∀ n,n < m.start → ¬((m.start≤n ∧ n ≤ m.stop) ∨ n∈points sub) := by
      rintro n hlt (h | h)
      · omega
      · have := htail n h
        omega
    simp only [minusFrom]
    split
    · obtain ⟨h1,h2,h3⟩ := ih start hle hs.tail
      refine ⟨h1,h2,?_⟩
      intro n
      rw [h3,hmem]
      constructor
      · rintro ⟨ha,hb,hc⟩
        exact ⟨ha,hb,by rintro (h | h) <;> [omega; exact hc h]⟩
      · rintro ⟨ha,hb,hc⟩
        exact ⟨ha,hb,fun h => hc (.inr h)⟩
    split
    · refine ⟨separated_singleton _ hle,by simp,?_⟩
      intro n
      rw [hmem]
      simp only [mem_points,mem_singleton,exists_eq_left,Span.Has]
      constructor
      · rintro ⟨ha,hb⟩
        exact ⟨ha,hb,hbefore n (by omega)⟩
      · rintro ⟨ha,hb,_⟩
        exact ⟨ha,hb⟩
    · obtain ⟨f1,f2,f3⟩ := pieceBefore_correct start m
      generalize (if m.start > start then [(⟨start,m.start-1⟩ : GTIDInterval)] else [])=piece
        at f1 f2 f3 ⊢
      split
      · rw [append_nil]
        refine ⟨f1,fun iv h => ⟨(f2 iv h).1,by have := (f2 iv h).2; omega⟩,?_⟩
        intro n
        rw [f3,hmem]
        constructor
        · rintro ⟨ha,hb⟩
          exact ⟨ha,by omega,hbefore n hb⟩
        · rintro ⟨ha,hb,hc⟩
          refine ⟨ha,?_⟩
          by_contra hlt
          exact hc (.inl (by omega))
      · obtain ⟨h1,h2,h3⟩ := ih (m.stop+1) (by omega) hs.tail
        refine ⟨?_,?_,?_⟩
        · rw [separated_append]
          refine ⟨f1,h1,?_⟩
          intro a ha b hb
          have := (f2 a ha).2
          have := (h2 b hb).1
          omega
        · intro iv hiv
          rcases mem_append.mp hiv with h | h
          · have := f2 iv h
            omega
          · have := h2 iv h
            omega
        · intro n
          rw [points_append,Set.mem_union,f3,h3,hmem]
          constructor
          · rintro (⟨ha,hb⟩ | ⟨ha,hb,hc⟩)
            · exact ⟨ha,by omega,hbefore n hb⟩
            · exact ⟨by omega,hb,by rintro (h | h) <;> [omega; exact hc h]⟩
          · rintro ⟨ha,hb,hc⟩
            rw [not_or] at hc
            by_cases hlt : n < m.start
            · exact .inl ⟨ha,hlt⟩
            · exact .inr ⟨by omega,hb,hc.2⟩

theorem flatMap_minus {sub : List GTIDInterval} (hl : Separated l) (hv : ∀ iv∈l,Valid iv)
    (hs : Separated sub) :
    Separated (l.flatMap fun iv => minus iv sub) ∧
      (∀ iv∈(l.flatMap fun iv => minus iv sub),Valid iv) ∧
      points (l.flatMap fun iv => minus iv sub)=points l \ points sub := by
  induction l with
  | nil => simp [separated_nil]
  | cons a l ih =>
    obtain ⟨hle,hlt,hsl⟩ := (separated_cons a l).mp hl
    obtain ⟨i1,i2,i3⟩ := ih hsl (fun iv h => hv iv (by simp [h]))
    obtain ⟨m1,m2,m3⟩ := minusFrom_correct a.start a.stop hle sub hs
    have ha := hv a (by simp)
    rw [flatMap_cons]
    refine ⟨?_,?_,?_⟩
    · rw [separated_append]
      refine ⟨m1,i1,?_⟩
      intro x hx y hy
      have hx2 := (m2 x hx).2
      have hy2 : y.start∈points l := by
        have := separated_start_mem _ i1 y hy
        rw [i3] at this
        exact this.1
      have := separated_tail_lt a l hl _ hy2
      omega
    · intro iv hiv
      cases mem_append.mp hiv with
      | inl h =>
        have hb := m2 iv h
        exact ⟨by have := ha.one_le; omega,m1.1 iv h,by have := ha.stop_le; omega⟩
      | inr h => exact i2 iv h
    · rw [points_append,i3,points_cons,Set.union_sdiff_distrib]
      congr 1
      ext n
      rw [minus,m3]
      simp only [Set.mem_sdiff,Set.mem_ofPred_eq,Span.Has,and_assoc]

def gaps : List GTIDInterval → List GTIDInterval
  | a::b::rest => ⟨a.stop+1,b.start-1⟩::gaps (b::rest)
  | _ => []

private theorem gaps_lower (a : GTIDInterval) (l : List GTIDInterval) (hs : Separated (a::l)) :
    ∀ g∈gaps (a::l), a.stop+1≤g.start := by
  induction l generalizing a with
  | nil => simp [gaps]
  | cons b l ih =>
    obtain ⟨_,hab,hsb⟩ := (separated_cons a (b::l)).mp hs
    have hb := ((separated_cons b l).mp hsb).1
    have := hab b (by simp)
    intro g hg
    cases mem_cons.mp hg with
    | inl h => simp [h]
    | inr h =>
      have := ih b hsb g h
      omega

theorem gaps_correct {l : List GTIDInterval} (hs : Separated l) (hv : ∀ iv∈l,Valid iv) :
    Separated (gaps l) ∧ (∀ g∈gaps l,Valid g) ∧
      ∀ n,n∈points (gaps l) ↔
        n∉points l ∧ (∃ i∈points l,i<n) ∧ ∃ j∈points l, n<j := by
  induction l with
  | nil => simp [gaps,separated_nil]
  | cons a l ih =>
    cases l with
    | nil =>
      refine ⟨separated_nil,by simp [gaps],?_⟩
      intro n
      simp only [gaps,points_nil,Set.mem_empty_iff_false,false_iff,points_cons,
        Set.union_empty,Set.mem_ofPred_eq,Span.Has]
      intro h
      obtain ⟨hn,⟨i,hi,hin⟩,j,hj,hnj⟩ := h
      omega
    | cons b l =>
      obtain ⟨ha,hab,hsb⟩ := (separated_cons a (b::l)).mp hs
      obtain ⟨i1,i2,i3⟩ := ih hsb (fun iv h => hv iv (by simp [h]))
      have hlow := gaps_lower b l hsb
      have hb := ((separated_cons b l).mp hsb).1
      have hgap := hab b (by simp)
      have hbv := hv b (by simp)
      have htail := separated_tail_lt a (b::l) hs
      have hhead := separated_head_le b l hsb
      have hbmem : b.start∈points (b::l) := separated_start_mem _ hsb b (by simp)
      have hamem : a.stop∈points (a::b::l) := ⟨a,by simp,ha,le_refl _⟩
      refine ⟨?_,?_,?_⟩
      · rw [gaps,separated_cons]
        refine ⟨by simp only; omega,?_,i1⟩
        intro g hg
        have := hlow g hg
        simp only
        omega
      · intro g hg
        cases mem_cons.mp hg with
        | inl h =>
          have := hbv.stop_le
          rw [h]
          exact ⟨by simp,by simp only; omega,by simp only; omega⟩
        | inr h => exact i2 g h
      · intro n
        have hmem : n∈points (a::b::l) ↔
            (a.start≤n ∧ n≤a.stop) ∨ n∈points (b::l) := by
          rw [points_cons]
          rfl
        have hcons : n∈points (gaps (a::b::l)) ↔
            (a.stop+1≤n ∧ n≤b.start-1) ∨ n∈points (gaps (b::l)) := by
          rw [gaps,points_cons]
          rfl
        rw [hcons,i3,hmem]
        constructor
        · intro h
          cases h with
          | inl h =>
            refine ⟨?_,⟨a.stop,hamem,by omega⟩,b.start,
              by rw [points_cons]; exact .inr hbmem,by omega⟩
            intro hc
            cases hc with
            | inl hc => omega
            | inr hc =>
              have := hhead n hc
              omega
          | inr h =>
            obtain ⟨hn,⟨i,hi,hin⟩,j,hj,hnj⟩ := h
            have hsub : ∀ k,k∈points (b::l) → k∈points (a::b::l) := by
              intro k hk
              rw [points_cons]
              exact .inr hk
            have := htail i hi
            refine ⟨?_,⟨i,hsub i hi,hin⟩,j,hsub j hj,hnj⟩
            intro hc
            cases hc with
            | inl hc => omega
            | inr hc => exact hn hc
        · intro h
          obtain ⟨hn,⟨i,hi,hin⟩,j,hj,hnj⟩ := h
          have hai := separated_head_le a (b::l) hs i hi
          have hna : a.stop+1≤n := by
            by_contra hlt
            exact hn (.inl ⟨by omega,by omega⟩)
          have hjb : j∈points (b::l) := by
            rw [points_cons] at hj
            cases hj with
            | inl hj =>
              have := hj.2
              omega
            | inr hj => exact hj
          by_cases hnb : n≤b.start-1
          · exact .inl ⟨hna,hnb⟩
          · refine .inr ⟨fun h => hn (.inr h),⟨b.start,hbmem,?_⟩,j,hjb,hnj⟩
            by_contra hge
            exact hn (.inr ⟨b,by simp,by omega,by omega⟩)

def uncoveredBy (iv : GTIDInterval) (mine : List GTIDInterval) : Nat :=
  go (iv.stop+1-iv.start) mine
where
  go (remaining : Nat) : List GTIDInterval → Nat
    | [] => remaining
    | m::mine =>
      if m.stop < iv.start then go remaining mine
      else if m.start > iv.stop then remaining
      else go (remaining-(min m.stop iv.stop+1-max m.start iv.start)) mine

def covered (iv : GTIDInterval) (mine : List GTIDInterval) : Finset Nat :=
  (Finset.Icc iv.start iv.stop).filter (· ∈ points mine)

theorem card_covered_cons {m : GTIDInterval} {mine : List GTIDInterval}
    (hs : Separated (m::mine)) :
    (covered iv (m::mine)).card =
      (min m.stop iv.stop+1-max m.start iv.start)+(covered iv mine).card := by
  have hsplit : covered iv (m::mine) =
      Finset.Icc (max m.start iv.start) (min m.stop iv.stop) ∪ covered iv mine := by
    ext n
    simp only [covered,points_cons,Finset.mem_filter,Finset.mem_Icc,Finset.mem_union,
      Set.mem_union,Set.mem_ofPred_eq,Span.Has]
    constructor
    · rintro ⟨h,hm | hm⟩
      · left; omega
      · right; exact ⟨h,hm⟩
    · rintro (h | ⟨h,hm⟩)
      · exact ⟨by omega,.inl (by omega)⟩
      · exact ⟨h,.inr hm⟩
  have hdisj : Disjoint (Finset.Icc (max m.start iv.start) (min m.stop iv.stop))
      (covered iv mine) := by
    rw [Finset.disjoint_left]
    intro n hn hc
    have := separated_tail_lt m mine hs n (Finset.mem_filter.mp hc).2
    have := Finset.mem_Icc.mp hn
    omega
  rw [hsplit,Finset.card_union_of_disjoint hdisj,Nat.card_Icc]

private theorem uncoveredBy_go (iv : GTIDInterval) (mine : List GTIDInterval)
    (hs : Separated mine) (remaining : Nat) :
    uncoveredBy.go iv remaining mine=remaining-(covered iv mine).card := by
  induction mine generalizing remaining with
  | nil => simp [uncoveredBy.go,covered]
  | cons m mine ih =>
    simp only [uncoveredBy.go]
    split
    · rename_i hlt
      rw [ih hs.tail]
      congr 2
      ext n
      simp only [covered,points_cons,Finset.mem_filter,Finset.mem_Icc,Set.mem_union,
        Set.mem_ofPred_eq,Span.Has]
      constructor
      · rintro ⟨h,hm⟩
        exact ⟨h,.inr hm⟩
      · rintro ⟨h,hm | hm⟩
        · omega
        · exact ⟨h,hm⟩
    split
    · rename_i hgt
      have hempty : covered iv (m::mine)=∅ := by
        refine Finset.filter_eq_empty_iff.mpr ?_
        intro n hn hm
        have := separated_head_le m mine hs n hm
        have := Finset.mem_Icc.mp hn
        omega
      simp [hempty]
    · rw [ih hs.tail,card_covered_cons iv hs]
      omega

theorem uncoveredBy_eq (hs : Separated mine) :
    uncoveredBy iv mine=((Finset.Icc iv.start iv.stop).filter (· ∉ points mine)).card := by
  have hsum := Finset.card_filter_add_card_filter_not (s := Finset.Icc iv.start iv.stop)
    (· ∈ points mine)
  rw [uncoveredBy,uncoveredBy_go iv mine hs,← Nat.card_Icc,covered]
  omega

theorem uncoveredBy_le (hs : Separated mine) (hv : Valid iv) : uncoveredBy iv mine ≤ maxInt64 := by
  have h1 : uncoveredBy iv mine ≤ iv.stop+1-iv.start := by
    rw [uncoveredBy_eq iv mine hs,← Nat.card_Icc]
    exact Finset.card_filter_le _ _
  have := hv.one_le
  have := hv.stop_le
  omega

theorem uncoveredBy_anti (m : List GTIDInterval) (hl : Separated l) (hm : Separated m)
    (h : points l ⊆ points m) : uncoveredBy iv m≤uncoveredBy iv l := by
  rw [uncoveredBy_eq iv l hl,uncoveredBy_eq iv m hm]
  apply Finset.card_le_card
  intro n hn
  rw [Finset.mem_filter] at hn ⊢
  exact ⟨hn.1,fun hc => hn.2 (h hc)⟩

def intervalsCover (mine : List GTIDInterval) (iv : GTIDInterval) : Bool :=
  mine.any fun m => decide (m.start ≤ iv.start ∧ iv.stop ≤ m.stop)

theorem intervalsCover_iff {iv : GTIDInterval} (hs : Separated mine) (hle : iv.start ≤ iv.stop) :
    intervalsCover mine iv=true ↔ ∀ n, iv.Has n → n∈points mine := by
  simp only [intervalsCover,any_eq_true,decide_eq_true_eq]
  constructor
  · rintro ⟨m,hm,h1,h2⟩ n ⟨hn1,hn2⟩
    exact ⟨m,hm,by omega,by omega⟩
  · intro h
    exact separated_cover hs hle (fun n h1 h2 => h n ⟨h1,h2⟩)

end Cnmsql.Replication
