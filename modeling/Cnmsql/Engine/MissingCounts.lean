import Mathlib.Data.Set.Card
import Cnmsql.Engine.MariaPos

namespace Cnmsql

open Framework List

/-- The result of an `int64` operation, none when it does not fit. -/
def checked64 (n : Int) : Option Int :=
  if -(maxInt64 : Int)-1≤n ∧ n ≤ maxInt64 then some n else none

theorem checked64_of_le {n : Int} (h : 0≤n) (hn : n ≤ maxInt64) : checked64 n=some n :=
  if_pos ⟨by omega,hn⟩

theorem checked64_bind {n : Int} (h : 0≤n) (hn : n ≤ maxInt64) (f : Int → Option Int) :
    (checked64 n).bind f=f n := by
  rw [checked64_of_le h hn,Option.bind_some]

namespace Replication

/-- `uncoveredBy` with its arithmetic checked. -/
def uncoveredBy64 (iv : GTIDInterval) (mine : List GTIDInterval) : Option Int := do
  let width ← checked64 (iv.stop-iv.start)
  let remaining ← checked64 (width+1)
  if remaining≤0 then return 0
  go remaining mine
where
  go (remaining : Int) : List GTIDInterval → Option Int
    | [] => some (max remaining 0)
    | m::mine =>
      if m.stop < iv.start then go remaining mine
      else if m.start > iv.stop then some (max remaining 0)
      else do
        let overlap ← checked64 ((min m.stop iv.stop : Nat)-(max m.start iv.start : Nat))
        let overlap ← checked64 (overlap+1)
        go (← checked64 (remaining-overlap)) mine

namespace GTIDSet

/-- `MissingCount` with its arithmetic checked. -/
def missingLoop64 (s : GTIDSet) (missing : Int) : List (String × GTIDInterval) → Option Int
  | [] => some missing
  | (uuid,iv)::rest => do
    let n ← uncoveredBy64 iv (s.get uuid)
    let room ← checked64 (maxInt64-n)
    if missing > room then return maxInt64
    missingLoop64 s (← checked64 (missing+n)) rest

def missingCount64 (s other : GTIDSet) : Option Int := s.missingLoop64 0 other.flat

end GTIDSet

/-- The loop subtracts disjoint parts of the interval, so it never goes below zero. -/
private theorem uncoveredBy64_go {iv : GTIDInterval} (hv : Valid iv)
    (mine : List GTIDInterval) (hs : Separated mine) (remaining : Nat)
    (hle : (covered iv mine).card≤remaining) (hr : remaining ≤ maxInt64) :
    uncoveredBy64.go iv remaining mine=some (uncoveredBy.go iv remaining mine : Int) := by
  induction mine generalizing remaining with
  | nil => simp [uncoveredBy64.go,uncoveredBy.go]
  | cons m mine ih =>
    have hcard := card_covered_cons iv hs
    simp only [uncoveredBy64.go,uncoveredBy.go]
    split
    · exact ih hs.tail remaining (by omega) hr
    split
    · simp
    · have hm := hs.1 m (by simp)
      have hiv := hv.start_le
      have hstop := hv.stop_le
      rw [Option.bind_eq_bind,checked64_bind (by omega) (by omega),
        checked64_bind (by omega) (by omega),checked64_bind (by omega) (by omega),← ih hs.tail _ (by omega) (by omega)]
      congr 1
      omega

theorem uncoveredBy64_eq {iv : GTIDInterval} (hv : Valid iv) {mine : List GTIDInterval}
    (hs : Separated mine) : uncoveredBy64 iv mine=some (uncoveredBy iv mine : Int) := by
  have hone := hv.one_le
  have hiv := hv.start_le
  have hstop := hv.stop_le
  have hcard : (covered iv mine).card ≤ iv.stop+1-iv.start := by
    rw [← Nat.card_Icc]
    exact Finset.card_filter_le _ _
  have hwidth : (iv.stop : Int)-iv.start+1=(iv.stop+1-iv.start : Nat) := by omega
  unfold uncoveredBy64
  rw [Option.bind_eq_bind,checked64_bind (by omega) (by omega),
    checked64_bind (by omega) (by omega),if_neg (by omega),hwidth]
  exact uncoveredBy64_go hv mine hs _ hcard (by omega)

namespace GTIDSet

/-- What the intervals hold and `s` does not. -/
def lacking (s : GTIDSet) (l : List (String × GTIDInterval)) : Set Txn :=
  {t | (∃ e∈l,t.1=e.1 ∧ e.2.Has t.2) ∧ t∉s.txns}

theorem lacking_flat (s other : GTIDSet) : s.lacking other.flat=other.txns \ s.txns := by
  ext t
  refine and_congr_left fun _ => ⟨?_,?_⟩
  · rintro ⟨⟨u,iv⟩,he,rfl,h⟩
    exact ⟨iv,(mem_flat_iff other _ iv).mp he,h⟩
  · rintro ⟨iv,hiv,h⟩
    exact ⟨(t.1,iv),(mem_flat_iff other t.1 iv).mpr hiv,rfl,h⟩

variable [CaseMapping] {s other : GTIDSet}

theorem missingLoop64_eq (hs : Canonical s) (l : List (String × GTIDInterval))
    (hl : ∀ e∈l,Valid e.2) (missing : Nat) (hm : missing ≤ maxInt64) :
    s.missingLoop64 missing l=some (s.missingLoop missing l : Int) := by
  induction l generalizing missing with
  | nil => rfl
  | cons e l ih =>
    have hv := hl e (by simp)
    have hn := uncoveredBy_le e.2 (s.get e.1) (hs.separated e.1) hv
    rw [missingLoop64,missingLoop,uncoveredBy64_eq hv (hs.separated e.1),Option.bind_eq_bind,
      Option.bind_some,checked64_bind (by omega) (by omega)]
    split
    · rw [if_pos (by omega)]
      rfl
    · rw [if_neg (by omega),checked64_bind (by omega) (by omega)]
      exact ih (fun x hx => hl x (by simp [hx])) _ (by omega)

/-- No transaction is in two intervals of a set. -/
theorem Canonical.pairwise_flat (ho : Canonical other) :
    other.flat.Pairwise fun a b => a.1=b.1 → a.2.stop<b.2.start := by
  rw [flat,pairwise_flatMap]
  constructor
  · intro e he
    have hget := ((mem_entries_iff other e.1 e.2).mp he).2
    have hsep := (ho.separated e.1).2
    rw [hget] at hsep
    refine pairwise_map.mpr (hsep.imp ?_)
    intro a b h _
    exact Nat.lt_of_succ_lt h
  · refine (pairwise_map.mp other.nodupKeys).imp ?_
    intro e f hne x hx y hy h
    obtain ⟨a,-,rfl⟩ := mem_map.mp hx
    obtain ⟨b,-,rfl⟩ := mem_map.mp hy
    exact absurd h hne

theorem ncard_lacking (hs : Canonical s) (l : List (String × GTIDInterval))
    (hl : l.Pairwise fun a b => a.1=b.1 → a.2.stop<b.2.start) :
    (s.lacking l).Finite ∧
      (s.lacking l).ncard=(l.map fun e => uncoveredBy e.2 (s.get e.1)).sum := by
  induction l with
  | nil => simp [lacking]
  | cons e l ih =>
    obtain ⟨hlt,hl⟩ := pairwise_cons.mp hl
    obtain ⟨hfin,hcard⟩ := ih hl
    set piece : Finset Nat := (Finset.Icc e.2.start e.2.stop).filter (· ∉ points (s.get e.1))
    have hsplit : s.lacking (e::l)=Set.image (Prod.mk e.1) piece ∪ s.lacking l := by
      ext ⟨u,n⟩
      simp only [lacking,mem_cons,exists_eq_or_imp,Set.mem_ofPred_eq,Set.mem_union,
        Set.mem_image,piece,Finset.coe_filter,Finset.mem_Icc,mem_txns,Prod.mk.injEq,Span.Has]
      constructor
      · rintro ⟨⟨rfl,h⟩ | h,hn⟩
        · exact .inl ⟨n,⟨h,hn⟩,rfl,rfl⟩
        · exact .inr ⟨h,hn⟩
      · rintro (⟨m,⟨h,hn⟩,rfl,rfl⟩ | ⟨h,hn⟩)
        · exact ⟨.inl ⟨rfl,h⟩,hn⟩
        · exact ⟨.inr h,hn⟩
    have hpiece := piece.finite_toSet.image (Prod.mk e.1)
    have hdisj : Disjoint (Set.image (Prod.mk e.1) (piece : Set Nat)) (s.lacking l) := by
      refine Set.disjoint_left.mpr ?_
      rintro _ ⟨n,hn,rfl⟩ ⟨⟨x,hx,heq,hhas⟩,-⟩
      have := hlt x hx heq
      have := Finset.mem_Icc.mp (Finset.mem_filter.mp hn).1
      have := hhas.1
      omega
    rw [hsplit]
    refine ⟨hpiece.union hfin,?_⟩
    rw [Set.ncard_union_eq hdisj hpiece hfin,hcard,map_cons,sum_cons,
      uncoveredBy_eq _ _ (hs.separated e.1),
      Set.ncard_image_of_injective _ (Prod.mk_right_injective e.1),Set.ncard_coe_finset]

end GTIDSet

end Replication

namespace Engine

open Replication

namespace MariaPos

def addSaturating64 (total : Int) (n : UInt64) : Option Int :=
  if n.toNat > maxInt64 then some maxInt64
  else do
    let room ← checked64 (maxInt64-total)
    if n.toNat > room then return maxInt64
    checked64 (total+n.toNat)

/-- `MissingCount` with its arithmetic checked. -/
def missingLoop64 (p : MariaPos) (missing : Int) :
    List (Sigma fun _ : UInt32 => MariaEntry) → Option Int
  | [] => some missing
  | ⟨domain,wanted⟩::rest =>
    match p.lookup domain with
    | some mine =>
      if mine.seq<wanted.seq then
        (addSaturating64 missing (wanted.seq-mine.seq)).bind (missingLoop64 p · rest)
      else missingLoop64 p missing rest
    | none => (addSaturating64 missing wanted.seq).bind (missingLoop64 p · rest)

variable (p want : MariaPos)

def missingCount64 : Option Int := p.missingLoop64 0 want.entries

theorem addSaturating64_eq {total : Nat} (n : UInt64) (h : total ≤ maxInt64) :
    addSaturating64 total n=some (addSaturating total n.toNat : Int) := by
  unfold addSaturating64 addSaturating
  split
  · rfl
  · rw [Option.bind_eq_bind,checked64_bind (by omega) (by omega)]
    split
    · rw [if_pos (by omega)]
      rfl
    · rw [if_neg (by omega),checked64_of_le (by omega) (by omega)]
      rfl

theorem missingLoop64_eq (p : MariaPos) (l : List (Sigma fun _ : UInt32 => MariaEntry))
    (missing : Nat) (hm : missing ≤ maxInt64) :
    p.missingLoop64 missing l=some (p.missingLoop missing l : Int) := by
  induction l generalizing missing with
  | nil => rfl
  | cons e l ih =>
    obtain ⟨domain,wanted⟩ := e
    have hstep : ∀ n : UInt64,(addSaturating64 missing n).bind (p.missingLoop64 · l) =
        some (p.missingLoop (addSaturating missing n.toNat) l : Int) := by
      intro n
      have hadd := addSaturating_eq n.toNat hm
      rw [addSaturating64_eq n hm,Option.bind_some]
      exact ih _ (by omega)
    rw [missingLoop64,missingLoop]
    cases p.lookup domain with
    | none => exact hstep wanted.seq
    | some mine =>
      simp only
      split
      · rename_i hlt
        rw [hstep,UInt64.toNat_sub_of_le _ _ (UInt64.le_of_lt hlt)]
      · exact ih missing hm

theorem sum_entries : (want.entries.map fun e => e.2.seq.toNat-p.reached e.1).sum =
      (want.keys.map fun d => want.reached d-p.reached d).sum := by
  rw [AList.keys,List.keys,map_map]
  congr 1
  refine List.map_congr_left fun e he => ?_
  simp [reached,Option.mem_def.mp (AList.mem_lookup_iff.mpr he)]

theorem missingCount64_eq : p.missingCount64 want =
    some ↑(min (want.keys.map fun d => want.reached d-p.reached d).sum maxInt64) := by
  rw [missingCount64,← Nat.cast_zero,missingLoop64_eq p _ 0 (Nat.zero_le _),
    missingLoop_eq p 0 _ (Nat.zero_le _),Nat.zero_add,sum_entries,min_comm]

theorem missingCount64_eq_zero_iff : p.missingCount64 want=some 0 ↔ want.txns ⊆ p.txns := by
  rw [missingCount64_eq,txns_subset_iff]
  have hmin : ∀ n,some (↑(min n maxInt64) : Int)=some 0 ↔ n=0 := by
    intro n
    rw [Option.some_inj]
    simp only [maxInt64]
    omega
  rw [hmin,List.sum_eq_zero_iff_forall_eq_nat]
  constructor
  · intro h d
    by_cases hd : d∈want
    · have := h _ (mem_map.mpr ⟨d,AList.mem_keys.mp hd,rfl⟩)
      omega
    · simp [reached,AList.lookup_eq_none.mpr hd]
  · intro h n hn
    obtain ⟨d,-,rfl⟩ := mem_map.mp hn
    have := h d
    omega

theorem contains_iff : p.contains want=true ↔ want.txns ⊆ p.txns ∧ ∀ d∈want, d∈p := by
  rw [txns_subset_iff]
  constructor
  · intro h
    refine ⟨reached_le_of_contains p want h,fun d hd => ?_⟩
    obtain ⟨e,he⟩ := Option.isSome_iff_exists.mp (AList.lookup_isSome.mpr hd)
    have hmine := all_eq_true.mp h ⟨d,e⟩ (AList.mem_lookup_iff.mp he)
    by_contra hp
    simp [AList.lookup_eq_none.mpr hp] at hmine
  · rintro ⟨h,hd⟩
    refine all_eq_true.mpr fun e he => ?_
    have hle := h e.1
    have hp := hd e.1 (AList.mem_keys.mpr (mem_keys_of_mem he))
    obtain ⟨mine,hmine⟩ := Option.isSome_iff_exists.mp (AList.lookup_isSome.mpr hp)
    rw [reached,reached,Option.mem_def.mp (AList.mem_lookup_iff.mpr he),hmine] at hle
    simpa [hmine,UInt64.le_iff_toNat_le] using hle

end MariaPos

/-- Both counts are exact up to the largest `int64`, where they stop, and no step of them overflows;
they are zero when nothing is missing. -/
theorem missingCounts_exact [CaseMapping] (s other : GTIDSet) (hs : s.Canonical)
    (ho : other.Canonical) (p want : MariaPos) :
    ((other.txns \ s.txns).Finite ∧
      s.missingCount64 other=some ↑(min (other.txns \ s.txns).ncard maxInt64) ∧
      (s.missingCount64 other=some 0 ↔ other.txns ⊆ s.txns) ∧
      (s.contains other=true ↔ other.txns ⊆ s.txns)) ∧
    p.missingCount64 want =
      some ↑(min (want.keys.map fun d => want.reached d-p.reached d).sum maxInt64) ∧
    (p.missingCount64 want=some 0 ↔ want.txns ⊆ p.txns) ∧
    (p.contains want=true ↔ want.txns ⊆ p.txns ∧ ∀ d∈want, d∈p) := by
  obtain ⟨hfin,hcard⟩ := GTIDSet.ncard_lacking hs _ ho.pairwise_flat
  rw [GTIDSet.lacking_flat] at hfin hcard
  have hv : ∀ e∈other.flat, Valid e.2 := fun e he => (ho.normal.of_mem_flat e he).2
  have hcount : s.missingCount64 other =
      some ↑(min (other.txns \ s.txns).ncard maxInt64) := by
    rw [GTIDSet.missingCount64,← Nat.cast_zero,
      GTIDSet.missingLoop64_eq hs _ hv 0 (Nat.zero_le _),
      GTIDSet.missingLoop_eq s hs _ hv 0 (Nat.zero_le _),Nat.zero_add,hcard,min_comm]
  refine ⟨⟨hfin,hcount,?_,GTIDSet.contains_iff s other hs ho⟩,p.missingCount64_eq want,
    p.missingCount64_eq_zero_iff want,p.contains_iff want⟩
  rw [hcount,← Set.sdiff_eq_empty,← Set.ncard_eq_zero hfin,Option.some_inj]
  simp only [maxInt64]
  omega

/-- Two sources, of which one has used up its numbers. -/
def bothSources : GTIDSet :=
  (GTIDSet.addInterval ∅ "a" ⟨1,maxInt64⟩).addInterval "b" ⟨1,2⟩

theorem missingCounts_saturated : bothSources.Canonical ∧
    (bothSources.txns \ (∅ : GTIDSet).txns).Finite ∧
    GTIDSet.missingCount64 ∅ bothSources =
      some ↑(min (bothSources.txns \ (∅ : GTIDSet).txns).ncard maxInt64) ∧
    GTIDSet.missingCount64 ∅ bothSources=some maxInt64 := by
  have ha := GTIDSet.addInterval_correct ∅ GTIDSet.canonical_empty "a"
    ⟨by decide,by decide,by simp [isBlank]⟩ ⟨1,maxInt64⟩ (by decide)
  have hb := GTIDSet.addInterval_correct _ ha.1 "b" ⟨by decide,by decide,by simp [isBlank]⟩ ⟨1,2⟩
    (by decide)
  have h := (missingCounts_exact ∅ bothSources GTIDSet.canonical_empty hb.1 ∅ ∅).1
  exact ⟨hb.1,h.1,h.2.1,by decide⟩

end Engine

end Cnmsql
