import Mathlib.Data.List.Sort

namespace Cnmsql.Framework

open List

/-- An inclusive range of natural numbers. -/
@[ext] structure Span where
  start : Nat
  stop : Nat
  deriving DecidableEq

namespace Span

def Has (iv : Span) (n : Nat) : Prop := iv.start≤n ∧ n ≤ iv.stop

instance (iv : Span) (n : Nat) : Decidable (iv.Has n) :=
  inferInstanceAs (Decidable (iv.start≤n ∧ n ≤ iv.stop))

end Span

def points (l : List Span) : Set Nat := {n | ∃ iv∈l,iv.Has n}

variable (iv : Span) (l m : List Span)

@[simp] theorem mem_points (n : Nat) :
    n∈points l ↔ ∃ iv∈l, iv.Has n := Iff.rfl

instance (l : List Span) : DecidablePred (· ∈ points l) := fun n =>
  inferInstanceAs (Decidable (∃ iv∈l,iv.Has n))

@[simp] theorem points_nil : points []=∅ := by
  ext n
  simp

theorem points_cons : points (iv::l)={n | iv.Has n} ∪ points l := by
  ext n
  simp

theorem points_append : points (l++m)=points l ∪ points m := by
  ext n
  simp [or_and_right,exists_or]

theorem points_perm (h : l.Perm m) : points l=points m := by
  ext n
  simp [h.mem_iff]

/-- Non-empty ranges in increasing order, none of which overlap or touch. -/
def Separated (l : List Span) : Prop :=
  (∀ iv∈l,iv.start ≤ iv.stop) ∧ l.Pairwise (fun a b => a.stop+1<b.start)

instance (l : List Span) : Decidable (Separated l) :=
  inferInstanceAs (Decidable (_ ∧ _))

theorem separated_nil : Separated [] := by simp [Separated]

theorem separated_singleton (h : iv.start ≤ iv.stop) : Separated [iv] := by
  simp [Separated,h]

theorem separated_cons :
    Separated (iv::l) ↔
      iv.start ≤ iv.stop ∧ (∀ b∈l,iv.stop+1<b.start) ∧ Separated l := by
  simp only [Separated,mem_cons,forall_eq_or_imp,pairwise_cons]
  tauto

theorem Separated.tail {iv : Span} {l : List Span} (h : Separated (iv::l)) :
    Separated l := ((separated_cons iv l).mp h).2.2

theorem separated_append :
    Separated (l++m) ↔
      Separated l ∧ Separated m ∧ ∀ a∈l,∀ b∈m, a.stop+1<b.start := by
  simp only [Separated,mem_append,pairwise_append]
  constructor
  · rintro ⟨hv,hl,hm,hlm⟩
    exact ⟨⟨fun a ha => hv a (.inl ha),hl⟩,⟨fun a ha => hv a (.inr ha),hm⟩,hlm⟩
  · rintro ⟨⟨vl,hl⟩,⟨vm,hm⟩,hlm⟩
    exact ⟨fun a ha => ha.elim (vl a) (vm a),hl,hm,hlm⟩

theorem separated_start_mem (h : Separated l) (iv : Span) (hi : iv∈l) : iv.start∈points l :=
  ⟨iv,hi,le_refl _,h.1 iv hi⟩

theorem separated_head_le (h : Separated (iv::l)) (n : Nat) (hn : n∈points (iv::l)) :
    iv.start≤n := by
  obtain ⟨hle,hlt,_⟩ := (separated_cons iv l).mp h
  obtain ⟨b,hb,hlo,_⟩ := hn
  rcases mem_cons.mp hb with rfl | hb
  · exact hlo
  · have := hlt b hb
    omega

theorem separated_tail_lt (h : Separated (iv::l)) (n : Nat) (hn : n∈points l) :
    iv.stop+1<n := by
  obtain ⟨_,hlt,_⟩ := (separated_cons iv l).mp h
  obtain ⟨b,hb,hlo,_⟩ := hn
  have := hlt b hb
  omega

theorem separated_gap (h : Separated (iv::l)) : iv.stop+1∉points (iv::l) := by
  rintro ⟨b,hb,hlo,hhi⟩
  rcases mem_cons.mp hb with rfl | hb
  · omega
  · have := separated_tail_lt iv l h (iv.stop+1) ⟨b,hb,hlo,hhi⟩
    omega

theorem separated_getLast (h : Separated l) {m : Span} (hm : l.getLast?=some m) :
    m.stop∈points l ∧ ∀ n∈points l, n ≤ m.stop := by
  obtain ⟨pre,rfl⟩ := List.getLast?_eq_some_iff.mp hm
  obtain ⟨_,hs,hlt⟩ := (separated_append pre [m]).mp h
  have hle := hs.1 m (by simp)
  refine ⟨⟨m,by simp,hle,le_refl _⟩,?_⟩
  intro n hn
  obtain ⟨iv,hiv,hlo,hhi⟩ := hn
  cases mem_append.mp hiv with
  | inl h =>
    have := hlt iv h m (by simp)
    omega
  | inr h =>
    rw [mem_singleton] at h
    exact h ▸ hhi

private theorem head_eq_of_points {a b : Span} {l m : List Span}
    (hl : Separated (a::l)) (hm : Separated (b::m))
    (hp : points (a::l)=points (b::m)) : a=b := by
  have ha := separated_start_mem _ hl a (by simp)
  have hb := separated_start_mem _ hm b (by simp)
  have hab : b.start≤a.start := separated_head_le b m hm _ (hp ▸ ha)
  have hba : a.start≤b.start := separated_head_le a l hl _ (hp.symm ▸ hb)
  have hs : a.start=b.start := by omega
  have va := ((separated_cons a l).mp hl).1
  have vb := ((separated_cons b m).mp hm).1
  have ga := separated_gap a l hl
  have gb := separated_gap b m hm
  have he : a.stop=b.stop := by
    rcases Nat.lt_trichotomy a.stop b.stop with h | h | h
    · exfalso
      rw [hp] at ga
      exact ga ⟨b,by simp,by omega,by omega⟩
    · exact h
    · exfalso
      rw [← hp] at gb
      exact gb ⟨a,by simp,by omega,by omega⟩
  exact Span.ext hs he

/-- A set of numbers has one normal form. -/
theorem separated_unique (l m : List Span) (hl : Separated l) (hm : Separated m)
    (hp : points l=points m) : l=m := by
  induction l generalizing m with
  | nil =>
    cases m with
    | nil => rfl
    | cons b m =>
      have hb := separated_start_mem _ hm b (by simp)
      rw [← hp] at hb
      simp at hb
  | cons a l ih =>
    cases m with
    | nil =>
      have ha := separated_start_mem _ hl a (by simp)
      rw [hp] at ha
      simp at ha
    | cons b m =>
      have hab := head_eq_of_points hl hm hp
      subst hab
      have ht : points l=points m := by
        ext n
        constructor
        · intro hn
          have hlt := separated_tail_lt a l hl n hn
          have hn' : n∈points (a::m) := by
            rw [← hp,points_cons]
            exact .inr hn
          obtain ⟨c,hc,hlo,hhi⟩ := hn'
          rcases mem_cons.mp hc with rfl | hc
          · omega
          · exact ⟨c,hc,hlo,hhi⟩
        · intro hn
          have hlt := separated_tail_lt a m hm n hn
          have hn' : n∈points (a::l) := by
            rw [hp,points_cons]
            exact .inr hn
          obtain ⟨c,hc,hlo,hhi⟩ := hn'
          rcases mem_cons.mp hc with rfl | hc
          · omega
          · exact ⟨c,hc,hlo,hhi⟩
      rw [ih m hl.tail hm.tail ht]

/-- A non-empty range inside a separated list lies inside one member. -/
theorem separated_cover {l : List Span} (h : Separated l) {lo hi : Nat} (hle : lo≤hi)
    (hc : ∀ n,lo≤n → n≤hi → n∈points l) :
    ∃ m∈l, m.start≤lo ∧ hi ≤ m.stop := by
  induction l with
  | nil =>
    have := hc lo (le_refl _) hle
    simp at this
  | cons a l ih =>
    by_cases hlo : a.stop<lo
    · obtain ⟨m,hm,hms⟩ := ih h.tail (by
        intro n hn1 hn2
        obtain ⟨b,hb,hb1,hb2⟩ := hc n hn1 hn2
        rcases mem_cons.mp hb with rfl | hb
        · omega
        · exact ⟨b,hb,hb1,hb2⟩)
      exact ⟨m,mem_cons_of_mem _ hm,hms⟩
    · have hstart : a.start≤lo := separated_head_le a l h lo (hc lo (le_refl _) hle)
      refine ⟨a,by simp,hstart,?_⟩
      by_contra hhi
      exact separated_gap a l h (hc (a.stop+1) (by omega) (by omega))

end Cnmsql.Framework
