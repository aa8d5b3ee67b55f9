import Mathlib.Data.Option.Basic

namespace Cnmsql.Framework

variable {σ α : Type*} (step : σ → α → Option σ)

def exec (s : σ) : List α → Option σ
  | [] => some s
  | a::as => (step s a).bind fun s' => exec s' as

def Along (P : σ → α → σ → Prop) (s : σ) : List α → Prop
  | [] => True
  | a::as => ∀ s',step s a=some s' → P s a s' ∧ Along P s' as

theorem exec_cons {s t : σ} {a : α} {as : List α} :
    exec step s (a::as)=some t ↔ ∃ s',step s a=some s' ∧ exec step s' as=some t := by
  rw [exec,Option.bind_eq_some_iff]

theorem exec_append {s t : σ} {as bs : List α} :
    exec step s (as++bs)=some t ↔
      ∃ s',exec step s as=some s' ∧ exec step s' bs=some t := by
  induction as generalizing s with
  | nil => simp [exec]
  | cons a as ih =>
    rw [List.cons_append,exec_cons]
    simp only [ih,exec_cons]
    constructor
    · intro h
      obtain ⟨s',hs,u,hu,ht⟩ := h
      exact ⟨u,⟨s',hs,hu⟩,ht⟩
    · intro h
      obtain ⟨u,⟨s',hs,hu⟩,ht⟩ := h
      exact ⟨s',hs,u,hu,ht⟩

variable {step} {P Q : σ → α → σ → Prop}

instance instDecidableAlong [∀ s a s',Decidable (P s a s')] : ∀ s as,Decidable (Along step P s as)
  | _,[] => isTrue trivial
  | s,a::as =>
    match h : step s a with
    | none => isTrue (by simp [Along,h])
    | some s' =>
      have := instDecidableAlong s' as
      decidable_of_iff (P s a s' ∧ Along step P s' as) (by simp [Along,h])

theorem along_of_step (h : ∀ s a s',step s a=some s' → P s a s') (s : σ) (as : List α) :
    Along step P s as := by
  induction as generalizing s with
  | nil => trivial
  | cons a as ih =>
    intro s' hs
    exact ⟨h s a s' hs,ih s'⟩

theorem along_congr (h : ∀ s a s',step s a=some s' → (P s a s' ↔ Q s a s')) (s : σ)
    (as : List α) : Along step P s as ↔ Along step Q s as := by
  induction as generalizing s with
  | nil => rfl
  | cons a as ih =>
    apply forall_congr'
    intro s'
    apply imp_congr_right
    intro hs
    rw [h s a s' hs,ih s']

theorem Along.imp (h : ∀ s a s',step s a=some s' → P s a s' → Q s a s') {s : σ} {as : List α}
    (hP : Along step P s as) : Along step Q s as := by
  induction as generalizing s with
  | nil => trivial
  | cons a as ih =>
    intro s' hs
    exact ⟨h s a s' hs (hP s' hs).1,ih (hP s' hs).2⟩

theorem Along.cons {s s' : σ} {a : α} {as : List α} (hs : step s a=some s') (hP : P s a s')
    (h : Along step P s' as) : Along step P s (a::as) := by
  intro t ht
  cases hs.symm.trans ht
  exact ⟨hP,h⟩

theorem Along.and {s : σ} {as : List α} (hP : Along step P s as) (hQ : Along step Q s as) :
    Along step (fun s a s' => P s a s' ∧ Q s a s') s as := by
  induction as generalizing s with
  | nil => trivial
  | cons a as ih =>
    intro s' hs
    exact ⟨⟨(hP s' hs).1,(hQ s' hs).1⟩,ih (hP s' hs).2 (hQ s' hs).2⟩

theorem Along.append {s : σ} {as bs : List α} (h : Along step P s (as++bs)) :
    Along step P s as ∧ ∀ t,exec step s as=some t → Along step P t bs := by
  induction as generalizing s with
  | nil =>
    apply And.intro trivial
    intro t ht
    cases ht
    exact h
  | cons a as ih =>
    apply And.intro
    · intro s' hs
      exact ⟨(h s' hs).1,(ih (h s' hs).2).1⟩
    · intro t ht
      obtain ⟨s',hs,ht⟩ := (exec_cons step).mp ht
      exact (ih (h s' hs).2).2 t ht

theorem exec_rel {R : σ → σ → Prop} (hrefl : ∀ s,R s s)
    (htrans : ∀ s t u,R s t → R t u → R s u)
    (hstep : ∀ s a s',step s a=some s' → P s a s' → R s s') {s t : σ} {as : List α}
    (hP : Along step P s as) (h : exec step s as=some t) : R s t := by
  induction as generalizing s with
  | nil =>
    cases h
    exact hrefl t
  | cons a as ih =>
    obtain ⟨s',hs,ht⟩ := (exec_cons step).mp h
    exact htrans s s' t (hstep s a s' hs (hP s' hs).1) (ih (hP s' hs).2 ht)

section

variable {I : σ → Prop} (hstep : ∀ s a s',step s a=some s' → P s a s' → I s → I s')
include hstep

theorem exec_invariant {s t : σ} {as : List α}
    (hP : Along step P s as) (h : exec step s as=some t) (hs : I s) : I t :=
  exec_rel (R := fun s t => I s → I t) (fun _ h => h) (fun _ _ _ h h' hs => h' (h hs)) hstep
    hP h hs

theorem Along.imp_invariant
    (h : ∀ s a s',step s a=some s' → P s a s' → I s → Q s a s') {s : σ} {as : List α}
    (hP : Along step P s as) (hs : I s) : Along step Q s as := by
  induction as generalizing s with
  | nil => trivial
  | cons a as ih =>
    intro s' hs'
    have hPs := hP s' hs'
    exact ⟨h s a s' hs' hPs.1 hs,ih hPs.2 (hstep s a s' hs' hPs.1 hs)⟩

theorem Along.invariant {s : σ} {as : List α}
    (hP : Along step P s as) (hs : I s) : Along step (fun _ _ s' => I s') s as :=
  hP.imp_invariant hstep hstep hs

end

theorem exec_reaches {test : σ → Bool} {s : σ} {as : List α}
    (h : (exec step s as).any test=true) : ∃ t,exec step s as=some t ∧ test t=true := by
  cases hrun : exec step s as with
  | none => simp [hrun] at h
  | some t => exact ⟨t,rfl,by simpa [hrun] using h⟩

end Cnmsql.Framework
