import Mathlib.Data.List.Forall2

namespace Cnmsql.Framework

open List

universe u

variable {ε ε' : Type*} {α β : Type u} {x : Except ε α} {f : α → Except ε β}

theorem bind_eq_ok {b : β} : x >>= f = .ok b ↔ ∃ a, x = .ok a ∧ f a = .ok b := by
  cases x with
  | error e | ok a => simp [bind,Except.bind]

theorem check_bind_eq_ok {β : Type} {x : Except ε Unit} {f : Unit → Except ε β} {b : β} :
    x >>= f = .ok b ↔ x = .ok () ∧ f () = .ok b := by
  cases x with
  | error e | ok a => simp [bind,Except.bind]

theorem bind_eq_error {e : ε} :
    x >>= f = .error e ↔ x = .error e ∨ ∃ a, x = .ok a ∧ f a = .error e := by
  cases x with
  | error e | ok a => simp [bind,Except.bind]

theorem mapError_eq_ok {f : ε → ε'} {a : α} : x.mapError f = .ok a ↔ x = .ok a := by
  cases x with
  | error e =>
    change (.error (f e) : Except ε' α) = .ok a ↔ _
    simp
  | ok b =>
    change (.ok b : Except ε' α) = .ok a ↔ _
    simp

theorem exists_ok_of_any {test : α → Bool} (h : x.toOption.any test=true) :
    ∃ a, x = .ok a ∧ test a=true := by
  cases x with
  | error e => simp [Except.toOption] at h
  | ok a => exact ⟨a,rfl,by simpa [Except.toOption] using h⟩

theorem forall₂_of_mapM {α β : Type} {f : α → Except ε β} {l : List α} {r : List β}
    (h : l.mapM f = .ok r) : List.Forall₂ (fun a b => f a = .ok b) l r := by
  induction l generalizing r with
  | nil =>
    cases h
    exact List.Forall₂.nil
  | cons a l ih =>
    rw [mapM_cons,bind_eq_ok] at h
    obtain ⟨b,hb,h⟩ := h
    rw [bind_eq_ok] at h
    obtain ⟨bs,hbs,h⟩ := h
    cases h
    exact List.Forall₂.cons hb (ih hbs)

theorem exists_mapM {α β : Type} {f : α → Except ε β} {l : List α} (h : ∀ a∈l,∃ b,f a = .ok b) :
    ∃ r, l.mapM f = .ok r := by
  induction l with
  | nil => exact ⟨[],rfl⟩
  | cons a l ih =>
    obtain ⟨b,hb⟩ := h a mem_cons_self
    obtain ⟨bs,hbs⟩ := ih fun a' ha' => h a' (mem_cons_of_mem _ ha')
    refine ⟨b::bs,?_⟩
    rw [mapM_cons,hb,hbs]
    rfl

theorem exists_of_forall₂ {α β : Type*} {R : α → β → Prop} {l : List α} {l' : List β}
    (h : List.Forall₂ R l l') {a : α} (ha : a∈l) : ∃ b∈l', R a b := by
  induction h with
  | nil => simp at ha
  | cons hR _ ih =>
    rcases mem_cons.mp ha with rfl | ha
    · exact ⟨_,mem_cons_self,hR⟩
    · obtain ⟨b,hb,hab⟩ := ih ha
      exact ⟨b,mem_cons_of_mem _ hb,hab⟩

theorem foldl_eq_of_forall₂ {α β : Type*} {f : β → α → β} {l l' : List α}
    (h : List.Forall₂ (fun a a' => ∀ b,f b a'=f b a) l l') (b : β) : l'.foldl f b=l.foldl f b := by
  induction h generalizing b with
  | nil => rfl
  | cons hR _ ih => rw [foldl_cons,foldl_cons,hR,ih]

/-- What such a loop stores under a key: the result of a round for it. -/
theorem lookup_of_forall₂ {κ β : Type} [DecidableEq κ] {P : κ → β → Prop} {keys : List κ}
    {r : List (κ × β)} (h : List.Forall₂ (fun k p => p.1=k ∧ P k p.2) keys r) {k : κ}
    (hk : k∈keys) : ∃ b, r.lookup k=some b ∧ P k b := by
  induction h with
  | nil => simp at hk
  | @cons a p keys r hp _ ih =>
    obtain ⟨a',b⟩ := p
    obtain ⟨ha,hP⟩ := hp
    simp only at ha hP
    subst ha
    by_cases hka : k=a'
    · subst hka
      exact ⟨b,by simp,hP⟩
    · have hmem : k∈keys := (mem_cons.mp hk).resolve_left hka
      have hbeq : (k == a')=false := by simpa using hka
      simpa [lookup_cons,hbeq] using ih hmem

theorem exists_ok (x : Except ε α) (h : x.isOk=true) : ∃ a, x = .ok a := by
  cases x with
  | error e => simp [Except.isOk,Except.toBool] at h
  | ok a => exact ⟨a,rfl⟩

def require (c : Prop) [Decidable c] (e : ε) : Except ε Unit := if c then .ok () else .error e

theorem require_eq_ok {c : Prop} [Decidable c] {e : ε} : require c e = .ok () ↔ c := by
  by_cases h : c <;> simp [require,h]

theorem require_eq_error {c : Prop} [Decidable c] {e e' : ε} :
    require c e = .error e' ↔ ¬c ∧ e=e' := by
  by_cases h : c <;> simp [require,h]

def runIf (c : Prop) [Decidable c] (x : Except ε Unit) : Except ε Unit := if c then x else .ok ()

theorem runIf_eq_ok {c : Prop} [Decidable c] {x : Except ε Unit} :
    runIf c x = .ok () ↔ (c → x = .ok ()) := by
  by_cases h : c <;> simp [runIf,h]

theorem runIf_eq_error {c : Prop} [Decidable c] {x : Except ε Unit} {e : ε} :
    runIf c x = .error e ↔ c ∧ x = .error e := by
  by_cases h : c <;> simp [runIf,h]

def Avoids (bad : ε → Prop) (x : Except ε α) : Prop := ∀ e,x = .error e → ¬bad e

variable {bad : ε → Prop}

theorem avoids_ok (a : α) : Avoids bad (.ok a : Except ε α) := by
  intro e he
  cases he

theorem avoids_error {e : ε} (h : ¬bad e) : Avoids bad (.error e : Except ε α) := by
  intro e' he
  cases he
  exact h

theorem Avoids.bind {x : Except ε α} {f : α → Except ε β} (hx : Avoids bad x)
    (hf : ∀ a,Avoids bad (f a)) : Avoids bad (x >>= f) := by
  intro e he
  cases bind_eq_error.mp he with
  | inl herr => exact hx e herr
  | inr hnext =>
    obtain ⟨a,_,herr⟩ := hnext
    exact hf a e herr

theorem avoids_mapError (x : Except ε' α) {f : ε' → ε} (hf : ∀ e,¬bad (f e)) :
    Avoids bad (x.mapError f) := by
  cases x with
  | error e => exact avoids_error (hf e)
  | ok a => exact avoids_ok a

theorem avoids_mapM {α β : Type} {f : α → Except ε β} (hf : ∀ a,Avoids bad (f a)) (l : List α) :
    Avoids bad (l.mapM f) := by
  induction l with
  | nil => exact avoids_ok _
  | cons a l ih =>
    rw [mapM_cons]
    exact (hf a).bind fun _ => ih.bind fun _ => avoids_ok _

theorem avoids_require (c : Prop) [Decidable c] {e : ε} (h : ¬bad e) :
    Avoids bad (require c e) := by
  intro e' he
  rw [(require_eq_error.mp he).2.symm]
  exact h

theorem Avoids.runIf {x : Except ε Unit} (hx : Avoids bad x) (c : Prop) [Decidable c] :
    Avoids bad (Framework.runIf c x) := by
  intro e he
  exact hx e (runIf_eq_error.mp he).2

end Cnmsql.Framework
