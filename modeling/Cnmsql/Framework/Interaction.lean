import Mathlib.Logic.Basic

namespace Cnmsql.Framework

/-- A program is done, or makes a call and goes on with the answer. -/
inductive Prog (Op : Type) (Res : Op → Type) (α : Type) where
  | pure (a : α)
  | call (op : Op) (k : Res op → Prog Op Res α)

/-- What may be called given what is known, and what an answer adds to that. -/
structure Discipline (Op : Type) (Res : Op → Type) (κ : Type) where
  allowed : κ → Op → Prop
  next : κ → (op : Op) → Res op → κ

namespace Prog

variable {Op : Type} {Res : Op → Type} {α β κ : Type}

def bind : Prog Op Res α → (α → Prog Op Res β) → Prog Op Res β
  | .pure a,f => f a
  | .call op k,f => .call op fun r => (k r).bind f

instance : Monad (Prog Op Res) where
  pure := Prog.pure
  bind := Prog.bind

instance : LawfulMonad (Prog Op Res) := LawfulMonad.mk' (Prog Op Res)
  (by
    intro α p
    change p.bind Prog.pure=p
    induction p with
    | pure a => rfl
    | call op k ih => exact congrArg (Prog.call op) (funext ih))
  (fun _ _ => rfl)
  (by
    intro α β γ p g h
    change (p.bind g).bind h=p.bind fun a => (g a).bind h
    induction p with
    | pure a => rfl
    | call op k ih => exact congrArg (Prog.call op) (funext ih))

def perform (op : Op) : Prog Op Res (Res op) := .call op .pure

/-- Every call the program can come to is allowed, and `Q` holds of what is known when it is done.
-/
def Obeys (d : Discipline Op Res κ) (Q : κ → α → Prop) (know : κ) : Prog Op Res α → Prop
  | .pure a => Q know a
  | .call op k => d.allowed know op ∧ ∀ r,Obeys d Q (d.next know op r) (k r)

variable {d : Discipline Op Res κ} {p : Prog Op Res α} {f : α → Prog Op Res β}

@[simp] theorem obeys_bind {Q : κ → β → Prop} {know : κ} :
    Obeys d Q know (p >>= f) ↔ Obeys d (fun know a => Obeys d Q know (f a)) know p := by
  change Obeys d Q know (p.bind f) ↔ _
  induction p generalizing know with
  | pure a => rfl
  | call op k ih =>
    apply and_congr_right
    intro _
    apply forall_congr'
    intro r
    exact ih r

@[simp] theorem obeys_perform_bind {op : Op} {f : Res op → Prog Op Res β} {Q : κ → β → Prop}
    {know : κ} :
    Obeys d Q know (perform op >>= f) ↔
      d.allowed know op ∧ ∀ r,Obeys d Q (d.next know op r) (f r) := Iff.rfl

theorem Obeys.mono {Q R : κ → α → Prop} (h : ∀ know a,Q know a → R know a)
    {know : κ} (hp : Obeys d Q know p) : Obeys d R know p := by
  induction p generalizing know with
  | pure a => exact h know a hp
  | call op k ih => exact ⟨hp.1,fun r => ih r (hp.2 r)⟩

/-- The program comes to `a` when its calls are answered as recorded. -/
inductive Yields : Prog Op Res α → List (Sigma Res) → α → Prop
  | pure (a : α) : Yields (.pure a) [] a
  | call {op : Op} {k : Res op → Prog Op Res α} {r : Res op} {record : List (Sigma Res)} {a : α}
      (h : Yields (k r) record a) : Yields (.call op k) (⟨op,r⟩::record) a

theorem Yields.bind {record record' : List (Sigma Res)}
    {a : α} {b : β} (hp : Yields p record a) (hf : Yields (f a) record' b) :
    Yields (p >>= f) (record++record') b := by
  induction hp with
  | pure a => exact hf
  | call _ ih => exact .call (ih hf)

/-- What is left of a program once its calls were answered as recorded. -/
inductive Resumes (p : Prog Op Res α) : List (Sigma Res) → Prog Op Res α → Prop
  | refl : Resumes p [] p
  | call {record : List (Sigma Res)} {op : Op} {k : Res op → Prog Op Res α}
      (h : Resumes p record (.call op k)) (r : Res op) : Resumes p (record++[⟨op,r⟩]) (k r)

theorem Resumes.yields {p q : Prog Op Res α} {record record' : List (Sigma Res)} {a : α}
    (h : Resumes p record q) (hq : Yields q record' a) : Yields p (record++record') a := by
  induction h generalizing record' with
  | refl => exact hq
  | call h r ih =>
    rw [List.append_assoc,List.singleton_append]
    exact ih (.call hq)

def playBack [DecidableEq Op] : Prog Op Res α → List (Sigma Res) → Option α
  | .pure a,[] => some a
  | .call op k,e::record => if h : e.1=op then playBack (k (h ▸ e.2)) record else none
  | .pure _,_::_ | .call _ _,[] => none

theorem yields_of_playBack [DecidableEq Op] {p : Prog Op Res α} {record : List (Sigma Res)} {a : α}
    (h : playBack p record=some a) : Yields p record a := by
  induction p generalizing record with
  | pure =>
    cases record with
    | nil =>
      cases h
      exact .pure _
    | cons e record => cases h
  | call op k ih =>
    cases record with
    | nil => cases h
    | cons e record =>
      obtain ⟨op',r⟩ := e
      rw [playBack] at h
      split at h
      · rename_i heq
        subst heq
        exact .call (ih r h)
      · cases h

theorem Obeys.yields {Q : κ → α → Prop} {know : κ} (h : Obeys d Q know p)
    {record : List (Sigma Res)} {a : α} (hy : Yields p record a) :
    Q (record.foldl (fun know e => d.next know e.1 e.2) know) a := by
  induction hy generalizing know with
  | pure a => exact h
  | call _ ih => exact ih (h.2 _)

def recorder : Discipline Op Res (List (Sigma Res)) where
  allowed _ _ := True
  next record op r := record++[⟨op,r⟩]

theorem recorder_foldl (before record : List (Sigma Res)) :
    record.foldl (fun known e => recorder.next known e.1 e.2) before=before++record := by
  induction record generalizing before with
  | nil => rw [List.foldl_nil,List.append_nil]
  | cons e rest ih =>
    rw [List.foldl_cons,ih]
    show (before++[e])++rest=before++e::rest
    rw [List.append_assoc,List.singleton_append]

theorem Obeys.recorded {Q : List (Sigma Res) → α → Prop}
    (h : Obeys recorder Q [] p) {record : List (Sigma Res)} {a : α} (hy : Yields p record a) :
    Q record a := by
  have hQ := h.yields hy
  rwa [recorder_foldl,List.nil_append] at hQ

end Prog

end Cnmsql.Framework
