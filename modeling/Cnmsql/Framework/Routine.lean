import Mathlib.Order.Defs.Unbundled
import Cnmsql.Framework.Interaction

namespace Cnmsql.Framework

/-- A program with a memory of its own that may fail, keeping what it did to it. -/
abbrev Routine (Op : Type) (Res : Op → Type) (σ ε : Type) := ExceptT ε (StateT σ (Prog Op Res))

namespace Routine

variable {Op : Type} {Res : Op → Type} {σ ε ε' α β κ : Type}

def call (op : Op) : Routine Op Res σ ε (Res op) := ExceptT.lift (StateT.lift (Prog.perform op))

def attempt (m : Routine Op Res σ ε α) : Routine Op Res σ ε' (Except ε α) := ExceptT.lift m.run

def ofExcept : Except ε α → Routine Op Res σ ε α
  | .ok a => pure a
  | .error e => throw e

/-- The routine ends with `r` and `mem'` when answered as recorded. -/
abbrev Ends (m : Routine Op Res σ ε α) (mem : σ) (record : List (Sigma Res)) (r : Except ε α)
    (mem' : σ) : Prop :=
  Prog.Yields (m.run.run mem) record (r,mem')

section

variable {mem mem' : σ} {record : List (Sigma Res)} {res : Except ε β}

theorem Ends.call_bind {op : Op} {f : Res op → Routine Op Res σ ε β} {r : Res op}
    (h : Ends (f r) mem record res mem') : Ends (call op >>= f) mem (⟨op,r⟩::record) res mem' :=
  Prog.Yields.call h

variable {f : α → Routine Op Res σ ε β}

theorem Ends.ofExcept_bind {a : α} (h : Ends (f a) mem record res mem') :
    Ends (ofExcept (.ok a) >>= f) mem record res mem' := h

theorem Ends.get_bind {f : σ → Routine Op Res σ ε β} (h : Ends (f mem) mem record res mem') :
    Ends (get >>= f) mem record res mem' := h

theorem Ends.throw_bind {e : ε} :
    Ends (throw e >>= f) mem [] (.error e) mem := Prog.Yields.pure _

theorem Ends.bind {m : Routine Op Res σ ε α} {f : α → Routine Op Res σ ε β} {mem₁ : σ} {a : α}
    {record' : List (Sigma Res)} (h : Ends m mem record (.ok a) mem₁)
    (hf : Ends (f a) mem₁ record' res mem') : Ends (m >>= f) mem (record++record') res mem' :=
  Prog.Yields.bind h hf

theorem Ends.error_bind {m : Routine Op Res σ ε α} {e : ε} (h : Ends m mem record (.error e) mem') :
    Ends (m >>= f) mem record (.error e) mem' := by
  have hpure : Prog.Yields (.pure (.error e,mem') : Prog Op Res (Except ε β × σ)) [] (.error e, mem') :=
    .pure _
  rw [← List.append_nil record]
  exact Prog.Yields.bind h hpure

end

/-- The routine keeps the discipline, and `Q` holds when it ends. -/
def Meets (d : Discipline Op Res κ) (Q : κ → σ → Except ε α → Prop) (know : κ) (mem : σ)
    (m : Routine Op Res σ ε α) : Prop :=
  Prog.Obeys d (fun know r => Q know r.2 r.1) know (m.run.run mem)

variable {d : Discipline Op Res κ} {know : κ} {mem : σ}

theorem meets_pure {Q : κ → σ → Except ε α → Prop} {a : α} :
    Meets d Q know mem (pure a : Routine Op Res σ ε α) ↔ Q know mem (.ok a) := Iff.rfl

theorem meets_modify {Q : κ → σ → Except ε PUnit → Prop} {g : σ → σ} :
    Meets d Q know mem (modify g : Routine Op Res σ ε PUnit) ↔ Q know (g mem) (.ok ⟨⟩) := Iff.rfl

variable {Q : κ → σ → Except ε β → Prop} {m : Routine Op Res σ ε α}

theorem meets_call_bind {op : Op} {f : Res op → Routine Op Res σ ε β} :
    Meets d Q know mem (call op >>= f) ↔
      d.allowed know op ∧ ∀ r,Meets d Q (d.next know op r) mem (f r) := Iff.rfl

theorem meets_bind {f : α → Routine Op Res σ ε β} :
    Meets d Q know mem (m >>= f) ↔
      Meets d (fun know mem r =>
        match r with
        | .ok a => Meets d Q know mem (f a)
        | .error e => Q know mem (.error e)) know mem m := by
  change Prog.Obeys d _ know (m.run.run mem >>= _) ↔ _
  rw [Prog.obeys_bind]
  constructor
  all_goals
    intro h
    refine h.mono ?_
    intro know r hr
    obtain ⟨result,mem⟩ := r
    cases result with
    | ok a => exact hr
    | error e => exact hr

theorem meets_attempt {Q : κ → σ → Except ε' (Except ε α) → Prop} :
    Meets d Q know mem (attempt m : Routine Op Res σ ε' (Except ε α)) ↔
      Meets d (fun know mem r => Q know mem (.ok r)) know mem m := by
  change Prog.Obeys d _ know (m.run.run mem >>= _) ↔ _
  rw [Prog.obeys_bind]
  rfl

theorem Meets.mono {Q R : κ → σ → Except ε α → Prop} {m : Routine Op Res σ ε α}
    (h : ∀ know mem r,Q know mem r → R know mem r) (hm : Meets d Q know mem m) :
    Meets d R know mem m :=
  Prog.Obeys.mono (fun know r hr => h know r.2 r.1 hr) hm

variable {R S : κ → κ → Prop} [IsPreorder κ R] {I : κ → σ → Prop}

/-- The routine keeps the discipline and `I`, what is known changes as `R` allows, and `Q` holds of
a result. -/
def Keeps (d : Discipline Op Res κ) (R : κ → κ → Prop) (I : κ → σ → Prop) (Q : κ → σ → α → Prop)
    (know : κ) (mem : σ) (m : Routine Op Res σ ε α) : Prop :=
  Meets d (fun know' mem' r => I know' mem' ∧ R know know' ∧ ∀ a,r = .ok a → Q know' mem' a) know
    mem m

variable {Q : κ → σ → α → Prop} {m : Routine Op Res σ ε α}

theorem keeps_pure {a : α} (hI : I know mem) (h : Q know mem a) :
    Keeps d R I Q know mem (pure a : Routine Op Res σ ε α) := by
  refine ⟨hI,refl_of R know,?_⟩
  intro b hb
  cases hb
  exact h

theorem keeps_throw {e : ε} (hI : I know mem) :
    Keeps d R I Q know mem (throw e : Routine Op Res σ ε α) := by
  refine ⟨hI,refl_of R know,?_⟩
  intro b hb
  cases hb

theorem keeps_ofExcept {Q : κ → σ → α → Prop} {x : Except ε α} (hI : I know mem)
    (h : ∀ a,x = .ok a → Q know mem a) :
    Keeps d R I Q know mem (ofExcept x : Routine Op Res σ ε α) := by
  cases x with
  | ok a => exact keeps_pure hI (h a rfl)
  | error e => exact keeps_throw hI

theorem keeps_set {Q : κ → σ → PUnit → Prop} {g : σ → σ} (hI : I know (g mem))
    (h : Q know (g mem) ⟨⟩) : Keeps d R I Q know mem (modify g : Routine Op Res σ ε PUnit) :=
  meets_modify.mpr ⟨hI,refl_of R know,fun _ _ => h⟩

theorem keeps_ofExcept_bind {Q : κ → σ → β → Prop} {x : Except ε α} {f : α → Routine Op Res σ ε β}
    (hI : I know mem) (h : ∀ a,x = .ok a → Keeps d R I Q know mem (f a)) :
    Keeps d R I Q know mem (ofExcept x >>= f) := by
  cases x with
  | ok a => exact h a rfl
  | error e => exact keeps_throw (e := e) hI

theorem keeps_bind {P : κ → σ → α → Prop} {Q : κ → σ → β → Prop} {m : Routine Op Res σ ε α}
    {f : α → Routine Op Res σ ε β} (hm : Keeps d R I P know mem m)
    (hf : ∀ know' mem' a,I know' mem' → R know know' → P know' mem' a →
      Keeps d R I Q know' mem' (f a)) :
    Keeps d R I Q know mem (m >>= f) := by
  rw [Keeps,meets_bind]
  refine hm.mono ?_
  intro know' mem' r hr
  obtain ⟨hI,hR,hP⟩ := hr
  cases r with
  | error e => exact ⟨hI,hR,fun b hb => by cases hb⟩
  | ok a =>
    refine (hf know' mem' a hI hR (hP a rfl)).mono ?_
    intro know'' mem'' r' hr'
    exact ⟨hr'.1,trans_of R hR hr'.2.1,hr'.2.2⟩

theorem keeps_call {Q : κ → σ → β → Prop} {op : Op} {f : Res op → Routine Op Res σ ε β}
    (hallowed : d.allowed know op) (hR : ∀ r,R know (d.next know op r))
    (hf : ∀ r,Keeps d R I Q (d.next know op r) mem (f r)) :
    Keeps d R I Q know mem (call op >>= f) := by
  refine meets_call_bind.mpr ⟨hallowed,?_⟩
  intro r
  refine (hf r).mono ?_
  intro know' mem' r' hr'
  exact ⟨hr'.1,trans_of R (hR r) hr'.2.1,hr'.2.2⟩

omit [IsPreorder κ R]

theorem keeps_get {Q : κ → σ → β → Prop} {f : σ → Routine Op Res σ ε β}
    (h : Keeps d R I Q know mem (f mem)) : Keeps d R I Q know mem (get >>= f) := h

theorem keeps_modify {Q : κ → σ → β → Prop} {g : σ → σ} {f : PUnit → Routine Op Res σ ε β}
    (h : Keeps d R I Q know (g mem) (f ⟨⟩)) : Keeps d R I Q know mem (modify g >>= f) := h

theorem Keeps.mono {P Q : κ → σ → α → Prop} {m : Routine Op Res σ ε α}
    (hm : Keeps d R I P know mem m)
    (h : ∀ know' mem' a,I know' mem' → R know know' → P know' mem' a → Q know' mem' a) :
    Keeps d R I Q know mem m := by
  refine Meets.mono ?_ hm
  intro know' mem' r hr
  exact ⟨hr.1,hr.2.1,fun a ha => h know' mem' a hr.1 hr.2.1 (hr.2.2 a ha)⟩

theorem Keeps.weaken (hm : Keeps d R I Q know mem m) (h : ∀ a b,R a b → S a b) :
    Keeps d S I Q know mem m := by
  refine Meets.mono ?_ hm
  intro know' mem' r hr
  exact ⟨hr.1,h know know' hr.2.1,hr.2.2⟩

theorem Keeps.attempt (hm : Keeps d R I Q know mem m) :
    Keeps d R I (fun know mem r => ∀ a,r = .ok a → Q know mem a) know mem
      (Routine.attempt m : Routine Op Res σ ε' (Except ε α)) := by
  refine meets_attempt.mpr (Meets.mono ?_ hm)
  intro know' mem' r hr
  refine ⟨hr.1,hr.2.1,?_⟩
  intro r' hr'
  cases hr'
  exact hr.2.2

end Routine

end Cnmsql.Framework
