import Cnmsql.Engine.MariaHistory

namespace Cnmsql.Engine

open List

namespace MariaDBTimeline

variable (refs : List String) (t : MariaDBTimeline)

theorem unpinned_lt (h : t≠[]) : unpinned refs t<t.length := by
  fun_induction unpinned refs t with
  | case1 e next rest _ => simp
  | case2 e next rest _ ih =>
    have := ih (by simp)
    simp only [length_cons] at this ⊢
    omega
  | case3 t _ =>
    exact length_pos_iff.mpr h

theorem pruned_lt (refs : List String) (h : t≠[]) : pruned t refs<t.length := by
  have hu := unpinned_lt refs t h
  have hpos := length_pos_iff.mpr h
  rw [pruned,mariaDBTimelineCeiling]
  omega

/-- A handoff has got as far as an earlier one in every domain that lists. -/
def Continues (earlier later : String) : Prop :=
  ∃ p q,parseMariaPos earlier = .ok p ∧ parseMariaPos later = .ok q ∧ q.contains p=true

instance (earlier later : String) : Decidable (Continues earlier later) :=
  decidable_of_iff
    ((match parseMariaPos earlier,parseMariaPos later with
      | .ok p, .ok q => q.contains p
      | _,_ => false)=true) <| by
    unfold Continues
    cases parseMariaPos earlier with
    | error e => simp
    | ok p =>
      cases parseMariaPos later with
      | error e => simp
      | ok q => simp

theorem Continues.trans {a b c : String} (h : Continues a b) (h' : Continues b c) :
    Continues a c := by
  obtain ⟨p,q,hp,hq,hpq⟩ := h
  obtain ⟨q',r,hq',hr,hqr⟩ := h'
  cases hq.symm.trans hq'
  refine ⟨p,r,hp,hr,?_⟩
  apply all_eq_true.mpr
  intro e he
  have hmine := all_eq_true.mp hpq e he
  cases hl : q.lookup e.1 with
  | none => simp [hl] at hmine
  | some mine =>
    have hnext := all_eq_true.mp hqr ⟨e.1,mine⟩ (AList.mem_lookup_iff.mp hl)
    cases hl' : r.lookup e.1 with
    | none => simp [hl'] at hnext
    | some next =>
      simp only [hl,hl',decide_eq_true_eq] at hmine hnext ⊢
      exact UInt64.le_trans hmine hnext

variable (d : UInt32) (e : MariaDBEpoch)

def viewOf : DomainEpoch :=
  (project d e).getD ⟨e.serverID,0,0⟩

theorem project_eq_viewOf (p : MariaPos)
    (hp : parseMariaPos e.handoff = .ok p) : project d e=some (viewOf d e) := by
  simp [viewOf,project,hp]

theorem viewOf_start {e : MariaDBEpoch} {p : MariaPos}
    (hp : parseMariaPos e.handoff = .ok p) : (viewOf d e).start.toNat=p.reached d := by
  simp only [viewOf,project,hp,Option.getD_some,MariaPos.reached]
  cases p.lookup d <;> rfl

theorem viewOf_start_le {e later : MariaDBEpoch}
    (h : Continues e.handoff later.handoff) : (viewOf d e).start≤(viewOf d later).start := by
  obtain ⟨p,q,hp,hq,hcontains⟩ := h
  rw [UInt64.le_iff_toNat_le,viewOf_start d hp,viewOf_start d hq]
  exact MariaPos.reached_le_of_contains q p hcontains d

theorem domain_eq_map (hread : ∀ e∈t,∃ p,parseMariaPos e.handoff = .ok p)
    (h : t.Pairwise fun e later => Continues e.handoff later.handoff) :
    domain t d=some (t.map (viewOf d)) ∧ Ascending (t.map (viewOf d)) := by
  have hasc : Ascending (t.map (viewOf d)) := by
    rw [Ascending,isChain_map]
    exact (h.imp fun {e later} hc => viewOf_start_le d hc).isChain
  refine ⟨(domain_eq_some _ _ _).mpr ⟨?_,hasc⟩,hasc⟩
  rw [forall₂_map_right_iff,forall₂_same]
  intro e he
  obtain ⟨p,hp⟩ := hread e he
  exact project_eq_viewOf d e p hp

/-- What pins an epoch pins every epoch after it. -/
theorem pins_of_continues {e later : MariaDBEpoch} {position : String}
    (h : Continues e.handoff later.handoff) (hp : pins e position=true) :
    pins later position=true := by
  obtain ⟨p,q,hparse,hparse',hcontains⟩ := h
  unfold pins at hp ⊢
  rw [hparse] at hp
  rw [hparse']
  cases hpos : parseMariaPos position with
  | error err => rfl
  | ok pos =>
    simp only [hpos,any_eq_true] at hp ⊢
    obtain ⟨r,hr,hle⟩ := hp
    refine ⟨r,hr,?_⟩
    cases hf : p.lookup r.1 with
    | none => simp [hf] at hle
    | some f =>
      have hq := all_eq_true.mp hcontains ⟨r.1,f⟩ (AList.mem_lookup_iff.mp hf)
      cases hg : q.lookup r.1 with
      | none => simp [hg] at hq
      | some g =>
        simp only [hf,hg,Option.any_some,decide_eq_true_eq] at hle hq ⊢
        exact UInt64.le_trans hle hq

theorem unpinned_eq_zero (h : ∀ e∈t,refs.any (pins e)=true) : unpinned refs t=0 := by
  cases t with
  | nil => rfl
  | cons e t =>
    cases t with
    | nil => rfl
    | cons next rest => rw [unpinned,if_pos (h next (by simp))]

theorem unpinned_eq_pred (h : ∀ e∈t,refs.any (pins e)=false) : unpinned refs t=t.length-1 := by
  induction t with
  | nil => rfl
  | cons e t ih =>
    cases t with
    | nil => rfl
    | cons next rest =>
      have hnext := h next (by simp)
      rw [unpinned,if_neg (by simp [hnext]),ih fun x hx => h x (mem_cons_of_mem _ hx)]
      simp

theorem unpinned_le_of_pinned {refs : List String} (older : MariaDBTimeline) (e : MariaDBEpoch) {next : MariaDBEpoch}
    (rest : MariaDBTimeline) (h : refs.any (pins next)=true) :
    unpinned refs (older++e::next::rest)≤older.length := by
  induction older with
  | nil => simp [unpinned,h]
  | cons first older ih =>
    cases hrest : older++e::next::rest with
    | nil => simp at hrest
    | cons second rest' =>
      rw [cons_append,hrest,unpinned]
      rw [hrest] at ih
      split
      · exact Nat.zero_le _
      · simpa using ih

section

variable (h : t.Pairwise fun e later => Continues e.handoff later.handoff)
include h

theorem unpinned_drop (n : Nat)
    (hn : unpinned refs t≤n) : unpinned refs (t.drop n)=0 := by
  induction t generalizing n with
  | nil => simp [unpinned]
  | cons e t ih =>
    cases t with
    | nil => cases n <;> simp [unpinned]
    | cons next rest =>
      rw [pairwise_cons] at h
      rw [unpinned] at hn
      split at hn
      · rename_i hpin
        cases n with
        | zero => rw [drop_zero,unpinned,if_pos hpin]
        | succ n =>
          apply unpinned_eq_zero
          intro later hl
          obtain ⟨r,hr,hpr⟩ := any_eq_true.mp hpin
          apply any_eq_true.mpr
          refine ⟨r,hr,?_⟩
          rw [drop_succ_cons] at hl
          cases mem_cons.mp (mem_of_mem_drop hl) with
          | inl heq => rwa [heq]
          | inr hmem =>
            exact pins_of_continues ((pairwise_cons.mp h.2).1 later hmem) hpr
      · cases n with
        | zero => omega
        | succ n => exact ih h.2 n (by omega)

theorem pruned_drop :
    pruned (t.drop (pruned t refs)) refs=0 := by
  have hu := unpinned_drop refs t h (pruned t refs) (Nat.le_max_left _ _)
  have hc : t.length-mariaDBTimelineCeiling≤pruned t refs := Nat.le_max_right _ _
  rw [pruned,hu,length_drop]
  omega

end

end MariaDBTimeline

end Cnmsql.Engine
