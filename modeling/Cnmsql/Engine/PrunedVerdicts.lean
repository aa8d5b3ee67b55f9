import Cnmsql.Engine.MariaPruning
import Cnmsql.Engine.MariaReigns

namespace Cnmsql.Engine

namespace MariaDBTimeline

structure PruneResult where
  timeline : MariaDBTimeline
  dropped : Nat
  truncated : Bool
  deriving DecidableEq

variable (t : MariaDBTimeline) (refs : List String) (ceiling : Int)

/-- The oldest epochs go while unneeded, and past the ceiling regardless. -/
def pruneMariaDBTimeline : PruneResult :=
  let kept := t.drop (unpinned refs t)
  let excess := if 0<ceiling then kept.length-ceiling.toNat else 0
  ⟨kept.drop excess,unpinned refs t+excess,0<excess⟩

theorem dropped_eq_pruned :
    (pruneMariaDBTimeline t refs mariaDBTimelineCeiling).dropped=pruned t refs := by
  simp only [pruneMariaDBTimeline,pruned,mariaDBTimelineCeiling,List.length_drop]
  rw [if_pos (by decide)]
  have hceiling : ((256 : Nat) : Int).toNat=256 := rfl
  omega

theorem timeline_eq_drop :
    (pruneMariaDBTimeline t refs ceiling).timeline =
      t.drop (pruneMariaDBTimeline t refs ceiling).dropped := by
  simp only [pruneMariaDBTimeline,List.drop_drop]

theorem dropped_lt (h : t≠[]) : (pruneMariaDBTimeline t refs ceiling).dropped<t.length := by
  have hu := unpinned_lt refs t h
  simp only [pruneMariaDBTimeline,List.length_drop]
  split <;> omega

theorem length_le_ceiling (h : 0<ceiling) :
    ((pruneMariaDBTimeline t refs ceiling).timeline.length : Int)≤ceiling := by
  simp only [pruneMariaDBTimeline,List.length_drop,if_pos h]
  omega

variable {t : MariaDBTimeline} {d : UInt32} {g : MariaEntry}

/-- The sequence a timeline starts after in a domain. -/
def floor (t : MariaDBTimeline) (d : UInt32) : UInt64 :=
  ((t.head?.bind (project d)).map (·.start)).getD 0

/-- A shorter timeline says what a longer one does, and cuts at its own floor when that is higher.
-/
def Agrees (d : UInt32) (g : MariaEntry) (t kept : MariaDBTimeline) : Prop :=
  verdict kept d g=verdict t d g ∧
    deadAfter kept d g=(deadAfter t d g).map (max (floor kept d)) ∧ floor t d≤floor kept d

theorem max_eq (a b : UInt64) : max a b=if a≤b then b else a := rfl

theorem max_of_le {a b : UInt64} (h : a≤b) : max b a=b := by
  rw [max_eq]
  split
  · exact UInt64.le_antisymm h ‹_›
  · rfl

/-- Raising the floor below a view raises the cut to it, and no further. -/
theorem leftAfter_max {view : List DomainEpoch} {floor : UInt64} (branch : UInt64)
    (hasc : Ascending view) (hfloor : ∀ e∈view.head?,floor≤e.start) :
    leftAfter g (max floor branch) view=(leftAfter g branch view).map (max floor) := by
  induction view generalizing branch with
  | nil => rfl
  | cons e view ih =>
    rw [ascending_cons] at hasc
    cases view with
    | nil =>
      rw [leftAfter,leftAfter]
      split <;> rfl
    | cons next rest =>
      have hnext : floor≤next.start := UInt64.le_trans (hfloor e rfl) (hasc.1 next rfl)
      have ih := fun branch => ih branch hasc.2 (by simpa using hnext)
      rw [leftAfter,leftAfter]
      split
      · rw [← ih]
        split
        · rw [max_eq,if_pos hnext]
        · rfl
      · split <;> rfl

theorem agrees_tail {e next : MariaDBEpoch} {rest : MariaDBTimeline} {view : List DomainEpoch}
    (hview : domain (e::next::rest) d=some view)
    (hlt : ∀ v,project d next=some v → v.start<g.seq) :
    Agrees d g (e::next::rest) (next::rest) := by
  obtain ⟨hproj,hasc⟩ := (domain_eq_some _ _ _).mp hview
  obtain ⟨v,_,hv,⟨w,later,hw,hrest,rfl⟩,rfl⟩ := by
    simpa only [List.forall₂_cons_left_iff] using hproj
  have hasc' := (ascending_cons _ _).mp hasc
  have hkept : domain (next::rest) d=some (w::later) :=
    (domain_eq_some _ _ _).mpr ⟨.cons hw hrest,hasc'.2⟩
  have hle : v.start≤w.start := hasc'.1 w rfl
  have hfloor : floor (next::rest) d=w.start := by simp [floor,hw]
  have hfloor' : floor (e::next::rest) d=v.start := by simp [floor,hv]
  unfold Agrees
  rw [verdict_eq_judgeView _ _ _ hkept,verdict_eq_judgeView _ _ _ hview,judgeView,if_pos (hlt w hw),
    deadAfter_eq g hkept,deadAfter_eq g hview,leftAfter,if_pos (hlt w hw),hfloor,hfloor',
    ← leftAfter_max _ hasc'.2 (by simp)]
  refine ⟨rfl,?_,hle⟩
  congr 1
  split
  · exact (max_of_le UInt64.le_rfl).symm
  · exact (max_of_le hle).symm

theorem agrees_refl {view : List DomainEpoch} (hview : domain t d=some view) : Agrees d g t t := by
  refine ⟨rfl,?_,UInt64.le_rfl⟩
  obtain ⟨hproj,hasc⟩ := (domain_eq_some _ _ _).mp hview
  cases hproj with
  | nil => simp [deadAfter,verdict]
  | cons hv hproj =>
    rename_i e v rest later
    have hfloor : floor (e::rest) d=v.start := by simp [floor,hv]
    rw [deadAfter_eq g hview,hfloor,← leftAfter_max _ hasc (by simp),max_of_le UInt64.le_rfl]

theorem Agrees.trans {t' kept : MariaDBTimeline} (h : Agrees d g t t') (h' : Agrees d g t' kept) :
    Agrees d g t kept := by
  refine ⟨h'.1.trans h.1,?_,UInt64.le_trans h.2.2 h'.2.2⟩
  rw [h'.2.1,h.2.1,Option.map_map]
  congr 1
  funext cut
  simp only [Function.comp_apply,max_eq (floor t' d)]
  split
  · rfl
  · rename_i hcut
    have hle := UInt64.le_trans (UInt64.le_of_lt (UInt64.not_le.mp hcut)) h'.2.2
    rw [max_of_le h'.2.2,max_of_le hle]

theorem start_lt_of_unpinned {next : MariaDBEpoch} {position : String} {p : MariaPos} {entry : MariaEntry}
    (hp : parseMariaPos position = .ok p) (hl : p.lookup d=some entry) (hle : entry.seq≤g.seq)
    (hg : g.seq≠0) (hpin : pins next position=false) {v : DomainEpoch} (hv : project d next=some v) :
    v.start<g.seq := by
  unfold pins at hpin
  unfold project at hv
  cases hf : parseMariaPos next.handoff with
  | error err => rw [hf] at hv; cases hv
  | ok handoff =>
    simp only [hf,hp,List.any_eq_false] at hpin
    simp only [hf,Option.some.injEq] at hv
    have hentry := hpin ⟨d,entry⟩ (AList.mem_lookup_iff.mp hl)
    subst hv
    cases hd : handoff.lookup d with
    | none => exact UInt64.pos_iff_ne_zero.mpr hg
    | some f =>
      simp only [hd,Option.any_some,decide_eq_true_eq,UInt64.not_le] at hentry
      exact UInt64.lt_of_lt_of_le hentry hle

theorem agrees_unpinned {refs : List String} {position : String} {p : MariaPos} {entry : MariaEntry}
    (href : position∈refs) (hp : parseMariaPos position = .ok p) (hl : p.lookup d=some entry)
    (hle : entry.seq≤g.seq) (hg : g.seq≠0) {view : List DomainEpoch} (hview : domain t d=some view) :
    Agrees d g t (t.drop (unpinned refs t)) := by
  fun_induction unpinned refs t generalizing view with
  | case1 e next rest _ => exact agrees_refl hview
  | case2 e next rest hpin ih =>
    have hfree : pins next position=false := by
      simp only [List.any_eq_true,not_exists,not_and,Bool.not_eq_true] at hpin
      exact hpin position href
    have hstep := agrees_tail hview fun v hv => start_lt_of_unpinned hp hl hle hg hfree hv
    obtain ⟨hproj,hasc⟩ := (domain_eq_some _ _ _).mp hview
    cases hproj with
    | cons hv hproj =>
      have hrest := (domain_eq_some _ _ _).mpr ⟨hproj,((ascending_cons _ _).mp hasc).2⟩
      exact hstep.trans (ih hrest)
  | case3 t _ => exact agrees_refl hview

/-- Pruning keeps a suffix with the newest epoch, at most `ceiling` long, and unless the ceiling cut
into it, judges whatever lies at or past a reference as before. -/
theorem prune_keeps_judgement (t : MariaDBTimeline) (refs : List String) (ceiling : Int) :
    let r := pruneMariaDBTimeline t refs ceiling
    r.timeline <:+ t ∧ r.timeline.getLast?=t.getLast? ∧
      (0<ceiling → (r.timeline.length : Int)≤ceiling) ∧
      (r.truncated=false → ∀ position∈refs,∀ p,parseMariaPos position = .ok p →
        ∀ d entry,p.lookup d=some entry → ∀ g : MariaEntry,entry.seq≤g.seq →
          (∀ on,verdict t d g=some on → verdict r.timeline d g=some on) ∧
          ∀ cut,deadAfter t d g=some cut →
            deadAfter r.timeline d g=some (max (floor r.timeline d) cut)) := by
  intro r
  refine ⟨?_,?_,length_le_ceiling t refs ceiling,?_⟩
  · simp only [r,timeline_eq_drop]
    exact List.drop_suffix _ _
  · simp only [r,timeline_eq_drop]
    by_cases ht : t=[]
    · simp [ht]
    · rw [List.getLast?_drop,if_neg (Nat.not_le.mpr (dropped_lt t refs ceiling ht))]
  · intro hwhole position href p hp d entry hl g hle
    have hkept : r.timeline=t.drop (unpinned refs t) := by
      simp only [r,pruneMariaDBTimeline,decide_eq_false_iff_not,Nat.not_lt,Nat.le_zero] at hwhole ⊢
      rw [hwhole,List.drop_zero]
    have hagree : ∀ on,verdict t d g=some on → Agrees d g t r.timeline := by
      intro on hon
      cases hview : domain t d with
      | none => rw [verdict_eq_none _ _ _ hview] at hon; cases hon
      | some view =>
        have hg : g.seq≠0 := by
          intro hg
          rw [verdict,if_pos (.inr hg)] at hon
          cases hon
        rw [hkept]
        exact agrees_unpinned href hp hl hle hg hview
    constructor
    · intro on hon
      rw [(hagree on hon).1,hon]
    · intro cut hcut
      have hoff : verdict t d g=some false := by
        by_contra hoff
        rw [deadAfter_eq_none _ _ _ hoff] at hcut
        cases hcut
      rw [(hagree false hoff).2.1,hcut,Option.map_some]

/-- The cut for 0-9-25 rises from 0 to 20 when the two oldest epochs go. -/
theorem prune_raises_cut :
    let t : MariaDBTimeline := [⟨1,""⟩,⟨2,"0-1-10"⟩,⟨3,"0-2-20"⟩]
    let r := pruneMariaDBTimeline t ["0-9-25"] 256
    t.Pairwise (fun e later => Continues e.handoff later.handoff) ∧ r.truncated=false ∧
      deadAfter t 0 ⟨9,25⟩=some 0 ∧ deadAfter r.timeline 0 ⟨9,25⟩=some 20 := by
  decide

end MariaDBTimeline

end Cnmsql.Engine
