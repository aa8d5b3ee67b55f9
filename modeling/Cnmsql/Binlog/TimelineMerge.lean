import Mathlib.Data.List.Sublists
import Cnmsql.Binlog.Forks
import Cnmsql.Engine.MariaPruning
import Cnmsql.Framework.Execution

namespace Cnmsql.Binlog

open Framework ObjectStore Engine MariaDBTimeline List

variable (segs : List ArchiveSegment)

def archiveReferences : List String :=
  if oldestSegmentPosition segs = "" then [] else [oldestSegmentPosition segs]

def Pinned (e : ArchiveEpoch) : Prop :=
  (archiveReferences segs).any (pins ⟨UInt32.ofNat e.serverID,e.handoff⟩)=true

variable (stored : List ArchiveEpoch) (first : ArchiveEpoch)

def keptEpochs : List ArchiveEpoch :=
  stored.takeWhile (·≠first)

def prunedEpochs (merged : List ArchiveEpoch) (segs : List ArchiveSegment) : Nat :=
  pruned (engineTimeline merged) (archiveReferences segs)

instance (e : ArchiveEpoch) : Decidable (Pinned segs e) :=
  inferInstanceAs (Decidable (_ = true))

theorem mergeArchiveTimeline_cons (rest : List ArchiveEpoch) (segs : List ArchiveSegment) :
    mergeArchiveTimeline stored (first::rest) segs =
      (keptEpochs stored first++first::rest).drop
        (prunedEpochs (keptEpochs stored first++first::rest) segs) := rfl

def EpochContinues (e later : ArchiveEpoch) : Prop := Continues e.handoff later.handoff

instance (e later : ArchiveEpoch) : Decidable (EpochContinues e later) :=
  inferInstanceAs (Decidable (Continues _ _))

/-- One chain of epochs: readable, none twice, no handoff that goes back. -/
structure OneChain (epochs : List ArchiveEpoch) : Prop where
  readable : ∀ e∈epochs,∃ p,parseMariaPos e.handoff = .ok p
  nodup : epochs.Nodup
  continues : epochs.Pairwise EpochContinues

theorem OneChain.sublist {epochs part : List ArchiveEpoch} (h : OneChain epochs)
    (hs : part.Sublist epochs) : OneChain part :=
  ⟨fun e he => h.readable e (hs.subset he),h.nodup.sublist hs,h.continues.sublist hs⟩

variable {epochs : List ArchiveEpoch}

theorem OneChain.engine (h : OneChain epochs) :
    (∀ e∈engineTimeline epochs,∃ p,parseMariaPos e.handoff = .ok p) ∧
      (engineTimeline epochs).Pairwise fun e later => Continues e.handoff later.handoff := by
  constructor
  · simpa [engineTimeline] using h.readable
  · rw [engineTimeline,pairwise_map]
    exact h.continues

def epochViews (epochs : List ArchiveEpoch) (d : UInt32) : List DomainEpoch :=
  (engineTimeline epochs).map (viewOf d)

theorem OneChain.domain_eq (h : OneChain epochs) (d : UInt32) :
    domain (engineTimeline epochs) d=some (epochViews epochs d) ∧
      Ascending (epochViews epochs d) :=
  domain_eq_map _ d h.engine.1 h.engine.2

variable (older : List ArchiveEpoch) (first : ArchiveEpoch) (rest : List ArchiveEpoch)

theorem verdict_prepend (h : OneChain (older++first::rest)) (d : UInt32) (g : MariaEntry)
    (hlt : (viewOf d ⟨UInt32.ofNat first.serverID,first.handoff⟩).start<g.seq) :
    verdict (engineTimeline (older++first::rest)) d g =
      verdict (engineTimeline (first::rest)) d g := by
  have hpart := h.sublist (sublist_append_right older (first::rest))
  rw [verdict_eq_judgeView _ _ _ (h.domain_eq d).1,
    verdict_eq_judgeView _ _ _ (hpart.domain_eq d).1]
  have hasc := (h.domain_eq d).2
  simp only [epochViews,engineTimeline,map_append,map_cons] at hasc ⊢
  exact judgeView_append g hasc hlt

variable (stored : List ArchiveEpoch) (segs : List ArchiveSegment)

/-- What a merge needs to stay one chain: a Cluster timeline within the ceiling, and an archive that
needs no handoff, or the Cluster's first epoch with none of the Cluster's among the older ones. -/
def Aligned : List ArchiveEpoch → Prop
  | [] => True
  | first::rest =>
    (first::rest).length ≤ mariaDBTimelineCeiling ∧
      ((∀ e∈keptEpochs stored first++first::rest,¬ Pinned segs e) ∨
        (∀ e∈keptEpochs stored first,e∉first::rest) ∧ ∀ next∈rest.head?,Pinned segs next)

instance : ∀ current,Decidable (Aligned stored segs current)
  | [] => isTrue trivial
  | _::_ => inferInstanceAs (Decidable (_ ∧ (_ ∨ _ ∧ _)))

theorem keptEpochs_append (kept : List ArchiveEpoch) (first : ArchiveEpoch)
    (rest : List ArchiveEpoch) (h : first∉kept) :
    keptEpochs (kept++first::rest) first=kept := by
  have hkept : ∀ e∈kept, decide (e≠first)=true := by
    intro e he
    rw [decide_eq_true_eq]
    rintro rfl
    exact h he
  rw [keptEpochs,takeWhile_append_of_pos hkept,takeWhile_cons_of_neg (by simp),
    append_nil]

/-- No epoch of the Cluster's is dropped while the archive needs its first. -/
theorem prunedEpochs_le (hlen : (first::rest).length ≤ mariaDBTimelineCeiling)
    (hpin : ∀ next∈rest.head?,Pinned segs next) :
    prunedEpochs (older++first::rest) segs≤older.length := by
  have hu : unpinned (archiveReferences segs) (engineTimeline (older++first::rest)) ≤
      older.length := by
    cases rest with
    | nil =>
      have := unpinned_lt (archiveReferences segs) (engineTimeline (older++[first]))
        (by simp [engineTimeline])
      simp only [engineTimeline,length_map,length_append,length_singleton] at this
      exact Nat.le_of_lt_succ this
    | cons next rest =>
      have := unpinned_le_of_pinned (engineTimeline older)
        ⟨UInt32.ofNat first.serverID,first.handoff⟩ (engineTimeline rest) (hpin next rfl)
      simpa [engineTimeline] using this
  rw [prunedEpochs,pruned,engineTimeline,length_map,length_append]
  have := Nat.max_le.mpr ⟨hu,(by omega : older.length+(first::rest).length -
    mariaDBTimelineCeiling≤older.length)⟩
  exact this

theorem prunedEpochs_eq (merged : List ArchiveEpoch) (segs : List ArchiveSegment)
    (h : ∀ e∈merged,¬ Pinned segs e) : prunedEpochs merged segs=merged.length-1 := by
  have hu : unpinned (archiveReferences segs) (engineTimeline merged)=merged.length-1 := by
    rw [unpinned_eq_pred]
    · simp [engineTimeline]
    · intro e he
      obtain ⟨a,ha,rfl⟩ := mem_map.mp he
      simpa [Pinned] using h a ha
  rw [prunedEpochs,pruned,hu,engineTimeline,length_map,mariaDBTimelineCeiling]
  omega

theorem merged_free (kept init : List ArchiveEpoch) (last : ArchiveEpoch)
    (segs : List ArchiveSegment) (h : ∀ e∈kept++(init++[last]),¬ Pinned segs e) :
    (kept++(init++[last])).drop (prunedEpochs (kept++(init++[last])) segs)=[last] := by
  rw [prunedEpochs_eq _ _ h,← append_assoc,length_append,length_singleton,
    Nat.add_sub_cancel]
  exact drop_left

/-- An aligned merge leaves older epochs before the Cluster's, or the newest epoch alone. -/
inductive Merged (older current : List ArchiveEpoch) (segs : List ArchiveSegment) :
    List ArchiveEpoch → Prop
  | whole (part : List ArchiveEpoch) (hpart : part.Sublist older)
      (hsettled : prunedEpochs (part++current) segs=0) : Merged older current segs (part++current)
  | newest (init : List ArchiveEpoch) (last : ArchiveEpoch) (hcurrent : current=init++[last])
      (hfree : ∀ e∈current,¬ Pinned segs e) : Merged older current segs [last]

theorem merged_of_aligned
    (hchain : OneChain (older++first::rest)) (hstored : stored.Sublist (older++first::rest))
    (ha : Aligned stored segs (first::rest)) :
    Merged older (first::rest) segs (mergeArchiveTimeline stored (first::rest) segs) := by
  rw [mergeArchiveTimeline_cons]
  obtain ⟨hlen,hfree | ⟨hdisjoint,hpin⟩⟩ := ha
  · obtain ⟨init,last,hcurrent⟩ : ∃ init last, first::rest=init++[last] :=
      ⟨_,_,(dropLast_concat_getLast (by simp)).symm⟩
    have hcurrent_free : ∀ e∈first::rest, ¬ Pinned segs e :=
      fun e he => hfree e (mem_append_right _ he)
    have hone := merged_free (keptEpochs stored first) init last segs (hcurrent ▸ hfree)
    rw [← hcurrent] at hone
    rw [hone]
    exact .newest init last hcurrent hcurrent_free
  · have hkept : (keptEpochs stored first).Sublist older := by
      have hsub := (takeWhile_sublist (·≠first)).trans hstored
      obtain ⟨l₁,l₂,heq,h₁,h₂⟩ := sublist_append_iff.mp hsub
      have hnil : l₂=[] := by
        apply eq_nil_iff_forall_not_mem.mpr
        intro e he
        exact hdisjoint e (by rw [keptEpochs,heq]; simp [he]) (h₂.subset he)
      rw [keptEpochs,heq,hnil,append_nil]
      exact h₁
    have hle := prunedEpochs_le (keptEpochs stored first) first rest segs hlen hpin
    have hdrop : (keptEpochs stored first++first::rest).drop
        (prunedEpochs (keptEpochs stored first++first::rest) segs) =
      (keptEpochs stored first).drop
        (prunedEpochs (keptEpochs stored first++first::rest) segs)++first::rest :=
      drop_append_of_le_length hle
    have hall := hchain.sublist (hkept.append_right (first::rest))
    have hzero := pruned_drop (archiveReferences segs) _ hall.engine.2
    rw [hdrop]
    apply Merged.whole _ ((drop_sublist _ _).trans hkept)
    rw [← hdrop,prunedEpochs,engineTimeline,map_drop]
    exact hzero

/-- An aligned merge made again changes nothing. -/
theorem merge_again (older : List ArchiveEpoch) (first : ArchiveEpoch) (rest : List ArchiveEpoch)
    (segs : List ArchiveSegment) (hchain : OneChain (older++first::rest))
    (merged : List ArchiveEpoch) (h : Merged older (first::rest) segs merged) :
    mergeArchiveTimeline merged (first::rest) segs=merged := by
  rw [mergeArchiveTimeline_cons]
  cases h with
  | whole part hpart hsettled =>
    have hfirst : first∉part := by
      intro hm
      exact (nodup_append.mp hchain.nodup).2.2 first (hpart.subset hm) first
        (mem_cons_self ..) rfl
    rw [keptEpochs_append part first rest hfirst,hsettled,drop_zero]
  | newest init last hcurrent hfree =>
    have hsub : ∀ e∈keptEpochs [last] first, e∈first::rest := by
      intro e he
      have hlast := mem_singleton.mp ((takeWhile_sublist _).subset he)
      rw [hlast,hcurrent]
      simp
    rw [hcurrent]
    apply merged_free
    intro e he
    cases mem_append.mp he with
    | inl he => exact hfree e (hsub e he)
    | inr he => exact hfree e (hcurrent ▸ he)

section

variable {older current merged : List ArchiveEpoch} {segs : List ArchiveSegment}
  (h : Merged older current segs merged)
include h

theorem Merged.sublist : merged.Sublist (older++current) := by
  cases h with
  | whole part hpart _ => exact hpart.append_right current
  | newest init last hcurrent _ =>
    rw [hcurrent,← append_assoc]
    exact sublist_append_right _ _

theorem Merged.verdict_eq (hchain : OneChain (older++current)) (d : UInt32) (a b : DomainEpoch)
    (ha : (epochViews merged d).head?=some a) (hb : (epochViews current d).head?=some b)
    (g : MariaEntry) (hga : a.start<g.seq) (hgb : b.start<g.seq) :
    verdict (engineTimeline merged) d g=verdict (engineTimeline current) d g := by
  cases h with
  | whole part hpart _ =>
    cases current with
    | nil => simp [epochViews,engineTimeline] at hb
    | cons first rest =>
      cases hb
      exact verdict_prepend part first rest (hchain.sublist (hpart.append_right _)) d g hgb
  | newest init last hcurrent _ =>
    cases ha
    rw [hcurrent]
    rw [hcurrent] at hchain
    exact (verdict_prepend init last [] (hchain.sublist (sublist_append_right _ _)) d g
      hga).symm

end

/-- The Cluster's timeline with the epochs it dropped, and the archive's. -/
structure ArchivedTimeline where
  older : List ArchiveEpoch
  current : List ArchiveEpoch
  stored : List ArchiveEpoch

namespace ArchivedTimeline

/-- The Cluster appends or drops an epoch; a fork check merges. -/
inductive Event where
  | appends (e : ArchiveEpoch)
  | drops
  | merges (segs : List ArchiveSegment)

variable (s : ArchivedTimeline)

def step : Event → Option ArchivedTimeline
  | .appends e => some { s with current := s.current++[e] }
  | .drops =>
    match s.current with
    | [] => none
    | e::rest => some { s with older := s.older++[e], current := rest }
  | .merges segs => some { s with stored := mergeArchiveTimeline s.stored s.current segs }

def Grows : Event → ArchivedTimeline → Prop
  | .appends e,_ => (∃ p,parseMariaPos e.handoff = .ok p) ∧
      ∀ newest∈(s.older++s.current).getLast?,EpochContinues newest e
  | _,_ => True

/-- No epoch comes twice, and every merge is aligned. -/
def Steady : Event → ArchivedTimeline → Prop
  | .appends e,_ => e∉s.older++s.current
  | .drops,_ => True
  | .merges segs,_ => Aligned s.stored segs s.current

instance : ∀ a s',Decidable (Steady s a s')
  | .appends _,_ => inferInstanceAs (Decidable (_∉_))
  | .drops,_ => isTrue trivial
  | .merges segs,_ => inferInstanceAs (Decidable (Aligned s.stored segs s.current))

def empty : ArchivedTimeline := ⟨[],[],[]⟩

structure Chained : Prop where
  chain : OneChain (s.older++s.current)
  part : s.stored.Sublist (s.older++s.current)

theorem OneChain.append (h : OneChain epochs) (e : ArchiveEpoch)
    (hread : ∃ p,parseMariaPos e.handoff = .ok p)
    (hnext : ∀ newest∈epochs.getLast?,EpochContinues newest e) (hnew : e∉epochs) :
    OneChain (epochs++[e]) := by
  constructor
  · intro x hx
    cases mem_append.mp hx with
    | inl hx => exact h.readable x hx
    | inr hx => rwa [mem_singleton.mp hx]
  · exact nodup_append.mpr ⟨h.nodup,nodup_singleton e,by
      intro x hx y hy heq
      exact hnew (by rwa [← mem_singleton.mp hy,← heq])⟩
  · rw [pairwise_append]
    refine ⟨h.continues,pairwise_singleton _ e,?_⟩
    intro x hx y hy
    rw [mem_singleton.mp hy]
    obtain ⟨init,last,rfl⟩ : ∃ init last, epochs=init++[last] :=
      ⟨_,_,(dropLast_concat_getLast (ne_nil_of_mem hx)).symm⟩
    have hlast := hnext last (by simp)
    cases mem_append.mp hx with
    | inl hx =>
      exact ((pairwise_append.mp h.continues).2.2 x hx last (by simp)).trans hlast
    | inr hx => rwa [mem_singleton.mp hx]

theorem step_chained (a : Event) (s' : ArchivedTimeline)
    (h : step s a=some s') (hs : Grows s a s' ∧ Steady s a s') (hc : s.Chained) : s'.Chained := by
  cases a with
  | appends e =>
    cases h
    have happ := OneChain.append hc.chain e hs.1.1 hs.1.2 hs.2
    rw [append_assoc] at happ
    refine ⟨happ,hc.part.trans ?_⟩
    rw [← append_assoc]
    exact sublist_append_left _ _
  | drops =>
    rw [step] at h
    split at h
    · cases h
    · rename_i e rest hcur
      cases h
      have hsame : s.older++[e]++rest=s.older++s.current := by simp [hcur]
      constructor
      · change OneChain (s.older++[e]++rest)
        rw [hsame]
        exact hc.chain
      · change s.stored.Sublist (s.older++[e]++rest)
        rw [hsame]
        exact hc.part
  | merges segs =>
    cases h
    refine ⟨hc.chain,?_⟩
    cases hcur : s.current with
    | nil => 
      have := hc.part
      rw [hcur] at this
      simpa [mergeArchiveTimeline,hcur] using this
    | cons first rest =>
      have hm := merged_of_aligned s.older first rest s.stored segs (hcur ▸ hc.chain)
        (hcur ▸ hc.part) (hcur ▸ hs.2)
      simpa [hcur] using hm.sublist

/-- Over every run with no epoch twice and aligned merges: merging twice is merging once, no epoch
is in it twice, no handoff goes back, and past both first handoffs it judges as the Cluster does. -/
theorem steady_merge_one_chain (events : List Event) (s : ArchivedTimeline)
    (hsteady : Along step (fun s a s' => Grows s a s' ∧ Steady s a s') empty events)
    (hrun : exec step empty events=some s) (segs : List ArchiveSegment)
    (ha : Aligned s.stored segs s.current) :
    mergeArchiveTimeline (mergeArchiveTimeline s.stored s.current segs) s.current segs =
        mergeArchiveTimeline s.stored s.current segs ∧
      (mergeArchiveTimeline s.stored s.current segs).Nodup ∧
      ∀ d,∃ view view',
        domain (engineTimeline (mergeArchiveTimeline s.stored s.current segs)) d=some view ∧
        Ascending view ∧ domain (engineTimeline s.current) d=some view' ∧
        ∀ first∈view.head?,∀ first'∈view'.head?,∀ g : MariaEntry,
          first.start<g.seq → first'.start<g.seq →
          verdict (engineTimeline (mergeArchiveTimeline s.stored s.current segs)) d g =
            verdict (engineTimeline s.current) d g := by
  have hc : s.Chained :=
    exec_invariant step_chained hsteady hrun ⟨⟨by simp [empty],by simp [empty],by simp [empty]⟩,
      by simp [empty]⟩
  have hcurrent := hc.chain.sublist (sublist_append_right s.older s.current)
  cases hcur : s.current with
  | nil =>
    have hstored := hc.chain.sublist hc.part
    refine ⟨rfl,hstored.nodup,fun d => ?_⟩
    have hd := hstored.domain_eq d
    refine ⟨_,[],hd.1,hd.2,rfl,?_⟩
    simp
  | cons first rest =>
    rw [hcur] at ha hcurrent
    have hm := merged_of_aligned s.older first rest s.stored segs (hcur ▸ hc.chain)
      (hcur ▸ hc.part) ha
    have hmerged := (hcur ▸ hc.chain : OneChain (s.older++first::rest)).sublist hm.sublist
    refine ⟨merge_again s.older first rest segs (hcur ▸ hc.chain) _ hm,hmerged.nodup,fun d => ?_⟩
    have hd := hmerged.domain_eq d
    refine ⟨_,_,hd.1,hd.2,(hcurrent.domain_eq d).1,?_⟩
    intro a hfirst b hfirst' g hga hgb
    exact hm.verdict_eq (hcur ▸ hc.chain) d a b hfirst hfirst' g hga hgb

def threeEpochs : List ArchiveEpoch :=
  [⟨"demo-1",1,""⟩,⟨"demo-2",2,"0-1-10"⟩,⟨"demo-1",1,"0-2-20"⟩]

variable (position : String)

def reaching : List ArchiveSegment := [{ serverUUID := "a", gtidSet := position }]

def growth : List Event :=
  threeEpochs.map .appends++[.merges (reaching position)]

theorem growth_grows : Along step Grows empty (growth position) := by
  apply Along.cons rfl
  · exact ⟨⟨_,rfl⟩,by decide +kernel⟩
  apply Along.cons rfl
  · exact ⟨⟨_,rfl⟩,by decide +kernel⟩
  apply Along.cons rfl
  · exact ⟨⟨_,rfl⟩,by decide +kernel⟩
  exact Along.cons rfl trivial trivial

/-- An archive past the second handoff drops the first epoch, which the Cluster still has: the next
merge appends the whole timeline again. -/
theorem merge_behind_cluster :
    Along step Grows empty (growth "0-2-15") ∧
      ∃ s,exec step empty (growth "0-2-15")=some s ∧
        s.stored=mergeArchiveTimeline [] s.current (reaching "0-2-15") ∧
        mergeArchiveTimeline s.stored s.current (reaching "0-2-15")≠s.stored ∧
        ¬ (mergeArchiveTimeline s.stored s.current (reaching "0-2-15")).Nodup ∧
        domain (engineTimeline (mergeArchiveTimeline s.stored s.current (reaching "0-2-15"))) 0 =
          none := by
  refine ⟨growth_grows _,_,rfl,rfl,?_⟩
  decide +kernel

/-- An archive that still needs the first epoch. -/
theorem steady_merge_one_chain_growth :
    ∃ s,exec step empty (growth "0-1-5")=some s ∧ s.stored=threeEpochs ∧
      mergeArchiveTimeline (mergeArchiveTimeline s.stored s.current (reaching "0-1-5")) s.current
          (reaching "0-1-5") =
        mergeArchiveTimeline s.stored s.current (reaching "0-1-5") := by
  refine ⟨_,rfl,by decide +kernel,?_⟩
  exact (steady_merge_one_chain (growth "0-1-5") _
    ((growth_grows _).and (by decide +kernel)) rfl (reaching "0-1-5") (by decide +kernel)).1

end ArchivedTimeline

end Cnmsql.Binlog
