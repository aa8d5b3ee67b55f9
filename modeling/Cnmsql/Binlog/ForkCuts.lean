import Cnmsql.Binlog.LogRuns

namespace Cnmsql.Binlog

open Framework List

section

def cutOf (d : UInt32) (holder : String) (branchCut : Nat) (seg : ReplaySegment) : Option Nat :=
  if holder ≠ "" then
    if seg.serverUUID=holder then none
    else
      match forkCut seg d with
      | some own => some (if own<branchCut then own else branchCut)
      | none => some branchCut
  else forkCut seg d

variable (g : ReplaySegment → Option Nat) (segs : List ReplaySegment)

def Identified : Prop :=
  ∀ s∈segs,∀ s'∈segs,s.serverUUID=s'.serverUUID → s=s'

def entries : Map String Nat :=
  segs.foldl (fun cuts s =>
    match g s with
    | some c => cuts.insert s.serverUUID c
    | none => cuts) ∅

theorem entries_concat (s : ReplaySegment) :
    entries g (segs++[s]) =
      match g s with
      | some c => (entries g segs).insert s.serverUUID c
      | none => entries g segs := by
  rw [entries,foldl_append]
  rfl

section

variable (g : ReplaySegment → Option Nat) {segs : List ReplaySegment}

theorem lookup_entries_of_not_mem
    {u : String} (h : ∀ s∈segs,s.serverUUID≠u) : (entries g segs).lookup u=none := by
  induction segs using List.reverseRecOn with
  | nil => rfl
  | append_singleton segs s ih =>
    have hs := h s (by simp)
    have ih := ih fun s' hs' => h s' (by simp [hs'])
    rw [entries_concat]
    cases g s with
    | none => exact ih
    | some c =>
      simp only
      rw [AList.lookup_insert_ne hs.symm]
      exact ih

theorem lookup_entries
    (h : Identified segs) {s : ReplaySegment} (hs : s∈segs) :
    (entries g segs).lookup s.serverUUID=g s := by
  induction segs using List.reverseRecOn with
  | nil => simp at hs
  | append_singleton segs s' ih =>
    have hsub : Identified segs := fun x hx y hy => h x (by simp [hx]) y (by simp [hy])
    have hsegs : s∈segs → (entries g segs).lookup s.serverUUID=g s := ih hsub
    rw [entries_concat]
    by_cases huuid : s.serverUUID=s'.serverUUID
    · obtain rfl : s=s' := h s hs s' (by simp) huuid
      cases hg : g s with
      | some c => simp
      | none =>
        simp only
        by_cases hin : s∈segs
        · rw [hsegs hin,hg]
        · refine lookup_entries_of_not_mem g fun x hx hxu => hin ?_
          rw [← h x (by simp [hx]) s (by simp) hxu]
          exact hx
    · have hin : s∈segs := by
        rcases mem_append.mp hs with hin | hin
        · exact hin
        · exact absurd (by rw [mem_singleton.mp hin]) huuid
      cases g s' with
      | none => exact hsegs hin
      | some c =>
        simp only
        rw [AList.lookup_insert_ne huuid]
        exact hsegs hin

end

theorem segmentCuts_eq_entries (d : UInt32) (target : Option MariaDBGTID) :
    segmentCuts segs d target =
      entries (cutOf d (branchHolder segs d target).1 (branchHolder segs d target).2) segs := by
  unfold segmentCuts entries cutOf
  simp only
  congr 1
  funext cuts s
  split_ifs
  · rfl
  · cases forkCut s d <;> rfl
  · cases forkCut s d <;> rfl

theorem lookup_segmentCuts {segs : List ReplaySegment} (h : Identified segs) {s : ReplaySegment}
    (hs : s∈segs) (d : UInt32) (target : Option MariaDBGTID) :
    (segmentCuts segs d target).lookup s.serverUUID =
      cutOf d (branchHolder segs d target).1 (branchHolder segs d target).2 s := by
  rw [segmentCuts_eq_entries,lookup_entries _ h hs]

end

variable {d : UInt32} {cuts : Map String Nat} {disk : String → List TxnBoundary}

def Ordered (files : List PositionalFile) : Prop :=
  files.Pairwise fun f g => f.segment=g.segment →
    ∀ b∈f.boundaries,∀ c∈g.boundaries,b.seq<c.seq

def KeptBy (cuts : Map String Nat) (files : List PositionalFile) (u : String) (b : TxnBoundary) :
    Prop :=
  ∃ f∈files,f.segment=u ∧ b∈f.boundaries ∧ ∀ c,cuts.lookup u=some c → b.seq≤c

theorem keptBy_cons {f : PositionalFile} {files : List PositionalFile} {u : String} {b : TxnBoundary} :
    KeptBy cuts (f::files) u b ↔
      (f.segment=u ∧ b∈f.boundaries ∧ ∀ c,cuts.lookup u=some c → b.seq≤c) ∨
        KeptBy cuts files u b := by
  simp [KeptBy]

theorem takeWhile_cut {bs : List TxnBoundary} (h : Run d bs) (c : Nat) :
    bs.takeWhile (fun b => !(b.domain=d ∧ c<b.seq))=bs.filter (·.seq≤c) := by
  rw [← filter_eq_takeWhile]
  · refine filter_congr fun b hb => ?_
    rw [← decide_not,decide_eq_decide]
    have := h.domain b hb
    simp only [this,true_and]
    omega
  · refine List.Pairwise.imp_of_mem ?_ h.pairwise
    intro x y hx hy hxy
    simp only [h.domain x hx,h.domain y hy,true_and,Bool.not_eq_true',decide_eq_false_iff_not]
    omega

theorem mem_takeWhile_cut {bs : List TxnBoundary} (h : Run d bs) (c : Nat) (b : TxnBoundary) :
    b∈bs.takeWhile (fun b => !(b.domain=d ∧ c<b.seq)) ↔ b∈bs ∧ b.seq≤c := by
  rw [takeWhile_cut h,mem_filter,decide_eq_true_eq]

theorem mem_cutFiles (cuts : Map String Nat) {u : String} {files : List PositionalFile}
    (hruns : ∀ f∈files,f.segment=u → Run d f.boundaries)
    (hordered : Ordered (files.filter (·.segment=u))) (exhausted : List String)
    (hexhausted : u∈exhausted → ∃ c,cuts.lookup u=some c ∧
      ∀ f∈files,f.segment=u → ∀ b∈f.boundaries,c<b.seq) (b : TxnBoundary) :
    (∃ f∈cutFiles d cuts exhausted files,f.segment=u ∧ b∈f.boundaries) ↔
      KeptBy cuts files u b := by
  induction files generalizing exhausted with
  | nil => simp [cutFiles,KeptBy]
  | cons f files ih =>
    rw [forall_mem_cons] at hruns
    have htail : Ordered (files.filter (·.segment=u)) :=
      hordered.sublist ((sublist_cons_self f files).filter _)
    have hexh : u∈exhausted → ∃ c,cuts.lookup u=some c ∧
        ∀ f∈files,f.segment=u → ∀ b∈f.boundaries, c<b.seq := by
      intro hu
      obtain ⟨c,hc,hlate⟩ := hexhausted hu
      exact ⟨c,hc,fun g hg => hlate g (mem_cons_of_mem _ hg)⟩
    rw [keptBy_cons,cutFiles]
    cases hlookup : cuts.lookup f.segment with
    | none =>
      simp only [exists_mem_cons_iff,ih hruns.2 htail _ hexh]
      refine or_congr_left ?_
      constructor
      · rintro ⟨rfl,hb⟩
        exact ⟨rfl,hb,by simp [hlookup]⟩
      · rintro ⟨rfl,hb,-⟩
        exact ⟨rfl,hb⟩
    | some cut =>
      simp only
      by_cases hdone : f.segment∈exhausted
      · rw [if_pos hdone,ih hruns.2 htail _ hexh,or_iff_right]
        rintro ⟨rfl,hb,hle⟩
        obtain ⟨c,hc,hlate⟩ := hexhausted hdone
        have := hlate f mem_cons_self rfl b hb
        have := hle c hc
        omega
      · rw [if_neg hdone]
        have hhere : (f.segment=u ∧ b∈f.boundaries ∧ ∀ c,cuts.lookup u=some c → b.seq≤c) ↔
            f.segment=u ∧ b∈f.boundaries.takeWhile (fun b => !(b.domain=d ∧ cut<b.seq)) := by
          refine and_congr_right ?_
          rintro rfl
          rw [mem_takeWhile_cut (hruns.1 rfl)]
          simp [hlookup]
        rw [hhere]
        cases hfind : f.boundaries.find? (fun b => b.domain=d ∧ cut<b.seq) with
        | none =>
          have hall : f.boundaries.takeWhile (fun b => !(b.domain=d ∧ cut<b.seq)) =
              f.boundaries := by
            rw [takeWhile_eq_self_iff]
            intro b hb
            rw [Bool.not_eq_true',Bool.eq_false_iff]
            exact List.find?_eq_none.mp hfind b hb
          simp only [hall,exists_mem_cons_iff,ih hruns.2 htail _ hexh]
        | some first =>
          have hfirst := mem_of_find?_eq_some hfind
          have hpast : cut<first.seq := by
            have := List.find?_some hfind
            simp only [decide_eq_true_eq] at this
            exact this.2
          have hnext : u∈f.segment::exhausted → ∃ c,cuts.lookup u=some c ∧
              ∀ f∈files,f.segment=u → ∀ b∈f.boundaries, c<b.seq := by
            intro hu
            rcases mem_cons.mp hu with rfl | hu
            · rw [filter_cons_of_pos (by simp)] at hordered
              refine ⟨cut,hlookup,fun g hg hseg b hb => ?_⟩
              have := (pairwise_cons.mp hordered).1 g (mem_filter.mpr ⟨hg,decide_eq_true hseg⟩)
                hseg.symm first hfirst b hb
              omega
            · exact hexh hu
          have ih := ih hruns.2 htail _ hnext
          simp only
          cases hstats : domainFileStats
              (f.boundaries.takeWhile fun b => !(b.domain=d ∧ cut<b.seq)) d with
          | none =>
            rw [ih,or_iff_right]
            rintro ⟨hu,hb⟩
            rw [((hruns.1 hu).of_initial ( takeWhile_prefix _)).eq_nil_of_stats hstats] at hb
            cases hb
          | some s => simp only [exists_mem_cons_iff,ih]

theorem readable_of_whole {f : PositionalFile} (hrun : Run d f.boundaries) (hwhole : f.endPos=0)
    (hdisk : disk f.path=f.boundaries) : Readable disk d f := by
  refine ⟨hdisk ▸ hrun,?_⟩
  rw [hdisk,hwhole]
  rfl

theorem readable_cutFiles {u : String} {files : List PositionalFile}
    (hruns : ∀ f∈files,f.segment=u → Run d f.boundaries)
    (hwhole : ∀ f∈files,f.segment=u → f.endPos=0)
    (hdisk : ∀ f∈files,f.segment=u → disk f.path=f.boundaries) (exhausted : List String) :
    ∀ f∈cutFiles d cuts exhausted files,f.segment=u → Readable disk d f := by
  induction files generalizing exhausted with
  | nil => simp [cutFiles]
  | cons f files ih =>
    rw [forall_mem_cons] at hruns hwhole hdisk
    have ih := ih hruns.2 hwhole.2 hdisk.2
    have hf : f.segment=u → Readable disk d f := fun hu =>
      readable_of_whole (hruns.1 hu) (hwhole.1 hu) (hdisk.1 hu)
    rw [cutFiles]
    cases cuts.lookup f.segment with
    | none =>
      rw [forall_mem_cons]
      exact ⟨hf,ih exhausted⟩
    | some cut =>
      simp only
      split
      · exact ih exhausted
      · cases hfind : f.boundaries.find? (fun b => b.domain=d ∧ cut<b.seq) with
        | none =>
          rw [forall_mem_cons]
          exact ⟨hf,ih exhausted⟩
        | some first =>
          simp only
          cases domainFileStats
              (f.boundaries.takeWhile fun b => !(b.domain=d ∧ cut<b.seq)) d with
          | none => exact ih _
          | some s =>
            rw [forall_mem_cons]
            refine ⟨fun hu => ⟨(hf hu).run,?_⟩,ih _⟩
            have hafter : firstAfterInFile f.boundaries d cut=some first.startPos := by
              rw [firstAfterInFile,hfind]
              rfl
            obtain ⟨hpos,-,hiff⟩ := firstAfterInFile_eq_some (hf hu).trimmed hafter
            rw [hdisk.1 hu]
            change f.boundaries.takeWhile _ = below first.startPos f.boundaries
            rw [takeWhile_cut (hruns.1 hu),below,if_neg (by omega)]
            refine filter_congr fun b hb => decide_eq_decide.mpr ?_
            have := hiff b hb
            omega

end Cnmsql.Binlog
