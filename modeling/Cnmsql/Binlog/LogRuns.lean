import Cnmsql.Binlog.MariaReplay

namespace Cnmsql.Binlog

open List

section

def below (stop : Nat) (bs : List TxnBoundary) : List TxnBoundary :=
  if stop=0 then bs else bs.filter (·.startPos<stop)

/-- One invocation: the start offset bounds its first file, the stop offset its last. -/
def replayedFrom (disk : String → List TxnBoundary) (stop : Nat) :
    Nat → List String → List TxnBoundary
  | _,[] => []
  | start,[f] => below stop ((disk f).filter (start≤·.startPos))
  | start,f::g::rest =>
    (disk f).filter (start≤·.startPos)++replayedFrom disk stop 0 (g::rest)

def ReplayChunk.replayed (disk : String → List TxnBoundary) (c : ReplayChunk) : List TxnBoundary :=
  replayedFrom disk c.stopPosition c.startPosition c.files

def streamed (disk : String → List TxnBoundary) (chunks : List ReplayChunk) : List TxnBoundary :=
  chunks.flatMap (·.replayed disk)

def diskOf (files : List PositionalFile) (path : String) : List TxnBoundary :=
  ((files.find? (·.path=path)).map (·.boundaries)).getD []

variable {disk : String → List TxnBoundary}

theorem streamed_append (c c' : List ReplayChunk) :
    streamed disk (c++c')=streamed disk c++streamed disk c' := flatMap_append

theorem streamed_singleton (c : ReplayChunk) : streamed disk [c]=c.replayed disk := by
  simp [streamed]

theorem replayedFrom_concat (start : Nat) (files : List String) (f : String) (h : files≠[]) :
    replayedFrom disk 0 start (files++[f])=replayedFrom disk 0 start files++disk f := by
  induction files generalizing start with
  | nil => exact absurd rfl h
  | cons g files ih =>
    cases files with
    | nil => simp [replayedFrom,below]
    | cons g' files =>
      have ih := ih 0 (by simp)
      rw [cons_append] at ih
      rw [cons_append,cons_append,replayedFrom,ih,replayedFrom,append_assoc]

theorem diskOf_eq {files : List PositionalFile} (h : (files.map (·.path)).Nodup)
    {f : PositionalFile} (hf : f∈files) : diskOf files f.path=f.boundaries := by
  have hfind : files.find? (·.path=f.path)=some f := by
    induction files with
    | nil => simp at hf
    | cons g files ih =>
      rw [map_cons,nodup_cons] at h
      rcases mem_cons.mp hf with rfl | hf
      · simp
      · have hne : g.path≠f.path := by
          intro he
          exact h.1 (he ▸ mem_map_of_mem hf)
        rw [List.find?_cons_of_neg (by simpa using hne)]
        exact ih h.2 hf
  simp [diskOf,hfind]

/-- One log's transactions: consecutive in the domain at growing offsets. -/
structure Run (d : UInt32) (bs : List TxnBoundary) : Prop where
  domain : ∀ b∈bs,b.domain=d
  offset : ∀ b∈bs,0<b.startPos
  chain : bs.IsChain fun b c => c.seq=b.seq+1 ∧ b.startPos<c.startPos

variable {d : UInt32} {bs : List TxnBoundary}

instance : Decidable (Run d bs) :=
  decidable_of_iff ((∀ b∈bs,b.domain=d) ∧ (∀ b∈bs,0<b.startPos) ∧
    bs.IsChain fun b c => c.seq=b.seq+1 ∧ b.startPos<c.startPos)
    ⟨fun h => ⟨h.1,h.2.1,h.2.2⟩,fun h => ⟨h.domain,h.offset,h.chain⟩⟩

theorem Run.of_initial {bs' : List TxnBoundary} (h : Run d bs) (hp : bs' <+: bs) : Run d bs' where
  domain b hb := h.domain b (hp.subset hb)
  offset b hb := h.offset b (hp.subset hb)
  chain := by
    obtain ⟨tail,rfl⟩ := hp
    exact (isChain_append.mp h.chain).1

theorem Run.pairwise (h : Run d bs) :
    bs.Pairwise fun b c => b.seq<c.seq ∧ b.startPos<c.startPos := by
  have : IsTrans TxnBoundary fun b c => b.seq<c.seq ∧ b.startPos<c.startPos :=
    ⟨fun _ _ _ h₁ h₂ => ⟨h₁.1.trans h₂.1,h₁.2.trans h₂.2⟩⟩
  refine isChain_iff_pairwise.mp (h.chain.imp ?_)
  intro b c hbc
  exact ⟨by omega,hbc.2⟩

theorem Run.lt_iff (h : Run d bs) {b c : TxnBoundary} (hb : b∈bs) (hc : c∈bs) :
    b.seq<c.seq ↔ b.startPos<c.startPos := by
  have hall : ∀ x∈bs,∀ y∈bs,x.seq<y.seq ↔ x.startPos<y.startPos := by
    have hp := h.pairwise
    clear h hb hc
    induction bs with
    | nil => simp
    | cons z bs ih =>
      rw [pairwise_cons] at hp
      have hz := hp.1
      have ih := ih hp.2
      simp only [mem_cons,forall_eq_or_imp,lt_self_iff_false,true_and]
      refine ⟨fun y hy => iff_of_true (hz y hy).1 (hz y hy).2,fun x hx => ⟨?_,ih x hx⟩⟩
      have := hz x hx
      exact iff_of_false (by omega) (by omega)
  exact hall b hb c hc

theorem Run.map_seq (h : Run d bs) (b : TxnBoundary) (hb : bs.head?=some b) :
    bs.map (·.seq)=List.range' b.seq bs.length := by
  induction bs generalizing b with
  | nil => simp at hb
  | cons c bs ih =>
    obtain rfl : c=b := by simpa using hb
    cases bs with
    | nil => simp
    | cons c' bs =>
      have hchain := isChain_cons_cons.mp h.chain
      have htail : Run d (c'::bs) :=
        ⟨fun x hx => h.domain x (mem_cons_of_mem _ hx),
          fun x hx => h.offset x (mem_cons_of_mem _ hx),hchain.2⟩
      rw [map_cons,ih htail c' rfl,hchain.1.1]
      rfl

variable (d)

theorem domainFileStats_concat (bs : List TxnBoundary) (b : TxnBoundary) :
    domainFileStats (bs++[b]) d =
      if b.domain≠d then domainFileStats bs d
      else
        match domainFileStats bs d with
        | none => some (b.seq,b.seq)
        | some (minSeq,maxSeq) =>
          some (if b.seq < minSeq then b.seq else minSeq,
            if maxSeq<b.seq then b.seq else maxSeq) := by
  rw [domainFileStats,foldl_append]
  rfl

theorem domainFileStats_spec (bs : List TxnBoundary) :
    match domainFileStats bs d with
    | none => ∀ b∈bs,b.domain≠d
    | some (lo,hi) => (∃ b∈bs,b.domain=d ∧ b.seq=lo) ∧ (∃ b∈bs,b.domain=d ∧ b.seq=hi) ∧
        ∀ b∈bs,b.domain=d → lo≤b.seq ∧ b.seq≤hi := by
  induction bs using List.reverseRecOn with
  | nil => simp [domainFileStats]
  | append_singleton bs b ih =>
    rw [domainFileStats_concat]
    cases hs : domainFileStats bs d with
    | none | some s =>
      simp only [hs] at ih
      by_cases hb : b.domain=d
      · simp only [hb,ne_eq,not_true_eq_false,if_false]
        grind
      · simp only [hb,ne_eq,not_false_eq_true,if_true]
        grind

variable {d} {bs : List TxnBoundary}

theorem not_mem_of_stats_none (h : domainFileStats bs d=none) : ∀ b∈bs, b.domain≠d := by
  have := domainFileStats_spec d bs
  rwa [h] at this

theorem bounds_of_stats {lo hi : Nat} (h : domainFileStats bs d=some (lo,hi)) :
    (∃ b∈bs,b.domain=d ∧ b.seq=lo) ∧ (∃ b∈bs,b.domain=d ∧ b.seq=hi) ∧
      ∀ b∈bs,b.domain=d → lo≤b.seq ∧ b.seq≤hi := by
  have := domainFileStats_spec d bs
  rwa [h] at this

theorem Run.eq_nil_of_stats (h : Run d bs) (hs : domainFileStats bs d=none) : bs=[] := by
  rw [eq_nil_iff_forall_not_mem]
  intro b hb
  exact not_mem_of_stats_none hs b hb (h.domain b hb)

theorem Run.mem_iff {lo hi : Nat} (h : Run d bs) (hs : domainFileStats bs d=some (lo,hi))
    (x : Nat) : (∃ b∈bs, b.seq=x) ↔ lo≤x ∧ x≤hi := by
  obtain ⟨⟨l,hl,-,rfl⟩,⟨u,hu,-,rfl⟩,hbounds⟩ := bounds_of_stats hs
  constructor
  · rintro ⟨b,hb,rfl⟩
    exact hbounds b hb (h.domain b hb)
  · intro hx
    obtain ⟨first,hfirst⟩ : ∃ first, bs.head?=some first := by
      cases bs with
      | nil => simp at hl
      | cons b bs => exact ⟨b,rfl⟩
    have hseqs := h.map_seq first hfirst
    have hmem : ∀ y,y∈bs.map (·.seq) ↔ first.seq≤y ∧ y<first.seq+bs.length := by
      intro y
      rw [hseqs,mem_range'_1]
    have hlow := (hmem l.seq).mp (mem_map_of_mem hl)
    have hhigh := (hmem u.seq).mp (mem_map_of_mem hu)
    exact mem_map.mp ((hmem x).mpr ⟨by omega,by omega⟩)

end

variable {d : UInt32} {disk : String → List TxnBoundary}

/-- A file of the plan: a run on disk, seen below its end offset. -/
structure Readable (disk : String → List TxnBoundary) (d : UInt32) (f : PositionalFile) : Prop where
  run : Run d (disk f.path)
  cut : f.boundaries=below f.endPos (disk f.path)

/-- The same of a file of which only the part the plan sees is known to be a run. -/
structure Trimmed (disk : String → List TxnBoundary) (d : UInt32) (f : PositionalFile) : Prop where
  kept : Run d f.boundaries
  cut : f.boundaries=below f.endPos (disk f.path)

theorem mem_below {stop : Nat} {bs : List TxnBoundary} {b : TxnBoundary} :
    b∈below stop bs ↔ b∈bs ∧ (stop=0 ∨ b.startPos<stop) := by
  unfold below
  split
  · rename_i h
    simp [h]
  · rename_i h
    simp [h]

theorem below_filter (stop : Nat) (p : TxnBoundary → Bool) (bs : List TxnBoundary) :
    below stop (bs.filter p)=(below stop bs).filter p := by
  unfold below
  split
  · rfl
  · rw [filter_comm]

theorem filter_eq_takeWhile {α : Type} {p : α → Bool} {l : List α}
    (h : l.Pairwise fun x y => p y=true → p x=true) : l.filter p=l.takeWhile p := by
  induction l with
  | nil => rfl
  | cons x l ih =>
    rw [pairwise_cons] at h
    by_cases hx : p x=true
    · rw [filter_cons_of_pos hx,takeWhile_cons_of_pos hx,ih h.2]
    · rw [filter_cons_of_neg hx,takeWhile_cons_of_neg hx,filter_eq_nil_iff]
      intro y hy hpy
      exact hx (h.1 y hy hpy)

theorem Run.below {bs : List TxnBoundary} (h : Run d bs) (stop : Nat) :
    Run d (below stop bs) := by
  refine h.of_initial ?_
  unfold Binlog.below
  split
  · exact prefix_rfl
  · rw [filter_eq_takeWhile]
    · exact takeWhile_prefix _
    · refine h.pairwise.imp ?_
      intro x y hxy hy
      rw [decide_eq_true_eq] at hy ⊢
      omega

variable {f : PositionalFile}

theorem firstAfterInFile_eq_some (h : Trimmed disk d f) {n pos : Nat}
    (hpos : firstAfterInFile f.boundaries d n=some pos) :
    0<pos ∧ (f.endPos=0 ∨ pos<f.endPos) ∧
      ∀ b∈f.boundaries, n<b.seq ↔ pos≤b.startPos := by
  unfold firstAfterInFile at hpos
  rw [Option.map_eq_some_iff] at hpos
  obtain ⟨c,hc,rfl⟩ := hpos
  rw [List.find?_eq_some_iff_append] at hc
  obtain ⟨hn,before,after,hsplit,hbefore⟩ := hc
  have hmem : c∈f.boundaries := by simp [hsplit]
  have hend : f.endPos=0 ∨ c.startPos<f.endPos := (mem_below.mp (h.cut ▸ hmem)).2
  refine ⟨h.kept.offset c hmem,hend,?_⟩
  intro b hb
  have hnc : n<c.seq := by
    have := of_decide_eq_true hn
    exact this.2
  have hlt := h.kept.lt_iff hb hmem
  constructor
  · intro hnb
    by_contra hcon
    have hpw := h.kept.pairwise
    rw [hsplit] at hb hpw
    rcases mem_append.mp hb with hin | hin
    · have := hbefore b hin
      simp [h.kept.domain b (by simp [hsplit,hin]),hnb] at this
    · rcases mem_cons.mp hin with rfl | hin
      · omega
      · have := (pairwise_cons.mp (pairwise_append.mp hpw).2.1).1 b hin
        omega
  · intro hle
    omega

theorem firstAfterInFile_eq_none {bs : List TxnBoundary} (h : Run d bs) {n : Nat}
    (hnone : firstAfterInFile bs d n=none) : ∀ b∈bs, b.seq≤n := by
  intro b hb
  rw [firstAfterInFile,Option.map_eq_none_iff,List.find?_eq_none] at hnone
  have := hnone b hb
  simp only [h.domain b hb,true_and,decide_eq_true_eq] at this
  omega

theorem Readable.kept (h : Readable disk d f) : Run d f.boundaries :=
  h.cut ▸ h.run.below f.endPos

theorem Readable.trimmed (h : Readable disk d f) : Trimmed disk d f :=
  ⟨h.kept,h.cut⟩

theorem read_from (h : Trimmed disk d f) {n : Nat} (hn : ∃ b∈f.boundaries,n<b.seq) :
    replayedFrom disk f.endPos ((firstAfterInFile f.boundaries d n).getD 0) [f.path] =
      f.boundaries.filter (n<·.seq) := by
  obtain ⟨b,hb,hlt⟩ := hn
  cases hpos : firstAfterInFile f.boundaries d n with
  | none =>
    have := firstAfterInFile_eq_none h.kept hpos b hb
    omega
  | some pos =>
    obtain ⟨-,-,hiff⟩ := firstAfterInFile_eq_some h hpos
    rw [replayedFrom,Option.getD_some,below_filter,← h.cut]
    refine filter_congr ?_
    intro c hc
    exact decide_eq_decide.mpr (hiff c hc).symm

/-- What starts before the stop is what lies up to the target. -/
theorem below_stop (h : Trimmed disk d f) (t : Nat) :
    below (((firstAfterInFile f.boundaries d t).or
      (if 0<f.endPos then some f.endPos else none)).getD 0) (disk f.path) =
      f.boundaries.filter (·.seq≤t) := by
  cases hpos : firstAfterInFile f.boundaries d t with
  | none =>
    have hall : f.boundaries.filter (·.seq≤t)=f.boundaries :=
      filter_eq_self.mpr fun b hb =>
        decide_eq_true (firstAfterInFile_eq_none h.kept hpos b hb)
    rw [hall,Option.none_or,h.cut]
    split
    · rfl
    · rename_i hend
      rw [show f.endPos=0 by omega]
      rfl
  | some pos =>
    obtain ⟨hpos,hend,hiff⟩ := firstAfterInFile_eq_some h hpos
    -- what starts before `pos` lies below the end offset too
    have hbelow : below pos (disk f.path)=f.boundaries.filter (·.startPos<pos) := by
      rw [h.cut,← below_filter,below,below,if_neg (by omega)]
      split
      · rfl
      · rw [filter_filter]
        refine filter_congr fun b _ => ?_
        rw [← Bool.decide_and,decide_eq_decide]
        omega
    rw [Option.some_or,Option.getD_some,hbelow]
    refine filter_congr fun b hb => decide_eq_decide.mpr ?_
    have := hiff b hb
    omega

end Cnmsql.Binlog
