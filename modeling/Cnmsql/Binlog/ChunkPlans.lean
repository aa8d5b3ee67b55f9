import Cnmsql.Binlog.PositionalReplay

namespace Cnmsql.Binlog

open ObjectStore List

section

/-- A file of the plan: consecutive in the domain at growing offsets, and seen up to its end. -/
structure PlanFile (disk : String → List TxnBoundary) (d : UInt32) (f : PositionalFile) : Prop where
  chain : (f.boundaries.filter (·.domain=d)).IsChain
    fun b c => c.seq=b.seq+1 ∧ b.startPos<c.startPos
  cut : f.boundaries=below f.endPos (disk f.path)

variable (disk : String → List TxnBoundary)

def Replayed (d : UInt32) (chunks : List ReplayChunk) (x : Nat) : Prop :=
  ∃ b∈streamed disk chunks,b.domain=d ∧ b.seq=x

/-- A chunk after `earlier` ones: it has a stop offset only for a single file, stops a cut file by
its end, and skips only what was applied before. -/
structure ChunkOf (disk : String → List TxnBoundary) (files : List PositionalFile) (d : UInt32)
    (a : Nat) (earlier : List ReplayChunk) (c : ReplayChunk) (first : PositionalFile)
    (rest : List PositionalFile) : Prop where
  planned : first::rest ⊆ files
  reads : c.files=(first::rest).map (·.path)
  single : c.stopPosition≠0 → rest=[]
  cut : ∀ f∈first::rest,0<f.endPos → 0<c.stopPosition ∧ c.stopPosition≤f.endPos
  skips : ∀ b∈first.boundaries,b.domain=d → b.startPos<c.startPosition →
    b.seq≤a ∨ Replayed disk d earlier b.seq

def EachSound (files : List PositionalFile) (d : UInt32) (a : Nat) (chunks : List ReplayChunk) :
    Prop :=
  ∀ earlier c later,chunks=earlier++c::later →
    ∃ first rest,ChunkOf disk files d a earlier c first rest

structure SoundPlan (disk : String → List TxnBoundary) (files : List PositionalFile) (d : UInt32)
    (a t : Nat) (chunks : List ReplayChunk) : Prop where
  increasing : ((streamed disk chunks).filter (·.domain=d)).Pairwise (·.seq<·.seq)
  replays : ∀ x,Replayed disk d chunks x ↔ a<x ∧ x≤t ∧ Held d files x
  chunks : EachSound disk files d a chunks

variable (d : UInt32) (f : PositionalFile)

def PositionalFile.inDomain : PositionalFile :=
  { f with boundaries := f.boundaries.filter (·.domain=d) }

def diskInDomain (disk : String → List TxnBoundary) (path : String) : List TxnBoundary :=
  (disk path).filter (·.domain=d)

variable (files : List PositionalFile)

@[simp] theorem domainFileStats_inDomain :
    domainFileStats (f.inDomain d).boundaries d=domainFileStats f.boundaries d := by
  simp only [PositionalFile.inDomain,domainFileStats,foldl_filter]
  congr 1
  funext s b
  by_cases hb : b.domain=d <;> simp [hb]

@[simp] theorem firstAfterInFile_inDomain (n : Nat) :
    firstAfterInFile (f.inDomain d).boundaries d n=firstAfterInFile f.boundaries d n := by
  simp only [PositionalFile.inDomain,firstAfterInFile,List.find?_filter]
  congr 2
  funext b
  by_cases hb : b.domain=d <;> simp [hb]

theorem held_inDomain (x : Nat) : Held d (files.map (·.inDomain d)) x ↔ Held d files x := by
  simp [Held,PositionalFile.inDomain,and_assoc]

theorem highestMariadbSeq_inDomain :
    highestMariadbSeq (files.map (·.inDomain d)) d=highestMariadbSeq files d := by
  simp [highestMariadbSeq,foldl_map]

theorem sortFilesByDomainSeq_inDomain :
    sortFilesByDomainSeq (files.map (·.inDomain d)) d =
      (sortFilesByDomainSeq files d).map (·.inDomain d) := by
  refine (map_insertionSort _ _ _ _ ?_).symm
  intro f _ g _
  simp [sortsBefore]

theorem positionalLoop_inDomain (t : Nat) (files : List PositionalFile) (applied : Nat)
    (firstReplayed : Bool) (chunks : List ReplayChunk) (cur : Option ReplayChunk) :
    positionalLoop d t applied firstReplayed chunks cur (files.map (·.inDomain d)) =
      positionalLoop d t applied firstReplayed chunks cur files := by
  induction files generalizing applied firstReplayed chunks cur with
  | nil => rfl
  | cons f files ih =>
    rw [map_cons,positionalLoop,positionalLoop]
    simp only [domainFileStats_inDomain,firstAfterInFile_inDomain,ih,finish]
    rfl

theorem planMariadbPositionalFiles_inDomain (a t : Nat) :
    planMariadbPositionalFiles (files.map (·.inDomain d)) d a t =
      planMariadbPositionalFiles files d a t := by
  rw [planMariadbPositionalFiles,planMariadbPositionalFiles,highestMariadbSeq_inDomain,
    sortFilesByDomainSeq_inDomain,positionalLoop_inDomain]

variable {d} {disk : String → List TxnBoundary}

theorem filter_replayedFrom (stop start : Nat) (paths : List String) :
    (replayedFrom disk stop start paths).filter (·.domain=d) =
      replayedFrom (diskInDomain d disk) stop start paths := by
  induction paths generalizing start with
  | nil => rfl
  | cons path paths ih =>
    cases paths with
    | nil => rw [replayedFrom,replayedFrom,← below_filter,filter_comm,diskInDomain]
    | cons path' paths =>
      rw [replayedFrom,replayedFrom,filter_append,ih,filter_comm,diskInDomain]

theorem filter_streamed (chunks : List ReplayChunk) :
    (streamed disk chunks).filter (·.domain=d)=streamed (diskInDomain d disk) chunks := by
  rw [streamed,filter_flatMap,streamed]
  congr 1
  funext c
  exact filter_replayedFrom _ _ _

theorem replayed_iff {chunks : List ReplayChunk} {x : Nat} :
    Replayed disk d chunks x ↔ x∈(streamed (diskInDomain d disk) chunks).map (·.seq) := by
  rw [← filter_streamed]
  simp [Replayed,and_assoc]

theorem PlanFile.trimmed {f : PositionalFile} (h : PlanFile disk d f)
    (hoff : ∀ b∈f.boundaries,b.domain=d → 0<b.startPos) :
    Trimmed (diskInDomain d disk) d (f.inDomain d) where
  kept :=
    { domain b hb := of_decide_eq_true (mem_filter.mp hb).2
      offset b hb := hoff b (mem_filter.mp hb).1 (of_decide_eq_true (mem_filter.mp hb).2)
      chain := h.chain }
  cut := by
    change f.boundaries.filter _ = below f.endPos ((disk f.path).filter _)
    rw [below_filter,← h.cut]

end

section

variable {d : UInt32} {disk : String → List TxnBoundary} {all : List PositionalFile} {a : Nat}

theorem eachSound_concat {chunks : List ReplayChunk} {c : ReplayChunk}
    (h : EachSound disk all d a chunks) {first : PositionalFile} {rest : List PositionalFile}
    (hc : ChunkOf disk all d a chunks c first rest) : EachSound disk all d a (chunks++[c]) := by
  intro earlier c' later heq
  rcases eq_nil_or_concat later with rfl | ⟨later,last,rfl⟩
  · obtain ⟨rfl,hlast⟩ := append_inj' heq rfl
    obtain rfl := singleton_inj.mp hlast
    exact ⟨first,rest,hc⟩
  · rw [concat_eq_append,← cons_append,← append_assoc] at heq
    exact h earlier c' later (append_inj' heq rfl).1

/-- Before the files of `rest`: what they hold up to here was replayed, and the chunks are sound. -/
structure Walked (disk : String → List TxnBoundary) (all : List PositionalFile) (d : UInt32) (a : Nat)
    (applied : Nat) (chunks : List ReplayChunk) (cur : Option ReplayChunk)
    (rest : List PositionalFile) : Prop where
  sound : EachSound disk all d a chunks
  filling : ∀ c∈cur,c.stopPosition=0 ∧ ∃ first more,ChunkOf disk all d a chunks c first more
  done : ∀ x,Held d rest x → x≤applied → x≤a ∨ Replayed disk d (flush chunks cur) x

variable {applied t lo hi : Nat} {chunks : List ReplayChunk} {cur : Option ReplayChunk}
  {f : PositionalFile} {rest : List PositionalFile}

theorem Walked.isOpen (h : Walked disk all d a applied chunks cur rest) : Open cur := by
  intro c hc
  obtain ⟨hstop,first,more,hof⟩ := h.filling c hc
  exact ⟨by simp [hof.reads],hstop⟩

theorem Walked.flushed (h : Walked disk all d a applied chunks cur rest) :
    EachSound disk all d a (flush chunks cur) := by
  cases cur with
  | none =>
    rw [flush_none]
    exact h.sound
  | some c =>
    obtain ⟨-,first,more,hof⟩ := h.filling c rfl
    exact eachSound_concat h.sound hof

theorem Walked.skip (h : Walked disk all d a applied chunks cur (f::rest)) :
    Walked disk all d a applied chunks cur rest :=
  { h with done x hx := h.done x ((held_cons ..).mpr (.inr hx)) }

theorem Walked.alone (h : Walked disk all d a applied chunks cur (f::rest)) (hall : f∈all)
    (hf : Trimmed (diskInDomain d disk) d (f.inDomain d)) {start stop : Nat}
    (hstart : start=0 ∨ start=(firstAfterInFile f.boundaries d applied).getD 0)
    (hstop : 0<f.endPos → 0<stop ∧ stop≤f.endPos) :
    ChunkOf disk all d a (flush chunks cur) ⟨[f.path],start,stop⟩ f [] where
  planned := by simpa using hall
  reads := rfl
  single _ := rfl
  cut g hg := by
    obtain rfl := mem_singleton.mp hg
    exact hstop
  skips b hb hd hlt := by
    change b.startPos<start at hlt
    have hle : b.seq≤applied := by
      cases hpos : firstAfterInFile f.boundaries d applied with
      | none =>
        simp only [hpos,Option.getD_none] at hstart
        omega
      | some pos =>
        simp only [hpos,Option.getD_some] at hstart
        rw [← firstAfterInFile_inDomain] at hpos
        have := (firstAfterInFile_eq_some hf hpos).2.2 b (mem_filter.mpr ⟨hb,by simpa using hd⟩)
        omega
    exact h.done b.seq ((held_cons ..).mpr (.inl ⟨b,hb,hd,rfl⟩)) hle

theorem ChunkOf.extend {c : ReplayChunk} {first : PositionalFile} {more : List PositionalFile}
    (h : ChunkOf disk all d a chunks c first more) (hstop : c.stopPosition=0) (hall : f∈all)
    (hend : f.endPos=0) :
    ChunkOf disk all d a chunks { c with files := c.files++[f.path] } first (more++[f]) where
  planned := by
    rw [← cons_append]
    exact append_subset.mpr ⟨h.planned,by simpa using hall⟩
  reads := by simp [h.reads]
  single hne := absurd hstop hne
  cut g hg hpos := by
    rw [← cons_append,mem_append,mem_singleton] at hg
    rcases hg with hg | rfl
    · exact h.cut g hg hpos
    · omega
  skips := h.skips

section

variable (h : Walked disk all d a applied chunks cur (f::rest)) (hall : f∈all)
  (hf : Trimmed (diskInDomain d disk) d (f.inDomain d))
include h hall hf

/-- A file below the target is placed in a sound chunk and replayed. -/
theorem Walked.place (hsorted : Sorted d (f::rest))
    (hs : domainFileStats f.boundaries d=some (lo,hi)) (hnew : ¬hi≤applied)
    {p : List ReplayChunk × Option ReplayChunk}
    (hp : Binlog.place ((firstAfterInFile f.boundaries d applied).getD 0) (lo≤applied) chunks cur f=p) :
    Walked disk all d a hi p.1 p.2 rest := by
  have hstreamed := (streamed_place hf (by rwa [domainFileStats_inDomain]) hnew chunks h.isOpen
    (p := p) (by rw [firstAfterInFile_inDomain]; exact hp)).2
  have hdone : ∀ x,Held d rest x → x≤hi → x≤a ∨ Replayed disk d (flush p.1 p.2) x := by
    intro x hx hxhi
    rw [replayed_iff,hstreamed,map_append,mem_append,← replayed_iff]
    by_cases hle : x≤applied
    · exact (h.done x ((held_cons ..).mpr (.inr hx)) hle).imp_right .inl
    · -- a later file begins no earlier, so this one holds `x`
      have hlo := le_of_sorted hsorted hs hx
      obtain ⟨b,hb,rfl⟩ := (hf.kept.mem_iff (by rwa [domainFileStats_inDomain]) x).mpr ⟨hlo,hxhi⟩
      refine .inr (.inr (mem_map_of_mem (mem_filter.mpr ⟨hb,?_⟩)))
      exact decide_eq_true (by omega)
  unfold Binlog.place at hp
  split at hp
  · rename_i hend
    subst hp
    exact ⟨eachSound_concat h.flushed (h.alone hall hf (.inr rfl) fun _ => ⟨hend,le_rfl⟩),
      by simp,hdone⟩
  · rename_i hend
    split at hp
    · rename_i c heq
      subst hp
      refine ⟨h.sound,?_,hdone⟩
      rintro c' hc'
      obtain rfl := Option.some.inj hc'
      obtain ⟨hstop,first,more,hof⟩ := h.filling c rfl
      exact ⟨hstop,first,_,hof.extend hstop hall (by omega)⟩
    · subst hp
      refine ⟨h.flushed,?_,hdone⟩
      rintro c' hc'
      obtain rfl := Option.some.inj hc'
      exact ⟨rfl,f,[],h.alone hall hf (.inr rfl) fun hpos => absurd hpos hend⟩

theorem Walked.finish (firstReplayed overlap : Bool) :
    EachSound disk all d a (Binlog.finish d t applied firstReplayed overlap chunks cur f) := by
  have hstop : ∀ stop,(firstAfterInFile f.boundaries d t).or
      (if 0<f.endPos then some f.endPos else none)=stop →
      0<f.endPos → 0<stop.getD 0 ∧ stop.getD 0≤f.endPos := by
    rintro stop rfl hend
    cases hpos : firstAfterInFile f.boundaries d t with
    | none => simp [hend]
    | some pos =>
      rw [← firstAfterInFile_inDomain] at hpos
      obtain ⟨hpos,hle,-⟩ := firstAfterInFile_eq_some hf hpos
      change f.endPos=0 ∨ pos<f.endPos at hle
      exact ⟨hpos,by simp only [Option.some_or,Option.getD_some]; omega⟩
  unfold Binlog.finish
  simp only
  split
  · rename_i c hnone
    obtain ⟨hzero,first,more,hof⟩ := h.filling c rfl
    have hend : f.endPos=0 := by
      by_contra hne
      have := hstop none hnone (by omega)
      simp at this
    exact eachSound_concat h.sound (hof.extend hzero hall hend)
  · refine eachSound_concat h.flushed (h.alone hall hf ?_ (hstop _ rfl))
    split
    · exact .inr rfl
    · exact .inl rfl

end

theorem eachSound_of_loop (files : List PositionalFile) (hall : files ⊆ all)
    (hfiles : ∀ f∈files,Trimmed (diskInDomain d disk) d (f.inDomain d)) (hsorted : Sorted d files)
    (applied : Nat) (firstReplayed : Bool) (chunks : List ReplayChunk) (cur : Option ReplayChunk)
    (h : Walked disk all d a applied chunks cur files) {out : List ReplayChunk}
    (hout : positionalLoop d t applied firstReplayed chunks cur files = .ok out) :
    EachSound disk all d a out := by
  induction files generalizing applied firstReplayed chunks cur with
  | nil =>
    rw [positionalLoop] at hout
    exact Except.ok.inj hout ▸ h.flushed
  | cons f files ih =>
    rw [forall_mem_cons] at hfiles
    rw [cons_subset] at hall
    have ih := ih hall.2 hfiles.2 (pairwise_cons.mp hsorted).2
    cases hs : domainFileStats f.boundaries d with
    | none =>
      rw [positionalLoop,hs] at hout
      exact ih _ _ _ _ h.skip hout
    | some s =>
      obtain ⟨lo,hi⟩ := s
      by_cases hskip : hi≤applied
      · rw [positionalLoop,hs] at hout
        simp only [if_pos hskip] at hout
        exact ih _ _ _ _ h.skip hout
      · rw [positionalLoop_cons hs hskip] at hout
        split at hout
        · split at hout
          · exact Except.ok.inj hout ▸ h.finish hall.1 hfiles.1 _ _
          · exact ih _ _ _ _ (h.place hall.1 hfiles.1 hsorted hs hskip rfl) hout
        · cases hout

end

variable {d : UInt32} {disk : String → List TxnBoundary} {files : List PositionalFile} {a t : Nat}

theorem PlanFile.trimmedAll (hfiles : ∀ f∈files,PlanFile disk d f)
    (hoff : ∀ f∈files,∀ b∈f.boundaries,b.domain=d → 0<b.startPos) :
    ∀ f∈files,Trimmed (diskInDomain d disk) d (f.inDomain d) := fun f hf =>
  (hfiles f hf).trimmed (hoff f hf)

section

variable (hfiles : ∀ f∈files,Trimmed (diskInDomain d disk) d (f.inDomain d))
include hfiles

theorem streamed_of_plan {chunks : List ReplayChunk}
    (h : planMariadbPositionalFiles files d a t = .ok chunks) :
    (streamed disk chunks).filter (·.domain=d) =
      fresh d t a ((sortFilesByDomainSeq files d).map (·.inDomain d)) := by
  rw [filter_streamed,← sortFilesByDomainSeq_inDomain]
  refine ((planMariadbPositionalFiles_spec ?_).2 chunks ?_).2.2.2
  · exact forall_mem_map.mpr hfiles
  · rwa [planMariadbPositionalFiles_inDomain]

theorem runs_inDomain : ∀ f∈(sortFilesByDomainSeq files d).map (·.inDomain d), Run d f.boundaries :=
  forall_mem_map.mpr fun f hf => (hfiles f ((perm_insertionSort _ _).mem_iff.mp hf)).kept

theorem replayed_of_plan {chunks : List ReplayChunk}
    (h : planMariadbPositionalFiles files d a t = .ok chunks) (x : Nat) :
    Replayed disk d chunks x ↔ a<x ∧ x≤t ∧ Held d files x := by
  have hperm : (sortFilesByDomainSeq files d).Perm files := perm_insertionSort _ _
  rw [replayed_iff,← filter_streamed,streamed_of_plan hfiles h,mem_fresh (runs_inDomain hfiles),
    held_inDomain,held_of_perm hperm]
  rw [← sortFilesByDomainSeq_inDomain]
  exact sorted_sortFilesByDomainSeq _

end

/-- Every plan is sound: it replays what the files hold past the anchor up to the target, once and
in order, chunk by chunk. -/
theorem soundPlan_of_positive_offsets (hfiles : ∀ f∈files,PlanFile disk d f)
    (hoff : ∀ f∈files,∀ b∈f.boundaries,b.domain=d → 0<b.startPos)
    {chunks : List ReplayChunk} (h : planMariadbPositionalFiles files d a t = .ok chunks) :
    SoundPlan disk files d a t chunks := by
  have htrimmed := PlanFile.trimmedAll hfiles hoff
  have hperm : (sortFilesByDomainSeq files d).Perm files := perm_insertionSort _ _
  refine ⟨?_,replayed_of_plan htrimmed h,?_⟩
  · rw [streamed_of_plan htrimmed h]
    exact fresh_pairwise (runs_inDomain htrimmed) a
  · unfold planMariadbPositionalFiles at h
    split at h
    · cases h
    split at h
    · cases h
    split at h
    · cases h
    refine eachSound_of_loop _ (fun f hf => hperm.mem_iff.mp hf)
      (fun f hf => htrimmed f (hperm.mem_iff.mp hf)) (sorted_sortFilesByDomainSeq files) a true [] none
      ?_ h
    exact ⟨by simp [EachSound],by simp,fun x _ hx => .inl hx⟩

/-- Two overlapping logs: the first cut where the second forked off, the second with another domain
in it. -/
def overlapping : List PositionalFile :=
  [⟨"b","s2",[⟨0,2,2,4,0⟩,⟨7,2,9,8,0⟩,⟨0,2,3,12,0⟩,⟨0,2,4,16,0⟩],0⟩,
    ⟨"a","s1",[⟨0,1,1,4,0⟩,⟨0,1,2,8,0⟩],12⟩]

def overlappingDisk (path : String) : List TxnBoundary :=
  if path = "a" then [⟨0,1,1,4,0⟩,⟨0,1,2,8,0⟩,⟨0,1,3,12,0⟩]
  else [⟨0,2,2,4,0⟩,⟨7,2,9,8,0⟩,⟨0,2,3,12,0⟩,⟨0,2,4,16,0⟩]

theorem soundPlan_overlapping :
    planMariadbPositionalFiles overlapping 0 0 3 = .ok [⟨["a"],4,12⟩,⟨["b"],12,16⟩] ∧
      SoundPlan overlappingDisk overlapping 0 0 3 [⟨["a"],4,12⟩,⟨["b"],12,16⟩] := by
  have hplan : planMariadbPositionalFiles overlapping 0 0 3 =
      .ok [⟨["a"],4,12⟩,⟨["b"],12,16⟩] := by decide
  refine ⟨hplan,soundPlan_of_positive_offsets ?_ (by decide) hplan⟩
  intro f hf
  simp only [overlapping,mem_cons,not_mem_nil,or_false] at hf
  rcases hf with rfl | rfl
  · exact ⟨by decide,by decide⟩
  · exact ⟨by decide,by decide⟩

/-- A transaction at offset 0 cannot be stopped at: 0 stands for no stop. -/
theorem soundPlan_fails_at_zero :
    ¬∀ (disk : String → List TxnBoundary) (files : List PositionalFile) (d : UInt32) (a t : Nat)
      (chunks : List ReplayChunk),(∀ f∈files,PlanFile disk d f) →
      planMariadbPositionalFiles files d a t = .ok chunks → SoundPlan disk files d a t chunks := by
  intro h
  have hsound := h (fun _ => [⟨0,1,5,0,0⟩]) [⟨"a","s1",[⟨0,1,5,0,0⟩],0⟩] 0 0 3
    [⟨["a"],0,0⟩] (by
      intro f hf
      obtain rfl := mem_singleton.mp hf
      exact ⟨by decide,by decide⟩) (by decide)
  have hpast := (hsound.replays 5).mp ⟨⟨0,1,5,0,0⟩,by decide,rfl,rfl⟩
  omega

end Cnmsql.Binlog
