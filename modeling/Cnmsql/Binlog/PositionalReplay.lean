import Cnmsql.Binlog.LogRuns

namespace Cnmsql.Binlog

open List

section

variable {d : UInt32} {disk : String → List TxnBoundary}

def reachedBy (d : UInt32) (applied : Nat) (f : PositionalFile) : Nat :=
  match domainFileStats f.boundaries d with
  | none => applied
  | some (_,hi) => max applied hi

/-- What the files bring up to the target, each past the sequence reached. -/
def fresh (d : UInt32) (t : Nat) : Nat → List PositionalFile → List TxnBoundary
  | _,[] => []
  | applied,f::rest =>
    f.boundaries.filter (fun b => applied<b.seq ∧ b.seq≤t) ++
      fresh d t (reachedBy d applied f) rest

/-- Whether the walk over the files meets no hole before the target. -/
def Bridged (d : UInt32) (t : Nat) : Nat → Bool → List PositionalFile → Prop
  | _,_,[] => True
  | applied,firstReplayed,f::rest =>
    match domainFileStats f.boundaries d with
    | none => Bridged d t applied firstReplayed rest
    | some (lo,hi) =>
      if hi≤applied then Bridged d t applied firstReplayed rest
      else (firstReplayed=true ∨ lo≤applied+1) ∧ (t≤hi ∨ Bridged d t hi false rest)

theorem fresh_eq_nil {t applied : Nat} (h : t≤applied) (files : List PositionalFile) :
    fresh d t applied files=[] := by
  induction files generalizing applied with
  | nil => rfl
  | cons f files ih =>
    have hle : t≤reachedBy d applied f := by
      unfold reachedBy
      split <;> omega
    rw [fresh,ih hle,append_nil,filter_eq_nil_iff]
    intro b _
    simp only [decide_eq_true_eq]
    omega

def Open (cur : Option ReplayChunk) : Prop := ∀ c∈cur,c.files≠[] ∧ c.stopPosition=0

variable {cur : Option ReplayChunk} (chunks : List ReplayChunk)

theorem flush_none : flush chunks none=chunks := append_nil _

theorem flush_some (c : ReplayChunk) :
    flush chunks (some c)=chunks++[c] := rfl

theorem streamed_concat (c : ReplayChunk) :
    streamed disk (chunks++[c])=streamed disk chunks++c.replayed disk := by
  rw [streamed_append,streamed_singleton]

theorem streamed_extend {cur : ReplayChunk} (h : Open (some cur)) (path : String) :
    streamed disk (chunks++[{ cur with files := cur.files++[path] }]) =
      streamed disk (flush chunks (some cur))++disk path := by
  obtain ⟨hne,hstop⟩ := h cur rfl
  rw [flush_some,streamed_concat,streamed_concat,ReplayChunk.replayed,ReplayChunk.replayed,
    hstop,append_assoc,replayedFrom_concat _ _ _ hne]

variable {f : PositionalFile} {lo hi applied t : Nat}

section

variable (h : Trimmed disk d f) (hs : domainFileStats f.boundaries d=some (lo,hi))
include h hs

theorem filter_new
    (hlo : applied<lo) : f.boundaries.filter (applied<·.seq)=f.boundaries := by
  refine filter_eq_self.mpr fun b hb => decide_eq_true ?_
  have := ((bounds_of_stats hs).2.2 b hb (h.kept.domain b hb)).1
  omega

theorem streamed_finish
    (hnew : applied<hi) (chunks : List ReplayChunk) (hcur : Open cur) (firstReplayed : Bool) :
    streamed disk (finish d t applied firstReplayed (lo≤applied) chunks cur f) =
      streamed disk (flush chunks cur) ++
        f.boundaries.filter (fun b => applied<b.seq ∧ b.seq≤t) := by
  have hsplit : f.boundaries.filter (fun b => applied<b.seq ∧ b.seq≤t) =
      (f.boundaries.filter (·.seq≤t)).filter (applied<·.seq) := by
    simp only [filter_filter,Bool.decide_and]
  have hstop := below_stop h t
  generalize hval : (firstAfterInFile f.boundaries d t).or
    (if 0<f.endPos then some f.endPos else none)=stop at hstop
  -- a chunk of the file alone, from `start` on
  have halone (start : Nat)
      (hstart : ∀ b∈f.boundaries,applied<b.seq ↔ start≤b.startPos) :
      (⟨[f.path],start,stop.getD 0⟩ : ReplayChunk).replayed disk =
        f.boundaries.filter (fun b => applied<b.seq ∧ b.seq≤t) := by
    rw [hsplit,ReplayChunk.replayed,replayedFrom,below_filter,hstop]
    refine filter_congr fun b hb => decide_eq_decide.mpr (hstart b ?_).symm
    exact mem_of_mem_filter hb
  have hstart : ∀ b∈f.boundaries,applied<b.seq ↔
      (if lo≤applied ∨ firstReplayed then (firstAfterInFile f.boundaries d applied).getD 0
        else 0)≤b.startPos := by
    intro b hb
    split
    · cases hpos : firstAfterInFile f.boundaries d applied with
      | none =>
        obtain ⟨u,hu,-,rfl⟩ := (bounds_of_stats hs).2.1
        have := firstAfterInFile_eq_none h.kept hpos u hu
        omega
      | some pos =>
        exact (firstAfterInFile_eq_some h hpos).2.2 b hb
    · have := ((bounds_of_stats hs).2.2 b hb (h.kept.domain b hb)).1
      omega
  unfold finish
  simp only [hval,decide_eq_true_eq]
  split
  · rename_i cur' heq
    have hlo : applied<lo := by simpa using heq
    rw [streamed_extend _ hcur,hsplit]
    rw [Option.getD_none,below,if_pos rfl] at hstop
    rw [hstop,filter_comm,filter_new h hs hlo]
  · rw [streamed_concat,halone _ hstart]

end

/-- Where a file below the target goes: a cut one into its own chunk, one that goes on into the
chunk being filled, any other into a new one. -/
def place (start : Nat) (overlap : Bool) (chunks : List ReplayChunk) (cur : Option ReplayChunk)
    (f : PositionalFile) : List ReplayChunk × Option ReplayChunk :=
  if 0<f.endPos then (flush chunks cur++[⟨[f.path],start,f.endPos⟩],none)
  else
    match cur,overlap with
    | some cur,false => (chunks, some { cur with files := cur.files++[f.path] })
    | cur,_ => (flush chunks cur,some ⟨[f.path],start,0⟩)

theorem positionalLoop_cons {firstReplayed : Bool} {chunks : List ReplayChunk}
    {rest : List PositionalFile} (hs : domainFileStats f.boundaries d=some (lo,hi))
    (hnew : ¬hi≤applied) :
    positionalLoop d t applied firstReplayed chunks cur (f::rest) =
      if firstReplayed=true ∨ lo≤applied+1 then
        if t≤hi then .ok (finish d t applied firstReplayed (lo≤applied) chunks cur f)
        else
          let p := place ((firstAfterInFile f.boundaries d applied).getD 0) (lo≤applied) chunks cur f
          positionalLoop d t hi false p.1 p.2 rest
      else .error .forkedTimeline := by
  rw [positionalLoop,hs]
  simp only [if_neg hnew]
  by_cases hhole : firstReplayed=true ∨ lo≤applied+1
  · have hok : ¬(firstReplayed=false ∧ decide (lo≤applied)=false ∧ applied+1<lo) := by
      rintro ⟨h₁,-,h₃⟩
      rcases hhole with h | h
      · simp [h] at h₁
      · omega
    rw [if_neg hok,if_pos hhole]
    unfold place
    split
    · rfl
    split
    · rfl
    cases cur with
    | none => rfl
    | some cur => cases decide (lo≤applied) <;> rfl
  · rw [not_or] at hhole
    rw [if_pos ⟨by simpa using hhole.1,by simp; omega,by omega⟩,if_neg (by tauto)]

theorem streamed_place (h : Trimmed disk d f) (hs : domainFileStats f.boundaries d=some (lo,hi))
    (hnew : ¬hi≤applied) (chunks : List ReplayChunk) (hcur : Open cur)
    {p : List ReplayChunk × Option ReplayChunk}
    (hp : place ((firstAfterInFile f.boundaries d applied).getD 0) (lo≤applied) chunks cur f=p) :
    Open p.2 ∧ streamed disk (flush p.1 p.2) =
      streamed disk (flush chunks cur)++f.boundaries.filter (applied<·.seq) := by
  have hread : replayedFrom disk f.endPos ((firstAfterInFile f.boundaries d applied).getD 0) [f.path] =
      f.boundaries.filter (applied<·.seq) := by
    apply read_from h
    obtain ⟨u,hu,-,rfl⟩ := (bounds_of_stats hs).2.1
    exact ⟨u,hu,by omega⟩
  unfold place at hp
  split at hp
  · subst hp
    rw [flush_none,streamed_concat,ReplayChunk.replayed,hread]
    exact ⟨by simp [Open],rfl⟩
  · rename_i hend
    have hend : f.endPos=0 := by omega
    split at hp
    · rename_i cur' heq
      subst hp
      rw [flush_some,streamed_extend chunks hcur,filter_new h hs (by simpa using heq),h.cut,hend]
      refine ⟨?_,rfl⟩
      intro c hc
      obtain rfl := Option.some.inj hc
      exact ⟨by simp,(hcur cur' rfl).2⟩
    · subst hp
      rw [hend] at hread
      rw [flush_some,streamed_concat,ReplayChunk.replayed,hread]
      refine ⟨?_,rfl⟩
      intro c hc
      obtain rfl := Option.some.inj hc
      exact ⟨by simp,rfl⟩

/-- The walk plans exactly what the files bring, or stops at the hole it meets. -/
theorem positionalLoop_spec (files : List PositionalFile) (hfiles : ∀ f∈files,Trimmed disk d f)
    (applied : Nat) (firstReplayed : Bool) (chunks : List ReplayChunk) (cur : Option ReplayChunk)
    (hcur : Open cur) :
    (Bridged d t applied firstReplayed files →
      ∃ out,positionalLoop d t applied firstReplayed chunks cur files = .ok out ∧
        streamed disk out=streamed disk (flush chunks cur)++fresh d t applied files) ∧
    (¬Bridged d t applied firstReplayed files →
      positionalLoop d t applied firstReplayed chunks cur files = .error .forkedTimeline) := by
  induction files generalizing applied firstReplayed chunks cur with
  | nil => simp [Bridged,positionalLoop,fresh]
  | cons f files ih =>
    rw [forall_mem_cons] at hfiles
    obtain ⟨hf,hfiles⟩ := hfiles
    rw [Bridged,fresh,reachedBy]
    cases hs : domainFileStats f.boundaries d with
    | none =>
      rw [positionalLoop,hs,hf.kept.eq_nil_of_stats hs]
      exact ih hfiles applied firstReplayed chunks cur hcur
    | some s =>
      obtain ⟨lo,hi⟩ := s
      simp only
      have hbound : ∀ b∈f.boundaries, b.seq≤hi := fun b hb =>
        ((bounds_of_stats hs).2.2 b hb (hf.kept.domain b hb)).2
      by_cases hskip : hi≤applied
      · have hnil : f.boundaries.filter (fun b => applied<b.seq ∧ b.seq≤t)=[] := by
          rw [filter_eq_nil_iff]
          intro b hb
          have := hbound b hb
          simp only [decide_eq_true_eq]
          omega
        rw [positionalLoop,hs]
        simp only
        rw [if_pos hskip,if_pos hskip,hnil,Nat.max_eq_left hskip]
        exact ih hfiles applied firstReplayed chunks cur hcur
      · rw [positionalLoop_cons hs hskip,if_neg hskip,Nat.max_eq_right (by omega)]
        by_cases hhole : firstReplayed=true ∨ lo≤applied+1
        · rw [if_pos hhole]
          by_cases htarget : t≤hi
          · rw [if_pos htarget,fresh_eq_nil htarget,append_nil]
            refine ⟨fun _ => ⟨_,rfl,streamed_finish hf hs (by omega) chunks hcur _⟩,?_⟩
            intro h
            exact absurd ⟨hhole,.inl htarget⟩ h
          · have hwhole : f.boundaries.filter (fun b => applied<b.seq ∧ b.seq≤t) =
                f.boundaries.filter (applied<·.seq) := by
              refine filter_congr fun b hb => decide_eq_decide.mpr ?_
              have := hbound b hb
              omega
            have hiff : ((firstReplayed=true ∨ lo≤applied+1) ∧
                (t≤hi ∨ Bridged d t hi false files)) ↔ Bridged d t hi false files := by
              simp [hhole,htarget]
            obtain ⟨hopen,hstreamed⟩ := streamed_place hf hs hskip chunks hcur rfl
            rw [if_neg htarget,hiff,hwhole,← append_assoc,← hstreamed]
            exact ih hfiles hi false _ _ hopen
        · rw [if_neg hhole]
          exact ⟨fun h => absurd h.1 hhole,fun _ => rfl⟩

variable (d)

def Held (files : List PositionalFile) (x : Nat) : Prop :=
  ∃ f∈files,∃ b∈f.boundaries,b.domain=d ∧ b.seq=x

variable {d} {f : PositionalFile} {files : List PositionalFile}

theorem held_cons {x : Nat} :
    Held d (f::files) x ↔ (∃ b∈f.boundaries,b.domain=d ∧ b.seq=x) ∨ Held d files x := by
  simp [Held]

theorem held_of_perm {files' : List PositionalFile} (h : files.Perm files') (x : Nat) :
    Held d files x ↔ Held d files' x := by
  simp [Held,h.mem_iff]

def Sorted (d : UInt32) (files : List PositionalFile) : Prop :=
  files.Pairwise fun f g => sortsBefore d g f=false

theorem sorted_sortFilesByDomainSeq (files : List PositionalFile) :
    Sorted d (sortFilesByDomainSeq files d) := by
  have htotal : Std.Total fun f g => sortsBefore d g f=false := ⟨by
    intro f g
    unfold sortsBefore
    grind⟩
  have htrans : IsTrans PositionalFile fun f g => sortsBefore d g f=false := ⟨by
    intro f g h
    unfold sortsBefore
    grind⟩
  exact pairwise_insertionSort _ _

theorem le_of_sorted {f : PositionalFile} {files : List PositionalFile} (h : Sorted d (f::files))
    {lo hi x : Nat} (hs : domainFileStats f.boundaries d=some (lo,hi)) (hx : Held d files x) :
    lo≤x := by
  obtain ⟨g,hg,b,hb,hd,rfl⟩ := hx
  have hle := (pairwise_cons.mp h).1 g hg
  cases hsg : domainFileStats g.boundaries d with
  | none => exact absurd hd (not_mem_of_stats_none hsg b hb)
  | some s =>
    obtain ⟨lo',hi'⟩ := s
    have hbound := (bounds_of_stats hsg).2.2 b hb hd
    simp only [sortsBefore,hs,hsg,decide_eq_false_iff_not] at hle
    omega

theorem held_cons_of_stats {lo hi x : Nat} (hf : Run d f.boundaries)
    (hs : domainFileStats f.boundaries d=some (lo,hi)) :
    Held d (f::files) x ↔ (lo≤x ∧ x≤hi) ∨ Held d files x := by
  rw [held_cons,← hf.mem_iff hs]
  refine or_congr_left (exists_congr fun b => and_congr_right fun hb => ?_)
  simp [hf.domain b hb]

theorem held_cons_of_none {x : Nat} (hs : domainFileStats f.boundaries d=none) :
    Held d (f::files) x ↔ Held d files x := by
  rw [held_cons,or_iff_right]
  rintro ⟨b,hb,hd,-⟩
  exact not_mem_of_stats_none hs b hb hd

variable {t : Nat}

theorem lt_of_mem_fresh {files : List PositionalFile} {applied : Nat} {b : TxnBoundary}
    (hb : b∈fresh d t applied files) :
    applied<b.seq ∧ b.seq≤t ∧ ∃ f∈files, b∈f.boundaries := by
  induction files generalizing applied with
  | nil => simp [fresh] at hb
  | cons f files ih =>
    rw [fresh,mem_append] at hb
    rcases hb with hb | hb
    · rw [mem_filter,decide_eq_true_eq] at hb
      exact ⟨hb.2.1,hb.2.2,f,mem_cons_self,hb.1⟩
    · obtain ⟨hlt,hle,g,hg,hbg⟩ := ih hb
      refine ⟨lt_of_le_of_lt ?_ hlt,hle,g,mem_cons_of_mem _ hg,hbg⟩
      unfold reachedBy
      split <;> omega

variable {files : List PositionalFile} (hruns : ∀ f∈files,Run d f.boundaries)
include hruns

theorem fresh_pairwise (applied : Nat) : (fresh d t applied files).Pairwise (·.seq<·.seq) := by
  induction files generalizing applied with
  | nil => exact List.Pairwise.nil
  | cons f files ih =>
    rw [forall_mem_cons] at hruns
    rw [fresh,pairwise_append]
    refine ⟨(hruns.1.pairwise.imp And.left).filter _,ih hruns.2 _,?_⟩
    intro b hb c hc
    have hb := (mem_filter.mp hb).1
    refine lt_of_le_of_lt ?_ (lt_of_mem_fresh hc).1
    unfold reachedBy
    cases hs : domainFileStats f.boundaries d with
    | none => exact absurd (hruns.1.domain b hb) (not_mem_of_stats_none hs b hb)
    | some s => exact (((bounds_of_stats hs).2.2 b hb (hruns.1.domain b hb)).2).trans (le_max_right _ _)

/-- The walk brings what the files carry past the anchor up to the target: what it skips lies in a
file taken before. -/
theorem mem_fresh (hsorted : Sorted d files) (applied x : Nat) :
    x∈(fresh d t applied files).map (·.seq) ↔ applied<x ∧ x≤t ∧ Held d files x := by
  induction files generalizing applied with
  | nil => simp [fresh,Held]
  | cons f files ih =>
    rw [forall_mem_cons] at hruns
    have ih := ih hruns.2 (pairwise_cons.mp hsorted).2 (reachedBy d applied f)
    have hhere : x∈(f.boundaries.filter (fun b => applied<b.seq ∧ b.seq≤t)).map (·.seq) ↔
        applied<x ∧ x≤t ∧ ∃ b∈f.boundaries, b.seq=x := by
      simp only [mem_map,mem_filter,decide_eq_true_eq]
      constructor
      · rintro ⟨b,⟨hb,hlt,hle⟩,rfl⟩
        exact ⟨hlt,hle,b,hb,rfl⟩
      · rintro ⟨hlt,hle,b,hb,rfl⟩
        exact ⟨b,⟨hb,hlt,hle⟩,rfl⟩
    rw [fresh,map_append,mem_append,hhere,ih]
    unfold reachedBy
    cases hs : domainFileStats f.boundaries d with
    | none => simp [held_cons_of_none hs,hruns.1.eq_nil_of_stats hs]
    | some s =>
      obtain ⟨lo,hi⟩ := s
      rw [held_cons_of_stats hruns.1 hs,hruns.1.mem_iff hs]
      have hge := fun h : Held d files x => le_of_sorted hsorted hs h
      by_cases hx : Held d files x
      · have := hge hx
        simp only [hx,and_true,or_true]
        omega
      · simp only [hx,and_false,or_false]

/-- A walk meets no hole when everything is held from where it is to wherever the files go; one not
begun may begin where they do. -/
theorem bridged_iff {applied : Nat} {first : Bool} (hsorted : Sorted d files)
    (hlt : first=false → applied<t) :
    Bridged d t applied first files ↔ ∀ w x y,applied<w → w≤x → x≤y → x≤t →
      (first=true → Held d files w) → Held d files y → Held d files x := by
  induction files generalizing applied first with
  | nil => simp [Bridged,Held]
  | cons f files ih =>
    rw [forall_mem_cons] at hruns
    have htail := (pairwise_cons.mp hsorted).2
    rw [Bridged]
    cases hs : domainFileStats f.boundaries d with
    | none => simp only [held_cons_of_none hs,ih hruns.2 htail hlt]
    | some s =>
      obtain ⟨lo,hi⟩ := s
      have hge := fun x (h : Held d files x) => le_of_sorted hsorted hs h
      have hlohi : lo≤hi := by
        obtain ⟨b,hb,hd,rfl⟩ := (bounds_of_stats hs).1
        exact ((bounds_of_stats hs).2.2 b hb hd).2
      simp only [held_cons_of_stats hruns.1 hs]
      by_cases hskip : hi≤applied
      · rw [if_pos hskip,ih hruns.2 htail hlt]
        refine forall_congr' fun w => forall₅_congr fun x y hw hwx hxy => ?_
        rw [or_iff_right (by omega),or_iff_right (by omega),or_iff_right (by omega)]
      · rw [if_neg hskip]
        constructor
        · rintro ⟨hfirst,hrest⟩ w x y hw hwx hxy hxt hheld hy
          by_cases hxhi : x≤hi
          · refine .inl ⟨?_,hxhi⟩
            rcases hfirst with h | h
            · rcases hheld h with h | h
              · omega
              · exact (hge w h).trans hwx
            · omega
          · have hrest := (ih hruns.2 htail (by omega)).mp (hrest.resolve_left (by omega))
            exact .inr (hrest x x y (by omega) le_rfl hxy hxt (by simp) (hy.resolve_left (by omega)))
        · intro h
          constructor
          · cases first with
            | true => exact .inl rfl
            | false =>
              have hlt := hlt rfl
              right
              rcases h (applied+1) (applied+1) hi (by omega) le_rfl (by omega) (by omega) (by simp)
                (.inl ⟨hlohi,le_rfl⟩) with h | h
              · exact h.1
              · exact hge _ h
          · by_cases htarget : t≤hi
            · exact .inl htarget
            · refine .inr ((ih hruns.2 htail (by omega)).mpr ?_)
              intro w x y hw hwx hxy hxt _ hy
              exact (h (max lo (applied+1)) x y (by omega) (by omega) hxy hxt
                (fun _ => .inl (by omega)) (.inr hy)).resolve_left (by omega)

end

variable {d : UInt32}

theorem highestMariadbSeq_concat (files : List PositionalFile) (f : PositionalFile) :
    highestMariadbSeq (files++[f]) d =
      match domainFileStats f.boundaries d with
      | none => highestMariadbSeq files d
      | some (_,maxSeq) =>
        match highestMariadbSeq files d with
        | none => some maxSeq
        | some h => some (if h < maxSeq then maxSeq else h) := by
  rw [highestMariadbSeq,foldl_append]
  rfl

theorem highestMariadbSeq_spec (files : List PositionalFile) :
    match highestMariadbSeq files d with
    | none => ∀ x,¬Held d files x
    | some h => IsGreatest {x | Held d files x} h := by
  induction files using List.reverseRecOn with
  | nil => simp [highestMariadbSeq,Held]
  | append_singleton files f ih =>
    have happ : ∀ x,Held d (files++[f]) x ↔
        Held d files x ∨ ∃ b∈f.boundaries, b.domain=d ∧ b.seq=x := by
      intro x
      simp [Held,or_and_right,exists_or]
    rw [highestMariadbSeq_concat]
    cases hs : domainFileStats f.boundaries d with
    | none =>
      have hnone : ∀ x,¬∃ b∈f.boundaries, b.domain=d ∧ b.seq=x := by
        rintro x ⟨b,hb,hd,-⟩
        exact not_mem_of_stats_none hs b hb hd
      simpa only [happ,hnone,or_false] using ih
    | some s =>
      obtain ⟨lo,hi⟩ := s
      obtain ⟨-,hmem,hbounds⟩ := bounds_of_stats hs
      have hup : ∀ x,(∃ b∈f.boundaries,b.domain=d ∧ b.seq=x) → x≤hi := by
        rintro x ⟨b,hb,hd,rfl⟩
        exact (hbounds b hb hd).2
      cases hh : highestMariadbSeq files d with
      | none =>
        simp only [hh] at ih
        refine ⟨(happ hi).mpr (.inr hmem),?_⟩
        rintro x hx
        exact hup x (((happ x).mp hx).resolve_left (ih x))
      | some h =>
        simp only [hh] at ih
        obtain ⟨hheld,hgreatest⟩ := ih
        constructor
        · split
          · exact (happ hi).mpr (.inr hmem)
          · exact (happ h).mpr (.inl hheld)
        · rintro x hx
          rcases (happ x).mp hx with hx | hx
          · have := hgreatest hx
            split <;> omega
          · have := hup x hx
            split <;> omega

variable {files : List PositionalFile} {h : Nat}

theorem isGreatest_highest
    (hh : highestMariadbSeq files d=some h) : IsGreatest {x | Held d files x} h := by
  have := highestMariadbSeq_spec (d := d) files
  rwa [hh] at this

theorem not_held_of_highest_none
    (hh : highestMariadbSeq files d=none) (x : Nat) : ¬Held d files x := by
  have := highestMariadbSeq_spec (d := d) files
  rw [hh] at this
  exact this x

theorem highestMariadbSeq_eq_some_iff :
    highestMariadbSeq files d=some h ↔ IsGreatest {x | Held d files x} h := by
  refine ⟨isGreatest_highest,fun hg => ?_⟩
  cases hh : highestMariadbSeq files d with
  | none => exact absurd hg.1 (not_held_of_highest_none hh h)
  | some h' => rw [(isGreatest_highest hh).unique hg]

/-- Nothing is missing from the first sequence held past the anchor to the target. -/
def Whole (d : UInt32) (a t : Nat) (files : List PositionalFile) : Prop :=
  ∀ w x,a<w → w≤x → x≤t → Held d files w → Held d files x

variable {disk : String → List TxnBoundary} {files : List PositionalFile} {a t : Nat}

theorem exists_highest_of_plan {chunks : List ReplayChunk}
    (h : planMariadbPositionalFiles files d a t = .ok chunks) :
    ∃ highest,highestMariadbSeq files d=some highest := by
  unfold planMariadbPositionalFiles at h
  split at h
  · cases h
  · rename_i highest hhighest
    exact ⟨highest,hhighest⟩

theorem planMariadbPositionalFiles_spec (hfiles : ∀ f∈files,Trimmed disk d f) :
    ((∃ highest,highestMariadbSeq files d=some highest ∧ t≤highest) ∧ a≤t ∧
        Whole d a t files →
      ∃ chunks,planMariadbPositionalFiles files d a t = .ok chunks) ∧
    ∀ chunks,planMariadbPositionalFiles files d a t = .ok chunks →
      (∃ highest,highestMariadbSeq files d=some highest ∧ t≤highest) ∧ a≤t ∧
        Whole d a t files ∧
        streamed disk chunks=fresh d t a (sortFilesByDomainSeq files d) := by
  have hperm : (sortFilesByDomainSeq files d).Perm files := perm_insertionSort _ _
  have htrimmed : ∀ f∈sortFilesByDomainSeq files d, Trimmed disk d f := fun f hf =>
    hfiles f (hperm.mem_iff.mp hf)
  have hsorted := sorted_sortFilesByDomainSeq (d := d) files
  have hbridged : Bridged d t a true (sortFilesByDomainSeq files d) ↔ _ :=
    bridged_iff (fun f hf => (htrimmed f hf).kept) hsorted (by simp)
  simp only [held_of_perm hperm,forall_const] at hbridged
  have hloop := positionalLoop_spec (t := t) _ htrimmed a true [] none (by simp [Open])
  rw [planMariadbPositionalFiles]
  cases hh : highestMariadbSeq files d with
  | none => simp
  | some highest =>
    have hgreatest := isGreatest_highest hh
    simp only
    by_cases hbeyond : highest<t
    · rw [if_pos hbeyond]
      refine ⟨?_,by simp⟩
      rintro ⟨⟨h,he,hle⟩,-⟩
      cases he
      omega
    by_cases hbefore : t<a
    · rw [if_neg hbeyond,if_pos hbefore]
      exact ⟨by rintro ⟨-,hle,-⟩; omega,by simp⟩
    rw [if_neg hbeyond,if_neg hbefore]
    constructor
    · rintro ⟨-,-,hwhole⟩
      obtain ⟨out,hout,-⟩ := hloop.1 (hbridged.mpr fun w x _ hw hwx _ hxt hheld _ =>
        hwhole w x hw hwx hxt hheld)
      exact ⟨out,hout⟩
    · intro chunks hchunks
      by_cases hb : Bridged d t a true (sortFilesByDomainSeq files d)
      · obtain ⟨out,hout,hstreamed⟩ := hloop.1 hb
        obtain rfl : out=chunks := by
          rw [hout] at hchunks
          exact Except.ok.inj hchunks
        refine ⟨⟨highest,rfl,by omega⟩,by omega,?_,hstreamed⟩
        intro w x hw hwx hxt hheld
        exact hbridged.mp hb w x highest hw hwx (by omega) hxt hheld hgreatest.1
      · rw [hloop.2 hb] at hchunks
        exact absurd hchunks (by simp)

/-- The first sequence held past the anchor, else the one after it. -/
def leadingEdge (d : UInt32) (a : Nat) (files : List PositionalFile) : Nat :=
  (((files.flatMap (·.boundaries)).filter fun b => b.domain=d ∧ a<b.seq).map
    (·.seq)).min?.getD (a+1)

theorem mem_seqs_past (x : Nat) :
    x∈(((files.flatMap (·.boundaries)).filter fun b => b.domain=d ∧ a<b.seq).map (·.seq)) ↔
      a<x ∧ Held d files x := by
  simp only [mem_map,mem_filter,mem_flatMap,decide_eq_true_eq,Held]
  constructor
  · rintro ⟨b,⟨⟨f,hf,hb⟩,hd,hlt⟩,rfl⟩
    exact ⟨hlt,f,hf,b,hb,hd,rfl⟩
  · rintro ⟨hlt,f,hf,b,hb,hd,rfl⟩
    exact ⟨b,⟨⟨f,hf,hb⟩,hd,hlt⟩,rfl⟩

theorem isLeast_leadingEdge (h : ∃ x,a<x ∧ Held d files x) :
    IsLeast {x | a<x ∧ Held d files x} (leadingEdge d a files) := by
  obtain ⟨x,hx⟩ := h
  unfold leadingEdge
  cases hmin : (((files.flatMap (·.boundaries)).filter fun b => b.domain=d ∧ a<b.seq).map
      (·.seq)).min? with
  | none =>
    rw [List.min?_eq_none_iff] at hmin
    have := (mem_seqs_past x).mpr hx
    rw [hmin] at this
    simp at this
  | some m =>
    rw [List.min?_eq_some_iff] at hmin
    exact ⟨(mem_seqs_past m).mp hmin.1,fun y hy => hmin.2 y ((mem_seqs_past y).mpr hy)⟩

theorem leadingEdge_of_not_held (h : ¬∃ x,a<x ∧ Held d files x) :
    leadingEdge d a files=a+1 := by
  have hnil : ((files.flatMap (·.boundaries)).filter fun b => b.domain=d ∧ a<b.seq).map
      (·.seq)=[] := by
    rw [eq_nil_iff_forall_not_mem]
    intro x hx
    exact h ⟨x,(mem_seqs_past x).mp hx⟩
  rw [leadingEdge,hnil]
  rfl

/-- A plan replays the sequences from the leading edge to the target, once and in order. -/
theorem streamed_eq_range (hfiles : ∀ f∈files,Trimmed disk d f) {chunks : List ReplayChunk}
    (h : planMariadbPositionalFiles files d a t = .ok chunks) :
    (streamed disk chunks).map (·.seq) =
      List.range' (leadingEdge d a files) (t+1-leadingEdge d a files) := by
  obtain ⟨⟨highest,hhighest,hle⟩,hat,hwhole,hstreamed⟩ :=
    (planMariadbPositionalFiles_spec hfiles).2 chunks h
  have hgreatest := isGreatest_highest hhighest
  have hperm : (sortFilesByDomainSeq files d).Perm files := perm_insertionSort _ _
  have hruns : ∀ f∈sortFilesByDomainSeq files d, Run d f.boundaries := fun f hf =>
    (hfiles f (hperm.mem_iff.mp hf)).kept
  rw [hstreamed]
  refine List.Pairwise.eq_of_mem_iff (r := (·<·)) ?_ (pairwise_lt_range' _) ?_
  · exact pairwise_map.mpr (fresh_pairwise hruns a)
  · intro x
    rw [mem_fresh hruns (sorted_sortFilesByDomainSeq files),held_of_perm hperm,mem_range'_1]
    by_cases hpast : ∃ x,a<x ∧ Held d files x
    · obtain ⟨hedge,hleast⟩ := isLeast_leadingEdge hpast
      constructor
      · rintro ⟨hax,hxt,hheld⟩
        have := hleast ⟨hax,hheld⟩
        omega
      · rintro ⟨hx,hxt⟩
        refine ⟨lt_of_lt_of_le hedge.1 hx,by omega,hwhole _ x hedge.1 hx (by omega) hedge.2⟩
    · rw [leadingEdge_of_not_held hpast]
      have hle' : highest≤a := by
        by_contra hlt
        exact hpast ⟨highest,by omega,hgreatest.1⟩
      constructor
      · rintro ⟨hax,hxt,-⟩
        omega
      · rintro ⟨hx,hxt⟩
        omega

end Cnmsql.Binlog
