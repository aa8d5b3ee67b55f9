import Cnmsql.Binlog.ReplayExact

namespace Cnmsql.Binlog

open Framework Replication ObjectStore

variable [CaseMapping] (anchor known : GTIDSet)

private theorem addHead_correct {missing : GTIDSet} {e : Sigma fun _ : String => List GTIDInterval}
    (hm : missing.Canonical) (hu : WfUuid e.1) (hv : ∀ iv∈e.2,Valid iv) :
    (addHead anchor missing e).Canonical ∧ (addHead anchor missing e).txns=missing.txns ∪
      {t | t.1=e.1 ∧ anchor.get e.1=[] ∧ 1≤t.2 ∧ ∃ first∈e.2.head?, t.2<first.start} := by
  unfold addHead
  cases he : e.2 with
  | nil => exact ⟨hm,by simp⟩
  | cons first rest =>
    have hf := hv first (by simp [he])
    have h1 := hf.start_le
    have h2 := hf.stop_le
    simp only [List.head?_cons,Option.mem_def,Option.some.injEq,exists_eq_left']
    split
    · rename_i hc
      refine ⟨hm,?_⟩
      symm
      rw [Set.union_eq_left]
      intro t ht
      obtain ⟨_,ha,hlo,hhi⟩ := ht
      cases hc with
      | inl hc => exact absurd ha hc
      | inr hc => omega
    · rename_i hc
      rw [not_or,not_not] at hc
      obtain ⟨hcan,htx⟩ := missing.addInterval_correct hm e.1 hu ⟨1,first.start-1⟩
        ⟨le_refl _,by simp only; omega,by simp only; omega⟩
      refine ⟨hcan,?_⟩
      rw [htx]
      congr 1
      ext t
      have harith : 1≤t.2 ∧ t.2≤first.start-1 ↔ 1≤t.2 ∧ t.2<first.start := by omega
      simp only [Set.mem_ofPred_eq,Span.Has,hc.1,true_and,harith]

private theorem foldl_addHead (l : List (Sigma fun _ : String => List GTIDInterval))
    (missing : GTIDSet) (hm : missing.Canonical) (hl : ∀ e∈l,WfUuid e.1 ∧ ∀ iv∈e.2,Valid iv) :
    (l.foldl (addHead anchor) missing).Canonical ∧
      (l.foldl (addHead anchor) missing).txns=missing.txns ∪
        {t | ∃ e∈l,t.1=e.1 ∧ anchor.get e.1=[] ∧ 1≤t.2 ∧
          ∃ first∈e.2.head?, t.2<first.start} := by
  induction l generalizing missing with
  | nil => exact ⟨hm,by simp⟩
  | cons e l ih =>
    obtain ⟨hu,hv⟩ := hl e (by simp)
    obtain ⟨a1,a2⟩ := addHead_correct anchor hm hu hv
    obtain ⟨h1,h2⟩ := ih _ a1 (fun x hx => hl x (by simp [hx]))
    refine ⟨h1,?_⟩
    rw [List.foldl_cons,h2,a2,Set.union_assoc]
    congr 1
    ext t
    simp

/-- What recovery to `E` skipped: a number it lacks below one it holds, unless the backup starts
above it. -/
def Skipped (A E : Set Txn) (t : Txn) : Prop :=
  t∉E ∧ 1≤t.2 ∧ (∃ j > t.2,(t.1,j)∈E) ∧
    ((∃ i<t.2,(t.1,i)∈E) ∨ ∀ n,(t.1,n)∉A)

/-- A transaction lacking between two of the same source. -/
def Hole (A : Set Txn) (t : Txn) : Prop :=
  t∉A ∧ (∃ i<t.2,(t.1,i)∈A) ∧ ∃ j > t.2,(t.1,j)∈A

theorem missingFrom_correct (got : GTIDSet) (ha : anchor.Canonical) (hg : got.Canonical) :
    (missingFrom anchor got).Canonical ∧
      ∀ t,t∈(missingFrom anchor got).txns ↔ Skipped anchor.txns got.txns t := by
  obtain ⟨hh,hholes⟩ := got.holes_correct hg
  have hl : ∀ e∈got.entries,WfUuid e.1 ∧ ∀ iv∈e.2, Valid iv := by
    intro e he
    obtain ⟨hu,hl⟩ := (GTIDSet.mem_entries_iff got e.1 e.2).mp he
    exact ⟨hg.uuid e.1 hu,hl ▸ hg.valid e.1⟩
  obtain ⟨h1,h2⟩ := foldl_addHead anchor got.entries got.holes hh hl
  refine ⟨h1,?_⟩
  intro t
  have hhead : (∃ e∈got.entries,t.1=e.1 ∧ anchor.get e.1=[] ∧ 1≤t.2 ∧
      ∃ first∈e.2.head?,t.2<first.start) ↔
      anchor.get t.1=[] ∧ 1≤t.2 ∧ (∃ j,(t.1,j)∈got.txns) ∧
        ∀ j,(t.1, j)∈got.txns → t.2<j := by
    constructor
    · intro h
      obtain ⟨e,he,hte,hae,hlo,first,hf,hlt⟩ := h
      obtain ⟨_,hl⟩ := (GTIDSet.mem_entries_iff got e.1 e.2).mp he
      obtain ⟨rest,hr⟩ := List.head?_eq_some_iff.mp hf
      have hget : got.get t.1=first::rest := by rw [hte,hl,hr]
      have hsep := hg.separated t.1
      rw [hget] at hsep
      refine ⟨hte ▸ hae,hlo,⟨first.start,?_⟩,?_⟩
      · rw [GTIDSet.mem_txns,hget]
        exact separated_start_mem _ hsep first (by simp)
      · intro j hj
        rw [GTIDSet.mem_txns,hget] at hj
        exact lt_of_lt_of_le hlt (separated_head_le first rest hsep j hj)
    · intro h
      obtain ⟨hat,hlo,⟨j,hj⟩,hall⟩ := h
      have hne : got.get t.1≠[] := by
        intro he
        exact (hg.get_eq_nil_iff t.1).mp he j hj
      have hmem := (GTIDSet.mem_entries_iff got t.1 _).mpr
        ⟨GTIDSet.mem_of_get_ne_nil got t.1 hne,rfl⟩
      cases hc : got.get t.1 with
      | nil => exact absurd hc hne
      | cons first rest =>
        refine ⟨_,hmem,rfl,hat,hlo,first,by simp [hc],?_⟩
        exact hall first.start (separated_start_mem _ (hg.separated t.1) first (by simp [hc]))
  rw [missingFrom,h2,Set.mem_union,Set.mem_ofPred_eq,hholes,hhead,ha.get_eq_nil_iff]
  constructor
  · intro h
    rcases h with ⟨hn,⟨i,hi,him⟩,j,hj,hjm⟩ | ⟨hna,hlo,⟨j,hj⟩,hall⟩
    · exact ⟨hn,by omega,⟨j,hj,hjm⟩,.inl ⟨i,hi,him⟩⟩
    · refine ⟨?_,hlo,⟨j,hall j hj,hj⟩,.inr hna⟩
      intro ht
      exact lt_irrefl _ (hall t.2 ht)
  · intro h
    obtain ⟨hn,hlo,⟨j,hj,hjm⟩,hi⟩ := h
    by_cases hbelow : ∃ i<t.2,(t.1,i)∈got.txns
    · obtain ⟨i,hil,him⟩ := hbelow
      exact .inl ⟨hn,⟨i,hil,him⟩,j,hj,hjm⟩
    · refine .inr ⟨hi.resolve_left hbelow,hlo,⟨j,hjm⟩,?_⟩
      intro k hk
      by_contra hle
      have hne : k≠t.2 := by
        intro he
        subst he
        exact hn hk
      exact hbelow ⟨k,by omega,hk⟩

/-- `checkMySQLGaps` passes exactly when all that was skipped is disowned or a hole of the backup.
-/
theorem checkMySQLGaps_correct {anchorGTID result disowned : String} (ha : Parses anchorGTID)
    (hr : Parses result) (hd : Parses disowned) :
    ((∀ t,Skipped (gtids anchorGTID) (gtids result) t →
        t∈gtids disowned ∨ Hole (gtids anchorGTID) t) ∧
      checkMySQLGaps anchorGTID result disowned = .ok ()) ∨
    ((∃ t,Skipped (gtids anchorGTID) (gtids result) t ∧ t∉gtids disowned ∧
        ¬Hole (gtids anchorGTID) t) ∧
      ∃ gap,checkMySQLGaps anchorGTID result disowned = .error (.archiveGap gap)) := by
  obtain ⟨a,ha⟩ := ha
  obtain ⟨r,hr⟩ := hr
  obtain ⟨d,hd⟩ := hd
  have hca := parseGTIDSet_canonical ha
  have hcr := parseGTIDSet_canonical hr
  have hcd := parseGTIDSet_canonical hd
  obtain ⟨hch,hholes⟩ := a.holes_correct hca
  obtain ⟨hcm,hmissing⟩ := missingFrom_correct a r hca hcr
  obtain ⟨hce,hexp⟩ := d.union_correct a.holes hcd hch
  obtain ⟨hcg,hgap⟩ := (missingFrom a r).difference_correct _ hcm hce
  have heval : checkMySQLGaps anchorGTID result disowned =
      require (((missingFrom a r).difference (d.union a.holes)).isEmpty=true)
        (.archiveGap ((missingFrom a r).difference (d.union a.holes)).string) := by
    rw [checkMySQLGaps,ha,hr,hd]
    rfl
  rw [heval,gtids_of_parse _ a ha,gtids_of_parse _ r hr,gtids_of_parse _ d hd]
  by_cases hempty : ((missingFrom a r).difference (d.union a.holes)).isEmpty=true
  · left
    refine ⟨?_,require_eq_ok.mpr hempty⟩
    rw [GTIDSet.isEmpty_iff _ hcg,hgap,Set.sdiff_eq_empty] at hempty
    intro t ht
    have hm := hempty ((hmissing t).mpr ht)
    rw [hexp,Set.mem_union,hholes] at hm
    exact hm
  · right
    refine ⟨?_,_,require_eq_error.mpr ⟨hempty,rfl⟩⟩
    rw [GTIDSet.isEmpty_iff _ hcg,hgap,← ne_eq,← Set.nonempty_iff_ne_empty] at hempty
    obtain ⟨t,hm,he⟩ := hempty
    rw [hexp,Set.mem_union,hholes,not_or] at he
    exact ⟨t,(hmissing t).mp hm,he.1,he.2⟩

/-- What `earlier` authored past what `later` re-logged, when `later` then authored its own and
`earlier` has none of it. -/
def UnreceivedTail (earlier later : ArchiveSegment) (t : Txn) : Prop :=
  t.1=toLower earlier.serverUUID ∧ t∈gtids earlier.gtidSet ∧
    (∃ m,(toLower earlier.serverUUID,m)∈gtids later.gtidSet) ∧
    (∀ m,(toLower earlier.serverUUID,m)∈gtids later.gtidSet → m<t.2) ∧
    (∃ m,(toLower later.serverUUID,m)∈gtids later.gtidSet) ∧
    ∀ m,(toLower later.serverUUID,m)∉gtids earlier.gtidSet

theorem deadBranch_correct {earlier later : ArchiveSegment} {e l : GTIDSet} (hk : known.Canonical)
    (he : parseGTIDSet earlier.gtidSet = .ok e) (hl : parseGTIDSet later.gtidSet = .ok l) :
    (deadBranch known (earlier,e) (later,l)).Canonical ∧
      ∀ t,t∈(deadBranch known (earlier,e) (later,l)).txns ↔
        UnreceivedTail earlier later t ∧ t∉known.txns := by
  have hce := parseGTIDSet_canonical he
  have hcl := parseGTIDSet_canonical hl
  unfold UnreceivedTail
  rw [gtids_of_parse _ e he,gtids_of_parse _ l hl,← hce.get_eq_nil_iff]
  set author := toLower earlier.serverUUID with hauthor
  set successor := toLower later.serverUUID with hsuccessor
  have hempty : ∀ P : Txn → Prop,(∀ t,¬P t) → (∅ : GTIDSet).Canonical ∧
      ∀ t, t∈(∅ : GTIDSet).txns ↔ P t := by
    intro P hP
    refine ⟨GTIDSet.canonical_empty,fun t => ?_⟩
    simp [GTIDSet.txns_empty,hP t]
  unfold deadBranch
  simp only [← hauthor,← hsuccessor]
  cases hown : (e.get author).getLast? with
  | none =>
    apply hempty
    intro t ht
    obtain ⟨⟨hta,hte,_⟩,_⟩ := ht
    rw [List.getLast?_eq_none_iff,hce.get_eq_nil_iff] at hown
    exact hown t.2 (hta ▸ hte)
  | some lastOwn =>
    cases hrel : (l.get author).getLast? with
    | none =>
      apply hempty
      intro t ht
      obtain ⟨⟨_,_,⟨m,hm⟩,_⟩,_⟩ := ht
      rw [List.getLast?_eq_none_iff,hcl.get_eq_nil_iff] at hrel
      exact hrel m hm
    | some relogged =>
      obtain ⟨o1,o2⟩ := separated_getLast _ (hce.separated author) hown
      obtain ⟨r1,r2⟩ := separated_getLast _ (hcl.separated author) hrel
      simp only
      split
      · rename_i hc
        apply hempty
        intro t ht
        obtain ⟨⟨hta,hte,_,hlt,⟨m,hm⟩,hnone⟩,_⟩ := ht
        rcases hc with hc | hc | hc
        · exact (hcl.get_eq_nil_iff successor).mp hc m hm
        · exact hc hnone
        · have h1 := hlt relogged.stop r1
          have h2 := o2 t.2 (hta ▸ hte)
          omega
      · rename_i hc
        rw [not_or,not_or,not_not,not_le] at hc
        obtain ⟨hsucc,hnone,hpast⟩ := hc
        have hu := hce.wfUuid_of_mem (author,lastOwn.stop) o1
        have hbound := (hce.txn_bounds (author,lastOwn.stop) o1).2
        obtain ⟨a1,a2⟩ := GTIDSet.addInterval_correct ∅ GTIDSet.canonical_empty author hu
          ⟨relogged.stop+1,lastOwn.stop⟩ ⟨by simp,hpast,hbound⟩
        obtain ⟨i1,i2⟩ := GTIDSet.intersect_correct _ e a1 hce
        obtain ⟨d1,d2⟩ := GTIDSet.difference_correct _ known i1 hk
        refine ⟨d1,fun t => ?_⟩
        rw [d2,i2,a2,GTIDSet.txns_empty,Set.empty_union]
        constructor
        · intro h
          obtain ⟨⟨⟨hta,hlo,hhi⟩,hte⟩,hkn⟩ := h
          obtain ⟨iv,hiv⟩ := List.exists_mem_of_ne_nil _ hsucc
          refine ⟨⟨hta,hte,⟨relogged.stop,r1⟩,?_,⟨iv.start,?_⟩,hnone⟩,hkn⟩
          · intro m hm
            have := r2 m hm
            simp only at hlo
            omega
          · exact separated_start_mem _ (hcl.separated successor) iv hiv
        · intro h
          obtain ⟨⟨hta,hte,_,hlt,_⟩,hkn⟩ := h
          refine ⟨⟨⟨hta,?_,?_⟩,hte⟩,hkn⟩
          · exact hlt relogged.stop r1
          · exact o2 t.2 (hta ▸ hte)

theorem parseSegments_correct {segs : List ArchiveSegment}
    (hp : ∀ seg∈segs,Parses seg.gtidSet) :
    ∃ sets,parseSegments segs = .ok sets ∧ sets.map Prod.fst=segs ∧
      ∀ p∈sets,parseGTIDSet p.1.gtidSet = .ok p.2 := by
  induction segs with
  | nil => exact ⟨[],rfl,rfl,by simp⟩
  | cons seg segs ih =>
    obtain ⟨s,hs⟩ := hp seg (by simp)
    obtain ⟨sets,h1,h2,h3⟩ := ih (fun x hx => hp x (by simp [hx]))
    refine ⟨(seg,s)::sets,?_,by simp [h2],?_⟩
    · rw [parseSegments,hs,h1]
      rfl
    · intro p hm
      cases List.mem_cons.mp hm with
      | inl hm => exact hm ▸ hs
      | inr hm => exact h3 p hm

variable (earlier : ArchiveSegment × GTIDSet) (l : List (ArchiveSegment × GTIDSet))

private theorem checkAgainstLater_correct :
    ((∀ later∈l,(deadBranch known earlier later).isEmpty=true) ∧
      checkAgainstLater known earlier l = .ok ()) ∨
    ((∃ later∈l,¬(deadBranch known earlier later).isEmpty=true) ∧
      ∃ a b c,checkAgainstLater known earlier l = .error (.unrecordedFork a b c)) := by
  induction l with
  | nil => exact .inl ⟨by simp,rfl⟩
  | cons later l ih =>
    unfold checkAgainstLater
    by_cases hd : (deadBranch known earlier later).isEmpty=true
    · rw [if_neg (by simp [hd])]
      cases ih with
      | inl ih => exact .inl ⟨by simpa [hd] using ih.1,ih.2⟩
      | inr ih =>
        obtain ⟨⟨x,hx,hne⟩,herr⟩ := ih
        exact .inr ⟨⟨x,by simp [hx],hne⟩,herr⟩
    · rw [if_pos (by simp [hd])]
      exact .inr ⟨⟨later,by simp,hd⟩,_,_,_,rfl⟩

private theorem checkSegmentPairs_correct :
    (l.Pairwise (fun e x => (deadBranch known e x).isEmpty=true) ∧
      checkSegmentPairs known l = .ok ()) ∨
    (¬l.Pairwise (fun e x => (deadBranch known e x).isEmpty=true) ∧
      ∃ a b c,checkSegmentPairs known l = .error (.unrecordedFork a b c)) := by
  induction l with
  | nil => exact .inl ⟨List.Pairwise.nil,rfl⟩
  | cons e l ih =>
    rw [List.pairwise_cons,checkSegmentPairs]
    cases checkAgainstLater_correct known e l with
    | inl h =>
      rw [h.2]
      cases ih with
      | inl ih => exact .inl ⟨⟨h.1,ih.1⟩,ih.2⟩
      | inr ih => exact .inr ⟨fun hp => ih.1 hp.2,ih.2⟩
    | inr h =>
      obtain ⟨⟨x,hx,hne⟩,a,b,c,herr⟩ := h
      rw [herr]
      exact .inr ⟨fun hp => hne (hp.1 x hx),a,b,c,rfl⟩

/-- Two segments of which the earlier holds transactions the later never received and no record
explains. -/
def UnrecordedFork (segs : List ArchiveSegment) (known : Set Txn) : Prop :=
  ¬segs.Pairwise (fun earlier later => ∀ t,UnreceivedTail earlier later t → t∈known)

theorem checkUnrecordedForks_correct {idx : ArchiveIndex} {recorded : String}
    (hr : Parses recorded) (hp : ∀ seg∈idx.segments,Parses seg.gtidSet) :
    (¬UnrecordedFork idx.segments (gtids recorded) ∧
      checkUnrecordedForks idx recorded = .ok ()) ∨
    (UnrecordedFork idx.segments (gtids recorded) ∧
      ∃ a b c,checkUnrecordedForks idx recorded = .error (.unrecordedFork a b c)) := by
  obtain ⟨k,hk⟩ := hr
  have hck := parseGTIDSet_canonical hk
  obtain ⟨sets,h1,h2,h3⟩ := parseSegments_correct hp
  have heval : checkUnrecordedForks idx recorded=checkSegmentPairs k sets := by
    rw [checkUnrecordedForks,hk,h1]
    rfl
  have hpair : idx.segments.Pairwise
      (fun earlier later => ∀ t,UnreceivedTail earlier later t → t∈gtids recorded) ↔
      sets.Pairwise (fun e x => (deadBranch k e x).isEmpty=true) := by
    rw [← h2,List.pairwise_map]
    apply List.Pairwise.iff_of_mem
    intro e x he hx
    obtain ⟨hc,hd⟩ := deadBranch_correct k hck (h3 e he) (h3 x hx)
    rw [GTIDSet.isEmpty_iff _ hc,Set.eq_empty_iff_forall_notMem,gtids_of_parse _ k hk]
    refine forall_congr' fun t => ?_
    rw [hd,not_and,not_not]
  rw [heval,UnrecordedFork,hpair,not_not]
  exact checkSegmentPairs_correct k sets

end Cnmsql.Binlog
