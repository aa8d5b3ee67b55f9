import Cnmsql.Binlog.Splice

namespace Cnmsql.Binlog

open Framework Replication ObjectStore List

section

/-- A segment with the positions of the history it holds. -/
structure Stretch where
  seg : ArchiveSegment
  start : Nat
  stop : Nat

variable [CaseMapping]

def Stretch.author (s : Stretch) : String := toLower s.seg.serverUUID

/-- An index of stretches of one surviving history, each a part of one server's log: what it
inherits in order, then its own. -/
structure SurvivingArchive (H : List Txn) (stretches : List Stretch) (idx : ArchiveIndex) : Prop where
  numbered : Numbered H
  segments : idx.segments=stretches.map (·.seg)
  one : (stretches.map Stretch.author).Nodup
  parses : ∀ s∈stretches,Parses s.seg.gtidSet
  holds : ∀ s∈stretches,∀ t,
    t∈gtids s.seg.gtidSet ↔ ∃ k,s.start≤k ∧ k<s.stop ∧ H[k]?=some t

/-- The later segment took over from the earlier one's server, as far as they show. -/
def TookOver (earlier later : Stretch) : Prop :=
  (∃ m,(earlier.author,m)∈gtids later.seg.gtidSet) ∧
    (∃ m,(later.author,m)∈gtids later.seg.gtidSet) ∧
    ∀ m,(later.author,m)∉gtids earlier.seg.gtidSet

/-- A segment that took over goes on to the last transaction the earlier server wrote into its own.
-/
def ReachesOwn (H : List Txn) (earlier later : Stretch) : Prop :=
  TookOver earlier later → ∀ k n,earlier.start≤k → k<earlier.stop →
    H[k]?=some (earlier.author,n) → k<later.stop

omit [CaseMapping] in
theorem Numbered.lt_iff {H : List Txn} (h : Numbered H) {u : String} {j k m n : Nat}
    (hj : H[j]?=some (u,m)) (hk : H[k]?=some (u, n)) : j<k ↔ m<n := by
  have hlt : ∀ {j k m n : Nat},H[j]?=some (u,m) → H[k]?=some (u, n) → j<k → m<n := by
    intro j k m n hj hk hjk
    obtain ⟨hjl,hj⟩ := List.getElem?_eq_some_iff.mp hj
    obtain ⟨hkl,hk⟩ := List.getElem?_eq_some_iff.mp hk
    have hm := h j hjl
    have hn := h k hkl
    rw [hj] at hm
    rw [hk] at hn
    have hstep : (H.take (j+1)).countP (fun t => t.1=u) =
        (H.take j).countP (fun t => t.1=u)+1 := by
      rw [take_succ_eq_append_getElem hjl,countP_append,hj]
      simp
    have hle : (H.take (j+1)).countP (fun t => t.1=u)≤(H.take k).countP (fun t => t.1=u) :=
      (take_prefix_take_left hjk).sublist.countP_le
    simp only at hm hn
    omega
  constructor
  · exact hlt hj hk
  · intro hmn
    rcases Nat.lt_trichotomy j k with hjk | rfl | hkj
    · exact hjk
    · rw [hj] at hk
      cases hk
      omega
    · have := hlt hk hj hkj
      omega

variable {H : List Txn} {stretches : List Stretch} {idx : ArchiveIndex}

/-- Of two such segments the earlier one seems to hold a lost tail exactly if the later took over
and ends before the earlier one's last own transaction. -/
theorem SurvivingArchive.unreceivedTail_iff (h : SurvivingArchive H stretches idx)
    {earlier later : Stretch} (he : earlier∈stretches) (hl : later∈stretches) :
    (∀ t,¬UnreceivedTail earlier.seg later.seg t) ↔ ReachesOwn H earlier later := by
  constructor
  · intro hnone htook k n hstart hstop hk
    by_contra hpast
    refine hnone (earlier.author,n) ⟨rfl,(h.holds _ he _).mpr ⟨k,hstart,hstop,hk⟩,htook.1,?_,
      htook.2.1,htook.2.2⟩
    intro m hm
    obtain ⟨j,-,hj,hjm⟩ := (h.holds _ hl _).mp hm
    exact (h.numbered.lt_iff hjm hk).mp (by omega)
  · rintro hreach ⟨u,n⟩ ⟨rfl,hmem,hrelogged,hpast,hown,hnone⟩
    obtain ⟨k,hstart,hstop,hk⟩ := (h.holds _ he _).mp hmem
    have hlt := hreach ⟨hrelogged,hown,hnone⟩ k n hstart hstop hk
    -- what the later segment re-logged lies before, so that its stretch begins before too
    obtain ⟨m,hm⟩ := hrelogged
    obtain ⟨j,hj,-,hjm⟩ := (h.holds _ hl _).mp hm
    have hjk := (h.numbered.lt_iff hjm hk).mpr (hpast m hm)
    have := hpast n ((h.holds _ hl _).mpr ⟨k,by omega,hlt,hk⟩)
    simp at this

/-- The backstop is silent on a surviving history exactly if every segment that took over reaches
the earlier one's last own transaction. -/
theorem checkUnrecordedForks_surviving_iff (h : SurvivingArchive H stretches idx) {recorded : String}
    (hr : Parses recorded) (hlive : ∀ t∈H,t∉gtids recorded) :
    checkUnrecordedForks idx recorded = .ok () ↔ stretches.Pairwise (ReachesOwn H) := by
  have hpairs : ¬UnrecordedFork idx.segments (gtids recorded) ↔ stretches.Pairwise (ReachesOwn H) := by
    rw [UnrecordedFork,not_not,h.segments,pairwise_map]
    refine List.Pairwise.iff_of_mem fun {earlier later} he hl => ?_
    rw [← h.unreceivedTail_iff he hl]
    refine forall_congr' fun t => imp_congr_right fun ht => iff_of_false ?_ id
    obtain ⟨k,-,-,hk⟩ := (h.holds _ he _).mp ht.2.1
    exact hlive t (mem_of_getElem? hk)
  have hparse : ∀ seg∈idx.segments, Parses seg.gtidSet := by
    rw [h.segments]
    exact forall_mem_map.mpr h.parses
  rw [← hpairs]
  rcases checkUnrecordedForks_correct hr hparse with
    ⟨hnone,hok⟩ | ⟨hfork,a,b,c,herr⟩
  · exact iff_of_true hok hnone
  · rw [herr]
    exact iff_of_false (by simp) (not_not.mpr hfork)

end

/-- `u` hands over to `v` and takes over again. -/
def failback : List Txn := [("u",1),("v",1),("u",2)]

def forkedIndex (own relogged : String) (archivedThrough : Time) : ArchiveIndex where
  segments := [{ serverUUID := "u", gtidSet := own },{ serverUUID := "v", gtidSet := relogged }]
  archivedThrough

theorem survivingArchive_failback {own relogged : String} {a b c d : Nat}
    (hpo : Parses own) (hpr : Parses relogged)
    (ho : (∀ t∈gtidList own,∃ k<b,a≤k ∧ failback[k]?=some t) ∧
      ∀ k<b,a≤k → failback[k]?.all (· ∈ gtidList own)=true)
    (hr : (∀ t∈gtidList relogged,∃ k<d,c≤k ∧ failback[k]?=some t) ∧
      ∀ k<d,c≤k → failback[k]?.all (· ∈ gtidList relogged)=true) :
    SurvivingArchive failback [⟨{ serverUUID := "u", gtidSet := own },a,b⟩,
      ⟨{ serverUUID := "v", gtidSet := relogged },c,d⟩] (forkedIndex own relogged 0) := by
  have hholds : ∀ {s : String} {x y : Nat},
      ((∀ t∈gtidList s,∃ k<y,x≤k ∧ failback[k]?=some t) ∧
        ∀ k<y,x≤k → failback[k]?.all (· ∈ gtidList s)=true) →
      ∀ t,t∈gtids s ↔ ∃ k,x≤k ∧ k<y ∧ failback[k]?=some t := by
    intro s x y h t
    rw [← mem_gtidList]
    constructor
    · intro ht
      obtain ⟨k,hlt,hle,hk⟩ := h.1 t ht
      exact ⟨k,hle,hlt,hk⟩
    · rintro ⟨k,hle,hlt,hk⟩
      simpa [hk] using h.2 k hlt hle
  refine ⟨by decide,rfl,?_,?_,?_⟩
  · change [toLower "u",toLower "v"].Nodup
    decide
  · exact forall_mem_cons.mpr ⟨hpo,forall_mem_singleton.mpr hpr⟩
  · exact forall_mem_cons.mpr ⟨hholds ho,forall_mem_singleton.mpr (hholds hr)⟩

theorem checkUnrecordedForks_surviving_failback :
    checkUnrecordedForks (forkedIndex "u:1-2,v:1" "u:1,v:1" 0) "" = .ok () := by
  refine (checkUnrecordedForks_surviving_iff (survivingArchive_failback (a := 0) (b := 3) (c := 0)
    (d := 2) (by decide) (by decide) (by decide) (by decide)) parses_empty (by simp [gtids_empty])).mpr ?_
  rw [pairwise_pair]
  intro htook
  exact absurd ((mem_gtidList _ _).mp (show ("v",1)∈gtidList "u:1-2,v:1" by decide)) (htook.2.2 1)

/-- Of `u` only the second reign is archived, of `v` not yet what it received. -/
theorem checkUnrecordedForks_false_alarm :
    (∃ stretches,SurvivingArchive failback stretches (forkedIndex "u:2" "u:1,v:1" 0)) ∧
      checkUnrecordedForks (forkedIndex "u:2" "u:1,v:1" 0) "" =
        .error (.unrecordedFork "u" "u:2" "v") :=
  ⟨⟨_,survivingArchive_failback (a := 2) (b := 3) (c := 0) (d := 2) (by decide) (by decide) (by decide)
    (by decide)⟩,by decide⟩

section

variable [CaseMapping]

/-- The later server received the earlier one's transactions up to `k` and wrote its own; some past
`k` are nowhere recorded. -/
structure LinearFork (idx : ArchiveIndex) (earlier later : ArchiveSegment) (k : Nat) : Prop where
  order : List.Sublist [earlier,later] idx.segments
  relogged : ∃ m,(toLower earlier.serverUUID,m)∈gtids later.gtidSet
  authored : ∃ m,(toLower later.serverUUID,m)∈gtids later.gtidSet
  unseen : ∀ m,(toLower later.serverUUID,m)∉gtids earlier.gtidSet
  received : ∀ m,(toLower earlier.serverUUID,m)∈gtids later.gtidSet → m≤k
  lost : ∃ n > k,(toLower earlier.serverUUID,n)∈gtids earlier.gtidSet
  unrecorded : ∀ n > k,(toLower earlier.serverUUID,n)∈gtids earlier.gtidSet →
    (toLower earlier.serverUUID,n)∉disownedTxns idx

variable {idx : ArchiveIndex} {earlier later : ArchiveSegment} {k : Nat}

theorem LinearFork.unrecordedFork (h : LinearFork idx earlier later k) :
    UnrecordedFork idx.segments (disownedTxns idx) := by
  intro hpairs
  obtain ⟨n,hn,hmem⟩ := h.lost
  have hpair := pairwise_pair.mp (hpairs.sublist h.order)
  refine h.unrecorded n hn hmem (hpair (toLower earlier.serverUUID,n) ⟨rfl,hmem,h.relogged,?_,
    h.authored,h.unseen⟩)
  intro m hm
  exact lt_of_le_of_lt (h.received m hm) hn

/-- A time or latest recovery over an unrecorded linear fork fails, as a forked timeline unless it
failed before. -/
theorem planReplay_linearFork (h : LinearFork idx earlier later k) (anchorGTID : String)
    {target : RecoveryTarget} (ht : target.gtid = "") :
    ∃ e,planReplay (some idx) anchorGTID target = .error e ∧
      (e.sentinel=some .errForkedTimeline ∨
        planReplayWithOps mysqlGTIDSet (some idx) anchorGTID target = .error e ∨
        ∃ plan₀,planReplayWithOps mysqlGTIDSet (some idx) anchorGTID target = .ok plan₀ ∧
          applyMySQLForks idx target plan₀ = .error e) := by
  cases h₀ : planReplayWithOps mysqlGTIDSet (some idx) anchorGTID target with
  | error e =>
    refine ⟨e,?_,.inr (.inl rfl)⟩
    simp only [planReplay,h₀,bind,Except.bind]
  | ok plan₀ =>
    have hp := planReplayWithOps_correct h₀
    cases hf : applyMySQLForks idx target plan₀ with
    | error e =>
      refine ⟨e,?_,.inr (.inr ⟨plan₀,rfl,hf⟩)⟩
      simp only [planReplay,h₀,hf,bind,Except.bind]
    | ok plan =>
      obtain ⟨-,-,hrendered,hde,-,-⟩ :=
        applyMySQLForks_correct hp.exclude_rendered hf
      rw [planReplay_checks h₀ hf]
      rcases checkUnrecordedForks_correct hrendered.parses hp.segments_parse with
        ⟨hnone,-⟩ | ⟨-,a,b,c,herr⟩
      · rw [hde] at hnone
        exact absurd h.unrecordedFork hnone
      · refine ⟨.unrecordedFork a b c,?_,.inl rfl⟩
        rw [bind_eq_error,runIf_eq_error]
        exact .inl ⟨ht,herr⟩

end

theorem linearFork_lostTail (archivedThrough : Time) :
    LinearFork (forkedIndex "u:1-3" "u:1-2,v:1" archivedThrough) { serverUUID := "u", gtidSet := "u:1-3" }
      { serverUUID := "v", gtidSet := "u:1-2,v:1" } 2 := by
  have hown : ∀ t∈gtidList "u:1-3", t.1 ≠ "v" := by decide
  have hrelogged : ∀ t∈gtidList "u:1-2,v:1", t.1 = "u" → t.2≤2 := by decide
  refine ⟨List.Sublist.refl _,⟨1,by decide⟩,⟨1,by decide⟩,?_,?_,⟨3,by decide,by decide⟩,?_⟩
  · intro m hm
    exact hown _ ((mem_gtidList _ _).mpr hm) (show toLower "v" = "v" by decide)
  · intro m hm
    exact hrelogged _ ((mem_gtidList _ _).mpr hm) (show toLower "u" = "u" by decide)
  · intro n _ _
    simp [disownedTxns,forkedIndex]

theorem planReplay_linearFork_lostTail :
    ∃ e,planReplay (some (forkedIndex "u:1-3" "u:1-2,v:1" 0)) "" {} = .error e ∧
      (e.sentinel=some .errForkedTimeline ∨
        planReplayWithOps mysqlGTIDSet (some (forkedIndex "u:1-3" "u:1-2,v:1" 0)) "" {} = .error e ∨
        ∃ plan₀,planReplayWithOps mysqlGTIDSet (some (forkedIndex "u:1-3" "u:1-2,v:1" 0)) "" {} =
          .ok plan₀ ∧ applyMySQLForks (forkedIndex "u:1-3" "u:1-2,v:1" 0) {} plan₀ = .error e) :=
  planReplay_linearFork (linearFork_lostTail 0) "" rfl

/-- A time past the archive is refused before the backstop is asked. -/
theorem planReplay_linearFork_time :
    LinearFork (forkedIndex "u:1-3" "u:1-2,v:1" 5) { serverUUID := "u", gtidSet := "u:1-3" }
      { serverUUID := "v", gtidSet := "u:1-2,v:1" } 2 ∧
    ∃ e,planReplay (some (forkedIndex "u:1-3" "u:1-2,v:1" 5)) "" { time := some 10 } = .error e ∧
      e.sentinel≠some .errForkedTimeline :=
  ⟨linearFork_lostTail 5,.beyondArchivedThrough 5 10,by decide,by decide⟩

end Cnmsql.Binlog
