import Cnmsql.Binlog.ArchiveRuns

namespace Cnmsql.Binlog

open Framework Replication ObjectStore Engine Archiver

section

variable [CaseMapping]

/-- A draining MySQL instance ships only what a position it was told of holds. -/
theorem Admitted.view {c : Options} {know : Know} {name : String} (hmysql : c.mariadb=false)
    (h : Admitted c know name) (hdrain : know.writable=some false) :
    ∃ scan primary position,(name,scan)∈know.scanned ∧ some (primary,position)∈know.views ∧
      gtids scan.gtidSet ⊆ gtids position := by
  rcases h with hwritable | ⟨scan,view,timeline,hscan,hview,hallow⟩
  · rw [hwritable] at hdrain
    cases hdrain
  · unfold Loop.onSurvivingTimeline at hallow
    split at hallow
    · cases hallow
    · rename_i primary position
      refine ⟨scan,primary,position,hscan,hview,?_⟩
      split at hallow
      · cases hallow
      · split at hallow
        · rename_i hempty
          rw [hempty,gtids_empty]
          exact Set.empty_subset _
        · unfold Loop.timelineHolds at hallow
          rw [if_pos hmysql,mapError_eq_ok] at hallow
          exact subset_of_gtidContains hallow

variable {ι : Type} [DecidableEq ι] {f : Fleet ι} {s s' : System ι} {a : Act ι} {i : ι}

/-- One surviving timeline: nothing expires, it only grows, and the recorded position is part of it.
-/
def Surviving (s : System ι) : Act ι → Prop
  | .expire => False
  | .execute g => gtids s.executed ⊆ gtids g
  | a => Reported s a

/-- Files with a manifest that are not indexed are of the surviving timeline. -/
def Canonical (f : Fleet ι) (s : System ι) (i : ι) : Prop :=
  ∀ n metadata,s.archive.manifests.lookup ((f.options i).serverUUID,n)=some metadata →
    n∉s.archive.listed (f.options i).serverUUID → gtids metadata.gtidSet ⊆ gtids s.executed

/-- A demoted instance has left no manifest of another timeline unindexed. -/
def Cleared (f : Fleet ι) (s : System ι) : Act ι → Prop
  | .call i o => (s.nodes i).nextCall=some (.ask .writable) → o.fault=none → o.writable=false →
      Canonical f s i
  | _ => True

/-- What instances were told of the surviving timeline is true, and a drain finds nothing of another
one to index. -/
structure Loyal (f : Fleet ι) (s : System ι) : Prop extends Sound f s where
  recorded : ∀ primary position,s.recorded=some (primary,position) →
    gtids position ⊆ gtids s.executed
  views : ∀ i primary position,some (primary,position)∈(s.nodes i).know.views →
    gtids position ⊆ gtids s.executed
  canonical : ∀ i,(s.nodes i).know.writable=some false → Canonical f s i

omit [DecidableEq ι] in
theorem Surviving.expires (ha : Surviving s a) : a.expires=false := by
  cases a with
  | expire => exact absurd ha id
  | _ => rfl

theorem Surviving.executed (ha : Surviving s a) (hm : Move f s a s') :
    gtids s.executed ⊆ gtids s'.executed := by
  apply executed_grows hm
  intro g hg
  subst hg
  exact ha

omit [DecidableEq ι] in
theorem Loyal.admitted (hmysql : (f.options i).mariadb=false) (hs : Loyal f s) {name : String}
    (h : Admitted (f.options i) (s.nodes i).know name)
    (hdrain : (s.nodes i).know.writable=some false) {file : LogFile}
    (hfile : file∈(s.server i).files) (hname : file.log.name=name) :
    gtids ((f.options i).scan file.bytes).gtidSet ⊆ gtids s.executed := by
  obtain ⟨scan,primary,position,hscan,hview,hsub⟩ := h.view hmysql hdrain
  obtain ⟨file',hfile',hname',hscan'⟩ := (hs.facts i).scanned name scan hscan
  have heq : file=file' := (s.server i).eq_of_name_eq hfile (Server.mem_files_of_rotated hfile')
    (hname.trans hname'.symm)
  rw [heq,← hscan']
  exact hsub.trans (hs.views i primary position hview)

omit [DecidableEq ι] in
theorem Loyal.described (hmysql : (f.options i).mariadb=false) (hs : Loyal f s) {name : String}
    {metadata : BinlogMetadata}
    (hnext : (s.nodes i).nextCall=some (.putManifest name metadata))
    (hdrain : (s.nodes i).know.writable=some false) :
    gtids metadata.gtidSet ⊆ gtids s.executed := by
  obtain ⟨-,-,-,hadmitted,hdesc⟩ := hs.obeying.allowed_next hnext
  obtain ⟨scan,hscan,hset⟩ := hdesc.scanned
  obtain ⟨file,hfile,hname,hscan⟩ := (hs.facts i).scanned name scan hscan
  rw [hset,hscan]
  exact hs.admitted hmysql hadmitted hdrain (Server.mem_files_of_rotated hfile) hname

theorem manifest_move (hm : Move f s a s') (ha : a.expires=false) (j : ι) {n : String}
    {metadata : BinlogMetadata}
    (h : s'.archive.manifests.lookup ((f.options j).serverUUID,n)=some metadata) :
    s.archive.manifests.lookup ((f.options j).serverUUID,n)=some metadata ∨
      (s.nodes j).nextCall=some (.putManifest n metadata) := by
  cases hm with
  | quiet nodes archive =>
    rw [archive] at h
    exact .inl h
  | call i o c k pass =>
    have heffect := effect_of_call f s i o c
    change (s.archiveAfter f i o c).manifests.lookup _ = _ at h
    generalize s.archiveAfter f i o c=archive at heffect h
    generalize s.serverAfter i o c=server at heffect
    cases heffect with
    | @manifest name metadata' =>
      rcases Map.lookup_insert_eq_some h with ⟨hkey,rfl⟩ | hold
      · obtain ⟨rfl,rfl⟩ := f.eq_of_key hkey
        exact .inr (by rw [Node.nextCall,pass])
      · exact .inl hold
    | _ => exact .inl h
  | expire => cases ha
  | _ => exact .inl h

section

variable (hmysql : ∀ i,(f.options i).mariadb=false) (hs : Loyal f s) (hm : Move f s a s')
  (ha : Surviving s a)
include hmysql hs hm ha

theorem canonical_stable (j : ι)
    (hdrain : (s.nodes j).know.writable=some false) : Canonical f s' j := by
  intro n metadata hlookup hnot
  apply Set.Subset.trans _ (ha.executed hm)
  cases manifest_move hm ha.expires j hlookup with
  | inl hold =>
    apply hs.canonical j hdrain n metadata hold
    intro hin
    exact hnot ((advances_move hs.toSound hm ha.expires j).listed n hin)
  | inr hnext => exact hs.described (hmysql j) hnext hdrain

theorem canonical_move (hc : Cleared f s a) (j : ι) :
    (s'.nodes j).know.writable=some false → Canonical f s' j := by
  apply know_move (P := fun s j know => know.writable=some false → Canonical f s j) hm
  · intro j _ hdrain
    exact canonical_stable hmysql hs hm ha j hdrain
  · intro j hdrain
    cases hdrain
  · intro j know _ hdrain
    cases hdrain
  · intro i o c k r know' hact pass heq hr hlesson hdrain
    cases hlesson with
    | writable b =>
      cases hdrain
      obtain ⟨hfault,hr⟩ := Outside.orFault_eq_ok.mp hr
      rw [Except.ok.injEq] at hr
      subst hact
      subst heq
      exact hc (by rw [Node.nextCall,pass]) hfault hr
    | _ => exact canonical_stable hmysql hs hm ha i hdrain
  · exact hs.canonical

end

theorem views_move (hs : Loyal f s) (hm : Move f s a s') (ha : Surviving s a) (j : ι) :
    ∀ primary position,some (primary,position)∈(s'.nodes j).know.views →
      gtids position ⊆ gtids s'.executed := by
  have hgrows := ha.executed hm
  apply know_move (P := fun s _ know => ∀ primary position,
    some (primary,position)∈know.views → gtids position ⊆ gtids s.executed) hm
  · intro j h primary position hview
    exact (h primary position hview).trans hgrows
  · intro j primary position hview
    cases hview
  · intro j know h
    exact h
  · intro i o c k r know' hact pass heq hr hlesson primary position hview
    have hold := fun hview => (hs.views i primary position hview).trans hgrows
    cases hlesson with
    | view v =>
      cases List.mem_cons.mp hview with
      | inl hnew => exact (hs.recorded primary position (hr.trans hnew.symm)).trans hgrows
      | inr hview => exact hold hview
    | _ => exact hold hview
  · exact hs.views

theorem recorded_kept (hs : Loyal f s) (hm : Move f s a s') (ha : Surviving s a)
    {primary position : String} (h : s'.recorded=some (primary,position)) :
    gtids position ⊆ gtids s'.executed := by
  apply Set.Subset.trans _ (ha.executed hm)
  cases recorded_move hm with
  | inl heq =>
    rw [heq] at h
    exact hs.recorded primary position h
  | inr hrecord =>
    rw [h] at hrecord
    subst hrecord
    exact ha

theorem loyal_move (hmysql : ∀ i,(f.options i).mariadb=false) (hs : Loyal f s)
    (hm : Move f s a s') (ha : Surviving s a) (hc : Cleared f s a) : Loyal f s' where
  toSound := sound_move hs.toSound hm ha.expires
  recorded _ _ h := recorded_kept hs hm ha h
  views := views_move hs hm ha
  canonical := canonical_move hmysql hs hm ha hc

def Call.ships : Call → Bool
  | .upload _ _ | .putManifest _ _ | .putStatus _ | .putIndexIf _ _ => true
  | _ => false

/-- A draining instance ships the surviving timeline only, nothing after a deferred file, and the
segment lists the first closed logs. -/
structure Drains (f : Fleet ι) (s : System ι) (i : ι) : Prop where
  uploads : (s.nodes i).know.writable=some false → ∀ name size file,
    (s.nodes i).nextCall=some (.upload name size) → (s.server i).file name=some file →
    gtids ((f.options i).scan file.bytes).gtidSet ⊆ gtids s.executed
  manifests : (s.nodes i).know.writable=some false → ∀ name metadata,
    (s.nodes i).nextCall=some (.putManifest name metadata) →
    gtids metadata.gtidSet ⊆ gtids s.executed
  indexes : (s.nodes i).know.writable=some false → ∀ index,
    (s.nodes i).nextCall=some (.putIndexIf index s.archive.etag) → ∀ file∈(s.server i).rotated,
    file.log.name∈segmentFiles (f.options i).serverUUID (some index) →
    file.log.name∉s.archive.listed (f.options i).serverUUID →
    gtids ((f.options i).scan file.bytes).gtidSet ⊆ gtids s.executed
  deferred : (s.nodes i).know.deferred.isSome → ∀ c,(s.nodes i).nextCall=some c →
    c.ships=false
  listed : ∃ k,s.archive.listed (f.options i).serverUUID =
    ((s.server i).rotated.take k).map (·.log.name)

omit [DecidableEq ι] in
theorem Loyal.indexes (hs : Loyal f s) (hdrain : (s.nodes i).know.writable=some false)
    {index : ArchiveIndex} (hnext : (s.nodes i).nextCall=some (.putIndexIf index s.archive.etag))
    {file : LogFile} (hfile : file∈(s.server i).rotated)
    (hin : file.log.name∈segmentFiles (f.options i).serverUUID (some index))
    (hnot : file.log.name∉s.archive.listed (f.options i).serverUUID) :
    gtids ((f.options i).scan file.bytes).gtidSet ⊆ gtids s.executed := by
  have hwrite := (hs.facts i).indexWrite (hs.obeying.allowed_next hnext)
  cases hwrite.files_own with
  | inl hsame =>
    rw [hsame] at hin
    exact absurd hin hnot
  | inr hadd =>
    obtain ⟨name,metadata,harch,-,-,hadd⟩ := hadd
    rw [hadd,List.mem_append,List.mem_singleton] at hin
    obtain rfl : file.log.name=name := hin.resolve_left hnot
    have hlookup := (hs.facts i).archived _ metadata harch
    obtain ⟨file',hfile',hname,-,hset,-⟩ := (hs.kept i).manifest _ metadata hlookup
    have heq : file'=file := (s.server i).eq_of_name_eq (Server.mem_files_of_rotated hfile')
      (Server.mem_files_of_rotated hfile) hname
    rw [← heq,← hset]
    exact hs.canonical i hdrain _ metadata hlookup hnot

omit [DecidableEq ι] in
theorem Loyal.drains (hmysql : (f.options i).mariadb=false) (hs : Loyal f s) : Drains f s i where
  uploads hdrain name size file hnext hfile := by
    obtain ⟨-,-,-,hadmitted⟩ := hs.obeying.allowed_next hnext
    obtain ⟨hmem,hname⟩ := Server.file_eq_some hfile
    exact hs.admitted hmysql hadmitted hdrain (Server.mem_files_of_mem_onDisk _ hmem) hname
  manifests hdrain name metadata hnext := hs.described hmysql hnext hdrain
  indexes hdrain index hnext file hfile := hs.indexes hdrain hnext hfile
  deferred hdefer c hnext := by
    have hallowed := hs.obeying.allowed_next hnext
    have hnone : ∀ {P : Prop},((s.nodes i).know.deferred=none ∧ P) → c.ships=false := by
      intro P h
      rw [h.1] at hdefer
      cases hdefer
    cases c with
    | upload name size | putManifest name metadata => exact hnone hallowed
    | putStatus status => exact hnone ⟨hallowed,trivial⟩
    | putIndexIf index etag => exact hnone hallowed
    | _ => rfl
  listed := by
    obtain ⟨k,-,-,hlisted⟩ := (hs.kept i).listed
    exact ⟨k,hlisted⟩

theorem drains_surviving (hmysql : ∀ i,(f.options i).mariadb=false) (h : Started s)
    (hrecorded : ∀ primary position,s.recorded=some (primary,position) →
      gtids position ⊆ gtids s.executed) {as : List (Act ι)} {t : System ι}
    (hrun : Along (step f) (fun s a _ => Surviving s a ∧ Cleared f s a) s as)
    (ht : exec (step f) s as=some t) (i : ι) : Drains f t i := by
  have hs : Loyal f t := by
    apply exec_invariant (I := Loyal f) _ hrun ht
    · refine ⟨sound_started h,hrecorded,?_,?_⟩
      · intro i primary position hview
        rw [(h.idle i).2] at hview
        cases hview
      · intro i hdrain
        rw [(h.idle i).2] at hdrain
        cases hdrain
    · intro s a s' hstep hcond hs
      exact loyal_move hmysql hs (move_of_step hstep) hcond.1 hcond.2
  exact hs.drains (hmysql i)

instance (s : System ι) : ∀ a,Decidable (Surviving s a)
  | .expire => isFalse id
  | .execute _ => inferInstanceAs (Decidable (gtids _ ⊆ gtids _))
  | .record view => inferInstanceAs (Decidable (Reported s (.record view)))
  | .advance _ | .commit _ _ | .rotate _ _ | .restart _ | .start _ | .call _ _ | .plan _ _
  | .abandon => isTrue trivial

omit [DecidableEq ι] in
theorem canonical_iff : Canonical f s i ↔ ∀ e∈s.archive.manifests.entries,
    e.1.1=(f.options i).serverUUID → e.1.2∉s.archive.listed (f.options i).serverUUID →
    gtids e.2.gtidSet ⊆ gtids s.executed := by
  constructor
  · intro h e he hu hnot
    obtain ⟨⟨u,n⟩,metadata⟩ := e
    subst hu
    exact h n metadata (AList.mem_lookup_iff.mpr he) hnot
  · intro h n metadata hlookup hnot
    exact h ⟨(_,n),metadata⟩ (AList.mem_lookup_iff.mp hlookup) rfl hnot

instance (f : Fleet ι) (s : System ι) (i : ι) : Decidable (Canonical f s i) :=
  decidable_of_iff _ canonical_iff.symm

instance (f : Fleet ι) (s : System ι) : ∀ a,Decidable (Cleared f s a)
  | .call _ _ => inferInstanceAs (Decidable (_ → _ → _ → Canonical _ _ _))
  | .advance _ | .commit _ _ | .rotate _ _ | .execute _ | .record _ | .restart _ | .start _
  | .plan _ _ | .expire | .abandon => isTrue trivial

end

namespace Pair

/-- A former primary drains a log whose transactions its successor has executed. -/
def drainRun : List (Act Member) :=
  [.execute (gtidSet [1])]++rotationRun []++[.execute (gtidSet [1,2]),.commit .a [2],
    .rotate .a { log := log3 },.record (some ("b", gtidSet [1,2])),.start .a] ++
    calls .a 26 { writable := false }

theorem drains_surviving_drainRun : ∃ t index,exec (step fleet) initial drainRun=some t ∧
    (t.nodes .a).know.writable=some false ∧
    (t.nodes .a).nextCall=some (.putIndexIf index t.archive.etag) ∧
    segmentFiles "uuid-a" (some index)=["binlog.000001","binlog.000002"] ∧
    t.archive.listed "uuid-a"=["binlog.000001"] ∧ Drains fleet t .a := by
  obtain ⟨t,ht,htest⟩ : ∃ t,exec (step fleet) initial drainRun=some t ∧
      ((t.written .a).any fun index => (t.nodes .a).know.writable=some false ∧
        segmentFiles "uuid-a" (some index)=["binlog.000001","binlog.000002"] ∧
        t.archive.listed "uuid-a"=["binlog.000001"])=true :=
    exec_reaches (by decide +kernel)
  obtain ⟨index,hwritten,htest⟩ := (Option.any_eq_true _ _).mp htest
  obtain ⟨hdrain,hfiles,hlisted⟩ := of_decide_eq_true htest
  have hmysql : ∀ i,(fleet.options i).mariadb=false := by
    intro i
    cases i with
    | a => rfl
    | b => rfl
  have hrun : Along (step fleet) (fun s a _ => Surviving s a ∧ Cleared fleet s a) initial drainRun := by
    decide +kernel
  exact ⟨t,index,ht,hdrain,nextCall_of_written hwritten,hfiles,hlisted,
    drains_surviving hmysql started_initial (fun _ _ h => (nomatch h)) hrun ht .a⟩

/-- A primary dies between manifest and index; its successor goes on without the log's transaction.
-/
def crashedRun : List (Act Member) :=
  [.advance 1,.commit .a [1],.rotate .a { log := log2 },.start .a]++calls .a 16 ++
    [.restart .a,.execute (gtidSet [2]),.record (some ("b",gtidSet [2])),.start .a] ++
    calls .a 21 { writable := false }

theorem drain_crashedRun : Started initial ∧ initial.recorded=none ∧
    Along (step fleet) (fun s a _ => Surviving s a) initial crashedRun ∧
    ∃ t index file,exec (step fleet) initial crashedRun=some t ∧
      (t.nodes .a).know.writable=some false ∧
      (t.nodes .a).nextCall=some (.putIndexIf index t.archive.etag) ∧
      file∈(t.server .a).rotated ∧ file.log.name∈segmentFiles "uuid-a" (some index) ∧
      file.log.name∉t.archive.listed "uuid-a" ∧
      ¬ gtids ((fleet.options .a).scan file.bytes).gtidSet ⊆ gtids t.executed := by
  refine ⟨started_initial,rfl,by decide +kernel,?_⟩
  obtain ⟨t,ht,htest⟩ : ∃ t,exec (step fleet) initial crashedRun=some t ∧
      ((t.written .a).any fun index => (t.server .a).rotated.any fun file =>
        (t.nodes .a).know.writable=some false ∧
        file.log.name∈segmentFiles "uuid-a" (some index) ∧
        file.log.name∉t.archive.listed "uuid-a" ∧
        ¬ gtids ((fleet.options .a).scan file.bytes).gtidSet ⊆ gtids t.executed)=true :=
    exec_reaches (by decide +kernel)
  obtain ⟨index,hwritten,htest⟩ := (Option.any_eq_true _ _).mp htest
  obtain ⟨file,hfile,htest⟩ := List.any_eq_true.mp htest
  obtain ⟨hdrain,hin,hnot,hdead⟩ := of_decide_eq_true htest
  exact ⟨t,index,file,ht,hdrain,nextCall_of_written hwritten,hfile,hin,hnot,hdead⟩

end Pair

end Cnmsql.Binlog
