import Cnmsql.Binlog.ArchiveRuns
import Cnmsql.Binlog.ReplayExact

namespace Cnmsql.Binlog

open Framework Replication ObjectStore Archiver

section

variable [CaseMapping] {c : Options}

theorem cumulative_mysql (hops : c.ops=mysqlGTIDSet) {raw : String} {segs : List ArchiveSegment}
    {first covered : c.ops.Carrier} (hfirst : c.ops.parse raw = .ok first)
    (h : cumulative c segs first = .ok covered) :
    Parses (c.ops.string covered) ∧
      gtids (c.ops.string covered)=gtids raw ∪ segmentTxns segs := by
  obtain ⟨ops,clusterName,instanceName,serverUUID,sha256,scan,flushInterval⟩ := c
  subst hops
  rw [mysql_parse] at hfirst
  have hcanonical := parseGTIDSet_canonical hfirst
  have htxns := gtids_of_parse raw first hfirst
  rw [htxns]
  clear hfirst htxns
  induction segs generalizing first with
  | nil =>
    cases h
    obtain ⟨hparses,heq⟩ := gtids_string hcanonical
    exact ⟨hparses,by simpa [segmentTxns] using heq⟩
  | cons seg rest ih =>
    rw [cumulative,bind_eq_ok] at h
    obtain ⟨parsed,hparsed,h⟩ := h
    rw [Archiver.parse,mapError_eq_ok,mysql_parse] at hparsed
    have hunion := first.union_correct parsed hcanonical (parseGTIDSet_canonical hparsed)
    obtain ⟨hparses,heq⟩ := ih h hunion.1
    refine ⟨hparses,?_⟩
    rw [heq,hunion.2,← gtids_of_parse _ _ hparsed,segmentTxns_cons,Set.union_assoc]

variable {index base : ArchiveIndex} {name gtidSet : String} (hops : c.ops=mysqlGTIDSet)
  (h : Folded c index name gtidSet base)
include hops h

/-- A fold as sets: the segment gains the file, and the index covers its segments. -/
theorem Folded.mysql :
    ∃ seg seg' : ArchiveSegment,
      (Archiver.segment c.serverUUID index=some seg ∨ Archiver.segment c.serverUUID index=none ∧
        ∃ startedAt, seg={ serverUUID := c.serverUUID, instanceName := c.instanceName, startedAt }) ∧
      seg'.serverUUID=c.serverUUID ∧ seg'.binlogs=(addFile name seg).binlogs ∧
      Parses seg'.gtidSet ∧ gtids seg'.gtidSet=gtids seg.gtidSet ∪ gtids gtidSet ∧
      seg'.fork=seg.fork ∧ base.segments=putSegment seg' index.segments := by
  obtain ⟨seg,seg',segSet,fileSet,hseg,hsegSet,hfileSet,huuid,hbinlogs,hset,hfork,hsegs⟩ :=
    h.segments
  refine ⟨seg,seg',hseg,?_,hbinlogs,?_⟩
  · rw [huuid]
    cases hseg with
    | inl hsome => simpa using List.find?_some hsome
    | inr hnone =>
      obtain ⟨-,startedAt,rfl⟩ := hnone
      rfl
  · rw [hset,hsegs]
    clear hset hsegs hseg hbinlogs huuid h
    obtain ⟨ops,clusterName,instanceName,serverUUID,sha256,scan,flushInterval⟩ := c
    subst hops
    rw [mysql_parse] at hsegSet hfileSet
    have hunion := segSet.union_correct fileSet (parseGTIDSet_canonical hsegSet)
      (parseGTIDSet_canonical hfileSet)
    obtain ⟨hparses,heq⟩ := gtids_string hunion.1
    refine ⟨hparses,?_,hfork,rfl⟩
    rw [gtids_of_parse _ _ hsegSet,gtids_of_parse _ _ hfileSet,← hunion.2]
    exact heq

theorem Folded.covers : Parses base.coveredGTIDSet ∧
      gtids base.coveredGTIDSet=segmentTxns base.segments := by
  obtain ⟨empty,covered,hempty,hcovered,heq⟩ := h.covered
  obtain ⟨hparses,htxns⟩ := cumulative_mysql hops hempty hcovered
  rw [heq]
  rw [gtids_empty,Set.empty_union] at htxns
  exact ⟨hparses,htxns⟩

end

section

variable [CaseMapping]

def manifestTxns (archive : Archive) (u : String) (files : List String) : Set Txn :=
  {t | ∃ n∈files,∃ metadata,archive.manifests.lookup (u,n)=some metadata ∧
    t∈gtids metadata.gtidSet}

variable {archive archive' : Archive} {u n : String} {files : List String} {metadata : BinlogMetadata}

theorem manifestTxns_nil (archive : Archive) (u : String) : manifestTxns archive u []=∅ := by
  simp [manifestTxns]

theorem gtids_subset_manifestTxns (hm : archive.manifests.lookup (u,n)=some metadata)
    (hn : n∈files) : gtids metadata.gtidSet ⊆ manifestTxns archive u files := by
  intro t ht
  exact ⟨n,hn,metadata,hm,ht⟩

theorem manifestTxns_snoc (hm : archive.manifests.lookup (u,n)=some metadata) :
    manifestTxns archive u (files++[n])=manifestTxns archive u files ∪ gtids metadata.gtidSet := by
  ext t
  constructor
  · intro h
    obtain ⟨x,hx,m,hmx,ht⟩ := h
    cases List.mem_append.mp hx with
    | inl hx => exact .inl ⟨x,hx,m,hmx,ht⟩
    | inr hx =>
      rw [List.mem_singleton] at hx
      subst hx
      rw [hm,Option.some.injEq] at hmx
      subst hmx
      exact .inr ht
  · intro h
    cases h with
    | inl h =>
      obtain ⟨x,hx,m,hmx,ht⟩ := h
      exact ⟨x,List.mem_append_left _ hx,m,hmx,ht⟩
    | inr ht => exact ⟨n,List.mem_append_right _ List.mem_cons_self,metadata,hm,ht⟩

theorem manifestTxns_eq
    (hmanifests : ∀ n metadata,archive.manifests.lookup (u,n)=some metadata →
      archive'.manifests.lookup (u,n)=some metadata)
    (hstored : ∀ n∈files,∃ metadata,archive.manifests.lookup (u,n)=some metadata) :
    manifestTxns archive' u files=manifestTxns archive u files := by
  ext t
  constructor
  · intro h
    obtain ⟨n,hn,metadata',hm',ht⟩ := h
    obtain ⟨metadata,hm⟩ := hstored n hn
    rw [hmanifests n metadata hm,Option.some.injEq] at hm'
    subst hm'
    exact ⟨n,hn,metadata,hm,ht⟩
  · intro h
    obtain ⟨n,hn,metadata,hm,ht⟩ := h
    exact ⟨n,hn,metadata,hmanifests n metadata hm,ht⟩

theorem Archiver.SameButForks.txns {segs segs' : List ArchiveSegment} (h : SameButForks segs segs') :
    segmentTxns segs'=segmentTxns segs := by
  induction h with
  | nil => rfl
  | @cons seg seg' segs segs' hseg _ ih =>
    have hset : gtids seg'.gtidSet=gtids seg.gtidSet := by rw [hseg]
    rw [segmentTxns_cons,segmentTxns_cons,ih,hset]

end

theorem listed_of_mem {archive : Archive} {index : ArchiveIndex} (hindex : archive.index=some index)
    (hapart : Apart index.segments) {seg : ArchiveSegment} (hseg : seg∈index.segments) :
    archive.listed seg.serverUUID=seg.binlogs := by
  have hfind : segment seg.serverUUID index=some seg := (find_eq_some_iff hapart).mpr ⟨hseg,rfl⟩
  simp [Archive.listed,segmentFiles,hindex,hfind]

section

variable [CaseMapping] {ι : Type}

structure Accounts (f : Fleet ι) (archive : Archive) (index : ArchiveIndex) : Prop where
  apart : Apart index.segments
  owned : ∀ seg∈index.segments,∃ i,(f.options i).serverUUID=seg.serverUUID
  segments : ∀ seg∈index.segments,Parses seg.gtidSet ∧
    gtids seg.gtidSet=manifestTxns archive seg.serverUUID seg.binlogs
  covered : Parses index.coveredGTIDSet ∧
    gtids index.coveredGTIDSet=segmentTxns index.segments

variable {f : Fleet ι} {s : System ι} {archive : Archive} {index : ArchiveIndex}

theorem Accounts.toOwned (h : Accounts f archive index) : Owned f index :=
  ⟨h.apart,h.owned⟩

theorem Accounts.sameButForks {archive : Archive} {index index' : ArchiveIndex}
    (h : Accounts f archive index) (hsegs : SameButForks index.segments index'.segments)
    (hcovered : index'.coveredGTIDSet=index.coveredGTIDSet) : Accounts f archive index' where
  apart := (h.toOwned.sameButForks hsegs).apart
  owned := (h.toOwned.sameButForks hsegs).owned
  segments seg' hseg' := by
    obtain ⟨seg,hseg,heq⟩ := hsegs.mem hseg'
    rw [heq]
    exact h.segments seg hseg
  covered := by
    rw [hcovered,hsegs.txns]
    exact h.covered

theorem Accounts.folded {archive : Archive} {found : Option ArchiveIndex} {base : ArchiveIndex}
    {i : ι} (hops : (f.options i).ops=mysqlGTIDSet)
    (h : ∀ index,found=some index → Accounts f archive index) {name : String}
    {metadata : BinlogMetadata} (hne : name ≠ "")
    (hm : archive.manifests.lookup ((f.options i).serverUUID,name)=some metadata)
    (hfold : Folded (f.options i) (found.getD {}) name metadata.gtidSet base) :
    Accounts f archive base := by
  have howned : Owned f base := .folded (fun index hindex => (h index hindex).toOwned) hfold
  have hapart : Apart (found.getD {}).segments := by
    cases found with
    | none => exact List.nodup_nil
    | some index => exact (h index rfl).apart
  have hold : ∀ seg∈(found.getD {}).segments,
      Parses seg.gtidSet ∧ gtids seg.gtidSet=manifestTxns archive seg.serverUUID seg.binlogs := by
    cases found with
    | none =>
      intro seg hseg
      cases hseg
    | some index => exact (h index rfl).segments
  obtain ⟨seg,seg',hseg,huuid,hbinlogs,hparses,hset,-,hsegs⟩ := hfold.mysql hops
  have hopened : gtids seg.gtidSet=manifestTxns archive (f.options i).serverUUID seg.binlogs := by
    cases hseg with
    | inl hsome =>
      obtain ⟨hmem,hu⟩ := (find_eq_some_iff hapart).mp hsome
      rw [← hu]
      exact (hold seg hmem).2
    | inr hnone =>
      obtain ⟨-,startedAt,rfl⟩ := hnone
      rw [gtids_empty,manifestTxns_nil]
  have hown : gtids seg'.gtidSet=manifestTxns archive seg'.serverUUID seg'.binlogs := by
    rw [hset,hopened,huuid,hbinlogs,addFile]
    split
    · exact (manifestTxns_snoc hm).symm
    · -- the file was listed before, so its transactions are there
      rename_i hlisted
      have hmem : name∈seg.binlogs := by
        by_contra hnot
        exact hlisted ⟨hne,hnot⟩
      exact Set.union_eq_self_of_subset_right (gtids_subset_manifestTxns hm hmem)
  refine ⟨howned.apart,howned.owned,?_,hfold.covers hops⟩
  intro x hx
  rw [hsegs,mem_putSegment hapart] at hx
  cases hx with
  | inl hx =>
    subst hx
    exact ⟨hparses,hown⟩
  | inr hx => exact hold x hx.1

omit [CaseMapping] in
theorem Facts.due_ne_empty {c : Options} {server : Server} {know : Know}
    (h : Facts c server archive know) {name : String} (hdue : Due know name) : name ≠ "" := by
  obtain ⟨p,r,hshows⟩ := h.shows (mem_logs_of_archivable hdue.listed)
  obtain ⟨file,-,hname⟩ := hshows.rotated_of_mem hdue.listed
  rw [← hname]
  exact file.log.name_ne_empty

theorem accounts_write {know : Know} {server : Server} {i : ι}
    (hops : (f.options i).ops=mysqlGTIDSet) (hfacts : Facts (f.options i) server archive know)
    {found : Option ArchiveIndex} (h : ∀ index,found=some index → Accounts f archive index)
    (hwrite : IndexWrite (f.options i) know found index) : Accounts f archive index := by
  obtain ⟨base,judged,hbase,hjudged,hsegs,hcovered,-⟩ := hwrite.content
  have hacc : Accounts f archive base := by
    cases hbase with
    | inl heq => exact h base heq
    | inr hfold =>
      obtain ⟨name,metadata,harch,hdue,hfold⟩ := hfold
      exact .folded hops h (hfacts.due_ne_empty hdue) (hfacts.archived name metadata harch) hfold
  have hsame : SameButForks base.segments judged.segments ∧
      judged.coveredGTIDSet=base.coveredGTIDSet := by
    cases hjudged with
    | inl heq =>
      rw [heq]
      exact ⟨.refl _,rfl⟩
    | inr hj => exact ⟨hj.segments,hj.fields.1⟩
  apply hacc.sameButForks
  · rw [hsegs]
    exact hsame.1
  · rw [hcovered]
    exact hsame.2

variable [DecidableEq ι]

theorem accounts_move (hops : ∀ i,(f.options i).ops=mysqlGTIDSet) (hs : Sound f s)
    (h : ∀ index,s.archive.index=some index → Accounts f s.archive index) {s' : System ι}
    {a : Act ι} (hm : Move f s a s') (ha : a.expires=false) {index : ArchiveIndex}
    (hindex : s'.archive.index=some index) : Accounts f s'.archive index := by
  cases index_move hs hm ha with
  | inl hsame =>
    rw [hsame] at hindex
    have hacc := h index hindex
    refine ⟨hacc.apart,hacc.owned,?_,hacc.covered⟩
    intro seg hseg
    obtain ⟨i,hi⟩ := hacc.owned seg hseg
    have hstored : ∀ n∈seg.binlogs,
        ∃ metadata,s.archive.manifests.lookup (seg.serverUUID, n)=some metadata := by
      intro n hn
      rw [← listed_of_mem hindex hacc.apart hseg,← hi] at hn
      rw [← hi]
      exact (hs.kept i).stored n hn
    have hadv := advances_move hs hm ha i
    rw [hi] at hadv
    rw [manifestTxns_eq hadv.manifests hstored]
    exact hacc.segments seg hseg
  | inr hwrite =>
    obtain ⟨i,o,index',-,-,harchive,-,hwrite⟩ := hwrite
    rw [harchive] at hindex ⊢
    cases hindex
    have hacc := accounts_write (hops i) (hs.facts i) h hwrite
    exact { hacc with }

/-- The index is right about the archive: listed files are there once with their digests, and the
sets are those of the files. -/
structure Integral (f : Fleet ι) (archive : Archive) (index : ArchiveIndex) : Prop where
  distinct : ∀ seg∈index.segments,seg.binlogs.Nodup
  stored : ∀ seg∈index.segments,∀ n∈seg.binlogs,∃ i metadata bytes,
    (f.options i).serverUUID=seg.serverUUID ∧
    archive.manifests.lookup (seg.serverUUID,n)=some metadata ∧
    archive.bodies.lookup (seg.serverUUID,n)=some bytes ∧
    metadata.sha256=(f.options i).sha256 bytes
  segments : ∀ seg∈index.segments,Parses seg.gtidSet ∧
    gtids seg.gtidSet=manifestTxns archive seg.serverUUID seg.binlogs
  covered : Parses index.coveredGTIDSet ∧
    gtids index.coveredGTIDSet=segmentTxns index.segments

omit [DecidableEq ι] in
theorem Accounts.integral (hs : Sound f s) (hindex : s.archive.index=some index)
    (h : Accounts f s.archive index) : Integral f s.archive index where
  distinct seg hseg := by
    obtain ⟨i,hi⟩ := h.owned seg hseg
    obtain ⟨k,-,-,hlisted⟩ := (hs.kept i).listed
    rw [← listed_of_mem hindex h.apart hseg,← hi,hlisted]
    have hsub : ((s.server i).rotated.take k).Sublist (s.server i).files :=
      (List.take_sublist _ _).trans (List.sublist_append_left _ _)
    exact ((s.server i).names_nodup).sublist (hsub.map _)
  stored seg hseg n hn := by
    obtain ⟨i,hi⟩ := h.owned seg hseg
    rw [← listed_of_mem hindex h.apart hseg,← hi] at hn
    rw [← hi]
    obtain ⟨metadata,hm⟩ := (hs.kept i).stored n hn
    obtain ⟨file,-,-,hsum,-,hbody⟩ := (hs.kept i).manifest n metadata hm
    exact ⟨i,metadata,file.bytes,rfl,hm,hbody,hsum⟩
  segments := h.segments
  covered := h.covered

omit [CaseMapping] [DecidableEq ι] in
theorem Kept.bodies {c : Options} {server server' : Server} {archive archive' : Archive} {t : Time}
    (h : Kept c server archive) (ha : Advances c.serverUUID t server server' archive archive')
    {n : String} {metadata : BinlogMetadata}
    (hm : archive.manifests.lookup (c.serverUUID,n)=some metadata) :
    archive'.manifests.lookup (c.serverUUID,n)=some metadata ∧
      ∃ bytes,archive.bodies.lookup (c.serverUUID,n)=some bytes ∧
        archive'.bodies.lookup (c.serverUUID, n)=some bytes := by
  obtain ⟨file,hfile,rfl,-,-,hbody⟩ := h.manifest n metadata hm
  exact ⟨ha.manifests _ metadata hm,file.bytes,hbody,ha.bodies file hfile hbody⟩

end

theorem verifyArchived_collision [CaseMapping] (c : Options) (l : BinaryLog) (mem : Memory)
    (st : FileInfo) {prior : BinlogMetadata} {sum : String} (size : Nat) (hne : prior.sha256 ≠ "")
    (hsum : prior.sha256≠sum) :
    Routine.Ends (verifyArchived c l st) mem
      [⟨.ask (.manifest l.name),.ok prior⟩,⟨.ask (.hashFile l.name),.ok (sum,size)⟩]
      (.error (.collision l.name c.serverUUID prior.sha256 sum)) mem := by
  apply Routine.Ends.call_bind
  apply Routine.Ends.ofExcept_bind
  apply Routine.Ends.call_bind
  apply Routine.Ends.ofExcept_bind
  simp only [hne,hsum,ne_eq,not_false_eq_true,and_self,if_true]
  exact Routine.Ends.throw_bind

theorem archiveFile_collision [CaseMapping] {c : Options} (allow : Option FileFilter) {l : BinaryLog}
    {mem : Memory} {st : FileInfo} {prior : BinlogMetadata} {sum : String} (size : Nat)
    (hkeys : buildBinlogKeys c l.name = .ok ())
    (hmemo : (mem.verified.lookup l.name).filter (·.info=st)=none)
    (hne : prior.sha256 ≠ "") (hsum : prior.sha256≠sum) :
    Routine.Ends (archiveFile c allow l) mem
      [⟨.ask (.stat l.name),.ok st⟩,⟨.manifestExists l.name,.ok true⟩,
        ⟨.ask (.manifest l.name),.ok prior⟩,⟨.ask (.hashFile l.name),.ok (sum,size)⟩]
      (.error (.collision l.name c.serverUUID prior.sha256 sum)) mem := by
  unfold archiveFile
  rw [hkeys]
  apply Routine.Ends.call_bind
  apply Routine.Ends.ofExcept_bind
  apply Routine.Ends.get_bind
  rw [hmemo]
  apply Routine.Ends.call_bind
  apply Routine.Ends.ofExcept_bind
  apply Routine.Ends.error_bind
  exact verifyArchived_collision c l mem st size hne hsum

section

variable [CaseMapping] {ι : Type} [DecidableEq ι] {f : Fleet ι} {s : System ι}

theorem archive_integrity (hops : ∀ i,(f.options i).ops=mysqlGTIDSet) (h : Started s)
    {as : List (Act ι)} {t : System ι}
    (hrun : Along (step f) (fun _ a _ => a.expires=false) s as)
    (ht : exec (step f) s as=some t) :
    (∀ index,t.archive.index=some index → Integral f t.archive index) ∧
    (∀ i logs res,(t.nodes i).nextCall=some (.note (.archived logs res)) → res.deferred = "" →
      ∀ l∈archivable logs,l.name∈t.archive.listed (f.options i).serverUUID) ∧
    (∀ a t',step f t a=some t' → a.expires=false → ∀ i n metadata,
      t.archive.manifests.lookup ((f.options i).serverUUID,n)=some metadata →
      t'.archive.manifests.lookup ((f.options i).serverUUID,n)=some metadata ∧
      ∃ bytes,t.archive.bodies.lookup ((f.options i).serverUUID,n)=some bytes ∧
        t'.archive.bodies.lookup ((f.options i).serverUUID,n)=some bytes) ∧
    ∀ i allow l mem st prior sum size,buildBinlogKeys (f.options i) l.name = .ok () →
      (mem.verified.lookup l.name).filter (·.info=st)=none → prior.sha256 ≠ "" →
      prior.sha256≠sum → Routine.Ends (archiveFile (f.options i) allow l) mem
        [⟨.ask (.stat l.name),.ok st⟩,⟨.manifestExists l.name,.ok true⟩,
          ⟨.ask (.manifest l.name),.ok prior⟩,⟨.ask (.hashFile l.name),.ok (sum,size)⟩]
        (.error (.collision l.name (f.options i).serverUUID prior.sha256 sum)) mem := by
  have hinv : Sound f t ∧ ∀ index,t.archive.index=some index → Accounts f t.archive index := by
    apply exec_invariant (I := fun s => Sound f s ∧
      ∀ index,s.archive.index=some index → Accounts f s.archive index) _ hrun ht
    · refine ⟨sound_started h,?_⟩
      intro index hindex
      rw [h.archive] at hindex
      cases hindex
    · intro s a s' hstep ha hs
      have hm := move_of_step hstep
      exact ⟨sound_move hs.1 hm ha,fun index => accounts_move hops hs.1 hs.2 hm ha⟩
  obtain ⟨hs,hacc⟩ := hinv
  refine ⟨fun index hindex => (hacc index hindex).integral hs hindex,?_,?_,?_⟩
  · intro i logs res hnext hdefer l hl
    obtain ⟨hlogs,hall⟩ := hs.obeying.allowed_next hnext
    subst hlogs
    exact (hs.facts i).indexed l.name (hall hdefer l hl)
  · intro a t' hstep ha i n metadata hm
    exact (hs.kept i).bodies (advances_move hs (move_of_step hstep) ha i) hm
  · intro i allow l mem st prior sum size hkeys hmemo hne hsum
    exact archiveFile_collision allow size hkeys hmemo hne hsum

end

theorem Pair.archive_integrity_rotationRun : ∃ t index,
    exec (step fleet) initial (rotationRun [])=some t ∧ t.archive.index=some index ∧
    index.segments.map (·.binlogs)=[["binlog.000001"]] ∧ Integral fleet t.archive index := by
  obtain ⟨t,ht,htest⟩ : ∃ t,exec (step fleet) initial (rotationRun [])=some t ∧
      decide (t.archive.index.map (·.segments.map (·.binlogs))=some [["binlog.000001"]])=true :=
    exec_reaches (by decide +kernel)
  obtain ⟨index,hindex,hfiles⟩ := Option.map_eq_some_iff.mp (of_decide_eq_true htest)
  have hops : ∀ i,(fleet.options i).ops=mysqlGTIDSet := by
    intro i
    cases i with
    | a => rfl
    | b => rfl
  have hquiet : Along (step fleet) (fun _ a _ => a.expires=false) initial (rotationRun []) := by
    decide +kernel
  exact ⟨t,index,ht,hindex,hfiles,(archive_integrity hops started_initial hquiet ht).1 index hindex⟩

end Cnmsql.Binlog
