import Cnmsql.Binlog.Contract
import Cnmsql.Binlog.Segments

namespace Cnmsql.Binlog

open Framework Replication ObjectStore Engine Archiver Routine List

variable {know : Know} {name : String} {mem : Memory}

theorem Due.listed (h : Due know name) : name∈(archivable know.logs).map (·.name) := by
  obtain ⟨before,l,after,heq,hname,-⟩ := h
  rw [heq]
  simp [hname]

theorem Remembers.verify (hmem : Remembers know mem) {st : FileInfo} {metadata : BinlogMetadata}
    (h : (name,metadata)∈know.archived) :
    Remembers know { mem with verified := mem.verified.insert name ⟨st,metadata⟩ } := by
  refine { hmem with verified := ?_ }
  intro n stamp hl
  rcases Map.lookup_insert_eq_some hl with ⟨rfl,rfl⟩ | hold
  · exact h
  · exact hmem.verified n stamp hold

theorem Remembers.defer (hmem : Remembers know mem) {st : FileInfo} {scan : ScanResult}
    (h : (name,scan)∈know.scanned) :
    Remembers know { mem with deferredScans := mem.deferredScans.insert name ⟨st,scan⟩ } := by
  refine { hmem with scans := ?_ }
  intro n stamp hl
  rcases Map.lookup_insert_eq_some hl with ⟨rfl,rfl⟩ | hold
  · exact h
  · exact hmem.scans n stamp hold

theorem Remembers.forget (hmem : Remembers know mem) (name : String) :
    Remembers know { mem with deferredScans := mem.deferredScans.erase name } :=
  { hmem with scans := fun n stamp hl => hmem.scans n stamp (Map.lookup_of_erase hl) }

theorem addFile_binlogs (name : String) (seg seg' : ArchiveSegment) (h : seg'.binlogs=seg.binlogs) :
    (addFile name seg').binlogs=(addFile name seg).binlogs := by
  unfold addFile
  rw [h]
  split
  · rfl
  · exact h

theorem addFile_fields (name : String) (seg : ArchiveSegment) :
    (addFile name seg).serverUUID=seg.serverUUID ∧ (addFile name seg).gtidSet=seg.gtidSet ∧
      (addFile name seg).fork=seg.fork := by
  unfold addFile
  split
  · exact ⟨rfl,rfl,rfl⟩
  · exact ⟨rfl,rfl,rfl⟩

variable {index base : ArchiveIndex} {gtidSet : String}

section

variable {c : Options} (h : Folded c index name gtidSet base)
include h

/-- A fold puts the server's own segment back with the file in it. -/
theorem Folded.own :
    ∃ seg seg' : ArchiveSegment,
      segmentFiles c.serverUUID (some index)=seg.binlogs ∧
      (segment c.serverUUID index).bind (·.fork)=seg.fork ∧
      seg'.binlogs=(addFile name seg).binlogs ∧ seg'.fork=seg.fork ∧
      seg'.serverUUID=c.serverUUID ∧ base.segments=putSegment seg' index.segments := by
  obtain ⟨seg,seg',segSet,fileSet,hseg,-,-,huuid,hbinlogs,-,hfork,hsegs⟩ := h.segments
  cases hseg with
  | inl hsome =>
    have hu : seg.serverUUID=c.serverUUID := by simpa using List.find?_some hsome
    exact ⟨seg,seg',by simp [segmentFiles,hsome],by simp [hsome],hbinlogs,hfork,
      huuid.trans hu,hsegs⟩
  | inr hnone =>
    obtain ⟨hnone,startedAt,rfl⟩ := hnone
    exact ⟨_,seg',by simp [segmentFiles,hnone],by simp [hnone],hbinlogs,hfork,huuid,hsegs⟩

theorem Folded.lists (hname : name ≠ "") : name∈segmentFiles c.serverUUID (some base) := by
  obtain ⟨seg,seg',-,-,hbinlogs,-,huuid,hsegs⟩ := h.own
  simp only [segmentFiles,Option.bind_some,Archiver.segment,hsegs,find_putSegment,huuid,if_true,
    Option.map_some,Option.getD_some,hbinlogs,addFile]
  split
  · simp
  · rename_i hnot
    simpa [hname] using hnot

theorem Folded.raise (primary : Bool) (generation : Int) :
    Folded c index name gtidSet
      (if primary=true ∧ base.generation<generation then { base with generation } else base) := by
  split
  · rename_i hlt
    exact ⟨h.segments,h.covered,h.disowned,Int.le_trans h.generation (Int.le_of_lt hlt.2),
      h.archivedThrough⟩
  · exact h

end

/-- The primary takes every file without a manifest, a draining instance those of the surviving
timeline. -/
def Mode [CaseMapping] (c : Options) (know : Know) (allow : Option FileFilter) : Prop :=
  allow=none ∧ know.writable=some true ∨ allow=some (Loop.onSurvivingTimeline c)

variable [CaseMapping] {c : Options} {know : Know} {mem : Memory}

theorem Admitted.learns {know' : Know} {name : String} (ha : Admitted c know name)
    (h : Learns know know') : Admitted c know' name := by
  cases ha with
  | inl hw => exact .inl (h.writable.trans hw)
  | inr hs =>
    obtain ⟨scan,view,timeline,hscan,hview,hok⟩ := hs
    exact .inr ⟨scan,view,timeline,h.scanned hscan,h.views hview,hok⟩

def KnowsManifest (name : String) (know : Know) (_ : Memory) (metadata : BinlogMetadata) : Prop :=
  (name,metadata)∈know.archived

theorem Mode.learns {know' : Know} {allow : Option FileFilter} (hm : Mode c know allow)
    (h : Learns know know') : Mode c know' allow := by
  cases hm with
  | inl hall => exact .inl ⟨hall.1,h.writable.trans hall.2⟩
  | inr hdrain => exact .inr hdrain

variable {allow : Option FileFilter} {metadata : BinlogMetadata} {logs : List BinaryLog}
  (l : BinaryLog) (index : ArchiveIndex) (status : ArchiveStatus) (pass : ForkPass) (st : FileInfo)

theorem sure_verifyArchived (hmem : Remembers know mem) (hdue : Due know l.name) :
    Sure c (KnowsManifest l.name) know mem (verifyArchived c l st) := by
  unfold verifyArchived
  refine sure_query rfl hmem trivial ?_
  rintro _ prior rfl hsteady hmem
  have hdue := hdue.learns hsteady.toLearns
  refine sure_query rfl hmem hdue.listed ?_
  rintro _ ⟨sum,size⟩ rfl hsteady hmem
  simp only
  split
  · exact keeps_throw hmem
  · have hprior := hsteady.archived (a := (l.name,prior)) (by simp [Know.learnReply])
    exact keeps_modify (keeps_pure (hmem.verify hprior) hprior)

theorem sure_scanFile (hmem : Remembers know mem) (hdue : Due know l.name) :
    Sure c (fun know' _ scan => (l.name,scan)∈know'.scanned ∧ know'.absent=know.absent) know mem
      (scanFile l st) := by
  unfold scanFile
  refine keeps_get ?_
  split
  · rename_i stamp hstamp
    rw [Option.filter_eq_some_iff] at hstamp
    exact keeps_pure hmem ⟨hmem.scans l.name stamp hstamp.1,rfl⟩
  · refine sure_ask rfl hmem hdue.listed ?_
    intro r hsteady hmem
    refine keeps_ofExcept hmem ?_
    intro scan hscan
    rw [mapError_eq_ok] at hscan
    subst hscan
    exact ⟨by simp [Know.learnReply],rfl⟩

theorem sure_allowed {scan : ScanResult} (hmode : Mode c know allow) (hmem : Remembers know mem)
    (hscan : (l.name,scan)∈know.scanned) :
    Sure c (fun know' _ ok => know'.absent=know.absent ∧ (ok=true → Admitted c know' l.name) ∧
      (ok=false → allow≠none)) know mem (allowed allow l st scan) := by
  unfold allowed
  cases hmode with
  | inl hall =>
    obtain ⟨rfl,hw⟩ := hall
    exact keeps_pure hmem ⟨rfl,fun _ => .inl hw,by simp⟩
  | inr hdrain =>
    subst hdrain
    refine sure_ask rfl hmem trivial ?_
    intro view hsteady hmem
    refine sure_ask rfl hmem trivial ?_
    intro timeline hsteady' hmem
    have hscan := hsteady'.scanned (hsteady.scanned hscan)
    refine keeps_ofExcept_bind hmem ?_
    intro ok hok
    cases ok with
    | true =>
      refine keeps_pure hmem ⟨rfl,fun _ => .inr ⟨scan,view,timeline,hscan,?_,hok⟩,by simp⟩
      exact mem_cons_self
    | false => exact keeps_modify (keeps_pure (hmem.defer hscan) ⟨rfl,by simp,by simp⟩)

theorem sure_uploadFile {scan : ScanResult} (hmem : Remembers know mem)
    (hscan : (l.name,scan)∈know.scanned) (hdue : Due know l.name) (hadm : Admitted c know l.name)
    (habsent : know.absent=some l.name) (hdefer : know.deferred=none) :
    Sure c (KnowsManifest l.name) know mem (uploadFile c l st scan) := by
  unfold uploadFile
  refine keeps_modify ?_
  refine sure_query rfl (hmem.forget l.name) hdue.listed ?_
  rintro _ ⟨sum,size⟩ rfl hsteady hmem
  simp only
  refine sure_now hmem ?_
  intro archivedAt hsteady' hmem
  have hlearns := trans_of Steady hsteady hsteady'
  refine sure_try rfl hmem ?_ ?_
  · exact ⟨hdefer,habsent,hdue.learns hlearns.toLearns,hadm.learns hlearns.toLearns⟩
  rintro _ _ rfl hsteady hmem
  have hlearns := trans_of Steady hlearns hsteady
  refine sure_try rfl hmem ?_ ?_
  · refine ⟨hdefer,habsent,hdue.learns hlearns.toLearns,hadm.learns hlearns.toLearns,rfl,rfl,?_,
      ⟨scan,hlearns.scanned hscan,rfl⟩,mem_cons_self⟩
    exact mem_cons_self
  rintro _ _ rfl hsteady hmem
  exact keeps_modify (keeps_pure (hmem.verify mem_cons_self) mem_cons_self)

/-- Archiving a file makes its manifest known, or defers it. -/
def FileArchived (allow : Option FileFilter) (name : String) (know : Know) (_ : Memory)
    (r : Option (BinlogMetadata × Bool)) : Prop :=
  name ≠ "" ∧ (∀ metadata archived,r=some (metadata,archived) → (name,metadata)∈know.archived) ∧
    (r=none → allow≠none)

theorem sure_archiveFile (hmode : Mode c know allow) (hmem : Remembers know mem)
    (hdue : Due know l.name) (hdefer : know.deferred=none) :
    Sure c (FileArchived allow l.name) know mem (archiveFile c allow l) := by
  unfold archiveFile
  refine sure_orFail hmem ?_
  intro _ hkeys
  have hname : l.name ≠ "" := by
    intro h
    simp [buildBinlogKeys,h] at hkeys
  refine sure_query rfl hmem trivial ?_
  rintro _ st rfl hsteady hmem
  have hdue := hdue.learns hsteady.toLearns
  refine keeps_get ?_
  split
  · rename_i stamp hstamp
    rw [Option.filter_eq_some_iff] at hstamp
    refine keeps_pure hmem ⟨hname,?_,by simp⟩
    intro metadata archived hr
    cases hr
    exact hmem.verified l.name stamp hstamp.1
  · refine sure_try rfl hmem trivial ?_
    rintro _ found rfl hsteady' hmem
    have hdue := hdue.learns hsteady'.toLearns
    cases found with
    | true =>
      refine keeps_bind (sure_verifyArchived l st hmem hdue) ?_
      intro know' mem' prior hmem _ hprior
      refine keeps_pure hmem ⟨hname,?_,by simp⟩
      intro metadata archived hr
      cases hr
      exact hprior
    | false =>
      refine keeps_bind (sure_scanFile l st hmem hdue) ?_
      intro know1 mem1 scan hmem1 hsteady1 hscan
      have hmode : Mode c know1 allow :=
        hmode.learns (trans_of Steady (trans_of Steady hsteady hsteady') hsteady1).toLearns
      refine keeps_bind (sure_allowed l st hmode hmem1 hscan.1) ?_
      intro know2 mem2 ok hmem2 hsteady2 hok
      obtain ⟨habsent,hadm,hnot⟩ := hok
      cases ok with
      | false => exact keeps_pure hmem2 ⟨hname,by simp,fun _ => hnot rfl⟩
      | true =>
        have hlearns := trans_of Steady hsteady1 hsteady2
        refine keeps_bind (sure_uploadFile l st hmem2 (hsteady2.scanned hscan.1)
          (hdue.learns hlearns.toLearns) (hadm rfl) ?_ ?_) ?_
        · rw [habsent,hscan.2]
          rfl
        · exact (trans_of Steady (trans_of Steady hsteady hsteady') hlearns).deferred.trans hdefer
        · intro know3 mem3 metadata hmem3 _ hmetadata
          refine keeps_pure hmem3 ⟨hname,?_,by simp⟩
          intro m archived hr
          cases hr
          exact hmetadata

theorem sure_loadStatus (hmem : Remembers know mem) :
    Sure c (fun _ _ _ => True) know mem (loadStatus c) := by
  unfold loadStatus
  refine sure_query rfl hmem trivial ?_
  rintro _ found rfl hsteady hmem
  cases found with
  | false => exact keeps_pure hmem trivial
  | true =>
    refine sure_query rfl hmem trivial ?_
    rintro _ stored rfl hsteady hmem
    exact keeps_pure hmem trivial

theorem sure_checkContext (hmem : Remembers know mem) :
    Sure c (fun _ _ _ => True) know mem checkContext := by
  unfold checkContext
  refine sure_ask rfl hmem trivial ?_
  intro r _ hmem
  exact keeps_ofExcept hmem fun _ _ => trivial

theorem sure_seedIndexed (hmem : Remembers know mem) :
    Sure c (fun _ _ _ => True) know mem (seedIndexed c) := by
  unfold seedIndexed
  refine keeps_get ?_
  split
  · exact keeps_pure hmem trivial
  · refine sure_try rfl hmem trivial ?_
    rintro _ ⟨index,etag⟩ rfl hsteady hmem
    refine keeps_modify (keeps_pure { hmem with indexed := ?_ } trivial)
    intro name hname
    exact mem_append_left _ hname

theorem sure_seedFor (name : String) (archived : Bool) (hmem : Remembers know mem) :
    Sure c (fun _ _ _ => True) know mem (seedFor c name archived) := by
  unfold seedFor
  refine keeps_get ?_
  split
  · exact sure_seedIndexed hmem
  · exact keeps_pure hmem trivial

theorem sure_openSegment (hmem : Remembers know mem) :
    Sure c (fun know' _ seg => know'.found=know.found ∧
      (Archiver.segment c.serverUUID index=some seg ∨ Archiver.segment c.serverUUID index=none ∧
        ∃ startedAt, seg={ serverUUID := c.serverUUID, instanceName := c.instanceName, startedAt }))
      know mem (Archiver.openSegment c index) := by
  unfold Archiver.openSegment
  split
  · rename_i seg hseg
    exact keeps_pure hmem ⟨rfl,.inl hseg⟩
  · rename_i hnone
    refine sure_now hmem ?_
    intro startedAt hsteady hmem
    exact keeps_pure hmem ⟨rfl,.inr ⟨hnone,startedAt,rfl⟩⟩

theorem sure_foldFile (name gtidSet : String) (hmem : Remembers know mem) :
    Sure c (fun know' _ base => know'.found=know.found ∧ Folded c index name gtidSet base ∧
      base.generation=index.generation) know mem (foldFile c index status name gtidSet) := by
  unfold foldFile
  refine sure_ask rfl hmem trivial ?_
  intro uid _ hmem
  refine keeps_bind (sure_openSegment index hmem) ?_
  intro know1 mem1 seg hmem _ hseg
  obtain ⟨hfound,hseg⟩ := hseg
  refine sure_now hmem ?_
  intro endedAt _ hmem
  refine keeps_ofExcept_bind hmem ?_
  intro segSet hsegSet
  refine keeps_ofExcept_bind hmem ?_
  intro fileSet hfileSet
  refine keeps_ofExcept_bind hmem ?_
  intro empty hempty
  refine keeps_ofExcept_bind hmem ?_
  intro covered hcovered
  refine sure_now hmem ?_
  intro updatedAt _ hmem
  rw [parse,mapError_eq_ok] at hsegSet hfileSet hempty
  refine keeps_pure hmem ⟨hfound,?_,rfl⟩
  refine ⟨?_,⟨empty,covered,hempty,hcovered,rfl⟩,rfl,Int.le_refl _,rfl⟩
  refine ⟨seg,_,segSet,fileSet,hseg,hsegSet,hfileSet,?_,?_,?_,?_,rfl⟩
  · exact (addFile_fields name _).1
  · exact addFile_binlogs name seg _ rfl
  · exact (addFile_fields name _).2.1
  · exact (addFile_fields name _).2.2

structure Sees (know : Know) (pass : ForkPass) : Prop where
  generation : pass.source=true → know.generation=some pass.generation
  preloaded : ∀ judge,pass.preloaded=some judge → pass.source=true ∧
    ∃ authority,know.authority=some authority ∧ buildJudge authority = .ok judge

def KnowsJudge (know : Know) (judge : Except String (Option ForkJudge)) : Prop :=
  ∀ j,judge = .ok (some j) → ∃ authority,know.authority=some authority ∧ buildJudge authority = .ok j

theorem sure_forkSource (hmem : Remembers know mem) :
    Sure c (fun know' _ judge => KnowsJudge know' judge ∧ know'.found=know.found) know mem
      forkSource := by
  unfold forkSource
  refine sure_ask rfl hmem trivial ?_
  intro r _ hmem
  cases r with
  | error e => exact keeps_pure hmem ⟨by simp [KnowsJudge],rfl⟩
  | ok found =>
    cases found with
    | none => exact keeps_pure hmem ⟨by simp [KnowsJudge],rfl⟩
    | some authority =>
      refine keeps_pure hmem ⟨?_,rfl⟩
      intro j hj
      refine ⟨authority,rfl,?_⟩
      cases hb : buildJudge authority with
      | error e =>
        rw [hb] at hj
        cases hj
      | ok judge =>
        rw [hb] at hj
        cases hj
        rfl

theorem sure_load (hmem : Remembers know mem) (hsees : Sees know pass) :
    Sure c (fun know' _ r => r.1={ pass with preloaded := none } ∧ KnowsJudge know' r.2 ∧
      know'.found=know.found) know mem (load pass) := by
  unfold load
  split
  · rename_i judge hjudge
    refine keeps_pure hmem ⟨rfl,?_,rfl⟩
    intro j hj
    cases hj
    exact (hsees.preloaded judge hjudge).2
  · rename_i hnone
    refine keeps_bind (sure_forkSource hmem) ?_
    intro know' mem' judge hmem _ hj
    refine keeps_pure hmem ⟨?_,hj⟩
    rw [← hnone]

/-- What a fork check of `index` comes to. -/
structure ForkChecked (c : Options) (pass : ForkPass) (index : ArchiveIndex) (know : Know)
    (r : Checked) : Prop where
  judged : r.report.checked=true → Judged c know index r.index
  unchecked : r.report.checked=false → r.index=index
  pass_eq : r.pass=pass ∨ r.pass={ pass with preloaded := none }
  consumed : r.report.superseded=false → r.pass.preloaded=none

theorem sure_checkForks (hmem : Remembers know mem) (hsees : Sees know pass) :
    Sure c (fun know' _ r => ForkChecked c pass index know' r ∧ know'.found=know.found) know mem
      (checkForks c index pass) := by
  unfold checkForks
  simp only
  split
  · rename_i hsource
    refine keeps_pure hmem ⟨⟨by simp,by simp,.inl rfl,?_⟩,rfl⟩
    intro _
    cases hp : pass.preloaded with
    | none => rfl
    | some judge =>
      rw [(hsees.preloaded judge hp).1] at hsource
      cases hsource
  · rename_i hsource
    rw [Bool.not_eq_false] at hsource
    split
    · exact keeps_pure hmem ⟨⟨by simp,by simp,.inl rfl,by simp⟩,rfl⟩
    · rename_i hgen
      refine keeps_bind (sure_load pass hmem hsees) ?_
      intro know1 mem1 r hmem hsteady hr
      obtain ⟨pass',judge⟩ := r
      obtain ⟨hpass,hjudge,hfound⟩ := hr
      simp only at hpass hjudge
      subst hpass
      have hgeneration : know1.generation=some pass.generation :=
        hsteady.generation.trans (hsees.generation hsource)
      cases judge with
      | error e => exact keeps_pure hmem ⟨⟨by simp,by simp,.inr rfl,fun _ => rfl⟩,hfound⟩
      | ok judge =>
        cases judge with
        | none => exact keeps_pure hmem ⟨⟨by simp,by simp,.inr rfl,fun _ => rfl⟩,hfound⟩
        | some judge =>
          refine sure_now hmem ?_
          intro checkedAt _ hmem
          cases hj : judgeIndex judge c.serverUUID checkedAt (forkIdentity c) index with
          | error e =>
            simp only
            exact keeps_pure hmem ⟨⟨by simp,by simp,.inr rfl,fun _ => rfl⟩,hfound⟩
          | ok judged =>
            obtain ⟨index',changed⟩ := judged
            obtain ⟨authority,hauth,hbuild⟩ := hjudge judge rfl
            refine keeps_pure hmem ⟨⟨fun _ => ?_,by simp,.inr rfl,fun _ => rfl⟩,hfound⟩
            exact ⟨authority,judge,checkedAt,changed,pass.generation,hauth,hbuild,hgeneration,
              Int.not_lt.mp hgen,hj⟩

theorem Judged.segments {base judged : ArchiveIndex} (h : Judged c know base judged) :
    SameButForks base.segments judged.segments := by
  obtain ⟨authority,judge,now,changed,generation,-,-,-,-,hj⟩ := h
  exact judgeIndex_segments hj

theorem Judged.fields {base judged : ArchiveIndex} (h : Judged c know base judged) :
    judged.coveredGTIDSet=base.coveredGTIDSet ∧ judged.generation=base.generation ∧
      judged.archivedThrough=base.archivedThrough := by
  obtain ⟨authority,judge,now,changed,generation,-,-,-,-,hj⟩ := h
  obtain ⟨forks,grew,disowned,shrank,-,-,heq,-⟩ := judgeIndex_eq_ok hj
  rw [heq]
  exact ⟨rfl,rfl,rfl⟩

/-- Each attempt may write what `mutate` makes of the index it found, and a lost race leaves what
the next one needs. -/
theorem sure_updateArchiveIndex {β : Type} {know₀ : Know}
    {mutate : β → Option ArchiveIndex → Pass (β × Option ArchiveIndex)} {J : Know → β → Prop}
    {Q : Know → β → Prop} (hdefer : know₀.deferred=none)
    (hread : ∀ know b r,J know b → J (know.learn c.serverUUID .getIndex (.ok r)) b)
    (hstep : ∀ know mem b found etag,Steady know₀ know → Remembers know mem → J know b →
      know.found=some (found,etag) →
      Sure c (fun know' _ r =>
        (r.2=none → Q know' r.1) ∧
        (∀ index,r.2=some index → know'.found=some (found,etag) ∧ IndexWrite c know' found index ∧
          Q (know'.learn c.serverUUID (.putIndexIf index etag) (.ok true)) r.1 ∧
          J (know'.learn c.serverUUID (.putIndexIf index etag) (.ok false)) r.1))
        know mem (mutate b found))
    (attempts : Nat) (b : β) (hsteady : Steady know₀ know) (hmem : Remembers know mem) (hJ : J know b) :
    Sure c (fun know _ b => Q know b) know mem (updateArchiveIndex mutate attempts b) := by
  induction attempts generalizing know mem b with
  | zero => exact keeps_throw hmem
  | succ attempts ih =>
    unfold updateArchiveIndex
    refine sure_try rfl hmem trivial ?_
    rintro _ ⟨found,etag⟩ rfl hsteady1 hmem
    have hsteady1 := trans_of Steady hsteady hsteady1
    refine keeps_bind
      (hstep _ mem b found etag hsteady1 hmem (hread know b (found,etag) hJ) rfl) ?_
    intro know' mem' r hmem hsteady2 hr
    have hsteady2 := trans_of Steady hsteady1 hsteady2
    obtain ⟨b',write⟩ := r
    obtain ⟨hnone,hsome⟩ := hr
    cases write with
    | none => exact keeps_pure hmem (hnone rfl)
    | some index =>
      obtain ⟨hfound,hwrite,hQ,hJ'⟩ := hsome index rfl
      refine sure_try rfl hmem ⟨hsteady2.deferred.trans hdefer,found,hfound,hwrite⟩ ?_
      rintro _ written rfl hsteady3 hmem
      cases written with
      | true => exact keeps_pure hmem hQ
      | false => exact ih b' (trans_of Steady hsteady2 hsteady3) hmem hJ'

def Settled (know : Know) (pass : ForkPass) : Prop := Sees know pass ∧ pass.preloaded=none

theorem Settled.steady {know' : Know} {pass : ForkPass} (h : Settled know pass)
    (hs : know'.generation=know.generation) : Settled know' pass := by
  refine ⟨⟨fun hsource => hs.trans (h.1.generation hsource),?_⟩,h.2⟩
  intro judge hjudge
  rw [h.2] at hjudge
  cases hjudge

section

variable {pass : ForkPass} {index : ArchiveIndex} {r : Checked}

theorem ForkChecked.settled {know' : Know}
    (h : ForkChecked c pass index know' r) (hset : Settled know pass)
    (hs : know'.generation=know.generation) : Settled know' r.pass := by
  have heq : r.pass=pass := by
    cases h.pass_eq with
    | inl heq => exact heq
    | inr heq =>
      rw [heq,← hset.2]
  rw [heq]
  exact hset.steady hs

theorem ForkChecked.judged_or
    (h : ForkChecked c pass index know r) : r.index=index ∨ Judged c know index r.index := by
  cases hc : r.report.checked with
  | false => exact .inl (h.unchecked hc)
  | true => exact .inr (h.judged hc)

end

theorem ForkChecked.fields {pass : ForkPass} {index : ArchiveIndex} {r : Checked}
    (h : ForkChecked c pass index know r) :
    SameButForks index.segments r.index.segments ∧ r.index.generation=index.generation ∧
      r.index.archivedThrough=index.archivedThrough := by
  cases h.judged_or with
  | inl heq =>
    rw [heq]
    exact ⟨SameButForks.refl _,rfl,rfl⟩
  | inr hj => exact ⟨hj.segments,hj.fields.2⟩

section

variable {name : String} (hmem : Remembers know mem) (hset : Settled know pass) (hname : name ≠ "")
  (hdue : Due know name) (hmanifest : (name,metadata)∈know.archived)
include hmem hset hname hdue hmanifest

theorem sure_foldAttempt {found : Option ArchiveIndex} {etag : Option Nat}
    (hfound : know.found=some (found,etag)) :
    Sure c (fun know' _ r => ∃ index,r.2=some index ∧ know'.found=some (found,etag) ∧
      IndexWrite c know' found index ∧ name∈segmentFiles c.serverUUID (some index) ∧
      Settled know' r.1) know mem (foldAttempt c status name metadata.gtidSet pass found) := by
  unfold foldAttempt
  refine keeps_bind (sure_foldFile (found.getD {}) status name metadata.gtidSet hmem) ?_
  intro know1 mem1 base0 hmem hsteady1 hbase
  obtain ⟨hfound1,hfolded,-⟩ := hbase
  have hset1 := hset.steady hsteady1.generation
  have hfolded := hfolded.raise pass.primary pass.generation
  simp only
  generalize (if pass.primary=true ∧ base0.generation<pass.generation then
    { base0 with generation := pass.generation } else base0)=base at hfolded ⊢
  refine keeps_bind (sure_checkForks base pass hmem hset1.1) ?_
  intro know2 mem2 r hmem hsteady2 hr
  obtain ⟨hchecked,hfound2⟩ := hr
  have hlearns := (trans_of Steady hsteady1 hsteady2).toLearns
  have hset2 := hchecked.settled hset1 hsteady2.generation
  obtain ⟨hsegs,hgen,hthrough⟩ := hchecked.fields
  -- the stamp of the check is all that is added to what the check returned
  have hwrite : ∀ index : ArchiveIndex,index.segments=r.index.segments →
      index.coveredGTIDSet=r.index.coveredGTIDSet → index.disowned=r.index.disowned →
      index.generation=r.index.generation → index.archivedThrough=r.index.archivedThrough →
      know2.found=some (found,etag) ∧ IndexWrite c know2 found index ∧
        name∈segmentFiles c.serverUUID (some index) := by
    intro index h1 h2 h3 h4 h5
    refine ⟨hfound2.trans (hfound1.trans hfound),⟨?_,?_,.inl ?_⟩,?_⟩
    · exact ⟨base,r.index,.inr ⟨name,metadata,hlearns.archived hmanifest,hdue.learns hlearns,
        hfolded⟩,hchecked.judged_or,h1,h2,h3⟩
    · rw [h4,hgen]
      exact hfolded.generation
    · rw [h5,hthrough,hfolded.archivedThrough]
    · have hsame : SameButForks base.segments index.segments := h1 ▸ hsegs
      rw [hsame.segmentFiles]
      exact hfolded.lists hname
  refine keeps_pure hmem ⟨_,rfl,?_⟩
  have hset2' : Settled know2 { r.pass with report := some r.report } :=
    ⟨⟨hset2.1.generation,hset2.1.preloaded⟩,hset2.2⟩
  split
  · obtain ⟨h1,h2,h3⟩ := hwrite { r.index with
      forkCheck := some { checkedAt := r.report.checkedAt, checkedBy := forkIdentity c } } rfl rfl rfl
      rfl rfl
    exact ⟨h1,h2,h3,hset2'⟩
  · obtain ⟨h1,h2,h3⟩ := hwrite r.index rfl rfl rfl rfl rfl
    exact ⟨h1,h2,h3,hset2'⟩

theorem sure_updateIndex (hdefer : know.deferred=none) :
    Sure c (fun know' _ pass' => name∈know'.indexed ∧ Settled know' pass') know mem
      (updateIndex c status name metadata.gtidSet pass) := by
  unfold updateIndex
  refine sure_updateArchiveIndex (J := Settled)
    (Q := fun know pass => name∈know.indexed ∧ Settled know pass) hdefer ?_ ?_ indexUpdateAttempts
    pass (refl_of Steady know) hmem hset
  · intro know b r hJ
    exact hJ.steady rfl
  · intro know1 mem1 b found etag hsteady hmem hset hfound
    refine (sure_foldAttempt status b hmem hset hname (hdue.learns hsteady.toLearns)
      (hsteady.archived hmanifest) hfound).mono ?_
    intro know2 mem2 r _ _ hr
    obtain ⟨index,hsome,hfound2,hwrite,hlists,hset2⟩ := hr
    refine ⟨?_,?_⟩
    · intro hnone
      rw [hsome] at hnone
      cases hnone
    · intro index' hindex'
      rw [hsome] at hindex'
      cases hindex'
      exact ⟨hfound2,hwrite,⟨mem_append_left _ hlists,hset2.steady rfl⟩,hset2.steady rfl⟩

end

section

variable (p : Progress c) (l : BinaryLog) (hmem : Remembers know mem)
  (hset : Settled know p.pass) (hname : l.name ≠ "") (hdue : Due know l.name)
  (hmanifest : (l.name,metadata)∈know.archived) (hdefer : know.deferred=none)
include hmem hset hname hdue hmanifest hdefer

theorem sure_commitFile :
    Sure c (fun know' _ p' => l.name∈know'.indexed ∧ Settled know' p'.pass ∧ p'.result=p.result)
      know mem (commitFile c p l metadata.gtidSet) := by
  unfold commitFile
  refine sure_now hmem ?_
  intro updatedAt hsteady1 hmem
  refine sure_try rfl hmem hdefer ?_
  rintro _ _ rfl hsteady2 hmem
  have hsteady := trans_of Steady hsteady1 hsteady2
  refine keeps_bind (Routine.Keeps.attempt (sure_updateIndex _ p.pass hmem
    (hset.steady hsteady.generation) hname (hdue.learns hsteady.toLearns)
    (hsteady.archived hmanifest) hdefer)) ?_
  intro know' mem' r hmem _ hr
  cases r with
  | error e =>
    exact keeps_modify (keeps_throw { hmem with })
  | ok pass =>
    obtain ⟨hindexed,hset'⟩ := hr pass rfl
    refine keeps_modify (keeps_pure { hmem with indexed := ?_ }
      ⟨hindexed,hset',rfl⟩)
    intro n hn
    cases mem_cons.mp hn with
    | inl heq =>
      rw [heq]
      exact hindexed
    | inr hn => exact hmem.indexed n hn

theorem sure_recordFile (archived : Bool) :
    Sure c (fun know' _ p' => l.name∈know'.indexed ∧ Settled know' p'.pass ∧
      ∃ covered,p'.result=(p.advance l metadata archived covered).result) know mem
      (recordFile c p l metadata archived) := by
  unfold recordFile
  refine keeps_bind (sure_seedFor l.name archived hmem) ?_
  intro know1 mem1 _ hmem hsteady _
  refine keeps_ofExcept_bind hmem ?_
  intro fileSet _
  refine keeps_get ?_
  split
  · refine (sure_commitFile (p.advance l metadata archived (c.ops.union p.covered fileSet)) l hmem
      (hset.steady hsteady.generation) hname (hdue.learns hsteady.toLearns)
      (hsteady.archived hmanifest) (hsteady.deferred.trans hdefer)).mono ?_
    intro know2 mem2 p' _ _ hp
    exact ⟨hp.1,hp.2.1,_,hp.2.2⟩
  · rename_i hskip
    have hin : l.name∈mem1.indexed := by
      by_contra hnot
      exact hskip (.inr (.inr (.inr hnot)))
    exact keeps_pure hmem ⟨hmem.indexed l.name hin,hset.steady hsteady.generation,_,rfl⟩

end

/-- What a pass over `rest` adds to `res` when nothing is deferred. -/
def Ships (rest : List BinaryLog) (res res' : ArchiveResult) : Prop :=
  res'.files.map (·.name)=res.files.map (·.name)++rest.map (·.name) ∧
    res'.lastArchivedBinlog=(rest.map (·.name)).getLastD res.lastArchivedBinlog

/-- The loop goes through the listing in order up to a deferred file. -/
theorem keeps_archiveLoop (before rest : List BinaryLog) (p : Progress c)
    (hmode : Mode c know allow) (hmem : Remembers know mem) (hset : Settled know p.pass)
    (hlogs : archivable know.logs=before++rest) (hbefore : ∀ l∈before,l.name∈know.indexed)
    (hdefer : know.deferred=none) (hres : p.result.deferred = "") :
    Routine.Keeps (contract c) Learns Remembers (fun know' _ res =>
      (res.deferred = "" → AllIndexed know' ∧ Ships rest p.result res) ∧
      (allow=none → res.deferred = "" ∧ know'.deferred=none)) know mem
      (archiveLoop c allow rest p) := by
  induction rest generalizing know mem before p with
  | nil =>
    unfold archiveLoop
    refine keeps_pure hmem ⟨fun _ => ⟨?_,by simp [Ships]⟩,fun _ => ⟨hres,hdefer⟩⟩
    intro l hl
    rw [hlogs,append_nil] at hl
    exact hbefore l hl
  | cons l rest ih =>
    unfold archiveLoop
    have hdue : Due know l.name := ⟨before,l,rest,hlogs,rfl,hbefore⟩
    refine keeps_bind (sure_checkContext hmem).learns ?_
    rintro know1 mem1 _ hmem-⟨hsteady1,-⟩
    refine keeps_bind (sure_archiveFile l (hmode.learns hsteady1.toLearns) hmem
      (hdue.learns hsteady1.toLearns) (hsteady1.deferred.trans hdefer)).learns ?_
    rintro know2 mem2 r hmem-⟨hsteady2,hname,hmanifest,hnone⟩
    have hsteady2 := trans_of Steady hsteady1 hsteady2
    cases r with
    | none =>
      refine keeps_call trivial (fun _ => ?_) fun _ => ?_
      · constructor <;> simp [contract,Know.learn]
      · refine keeps_pure { hmem with } ⟨?_,?_⟩
        · intro hd
          exact absurd hd hname
        · intro hallow
          exact absurd hallow (hnone rfl)
    | some r =>
      obtain ⟨metadata,archived⟩ := r
      refine keeps_bind (sure_recordFile p l hmem (hset.steady hsteady2.generation)
        hname (hdue.learns hsteady2.toLearns) (hmanifest metadata archived rfl)
        (hsteady2.deferred.trans hdefer) archived).learns ?_
      rintro know3 mem3 p' hmem-⟨hsteady3,hindexed,hset3,covered,hp⟩
      have hsteady3 := trans_of Steady hsteady2 hsteady3
      refine (ih (before++[l]) p' (hmode.learns hsteady3.toLearns) hmem hset3 ?_ ?_
        (hsteady3.deferred.trans hdefer) ?_).mono ?_
      · rw [hsteady3.logs,hlogs,append_assoc,singleton_append]
      · intro b hb
        cases mem_append.mp hb with
        | inl hb => exact hsteady3.indexed (hbefore b hb)
        | inr hb =>
          rw [mem_singleton.mp hb]
          exact hindexed
      · rw [hp]
        exact hres
      · intro know4 mem4 res _ _ hQ
        refine ⟨?_,hQ.2⟩
        intro hd
        obtain ⟨hall,hfiles,hlast⟩ := hQ.1 hd
        refine ⟨hall,?_,?_⟩
        · rw [hfiles,hp]
          simp [Progress.advance]
        · rw [hlast,hp,map_cons,getLastD_cons]
          rfl

theorem keeps_archivePendingAs (allow : Option FileFilter) (pass : ForkPass)
    (hmode : Mode c know allow) (hmem : Remembers know mem) (hset : Settled know pass)
    (hlogs : know.logs=logs) (hdefer : know.deferred=none) :
    Routine.Keeps (contract c) Learns Remembers (fun know' _ res =>
      (res.deferred = "" → AllIndexed know' ∧
        res.files.map (·.name)=(archivable logs).map (·.name) ∧
        (archivable logs≠[] →
          some res.lastArchivedBinlog=(archivable logs).getLast?.map (·.name))) ∧
      (allow=none → res.deferred = "" ∧ know'.deferred=none)) know mem
      (archivePendingAs c logs allow pass) := by
  unfold archivePendingAs
  refine keeps_bind (sure_loadStatus hmem).learns ?_
  rintro know1 mem1 status hmem-⟨hsteady,-⟩
  refine keeps_ofExcept_bind hmem ?_
  intro covered _
  refine (keeps_archiveLoop [] (archivable logs) _ (hmode.learns hsteady.toLearns) hmem
    (hset.steady hsteady.generation) ?_ (by simp) (hsteady.deferred.trans hdefer) rfl).mono ?_
  · rw [hsteady.logs,hlogs,nil_append]
  · intro know2 mem2 res _ _ hQ
    refine ⟨?_,hQ.2⟩
    intro hd
    obtain ⟨hall,hfiles,hlast⟩ := hQ.1 hd
    refine ⟨hall,hfiles,?_⟩
    intro hne
    rw [hlast,getLastD_eq_getLast?,List.getLast?_map]
    cases hl : (archivable logs).getLast? with
    | none => exact absurd (List.getLast?_eq_none_iff.mp hl) hne
    | some l => rfl

theorem keeps_archivePending (hwritable : know.writable=some true) (hmem : Remembers know mem)
    (hlogs : know.logs=logs) (hdefer : know.deferred=none) :
    Routine.Keeps (contract c) Learns Remembers (fun know' _ res => AllIndexed know' ∧
      know'.deferred=none ∧ res.files.map (·.name)=(archivable logs).map (·.name) ∧
      (archivable logs≠[] →
        some res.lastArchivedBinlog=(archivable logs).getLast?.map (·.name))) know mem
      (archivePending c logs) := by
  unfold archivePending
  refine keeps_call trivial (fun r => ?_) ?_
  · constructor <;> simp [contract,Know.learn,Know.learnReply]
  rintro ⟨generation,ok⟩
  have hlearns : Learns know (know.learnReply .authority (generation, ok)) := by
    constructor <;> simp [Know.learnReply]
  cases ok with
  | false => exact keeps_throw (hmem.learns hlearns)
  | true =>
    refine keeps_bind (keeps_archivePendingAs none
      { source := c.forks, primary := true, generation } (.inl ⟨rfl,hwritable⟩)
      (hmem.learns hlearns) ⟨⟨fun _ => rfl,by simp⟩,rfl⟩ hlogs hdefer) ?_
    intro know1 mem1 res hmem hlearns1 hQ
    obtain ⟨hres,hdefer1⟩ := hQ.2 rfl
    obtain ⟨hall,hrest⟩ := hQ.1 hres
    refine keeps_call ⟨?_,fun _ => hall⟩ (fun _ => refl_of Learns know1) fun _ => ?_
    · rw [hlearns1.logs]
      exact hlogs.symm
    · exact keeps_pure hmem ⟨hall,hdefer1,hrest⟩

theorem keeps_drainPending (hmem : Remembers know mem) (hlogs : know.logs=logs)
    (hdefer : know.deferred=none) :
    Routine.Keeps (contract c) Learns Remembers (fun _ _ _ => True) know mem
      (drainPending c logs (Loop.onSurvivingTimeline c)) := by
  unfold drainPending
  refine keeps_bind (keeps_archivePendingAs (some _) {} (.inr rfl) hmem
    ⟨⟨by simp,by simp⟩,rfl⟩ hlogs hdefer) ?_
  intro know1 mem1 res hmem hlearns1 hQ
  refine keeps_call ⟨?_,fun hd => (hQ.1 hd).1⟩ (fun _ => refl_of Learns know1) fun _ => ?_
  · rw [hlearns1.logs]
    exact hlogs.symm
  · exact keeps_pure hmem trivial

end Cnmsql.Binlog
