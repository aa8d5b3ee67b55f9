import Cnmsql.Binlog.ArchiveRuns
import Cnmsql.Binlog.ReplayExact

namespace Cnmsql.Binlog

open Framework Replication ObjectStore Archiver List

section

variable [CaseMapping]

def forkTxns (fork : Option ArchiveFork) : Set Txn :=
  {t | ∃ f,fork=some f ∧ t∈gtids f.gtidSet}

def disownedRecord (disowned : Option ArchiveDisowned) : Set Txn :=
  {t | ∃ d,disowned=some d ∧ t∈gtids d.gtidSet}

@[simp] theorem forkTxns_none : forkTxns none=∅ := by simp [forkTxns]

@[simp] theorem forkTxns_some (f : ArchiveFork) : forkTxns (some f)=gtids f.gtidSet := by
  simp [forkTxns]

@[simp] theorem disownedRecord_none : disownedRecord none=∅ := by simp [disownedRecord]

@[simp] theorem disownedRecord_some (d : ArchiveDisowned) :
    disownedRecord (some d)=gtids d.gtidSet := by
  simp [disownedRecord]

theorem canonicalGTIDSet_correct {raw : String} (h : Parses raw) :
    Rendered (canonicalGTIDSet raw) ∧ gtids (canonicalGTIDSet raw)=gtids raw := by
  obtain ⟨set,hset⟩ := h
  have hc := parseGTIDSet_canonical hset
  rw [canonicalGTIDSet,hset,gtids_of_parse raw set hset]
  exact ⟨⟨set,hc,rfl⟩,(gtids_string hc).2⟩

def Narrows (raw : String) (unheld : String → Except String String) : Prop :=
  ∀ gtidSet,Parses gtidSet →
    ∃ left,unheld gtidSet = .ok left ∧ Rendered left ∧ gtids left=gtids gtidSet \ gtids raw

/-- A record that holds `held`; an empty one was there before. -/
structure Records (old fork : Option ArchiveFork) (held : Set Txn) : Prop where
  txns : forkTxns fork=held
  parses : ∀ f,fork=some f → Parses f.gtidSet
  absent : held=∅ → (∀ f,fork=some f → f.afterSeq=[]) → fork=none ∨ fork=old

variable {raw : String} {executed : GTIDSet}

theorem mysqlForkJudge_narrows (hraw : parseGTIDSet raw = .ok executed) :
    ∃ unheld,(mysqlForkJudge raw executed).unheld=some unheld ∧ Narrows raw unheld := by
  refine ⟨_,rfl,?_⟩
  intro gtidSet hp
  obtain ⟨set,hset⟩ := hp
  obtain ⟨hc,hd⟩ := set.difference_correct executed (parseGTIDSet_canonical hset)
    (parseGTIDSet_canonical hraw)
  refine ⟨(set.difference executed).string,?_,⟨_,hc,rfl⟩,?_⟩
  · simp [hset,Except.mapError,bind,Except.bind]
  · rw [(gtids_string hc).2,hd,gtids_of_parse _ _ hset,gtids_of_parse _ _ hraw]

theorem mysqlForkJudge_judge (hraw : parseGTIDSet raw = .ok executed) {seg : ArchiveSegment}
    (hseg : Parses seg.gtidSet) {delta : Option ArchiveFork}
    (h : (mysqlForkJudge raw executed).judge seg = .ok delta) :
    forkTxns delta=gtids seg.gtidSet \ gtids raw ∧
      ∀ d,delta=some d → Rendered d.gtidSet ∧ gtids d.gtidSet≠∅ ∧ d.afterSeq=[] := by
  obtain ⟨set,hset⟩ := hseg
  obtain ⟨hc,hd⟩ := set.difference_correct executed (parseGTIDSet_canonical hset)
    (parseGTIDSet_canonical hraw)
  have hempty := (set.difference executed).isEmpty_iff hc
  rw [gtids_of_parse _ _ hset,gtids_of_parse _ _ hraw,← hd]
  simp only [mysqlForkJudge,hset,Except.mapError,bind,Except.bind] at h
  split at h
  · rename_i hnone
    cases h
    exact ⟨by rw [forkTxns_none,hempty.mp hnone],fun d hd => (nomatch hd)⟩
  · rename_i hsome
    cases h
    refine ⟨by rw [forkTxns_some,(gtids_string hc).2],?_⟩
    intro d hd
    cases hd
    refine ⟨⟨_,hc,rfl⟩,?_,rfl⟩
    rw [(gtids_string hc).2]
    exact fun he => hsome (hempty.mpr he)

theorem mergeFork_records {existing delta merged : Option ArchiveFork} {authority identity : String}
    {now : Time} {grew : Bool} (hold : ∀ f,existing=some f → Parses f.gtidSet)
    (hdelta : ∀ d,delta=some d → Rendered d.gtidSet ∧ gtids d.gtidSet≠∅ ∧ d.afterSeq=[])
    (h : mergeFork existing delta authority now identity = .ok (merged,grew)) :
    Records existing merged (forkTxns existing ∪ forkTxns delta) := by
  unfold mergeFork at h
  cases delta with
  | none =>
    cases h
    rw [forkTxns_none,Set.union_empty]
    exact ⟨rfl,hold,fun _ _ => .inr rfl⟩
  | some delta =>
    obtain ⟨hrendered,hne,hcuts⟩ := hdelta delta rfl
    have htext : delta.gtidSet ≠ "" := fun he => hne ((rendered_eq_empty _ hrendered).mp he)
    have hgrown : ∀ old : Set Txn,old ∪ forkTxns (some delta)≠∅ := by
      intro old he
      rw [forkTxns_some] at he
      exact hne (Set.union_empty_iff.mp he).2
    simp only [htext,false_and,if_false] at h
    cases existing with
    | none =>
      rw [bind_eq_ok] at h
      obtain ⟨_,-,h⟩ := h
      cases h
      refine ⟨by simp,?_,fun he => absurd he (hgrown _)⟩
      intro f hf
      cases hf
      exact hrendered.parses
    | some old =>
      obtain ⟨union,hunion,hr,hg⟩ := unionGTIDStrings_pair old.gtidSet delta.gtidSet
        (hold old rfl) hrendered.parses
      simp only [hunion,hcuts,lowerCuts,Except.mapError,bind,Except.bind] at h
      split at h
      · rename_i hsame
        cases h
        refine ⟨?_,hold,fun he => absurd he (hgrown _)⟩
        rw [forkTxns_some,forkTxns_some,← hg,hsame.1]
      · cases h
        refine ⟨?_,?_,fun he => absurd he (hgrown _)⟩
        · rw [forkTxns_some,forkTxns_some,forkTxns_some,← hg]
        · intro f hf
          cases hf
          exact hr.parses

variable {unheld : String → Except String String} {u identity : String} {changed : Bool}
  {index judged : ArchiveIndex} {forks : List (ArchiveSegment × Option ArchiveFork)}

theorem retractFork_records {fork : ArchiveFork} {kept : Option ArchiveFork} {retracted : Bool}
    {authority : String} (hn : Narrows raw unheld) (hf : Parses fork.gtidSet)
    (h : retractFork fork unheld authority = .ok (kept,retracted)) :
    Records (some fork) (if retracted then kept else some fork) (gtids fork.gtidSet \ gtids raw) := by
  -- a record that is left as it is
  have hkeep : gtids fork.gtidSet=gtids fork.gtidSet \ gtids raw →
      Records (some fork) (some fork) (gtids fork.gtidSet \ gtids raw) := by
    intro heq
    refine ⟨by rw [forkTxns_some]; exact heq,?_,fun _ _ => .inr rfl⟩
    intro f hff
    cases hff
    exact hf
  unfold retractFork at h
  split at h
  · rename_i hblank
    cases h
    apply hkeep
    rw [hblank,gtids_empty,Set.empty_sdiff]
  · obtain ⟨left,hleft,hr,hg⟩ := hn fork.gtidSet hf
    obtain ⟨hcr,hcg⟩ := canonicalGTIDSet_correct hf
    simp only [hleft,bind,Except.bind] at h
    split at h
    · rename_i hsame
      cases h
      apply hkeep
      rw [← hg,hsame,hcg]
    · split at h
      · rename_i hgone
        cases h
        refine ⟨?_,fun f hff => (nomatch hff),fun _ _ => .inl rfl⟩
        rw [if_pos rfl,forkTxns_none,← hg,hgone.1,gtids_empty]
      · rename_i hleftover
        cases h
        refine ⟨by rw [if_pos rfl,forkTxns_some]; exact hg,?_,?_⟩
        · intro f hff
          cases hff
          exact hr.parses
        · intro hempty hcuts
          have hcut := hcuts _ (if_pos rfl)
          have hblank : left = "" := (rendered_eq_empty left hr).mpr (hg.trans hempty)
          exact absurd ⟨hblank,hcut⟩ hleftover

theorem judgeSegment_mysql (hraw : parseGTIDSet raw = .ok executed) {now : Time}
    {seg : ArchiveSegment} (hseg : Parses seg.gtidSet)
    (hfork : ∀ f,seg.fork=some f → Parses f.gtidSet) {fork : Option ArchiveFork}
    (h : judgeSegment (mysqlForkJudge raw executed) u now identity seg = .ok (fork,changed)) :
    Records seg.fork fork
      ((forkTxns seg.fork ∪ if seg.serverUUID=u then ∅ else gtids seg.gtidSet) \ gtids raw) := by
  obtain ⟨unheld,hunheld,hn⟩ := mysqlForkJudge_narrows hraw
  rw [judgeSegment,bind_eq_ok] at h
  obtain ⟨⟨merged,grew⟩,hmerged,h⟩ := h
  -- the record before it is narrowed: what it held, and what is judged
  have hrecords : ∃ txns,Records seg.fork merged txns ∧ txns \ gtids raw =
      (forkTxns seg.fork ∪ if seg.serverUUID=u then ∅ else gtids seg.gtidSet) \ gtids raw := by
    rw [mergeSegment] at hmerged
    split at hmerged
    · rename_i hown
      cases hmerged
      exact ⟨forkTxns seg.fork,⟨rfl,hfork,fun _ _ => .inr rfl⟩,
        by rw [if_pos hown,Set.union_empty]⟩
    · rename_i hother
      rw [bind_eq_ok] at hmerged
      obtain ⟨delta,hdelta,hmerged⟩ := hmerged
      obtain ⟨htxns,hd⟩ := mysqlForkJudge_judge hraw hseg hdelta
      refine ⟨_,mergeFork_records hfork hd hmerged,?_⟩
      rw [htxns,if_neg hother,Set.union_sdiff_distrib,sdiff_idem,Set.union_sdiff_distrib]
  obtain ⟨txns,hr,heq⟩ := hrecords
  rw [← heq,← hr.txns]
  simp only [hunheld] at h
  cases merged with
  | none =>
    cases h
    rw [forkTxns_none,Set.empty_sdiff]
    exact ⟨forkTxns_none,fun f hf => (nomatch hf),fun _ _ => .inl rfl⟩
  | some m =>
    rw [bind_eq_ok] at h
    obtain ⟨⟨kept,retracted⟩,hkept,h⟩ := h
    have hk := retractFork_records hn (hr.parses m rfl) hkept
    have hfork' : fork=if retracted then kept else some m := by
      split at h
      · rename_i hretracted
        cases h
        rw [if_pos hretracted]
      · rename_i hretracted
        cases h
        rw [if_neg hretracted]
    rw [hfork',forkTxns_some]
    refine ⟨hk.txns,hk.parses,?_⟩
    intro hempty hcuts
    cases hk.absent hempty hcuts with
    | inl hnone => exact .inl hnone
    | inr hsame =>
      -- nothing was taken from the record, so it is the one before the check
      rw [hsame] at hcuts ⊢
      have hheld : txns=∅ := by
        rw [← hr.txns,← hsame,hk.txns,hempty]
      exact hr.absent hheld hcuts

/-- The texts of an index that a fork check reads are sets. -/
structure SetsParse (index : ArchiveIndex) : Prop where
  segments : ∀ seg∈index.segments,Parses seg.gtidSet
  forks : ∀ seg∈index.segments,∀ f,seg.fork=some f → Parses f.gtidSet
  disowned : ∀ d,index.disowned=some d → Parses d.gtidSet

/-- What a fork check by the archiver of `u` against `raw` makes of an index. -/
structure ForksChecked (u raw : String) (index judged : ArchiveIndex) : Prop where
  segments : List.Forall₂ (fun seg seg' => seg'={ seg with fork := seg'.fork } ∧
    Records seg.fork seg'.fork
      ((forkTxns seg.fork ∪ if seg.serverUUID=u then ∅ else gtids seg.gtidSet) \ gtids raw))
    index.segments judged.segments
  disowned : disownedRecord judged.disowned =
    (disownedRecord index.disowned ∪ {t | ∃ seg∈judged.segments,t∈forkTxns seg.fork}) \ gtids raw

theorem ForksChecked.mem (h : ForksChecked u raw index judged) {seg' : ArchiveSegment}
    (hs : seg'∈judged.segments) :
    ∃ seg∈index.segments, seg'={ seg with fork := seg'.fork } ∧ Records seg.fork seg'.fork
      ((forkTxns seg.fork ∪ if seg.serverUUID=u then ∅ else gtids seg.gtidSet) \ gtids raw) := by
  obtain ⟨q,hq,hget⟩ := mem_iff_getElem.mp hs
  have hlen : q < index.segments.length := by
    rw [h.segments.length_eq]
    exact hq
  have hrel := h.segments.get hlen hq
  rw [get_eq_getElem,get_eq_getElem,hget] at hrel
  exact ⟨_,getElem_mem hlen,hrel⟩

theorem ForksChecked.parses {u : String} {index judged : ArchiveIndex}
    (h : ForksChecked u raw index judged) (hp : SetsParse index)
    (hd : ∀ d,judged.disowned=some d → Parses d.gtidSet) : SetsParse judged where
  segments seg' hseg' := by
    obtain ⟨seg,hseg,heq,-⟩ := h.mem hseg'
    rw [heq]
    exact hp.segments seg hseg
  forks seg' hseg' := by
    obtain ⟨seg,-,-,hrec⟩ := h.mem hseg'
    exact hrec.parses
  disowned := hd

theorem judgeSegments_mysql (hraw : parseGTIDSet raw = .ok executed) {now : Time}
    {segs : List ArchiveSegment} (hsegs : ∀ seg∈segs,Parses seg.gtidSet)
    (hforks : ∀ seg∈segs,∀ f,seg.fork=some f → Parses f.gtidSet)
    (h : judgeSegments (mysqlForkJudge raw executed) u now identity segs = .ok (forks,changed)) :
    List.Forall₂ (fun seg e => e.1=seg ∧ Records seg.fork e.2
      ((forkTxns seg.fork ∪ if seg.serverUUID=u then ∅ else gtids seg.gtidSet) \ gtids raw))
      segs forks := by
  induction segs generalizing forks changed with
  | nil =>
    cases h
    exact .nil
  | cons seg rest ih =>
    rw [judgeSegments,bind_eq_ok] at h
    obtain ⟨⟨fork,c⟩,hseg,h⟩ := h
    rw [bind_eq_ok] at h
    obtain ⟨⟨forks',c'⟩,hrest,h⟩ := h
    cases h
    have hrec := judgeSegment_mysql hraw (hsegs seg mem_cons_self)
      (hforks seg mem_cons_self) hseg
    refine .cons ⟨rfl,hrec⟩ (ih ?_ ?_ hrest)
    · intro seg' hseg'
      exact hsegs seg' (mem_cons_of_mem _ hseg')
    · intro seg' hseg'
      exact hforks seg' (mem_cons_of_mem _ hseg')

theorem foldDisowned_mysql (hn : Narrows raw unheld) {existing disowned : Option ArchiveDisowned}
    (hold : ∀ d,existing=some d → Parses d.gtidSet)
    (hforks : ∀ e∈forks,∀ f,e.2=some f → Parses f.gtidSet)
    (h : foldDisowned existing forks (some unheld) = .ok (disowned,changed)) :
    disownedRecord disowned =
      (disownedRecord existing ∪ {t | ∃ e∈forks,t∈forkTxns e.2}) \ gtids raw ∧
      ∀ d,disowned=some d → Parses d.gtidSet := by
  rw [foldDisowned,bind_eq_ok] at h
  obtain ⟨⟨out,grew⟩,-,h⟩ := h
  have hstart : Parses (existing.getD {}).gtidSet ∧
      gtids (existing.getD {}).gtidSet=disownedRecord existing := by
    cases existing with
    | none => exact ⟨parses_empty,by simp⟩
    | some d => exact ⟨hold d rfl,by simp⟩
  -- the texts of the records that are there
  generalize hsets : (forks.filterMap fun e => (e.2.map (·.gtidSet)).filter (· ≠ ""))=sets at h
  have hmem : ∀ raw',raw'∈sets ↔ ∃ e∈forks,∃ f,e.2=some f ∧ f.gtidSet=raw' ∧ raw' ≠ "" := by
    intro raw'
    rw [← hsets]
    simp [mem_filterMap,Option.filter_eq_some_iff]
  have hparses : ∀ raw'∈(existing.getD {}).gtidSet::sets, Parses raw' := by
    intro raw' hraw'
    cases mem_cons.mp hraw' with
    | inl heq =>
      rw [heq]
      exact hstart.1
    | inr hin =>
      obtain ⟨e,he,f,hf,rfl,-⟩ := (hmem raw').mp hin
      exact hforks e he f hf
  obtain ⟨union,hunion,hr,hg⟩ := unionGTIDStrings_correct _ hparses
  have hgathered : gtids union=disownedRecord existing ∪ {t | ∃ e∈forks, t∈forkTxns e.2} := by
    rw [hg,← hstart.2]
    ext t
    simp only [Set.mem_ofPred_eq,exists_mem_cons_iff,Set.mem_union]
    apply or_congr_right
    constructor
    · intro ht
      obtain ⟨raw',hraw',ht⟩ := ht
      obtain ⟨e,he,f,hf,rfl,-⟩ := (hmem raw').mp hraw'
      exact ⟨e,he,f,hf,ht⟩
    · intro ht
      obtain ⟨e,he,f,hf,ht⟩ := ht
      refine ⟨f.gtidSet,(hmem _).mpr ⟨e,he,f,hf,rfl,?_⟩,ht⟩
      intro hblank
      rw [hblank,gtids_empty] at ht
      exact ht
  rw [bind_eq_ok] at h
  obtain ⟨union',hunion',h⟩ := h
  rw [mapError_eq_ok,hunion] at hunion'
  cases hunion'
  rw [bind_eq_ok] at h
  obtain ⟨left,hleft,h⟩ := h
  have hnarrow : Rendered left ∧ gtids left=gtids union \ gtids raw := by
    rw [narrowed] at hleft
    split at hleft
    · rename_i hblank
      cases hleft
      exact ⟨hr,by rw [hblank,gtids_empty,Set.empty_sdiff]⟩
    · obtain ⟨left',hleft',hr',hg'⟩ := hn union hr.parses
      rw [hleft'] at hleft
      cases hleft
      exact ⟨hr',hg'⟩
  rw [← hgathered,← hnarrow.2]
  simp only at h
  split at h
  · rename_i hnone
    cases h
    exact ⟨by rw [hnone.1,gtids_empty,disownedRecord_none],fun d hd => (nomatch hd)⟩
  · cases h
    refine ⟨by rw [disownedRecord_some],?_⟩
    intro d hd
    cases hd
    exact hnarrow.1.parses

theorem judgeIndex_mysql (hraw : parseGTIDSet raw = .ok executed) {now : Time}
    (hp : SetsParse index)
    (h : judgeIndex (mysqlForkJudge raw executed) u now identity index = .ok (judged,changed)) :
    ForksChecked u raw index judged ∧ SetsParse judged := by
  obtain ⟨unheld,hunheld,hn⟩ := mysqlForkJudge_narrows hraw
  obtain ⟨forks,grew,disowned,shrank,hforks,hdisowned,hjudged,-⟩ := judgeIndex_eq_ok h
  have hall := judgeSegments_mysql hraw hp.segments hp.forks hforks
  have hparses : ∀ e∈forks,∀ f,e.2=some f → Parses f.gtidSet := by
    intro e he f hf
    obtain ⟨q,hq,hget⟩ := mem_iff_getElem.mp he
    have hlen : q < index.segments.length := by
      rw [hall.length_eq]
      exact hq
    have hrec := (hall.get hlen hq).2
    rw [← hget] at hf
    exact hrec.parses f hf
  rw [hunheld] at hdisowned
  obtain ⟨hrecord,hdparses⟩ := foldDisowned_mysql hn hp.disowned hparses hdisowned
  have hchecked : ForksChecked u raw index judged := by
    rw [hjudged]
    constructor
    · simp only [forall₂_map_right_iff]
      refine hall.imp ?_
      intro seg e he
      obtain ⟨rfl,hrec⟩ := he
      exact ⟨rfl,hrec⟩
    · rw [hrecord]
      simp
  exact ⟨hchecked,hchecked.parses hp (hjudged ▸ hdparses)⟩

/-- The judge a check goes by: the one read before, or the authority's. -/
def InUse (pass : ForkPass) (record : List (Sigma Answer)) (judge : ForkJudge) : Prop :=
  pass.preloaded=some judge ∨ ∃ authority,
    ⟨.ask .forkAuthority,.ok (some authority)⟩∈record ∧ buildJudge authority = .ok judge

/-- A fork check leaves the index as it is or judges every segment. -/
structure Outcome (c : Options) (index : ArchiveIndex) (pass : ForkPass)
    (record : List (Sigma Answer)) (r : Checked) : Prop where
  unchecked : r.report.checked=false → r.index=index
  checked : r.report.checked=true → index.generation≤pass.generation ∧ r.report.err=none ∧
    (∀ e,⟨.ask .forkAuthority,.error e⟩∉record) ∧ ∃ judge now,InUse pass record judge ∧
      judgeIndex judge c.serverUUID now (forkIdentity c) index = .ok (r.index,r.changed)

theorem load_outcome (pass : ForkPass) (mem : Memory) :
    Routine.Meets Prog.recorder (fun record mem' res => mem'=mem ∧ ∃ r,res = .ok r ∧
      ∀ judge,r.2 = .ok (some judge) → InUse pass record judge ∧
        ∀ e,⟨.ask .forkAuthority,.error e⟩∉record) [] mem (load pass) := by
  unfold load
  split
  · rename_i judge hpreloaded
    refine Routine.meets_pure.mpr ⟨rfl,_,rfl,?_⟩
    intro j hj
    cases hj
    exact ⟨.inl hpreloaded,fun _ h => (nomatch h)⟩
  · rw [Routine.meets_bind]
    refine Routine.meets_call_bind.mpr ⟨trivial,?_⟩
    intro reply
    cases reply with
    | error e => exact ⟨rfl,_,rfl,fun j hj => (nomatch hj)⟩
    | ok found =>
      cases found with
      | none => exact ⟨rfl,_,rfl,fun j hj => (nomatch hj)⟩
      | some authority =>
        refine ⟨rfl,_,rfl,?_⟩
        intro j hj
        have hbuild : buildJudge authority = .ok j := by
          cases hb : buildJudge authority with
          | error e =>
            rw [hb] at hj
            cases hj
          | ok judge =>
            rw [hb] at hj
            cases hj
            rfl
        refine ⟨.inr ⟨authority,mem_cons_self,hbuild⟩,?_⟩
        intro e he
        simp [Prog.recorder] at he

theorem checkForks_outcome (c : Options) (index : ArchiveIndex) (pass : ForkPass) (mem : Memory) :
    Routine.Meets Prog.recorder (fun record mem' res => mem'=mem ∧ ∃ r,res = .ok r ∧
      Outcome c index pass record r) [] mem (checkForks c index pass) := by
  have hleft : ∀ record r,r.report.checked=false → r.index=index →
      Outcome c index pass record r := by
    intro record r hchecked hindex
    refine ⟨fun _ => hindex,?_⟩
    intro h
    rw [hchecked] at h
    cases h
  unfold checkForks
  simp only
  split
  · exact Routine.meets_pure.mpr ⟨rfl,_,rfl,hleft _ _ rfl rfl⟩
  · split
    · exact Routine.meets_pure.mpr ⟨rfl,_,rfl,hleft _ _ rfl rfl⟩
    · rename_i hgen
      rw [Routine.meets_bind]
      refine (load_outcome pass mem).mono ?_
      intro record mem' res hres
      obtain ⟨rfl,⟨pass',judge⟩,rfl,hjudge⟩ := hres
      cases judge with
      | error e => exact ⟨rfl,_,rfl,hleft _ _ rfl rfl⟩
      | ok judge =>
        cases judge with
        | none => exact ⟨rfl,_,rfl,hleft _ _ rfl rfl⟩
        | some judge =>
          obtain ⟨huse,herr⟩ := hjudge judge rfl
          refine Routine.meets_call_bind.mpr ⟨trivial,?_⟩
          intro checkedAt
          cases hj : judgeIndex judge c.serverUUID checkedAt (forkIdentity c) index with
          | error e =>
            simp only
            exact ⟨rfl,_,rfl,hleft _ _ rfl rfl⟩
          | ok judged =>
            simp only
            refine ⟨rfl,_,rfl,⟨fun h => (nomatch h),?_⟩⟩
            intro _
            refine ⟨Int.not_lt.mp hgen,rfl,?_,judge,checkedAt,?_,hj⟩
            · intro e he
              cases mem_append.mp he with
              | inl he => exact herr e he
              | inr he => simp at he
            · cases huse with
              | inl hpre => exact .inl hpre
              | inr hread =>
                obtain ⟨authority,hmem,hbuild⟩ := hread
                exact .inr ⟨authority,mem_append_left _ hmem,hbuild⟩

theorem checkForks_ends (c : Options) {pass : ForkPass} (mem : Memory) {authority : Authority}
    {judge : ForkJudge} {checkedAt : Time} (hsource : pass.source=true)
    (hpre : pass.preloaded=none) (hgen : index.generation≤pass.generation)
    (hbuild : buildJudge authority = .ok judge)
    (hj : judgeIndex judge c.serverUUID checkedAt (forkIdentity c) index = .ok (judged,changed)) :
    Routine.Ends (checkForks c index pass) mem
      [⟨.ask .forkAuthority,.ok (some authority)⟩,⟨.now,checkedAt⟩]
      (.ok { pass, index := judged, changed, report :=
        { read := true, checked := true, checkedAt, generation := pass.generation } }) mem := by
  have hsrc : Routine.Ends forkSource mem [⟨.ask .forkAuthority,.ok (some authority)⟩]
      (.ok (.ok (some judge))) mem := by
    apply Routine.Ends.call_bind
    simp only [hbuild]
    exact Prog.Yields.pure _
  have hload : Routine.Ends (load pass) mem [⟨.ask .forkAuthority,.ok (some authority)⟩]
      (.ok (pass, .ok (some judge))) mem := by
    unfold load
    rw [hpre]
    exact hsrc.bind (Prog.Yields.pure _)
  unfold checkForks
  simp only [hsource,Bool.true_eq_false,if_false,Int.not_lt.mpr hgen]
  apply hload.bind
  apply Routine.Ends.call_bind
  simp only [hj]
  exact Prog.Yields.pure _

end

def forkRecord (index : Option ArchiveIndex) (u : String) : Option ArchiveFork :=
  (index.bind (Archiver.segment u)).bind (·.fork)

theorem forkRecord_getD (found : Option ArchiveIndex) (u : String) :
    forkRecord (some (found.getD {})) u=forkRecord found u := by
  cases found with
  | none => rfl
  | some index => rfl

theorem Folded.forkRecord {c : Options} {index base : ArchiveIndex} {name gtidSet : String}
    (h : Folded c index name gtidSet base) (u : String) :
    forkRecord (some base) u=Binlog.forkRecord (some index) u := by
  obtain ⟨seg,seg',-,hold,-,hfork,huuid,hsegs⟩ := h.own
  simp only [Binlog.forkRecord,Option.bind_some]
  rw [Archiver.segment,hsegs,find_putSegment,huuid]
  split
  · rename_i hu
    rw [hu,hold,Option.bind_some,hfork]
  · rfl

section

variable [CaseMapping]

/-- A writer of an older generation, or of none, leaves the records alone. -/
theorem IndexWrite.behind {c : Options} {know : Know} {found : Option ArchiveIndex} {index : ArchiveIndex}
    (h : IndexWrite c know found index)
    (hlow : ∀ g,know.generation=some g → g<(found.getD {}).generation) :
    (∀ u,forkRecord (some index) u=forkRecord found u) ∧
      index.disowned=(found.getD {}).disowned := by
  obtain ⟨base,judged,hbase,hjudged,hsegs,-,hdisowned⟩ := h.content
  have hgen : (found.getD {}).generation≤base.generation := by
    cases hbase with
    | inl heq =>
      rw [heq]
      exact Int.le_refl _
    | inr hfold =>
      obtain ⟨_,_,-,-,hfold⟩ := hfold
      exact hfold.generation
  cases hjudged with
  | inr hj =>
    obtain ⟨_,_,_,_,g,-,-,hg,hle,-⟩ := hj
    have := hlow g hg
    omega
  | inl heq =>
    subst heq
    have hrecord : ∀ u,forkRecord (some index) u=forkRecord (some judged) u := by
      intro u
      simp only [forkRecord,Option.bind_some,Archiver.segment,hsegs]
    cases hbase with
    | inl heq =>
      subst heq
      exact ⟨hrecord,hdisowned⟩
    | inr hfold =>
      obtain ⟨_,_,-,-,hfold⟩ := hfold
      refine ⟨?_,hdisowned.trans hfold.disowned⟩
      intro u
      rw [hrecord,hfold.forkRecord,forkRecord_getD]

variable {ι : Type} [DecidableEq ι] {f : Fleet ι} {s : System ι}

def Archive.generation (archive : Archive) : Int := (archive.index.getD {}).generation

theorem generation_move (hs : Sound f s) {s' : System ι} {a : Act ι} (hm : Move f s a s')
    (ha : a.expires=false) : s.archive.generation ≤ s'.archive.generation := by
  cases index_move hs hm ha with
  | inl hsame =>
    rw [Archive.generation,Archive.generation,hsame]
  | inr hwrite =>
    obtain ⟨i,o,index,-,-,harchive,-,hwrite⟩ := hwrite
    rw [Archive.generation,Archive.generation,harchive]
    exact hwrite.generation

/-- The fork check, and what keeps its records from older generations. -/
theorem forkCheck_fenced (h : Started s) {as : List (Act ι)} {t : System ι}
    (hrun : Along (step f) (fun _ a _ => a.expires=false) s as)
    (ht : exec (step f) s as=some t) :
    (∀ c index pass mem record r mem',
      Routine.Ends (checkForks c index pass) mem record (.ok r) mem' →
      (∀ raw,SetsParse index → (∀ judge,InUse pass record judge → newMySQLForkJudge raw = .ok judge) →
        r.report.checked=true → ForksChecked c.serverUUID raw index r.index) ∧
      (pass.generation < index.generation ∨ r.report.err≠none ∨
        (∃ e,⟨.ask .forkAuthority,.error e⟩∈record) ∨
        (∀ judge,InUse pass record judge → ∀ now,∃ e,
          judgeIndex judge c.serverUUID now (forkIdentity c) index = .error e) → r.index=index)) ∧
    (∀ bs t',Along (step f) (fun _ a _ => a.expires=false) t bs → exec (step f) t bs=some t' →
      t.archive.generation≤t'.archive.generation) ∧
    (∀ i o t',step f t (.call i o)=some t' →
      (∀ g,(t.nodes i).know.generation=some g → g<t.archive.generation) →
      (∀ u,forkRecord t'.archive.index u=forkRecord t.archive.index u) ∧
        t'.archive.index.bind (·.disowned)=t.archive.index.bind (·.disowned)) := by
  have hsound : ∀ {s t : System ι} {as : List (Act ι)},Sound f s →
      Along (step f) (fun _ a _ => a.expires=false) s as → exec (step f) s as=some t →
      Sound f t := by
    intro s t as hs hrun ht
    refine exec_invariant ?_ hrun ht hs
    intro s a s' hstep ha hs
    exact sound_move hs (move_of_step hstep) ha
  have hs := hsound (sound_started h) hrun ht
  refine ⟨?_,?_,?_⟩
  · intro c index pass mem record r mem' hends
    obtain ⟨-,r',hr',hout⟩ := Prog.Obeys.recorded (checkForks_outcome c index pass mem) hends
    cases hr'
    constructor
    · intro raw hp huse hchecked
      obtain ⟨-,-,-,judge,now,hin,hj⟩ := hout.checked hchecked
      have hbuild := huse judge hin
      rw [newMySQLForkJudge,bind_eq_ok] at hbuild
      obtain ⟨executed,hraw,hbuild⟩ := hbuild
      rw [mapError_eq_ok] at hraw
      cases hbuild
      exact (judgeIndex_mysql hraw hp hj).1
    · intro hcause
      cases hc : r.report.checked with
      | false => exact hout.unchecked hc
      | true =>
        obtain ⟨hgen,herr,hread,judge,now,hin,hj⟩ := hout.checked hc
        rcases hcause with hbehind | hfailed | ⟨e,he⟩ | hjudge
        · omega
        · exact absurd herr hfailed
        · exact absurd he (hread e)
        · obtain ⟨e,he⟩ := hjudge judge hin now
          rw [he] at hj
          cases hj
  · intro bs t' hrun' ht'
    have hboth : Sound f t' ∧ t.archive.generation≤t'.archive.generation := by
      refine exec_invariant (I := fun s => Sound f s ∧ t.archive.generation ≤ s.archive.generation)
        ?_ hrun' ht' ⟨hs,Int.le_refl _⟩
      intro s a s' hstep ha hs
      have hm := move_of_step hstep
      exact ⟨sound_move hs.1 hm ha,Int.le_trans hs.2 (generation_move hs.1 hm ha)⟩
    exact hboth.2
  · intro i o t' hstep hlow
    cases index_move hs (move_of_step hstep) rfl with
    | inl hsame =>
      rw [hsame]
      exact ⟨fun _ => rfl,rfl⟩
    | inr hwrite =>
      obtain ⟨j,o',index,hact,-,harchive,-,hwrite⟩ := hwrite
      cases hact
      obtain ⟨hforks,hdisowned⟩ := hwrite.behind hlow
      rw [harchive]
      refine ⟨hforks,?_⟩
      show index.disowned=t.archive.index.bind (·.disowned)
      rw [hdisowned]
      cases t.archive.index with
      | none => rfl
      | some found => rfl

end

namespace Pair

def segmentIndex (fork : Option ArchiveFork) : ArchiveIndex where
  segments := [{ serverUUID := "uuid-a", gtidSet := gtidSet [1,2], fork }]

/-- A check by an instance that has executed one of them. -/
theorem check_ends (i : Member) (fork : Option ArchiveFork) (test : ArchiveIndex → Bool)
    (h : ((buildJudge (.mysql (gtidSet [1])) >>= fun judge =>
      judgeIndex judge (fleet.options i).serverUUID 5 (forkIdentity (fleet.options i))
        (segmentIndex fork)).toOption.any fun r => test r.1)=true) :
    ∃ record r,Routine.Ends (checkForks (fleet.options i) (segmentIndex fork) { source := true }) {}
        record (.ok r) {} ∧
      (∀ judge, InUse { source := true } record judge →
        newMySQLForkJudge (gtidSet [1]) = .ok judge) ∧
      r.report.checked=true ∧ test r.index=true := by
  obtain ⟨⟨judged,changed⟩,hok,htest⟩ := exists_ok_of_any h
  rw [bind_eq_ok] at hok
  obtain ⟨judge,hbuild,hj⟩ := hok
  refine ⟨_,_,checkForks_ends _ {} rfl rfl (Int.le_refl _) hbuild hj,?_,rfl,htest⟩
  intro judge' huse
  rcases huse with hpre | ⟨authority,hmem,hbuild'⟩
  · cases hpre
  · simp only [mem_cons,Sigma.mk.injEq,not_mem_nil,or_false] at hmem
    rcases hmem with ⟨-,heq⟩ | ⟨hnow,-⟩
    · cases eq_of_heq heq
      exact hbuild'
    · cases hnow

theorem segmentIndex_parses {fork : Option ArchiveFork} (h : ∀ f,fork=some f → Parses f.gtidSet) :
    SetsParse (segmentIndex fork) where
  segments seg hseg := by
    rw [mem_singleton.mp hseg]
    show Parses (gtidSet [1,2])
    decide +kernel
  forks seg hseg f hf := by
    rw [mem_singleton.mp hseg] at hf
    exact h f hf
  disowned d hd := by cases hd

theorem forkCheck_fenced_rotationRun : ∃ t record r,
    exec (step fleet) initial (rotationRun [])=some t ∧
    Routine.Ends (checkForks (fleet.options .b) (segmentIndex none) { source := true }) {} record
      (.ok r) {} ∧
    r.index.segments.map (·.fork.map (·.gtidSet))=[some (gtidSet [2])] ∧
    ForksChecked "uuid-b" (gtidSet [1]) (segmentIndex none) r.index := by
  obtain ⟨t,ht,-⟩ : ∃ t,exec (step fleet) initial (rotationRun [])=some t ∧ true=true :=
    exec_reaches (by decide +kernel)
  have hquiet : Along (step fleet) (fun _ a _ => a.expires=false) initial (rotationRun []) := by
    decide +kernel
  obtain ⟨record,r,hends,huse,hchecked,htest⟩ := check_ends .b none
    (fun index => index.segments.map (·.fork.map (·.gtidSet))=[some (gtidSet [2])])
    (by decide +kernel)
  have hfenced := (forkCheck_fenced started_initial hquiet ht).1 _ _ _ _ _ _ _ hends
  exact ⟨t,record,r,ht,hends,of_decide_eq_true htest,
    hfenced.1 (gtidSet [1]) (segmentIndex_parses fun f hf => (nomatch hf)) huse hchecked⟩

/-- A record that says nothing stays where it is. -/
theorem checkForks_keeps_blank : ∃ record r,
    Routine.Ends (checkForks (fleet.options .a) (segmentIndex (some {})) { source := true }) {} record
      (.ok r) {} ∧
    SetsParse (segmentIndex (some {})) ∧
    (∀ judge, InUse { source := true } record judge → newMySQLForkJudge (gtidSet [1]) = .ok judge) ∧
    r.report.checked=true ∧ r.index.segments.map (·.fork)=[some {}] ∧
    forkTxns (some {})=∅ := by
  obtain ⟨record,r,hends,huse,hchecked,htest⟩ := check_ends .a (some {})
    (fun index => index.segments.map (·.fork)=[some {}]) (by decide +kernel)
  refine ⟨record,r,hends,segmentIndex_parses ?_,huse,hchecked,of_decide_eq_true htest,by simp⟩
  intro f hf
  cases hf
  exact parses_empty

end Pair

end Cnmsql.Binlog
