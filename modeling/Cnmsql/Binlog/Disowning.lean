import Mathlib.Order.CompletePartialOrder
import Cnmsql.Binlog.ForkCheck
import Cnmsql.Binlog.Integrity

namespace Cnmsql.Binlog

open Framework Replication ObjectStore Engine Archiver

section

variable [CaseMapping]

def foreignTxns (u : String) (index : ArchiveIndex) : Set Txn :=
  {t | ∃ seg∈index.segments,seg.serverUUID≠u ∧ t∈gtids seg.gtidSet}

theorem disownedTxns_eq (index : ArchiveIndex) : disownedTxns index =
    {t | ∃ seg∈index.segments,t∈forkTxns seg.fork} ∪ disownedRecord index.disowned := rfl

theorem disownedTxns_congr {index index' : ArchiveIndex} (hsegs : index'.segments=index.segments)
    (hdisowned : index'.disowned=index.disowned) : disownedTxns index'=disownedTxns index := by
  rw [disownedTxns_eq,disownedTxns_eq,hsegs,hdisowned]

variable {u raw executed : String} {index base judged : ArchiveIndex}

/-- What an index disowns is other servers', and the primary has not executed it. -/
structure Blameless (u executed : String) (index : ArchiveIndex) : Prop where
  parses : SetsParse index
  foreign : disownedTxns index ⊆ foreignTxns u index
  unheld : Disjoint (disownedTxns index) (gtids executed)

theorem blameless_empty (u executed : String) : Blameless u executed {} where
  parses := ⟨fun _ h => (nomatch h),fun _ h => (nomatch h),fun _ h => (nomatch h)⟩
  foreign t h := by simp [disownedTxns] at h
  unheld := by
    have hempty : disownedTxns {}=∅ := by simp [disownedTxns]
    rw [hempty]
    exact Set.empty_disjoint _

theorem Blameless.congr {index' : ArchiveIndex} (h : Blameless u executed index)
    (hsegs : index'.segments=index.segments) (hdisowned : index'.disowned=index.disowned) :
    Blameless u executed index' where
  parses := ⟨hsegs ▸ h.parses.segments,hsegs ▸ h.parses.forks,hdisowned ▸ h.parses.disowned⟩
  foreign := by
    rw [disownedTxns_congr hsegs hdisowned,foreignTxns,hsegs]
    exact h.foreign
  unheld := by
    rw [disownedTxns_congr hsegs hdisowned]
    exact h.unheld

/-- A check newly disowns only other servers' transactions its authority has not executed. -/
theorem ForksChecked.disownedTxns (h : ForksChecked u raw base judged) :
    disownedTxns judged ⊆ (disownedTxns base ∪ foreignTxns u base) \ gtids raw := by
  have hsegs : {t | ∃ seg∈judged.segments,t∈forkTxns seg.fork} ⊆
      (Binlog.disownedTxns base ∪ foreignTxns u base) \ gtids raw := by
    intro t ht
    obtain ⟨seg',hseg',ht⟩ := ht
    obtain ⟨seg,hseg,-,hrec⟩ := h.mem hseg'
    rw [hrec.txns] at ht
    refine ⟨?_,ht.2⟩
    cases ht.1 with
    | inl hfork => exact .inl (.inl ⟨seg,hseg,hfork⟩)
    | inr hjudged =>
      split at hjudged
      · cases hjudged
      · rename_i hother
        exact .inr ⟨seg,hseg,hother,hjudged⟩
  rw [disownedTxns_eq]
  apply Set.union_subset hsegs
  rw [h.disowned]
  intro t ht
  refine ⟨?_,ht.2⟩
  cases ht.1 with
  | inl hold => exact .inl (.inr hold)
  | inr hnew => exact (hsegs hnew).1

theorem ForksChecked.foreignTxns (h : ForksChecked u raw base judged) (u' : String) :
    foreignTxns u' base ⊆ foreignTxns u' judged := by
  intro t ht
  obtain ⟨seg,hseg,hother,ht⟩ := ht
  obtain ⟨q,hq,hget⟩ := List.mem_iff_getElem.mp hseg
  have hq' : q<judged.segments.length := by
    rw [← h.segments.length_eq]
    exact hq
  have heq := (h.segments.get hq hq').1
  rw [List.get_eq_getElem,List.get_eq_getElem,hget] at heq
  refine ⟨_,List.getElem_mem hq',?_,?_⟩
  · rw [heq]
    exact hother
  · rw [heq]
    exact ht

theorem Blameless.checked (h : Blameless u executed base) (hchecked : ForksChecked u raw base judged)
    (hparses : SetsParse judged) (hcurrent : foreignTxns u base ∩ gtids executed ⊆ gtids raw) :
    Blameless u executed judged where
  parses := hparses
  foreign := by
    intro t ht
    apply hchecked.foreignTxns u
    cases (hchecked.disownedTxns ht).1 with
    | inl hold => exact h.foreign hold
    | inr hforeign => exact hforeign
  unheld := by
    rw [Set.disjoint_left]
    intro t ht hexec
    obtain ⟨hfrom,hnot⟩ := hchecked.disownedTxns ht
    cases hfrom with
    | inl hold => exact Set.disjoint_left.mp h.unheld hold hexec
    | inr hforeign => exact hnot (hcurrent ⟨hforeign,hexec⟩)

variable {c : Options}

theorem Folded.foreign (hops : c.ops=mysqlGTIDSet) {name gtidSet : String}
    (hapart : Apart index.segments) (h : Folded c index name gtidSet base) :
    disownedTxns base=disownedTxns index ∧
      (∀ u,foreignTxns u index ⊆ foreignTxns u base) ∧
      foreignTxns c.serverUUID base ⊆ foreignTxns c.serverUUID index ∧
      (SetsParse index → SetsParse base) := by
  obtain ⟨seg,seg',hseg,huuid,-,hparses,hset,hfork,hsegs⟩ := h.mysql hops
  have hmem : ∀ x,x∈base.segments ↔ x=seg' ∨ x∈index.segments ∧ x.serverUUID≠c.serverUUID := by
    intro x
    rw [hsegs,mem_putSegment hapart,huuid]
  -- the segment before the fold, unless it is new
  have hold : seg∈index.segments ∧ seg.serverUUID=c.serverUUID ∨
      (∀ x∈index.segments,x.serverUUID≠c.serverUUID) ∧ seg.fork=none := by
    cases hseg with
    | inl hsome => exact .inl ((find_eq_some_iff hapart).mp hsome)
    | inr hnone =>
      obtain ⟨hnone,startedAt,rfl⟩ := hnone
      refine .inr ⟨?_,rfl⟩
      intro x hx
      simpa using List.find?_eq_none.mp hnone x hx
  have hown : ∀ x∈index.segments,x.serverUUID=c.serverUUID → x=seg := by
    intro x hx hxu
    cases hold with
    | inl hin => exact List.inj_on_of_nodup_map hapart hx hin.1 (hxu.trans hin.2.symm)
    | inr hnew => exact absurd hxu (hnew.1 x hx)
  have hforks : ∀ t,(∃ x∈base.segments,t∈forkTxns x.fork) ↔
      ∃ x∈index.segments, t∈forkTxns x.fork := by
    intro t
    constructor
    · intro ht
      obtain ⟨x,hx,ht⟩ := ht
      cases (hmem x).mp hx with
      | inr hx => exact ⟨x,hx.1,ht⟩
      | inl hx =>
        subst hx
        rw [hfork] at ht
        cases hold with
        | inl hin => exact ⟨seg,hin.1,ht⟩
        | inr hnew =>
          rw [hnew.2,forkTxns_none] at ht
          cases ht
    · intro ht
      obtain ⟨x,hx,ht⟩ := ht
      by_cases hxu : x.serverUUID=c.serverUUID
      · rw [hown x hx hxu,← hfork] at ht
        exact ⟨seg',(hmem seg').mpr (.inl rfl),ht⟩
      · exact ⟨x,(hmem x).mpr (.inr ⟨hx,hxu⟩),ht⟩
  refine ⟨?_,?_,?_,?_⟩
  · rw [disownedTxns_eq,disownedTxns_eq,h.disowned]
    exact congrArg (· ∪ _) (Set.ext hforks)
  · intro u t ht
    obtain ⟨x,hx,hxu,ht⟩ := ht
    by_cases hxc : x.serverUUID=c.serverUUID
    · refine ⟨seg',(hmem seg').mpr (.inl rfl),?_,?_⟩
      · rw [huuid,← hxc]
        exact hxu
      · rw [hset,← hown x hx hxc]
        exact .inl ht
    · exact ⟨x,(hmem x).mpr (.inr ⟨hx,hxc⟩),hxu,ht⟩
  · intro t ht
    obtain ⟨x,hx,hxu,ht⟩ := ht
    cases (hmem x).mp hx with
    | inl hx =>
      subst hx
      exact absurd huuid hxu
    | inr hx => exact ⟨x,hx.1,hxu,ht⟩
  · intro hp
    refine ⟨?_,?_,h.disowned ▸ hp.disowned⟩
    · intro x hx
      cases (hmem x).mp hx with
      | inl hx =>
        subst hx
        exact hparses
      | inr hx => exact hp.segments x hx.1
    · intro x hx
      cases (hmem x).mp hx with
      | inl hx =>
        subst hx
        rw [hfork]
        cases hold with
        | inl hin => exact hp.forks seg hin.1
        | inr hnew =>
          rw [hnew.2]
          exact fun f hf => (nomatch hf)
      | inr hx => exact hp.forks x hx.1

/-- What an index write disowns: only the primary checks, by an authority that has executed what it
shares with other segments. -/
theorem Blameless.write (hops : c.ops=mysqlGTIDSet) {know : Know} {found : Option ArchiveIndex}
    (hapart : Apart (found.getD {}).segments) (h : Blameless u executed (found.getD {}))
    (hwrite : IndexWrite c know found index)
    (hown : ∀ authority,know.authority=some authority → c.serverUUID=u ∧
      ∃ raw,authority = .mysql raw ∧ foreignTxns u (found.getD {}) ∩ gtids executed ⊆ gtids raw) :
    Blameless u executed index := by
  obtain ⟨base,judged,hbase,hjudged,hsegs,-,hdisowned⟩ := hwrite.content
  have hb : Blameless u executed base ∧
      (c.serverUUID=u → foreignTxns u base ⊆ foreignTxns u (found.getD {})) := by
    cases hbase with
    | inl heq =>
      subst heq
      exact ⟨h,fun _ _ ht => ht⟩
    | inr hfold =>
      obtain ⟨name,metadata,-,-,hfold⟩ := hfold
      obtain ⟨hsame,hgrows,hother,hparses⟩ := hfold.foreign hops hapart
      refine ⟨⟨hparses h.parses,?_,hsame ▸ h.unheld⟩,fun hu => hu ▸ hother⟩
      rw [hsame]
      exact h.foreign.trans (hgrows u)
  have hj : Blameless u executed judged := by
    cases hjudged with
    | inl heq =>
      rw [heq]
      exact hb.1
    | inr hj =>
      obtain ⟨authority,judge,now,changed,generation,hauthority,hbuild,-,-,hj⟩ := hj
      obtain ⟨hu,raw,rfl,hcurrent⟩ := hown authority hauthority
      rw [buildJudge,newMySQLForkJudge,bind_eq_ok] at hbuild
      obtain ⟨set,hset,hbuild⟩ := hbuild
      rw [mapError_eq_ok] at hset
      cases hbuild
      obtain ⟨hchecked,hparses⟩ := judgeIndex_mysql hset hb.1.parses hj
      rw [hu] at hchecked
      refine hb.1.checked hchecked hparses ?_
      intro t ht
      exact hcurrent ⟨hb.2 hu ht.1,ht.2⟩
  exact hj.congr hsegs hdisowned

end

section

variable [CaseMapping] {ι : Type}

def Archive.found (archive : Archive) : ArchiveIndex := archive.index.getD {}

/-- A run with the primary `p`: nothing expires, and only its checks have an authority, its growing
executed set. -/
def Follows (p : ι) (s : System ι) : Act ι → Prop
  | .expire => False
  | .execute g => gtids s.executed ⊆ gtids g
  | .call i o => (s.nodes i).nextCall=some (.ask .forkAuthority) →
      ∀ authority∈o.forkAuthority,i=p ∧ authority = .mysql s.executed
  | _ => True

variable (u : String) (s : System ι)

/-- A known authority holds what other servers' segments share with the executed set. -/
def UpToDate : Option Authority → Prop
  | some (.mysql raw) => foreignTxns u s.archive.found ∩ gtids s.executed ⊆ gtids raw
  | _ => True

/-- An authority read before the index is up to date when the index is read, and the primary
executes nothing another segment already has. -/
def Judgeable : Act ι → Prop
  | .execute g => foreignTxns u s.archive.found ∩ gtids g ⊆ gtids s.executed
  | .call i _ => (s.nodes i).nextCall=some .getIndex → UpToDate u s (s.nodes i).know.authority
  | _ => True

/-- What is known of the authority, and of the index if still current. -/
structure Informed (p : ι) (s : System ι) (i : ι) (know : Know) : Prop where
  authority : ∀ authority,know.authority=some authority → i=p ∧ ∃ raw,authority = .mysql raw
  current : ∀ raw index etag,know.authority=some (.mysql raw) → know.found=some (index,etag) →
    s.archive.etag=etag → foreignTxns u s.archive.found ∩ gtids s.executed ⊆ gtids raw

structure Fair (f : Fleet ι) (p : ι) (s : System ι) : Prop extends Sound f s where
  accounts : ∀ index,s.archive.index=some index → Accounts f s.archive index
  blameless : Blameless (f.options p).serverUUID s.executed s.archive.found
  informed : ∀ i,Informed (f.options p).serverUUID p s i (s.nodes i).know
  atRead : ∀ i,(s.nodes i).know.found.isSome → gtids (s.nodes i).atRead ⊆ gtids s.executed

variable {f : Fleet ι} {p : ι} {s s' : System ι} {a : Act ι}

theorem Fair.apart (hs : Fair f p s) : Apart s.archive.found.segments := by
  rw [Archive.found]
  cases hindex : s.archive.index with
  | none => exact List.nodup_nil
  | some index => exact (hs.accounts index hindex).apart

theorem Fair.write (hops : ∀ i,(f.options i).ops=mysqlGTIDSet) (hs : Fair f p s) {i : ι}
    {index : ArchiveIndex}
    (hallowed : (contract (f.options i)).allowed (s.nodes i).know (.putIndexIf index s.archive.etag)) :
    Blameless (f.options p).serverUUID s.executed index := by
  have hwrite := (hs.facts i).indexWrite hallowed
  obtain ⟨-,found,hfound,-⟩ := hallowed
  refine hs.blameless.write (hops i) hs.apart hwrite ?_
  intro authority hauthority
  obtain ⟨rfl,raw,rfl⟩ := (hs.informed i).authority authority hauthority
  exact ⟨rfl,raw,rfl,(hs.informed i).current raw found _ hauthority hfound rfl⟩

variable [DecidableEq ι]

omit [DecidableEq ι] in
theorem Follows.expires (ha : Follows p s a) : a.expires=false := by
  cases a with
  | expire => exact absurd ha id
  | _ => rfl

theorem Follows.executed (ha : Follows p s a) (hm : Move f s a s') :
    gtids s.executed ⊆ gtids s'.executed := by
  apply executed_grows hm
  intro g hg
  subst hg
  exact ha

theorem blameless_move (hops : ∀ i,(f.options i).ops=mysqlGTIDSet) (hs : Fair f p s)
    (hm : Move f s a s') (ha : Follows p s a) (hj : Judgeable (f.options p).serverUUID s a) :
    Blameless (f.options p).serverUUID s'.executed s'.archive.found := by
  cases index_move hs.toSound hm ha.expires with
  | inr hwrite =>
    obtain ⟨i,o,index,rfl,hnext,harchive,-,-⟩ := hwrite
    rw [executed_call hm,harchive]
    exact hs.write hops (hs.obeying.allowed_next hnext)
  | inl hsame =>
    have hfound : s'.archive.found=s.archive.found := by rw [Archive.found,hsame,Archive.found]
    rw [hfound]
    refine ⟨hs.blameless.parses,hs.blameless.foreign,?_⟩
    cases executed_move hm with
    | inl heq =>
      rw [heq]
      exact hs.blameless.unheld
    | inr hexec =>
      subst hexec
      rw [Set.disjoint_left]
      intro t ht hnew
      have hforeign := hs.blameless.foreign ht
      exact Set.disjoint_left.mp hs.blameless.unheld ht (hj ⟨hforeign,hnew⟩)

/-- What is known stays true while others move. -/
theorem Informed.move (hs : Sound f s) (hm : Move f s a s') (ha : Follows p s a)
    (hj : Judgeable (f.options p).serverUUID s a) {i : ι}
    (h : Informed (f.options p).serverUUID p s i (s.nodes i).know) :
    Informed (f.options p).serverUUID p s' i (s.nodes i).know := by
  refine ⟨h.authority,?_⟩
  intro raw index etag hauthority hfound hetag
  cases (advances_move hs hm ha.expires i).index with
  | inl hsame =>
    obtain ⟨hindex,hversion⟩ := hsame
    rw [Archive.etag,hindex,hversion] at hetag
    have hcurrent := h.current raw index etag hauthority hfound hetag
    rw [Archive.found,hindex]
    intro t ht
    apply hcurrent
    refine ⟨ht.1,?_⟩
    cases executed_move hm with
    | inl heq => exact heq ▸ ht.2
    | inr hexec =>
      subst hexec
      exact hj ht
  | inr hwrite =>
    obtain ⟨hindex,hversion⟩ := hwrite
    obtain ⟨index',hindex'⟩ := Option.isSome_iff_exists.mp hindex
    rw [Archive.etag,hindex',hversion,Option.map_some] at hetag
    have := ((hs.facts i).found index etag hfound).1 _ hetag.symm
    omega

omit [DecidableEq ι] in
theorem informed_of_unknown {u : String} {i : ι} {know : Know} (h : know.authority=none) :
    Informed u p s i know := by
  constructor <;> simp [h]

theorem informed_learn (hs : Fair f p s) {i : ι} {o : Outside} {c : Call} {k : Answer c → Running}
    (pass : (s.nodes i).pass = .call c k) (ha : Follows p s (.call i o))
    (hj : Judgeable (f.options p).serverUUID s (.call i o)) {r : Answer c} {know' : Know}
    (hr : s.answer f i o c=r) (hlesson : Lesson (f.options i).serverUUID (s.nodes i).know c r know') :
    Informed (f.options p).serverUUID p (performed f s i o c k) i know' := by
  have hnext : (s.nodes i).nextCall=some c := by rw [Node.nextCall,pass]
  have hold := (hs.informed i).move hs.toSound (.call i o c k pass) ha hj
  cases hlesson with
  | authority a =>
    -- an authority that is learnt is what the primary has executed
    obtain ⟨-,hr⟩ := Outside.orFault_eq_ok.mp hr
    rw [Except.ok.injEq] at hr
    constructor
    · intro authority hauthority
      obtain ⟨hp,rfl⟩ := ha hnext authority (hr.trans hauthority)
      exact ⟨hp,_,rfl⟩
    · intro raw index etag hauthority _ _
      cases (ha hnext _ (hr.trans hauthority)).2
      exact fun t ht => ht.2
  | read index etag =>
    refine ⟨hold.authority,?_⟩
    intro raw index etag hauthority _ _
    have hread := hj hnext
    rw [show (s.nodes i).know.authority=_ from hauthority] at hread
    exact hread
  | generation | noAuthority | wrote | tried => exact informed_of_unknown rfl
  | _ => exact ⟨hold.authority,hold.current⟩

theorem informed_move (hs : Fair f p s) (hm : Move f s a s') (ha : Follows p s a)
    (hj : Judgeable (f.options p).serverUUID s a) (i : ι) :
    Informed (f.options p).serverUUID p s' i (s'.nodes i).know := by
  apply know_move (P := fun s j know => Informed (f.options p).serverUUID p s j know) hm
  · intro j h
    exact h.move hs.toSound hm ha hj
  · intro j
    exact informed_of_unknown rfl
  · intro j know h
    exact informed_of_unknown rfl
  · intro i o c k r know' heq pass hs' hr hlesson
    subst heq
    subst hs'
    exact informed_learn hs pass ha hj hr hlesson
  · exact hs.informed

theorem atRead_move (hs : Fair f p s) (hm : Move f s a s') (ha : Follows p s a) (j : ι)
    (h : (s'.nodes j).know.found.isSome) : gtids (s'.nodes j).atRead ⊆ gtids s'.executed := by
  have hold : (s.nodes j).know.found.isSome → gtids (s.nodes j).atRead ⊆ gtids s'.executed :=
    fun hfound => (hs.atRead j hfound).trans (ha.executed hm)
  have hturn := turn_of_move hm j
  generalize s'.nodes j=node at hturn h ⊢
  cases hturn with
  | idle => exact hold h
  | log => exact hold h
  | restart => cases h
  | start => cases h
  | call o c k pass =>
    rw [executed_call hm] at hold ⊢
    have hlesson := lesson_learn (f.options j).serverUUID (s.nodes j).know (s.answer f j o c)
    generalize (s.nodes j).know.learn _ c (s.answer f j o c)=know' at hlesson h
    generalize s.answer f j o c=r at hlesson
    simp only [atReadAfter]
    split
    · exact fun t ht => ht
    · rename_i hread
      cases hlesson with
      | read => exact absurd rfl hread
      | wrote => cases h
      | tried => cases h
      | _ => exact hold h

theorem fair_move (hops : ∀ i,(f.options i).ops=mysqlGTIDSet) (hs : Fair f p s)
    (hm : Move f s a s') (ha : Follows p s a) (hj : Judgeable (f.options p).serverUUID s a) :
    Fair f p s' where
  toSound := sound_move hs.toSound hm ha.expires
  accounts _ := accounts_move hops hs.toSound hs.accounts hm ha.expires
  blameless := blameless_move hops hs hm ha hj
  informed := informed_move hs hm ha hj
  atRead := atRead_move hs hm ha

omit [DecidableEq ι] in
theorem fair_started (h : Started s) : Fair f p s where
  toSound := sound_started h
  accounts index hindex := by
    rw [h.archive] at hindex
    cases hindex
  blameless := by
    rw [h.archive]
    exact blameless_empty _ _
  informed i := by
    rw [(h.idle i).2]
    exact ⟨fun _ h => (nomatch h),fun _ _ _ h => (nomatch h)⟩
  atRead i hfound := by
    rw [(h.idle i).2] at hfound
    cases hfound

/-- No index disowns what the primary had executed when it was read. -/
theorem disowned_unheld (hops : ∀ i,(f.options i).ops=mysqlGTIDSet) (h : Started s) (p : ι)
    {as : List (Act ι)} {t : System ι}
    (hrun : Along (step f) (fun s a _ => Follows p s a ∧ Judgeable (f.options p).serverUUID s a) s as)
    (ht : exec (step f) s as=some t) {i : ι} {index : ArchiveIndex}
    (hnext : (t.nodes i).nextCall=some (.putIndexIf index t.archive.etag)) :
    Disjoint (disownedTxns index) (gtids (t.nodes i).atRead) := by
  have hs : Fair f p t := by
    apply exec_invariant (I := Fair f p) _ hrun ht (fair_started h)
    intro s a s' hstep hcond hs
    exact fair_move hops hs (move_of_step hstep) hcond.1 hcond.2
  have hallowed := hs.obeying.allowed_next hnext
  have hread : gtids (t.nodes i).atRead ⊆ gtids t.executed := by
    obtain ⟨-,found,hfound,-⟩ := hallowed
    exact hs.atRead i (by rw [hfound]; rfl)
  exact Set.disjoint_of_subset_right hread (hs.write hops hallowed).unheld

end

section

variable [CaseMapping] {ι : Type} [DecidableEq ι]

instance (u a b : String) (index : ArchiveIndex) :
    Decidable (foreignTxns u index ∩ gtids a ⊆ gtids b) :=
  decidable_of_iff (∀ seg∈index.segments,seg.serverUUID≠u →
      ∀ t∈gtidList seg.gtidSet,t∈gtids a → t∈gtids b) <| by
    constructor
    · intro h t ht
      obtain ⟨⟨seg,hseg,hu,hmem⟩,ha⟩ := ht
      exact h seg hseg hu t ((mem_gtidList _ t).mpr hmem) ha
    · intro h seg hseg hu t hmem ha
      exact h ⟨⟨seg,hseg,hu,(mem_gtidList _ t).mp hmem⟩,ha⟩

instance (p : ι) (s : System ι) : ∀ a,Decidable (Follows p s a)
  | .expire => isFalse id
  | .execute _ => inferInstanceAs (Decidable (gtids _ ⊆ gtids _))
  | .call _ _ => inferInstanceAs (Decidable (_ → ∀ authority∈_,_))
  | .advance _ | .commit _ _ | .rotate _ _ | .record _ | .restart _ | .start _ | .plan _ _
  | .abandon => isTrue trivial

instance (u : String) (s : System ι) : ∀ authority,Decidable (UpToDate u s authority)
  | some (.mysql raw) =>
    inferInstanceAs (Decidable (foreignTxns _ _ ∩ gtids _ ⊆ gtids raw))
  | some (.mariadb _ _ _) => isTrue trivial
  | none => isTrue trivial

instance (u : String) (s : System ι) : ∀ a,Decidable (Judgeable u s a)
  | .execute _ => inferInstanceAs (Decidable (foreignTxns _ _ ∩ gtids _ ⊆ gtids _))
  | .call _ _ => inferInstanceAs (Decidable (_ → UpToDate _ _ _))
  | .advance _ | .commit _ _ | .rotate _ _ | .record _ | .restart _ | .start _ | .plan _ _
  | .expire | .abandon => isTrue trivial

end

namespace Pair

def asPrimary (txns : List Nat) : Outside := { forkAuthority := some (.mysql (gtidSet txns)) }

/-- The other instance takes over with a transaction of its own, and checks. -/
def takeoverRun : List (Act Member) :=
  [.execute (gtidSet [2])]++rotationRun []++[.start .b]++calls .b 14 (asPrimary [2])

theorem disowned_unheld_takeoverRun : ∃ t index,exec (step fleet) initial takeoverRun=some t ∧
    (t.nodes .b).nextCall=some (.putIndexIf index t.archive.etag) ∧
    index.segments.map (·.fork.map (·.gtidSet))=[some (gtidSet [1])] ∧
    Disjoint (disownedTxns index) (gtids (t.nodes .b).atRead) := by
  obtain ⟨t,ht,htest⟩ : ∃ t,exec (step fleet) initial takeoverRun=some t ∧
      ((t.written .b).any fun index =>
        index.segments.map (·.fork.map (·.gtidSet))=[some (gtidSet [1])])=true :=
    exec_reaches (by decide +kernel)
  obtain ⟨index,hwritten,hforks⟩ := (Option.any_eq_true _ _).mp htest
  have hnext := nextCall_of_written hwritten
  have hops : ∀ i,(fleet.options i).ops=mysqlGTIDSet := by
    intro i
    cases i with
    | a => rfl
    | b => rfl
  have hrun : Along (step fleet) (fun s a _ => Follows .b s a ∧
      Judgeable (fleet.options .b).serverUUID s a) initial takeoverRun := by
    decide +kernel
  exact ⟨t,index,ht,hnext,of_decide_eq_true hforks,
    disowned_unheld hops started_initial .b hrun ht hnext⟩

/-- Between authority and index the primary executes a transaction that the former primary has too
and indexes. -/
def overtakenRun : List (Act Member) :=
  [.execute (gtidSet [1])]++rotationRun []++[.start .b]++calls .b 11 (asPrimary [1]) ++
    [.execute (gtidSet [1,2]),.commit .a [2],.rotate .a { log := log3 },
      .record (some ("b",gtidSet [1,2])),.start .a] ++
    calls .a 28 { writable := false } ++ calls .b 3

theorem disowned_overtakenRun : Started initial ∧
    Along (step fleet) (fun s a _ => Follows .b s a ∧ Reported s a) initial overtakenRun ∧
    ∃ t index,exec (step fleet) initial overtakenRun=some t ∧
      (t.nodes .b).nextCall=some (.putIndexIf index t.archive.etag) ∧
      ¬ Disjoint (disownedTxns index) (gtids (t.nodes .b).atRead) := by
  refine ⟨started_initial,by decide +kernel,?_⟩
  obtain ⟨t,ht,htest⟩ : ∃ t,exec (step fleet) initial overtakenRun=some t ∧
      ((t.written .b).any fun index => index.segments.any fun seg => seg.fork.any fun fork =>
        (source,2)∈gtids fork.gtidSet ∧ (source,2)∈gtids (t.nodes .b).atRead)=true :=
    exec_reaches (by decide +kernel)
  obtain ⟨index,hwritten,htest⟩ := (Option.any_eq_true _ _).mp htest
  obtain ⟨seg,hseg,htest⟩ := List.any_eq_true.mp htest
  obtain ⟨fork,hfork,htest⟩ := (Option.any_eq_true _ _).mp htest
  obtain ⟨hdisowned,hread⟩ := of_decide_eq_true htest
  refine ⟨t,index,ht,nextCall_of_written hwritten,?_⟩
  rw [Set.not_disjoint_iff]
  exact ⟨_,.inl ⟨seg,hseg,fork,hfork,hdisowned⟩,hread⟩

end Pair

end Cnmsql.Binlog
