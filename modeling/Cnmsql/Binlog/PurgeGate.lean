import Cnmsql.Binlog.Passes
import Cnmsql.Binlog.ReplayExact

namespace Cnmsql.Binlog

open Framework Replication ObjectStore Archiver List

def Applied (c : Options) (position : String) (file : ArchivedFile) : Prop :=
  ∃ set fileSet,c.ops.parse position = .ok set ∧ c.ops.parse file.gtidSet = .ok fileSet ∧
    c.ops.contains set fileSet=true

theorem Applied.mysql [CaseMapping] {c : Options} (hops : c.ops=mysqlGTIDSet) {position : String}
    {file : ArchivedFile} (h : Applied c position file) : gtids file.gtidSet ⊆ gtids position := by
  obtain ⟨ops,clusterName,instanceName,serverUUID,sha256,scan,flushInterval⟩ := c
  subst hops
  obtain ⟨set,fileSet,hset,hfile,hcontains⟩ := h
  rw [mysql_parse] at hset hfile
  rw [gtids_of_parse _ _ hset,gtids_of_parse _ _ hfile]
  exact (mysql_contains (parseGTIDSet_canonical hset)
    (parseGTIDSet_canonical hfile)).mp hcontains

section

variable {c : Options} {positions : List (String × String)} {applied : List (String × c.ops.Carrier)}

theorem parsePositions_eq_ok (h : Loop.parsePositions c positions = .ok applied) :
    ∀ e∈positions,∃ set,c.ops.parse e.2 = .ok set ∧ (e.1, set)∈applied := by
  induction positions generalizing applied with
  | nil =>
    intro e he
    cases he
  | cons first rest ih =>
    rw [Loop.parsePositions,bind_eq_ok] at h
    obtain ⟨set,hset,h⟩ := h
    rw [bind_eq_ok] at h
    obtain ⟨sets,hsets,h⟩ := h
    cases h
    rw [mapError_eq_ok] at hset
    intro e he
    cases mem_cons.mp he with
    | inl heq =>
      subst heq
      exact ⟨set,hset,mem_cons_self⟩
    | inr hmem =>
      obtain ⟨set',hset',hin⟩ := ih hsets e hmem
      exact ⟨set',hset',mem_cons_of_mem _ hin⟩

theorem purgeLoop_eq_ok {limit : String}
    {candidates : List ArchivedFile} {first : Bool} {plan : Loop.PurgePlan}
    (h : Loop.purgeLoop c applied limit candidates first = .ok plan) (hne : plan.upTo ≠ "") :
    ∃ cleared rest,candidates=cleared++rest ∧
      plan.upTo=(rest.head?.map (·.name)).getD limit ∧
      ∀ f∈cleared,∃ fileSet,c.ops.parse f.gtidSet = .ok fileSet ∧
        ∀ e∈applied,c.ops.contains e.2 fileSet=true := by
  induction candidates generalizing first with
  | nil =>
    cases h
    exact ⟨[],[],rfl,rfl,fun f hf => (nomatch hf)⟩
  | cons f rest ih =>
    rw [Loop.purgeLoop,bind_eq_ok] at h
    obtain ⟨fileSet,hfile,h⟩ := h
    rw [mapError_eq_ok] at hfile
    simp only at h
    split at h
    · rename_i hnone
      have hall : ∀ e∈applied,c.ops.contains e.2 fileSet=true := by
        intro e he
        rw [map_eq_nil_iff,filter_eq_nil_iff] at hnone
        simpa using hnone e he
      obtain ⟨cleared,rest',hsplit,hto,hcleared⟩ := ih h
      refine ⟨f::cleared,rest',by rw [hsplit,cons_append],hto,?_⟩
      intro g hg
      cases mem_cons.mp hg with
      | inl heq =>
        rw [heq]
        exact ⟨fileSet,hfile,hall⟩
      | inr hmem => exact hcleared g hmem
    · cases h
      cases first with
      | true => exact absurd rfl hne
      | false => exact ⟨[],f::rest,rfl,rfl,fun g hg => (nomatch hg)⟩

theorem fileBeforeLoop_append {before after : List BinaryLog} {l : BinaryLog} {prev : String}
    (h : ∀ b∈before,b.name≠l.name) :
    fileBeforeLoop l.name (before++l::after) prev=((before.getLast?).map (·.name)).getD prev := by
  induction before generalizing prev with
  | nil =>
    rw [nil_append,fileBeforeLoop,if_pos rfl]
    rfl
  | cons b rest ih =>
    rw [cons_append,fileBeforeLoop,if_neg (h b mem_cons_self),
      ih fun b' hb' => h b' (mem_cons_of_mem _ hb')]
    cases rest with
    | nil => rfl
    | cons b' rest => rw [List.getLast?_cons_cons]; rfl

end

/-- A listing by sequences, with the active log at its end. -/
structure Listing (logs : List BinaryLog) : Prop where
  ascending : (logs.map (·.name)).Pairwise Before
  active : ∃ older newest,logs=older++[newest] ∧ newest.active=true ∧
    ∀ l∈older,l.active=false

theorem Listing.ne_active {logs : List BinaryLog} (h : Listing logs) {l : BinaryLog} (hl : l∈logs)
    (hclosed : l.active=false) : l.name≠(activeLog logs).name := by
  obtain ⟨older,newest,rfl,hnewest,holder⟩ := h.active
  rw [activeLog_snoc holder hnewest]
  cases mem_append.mp hl with
  | inl hold =>
    have hasc := h.ascending
    rw [map_append,pairwise_append] at hasc
    exact (hasc.2.2 l.name (mem_map_of_mem hold) newest.name (by simp)).ne
  | inr hnew =>
    rw [mem_singleton.mp hnew,hnewest] at hclosed
    cases hclosed

/-- A result's files are the listing's rotated logs in order, its frontier the last of them. -/
structure Covers (logs : List BinaryLog) (res : ArchiveResult) : Prop where
  files : res.files.map (·.name)=(archivable logs).map (·.name)
  frontier : archivable logs≠[] →
    some res.lastArchivedBinlog=(archivable logs).getLast?.map (·.name)

variable (mem : Memory) (logs : List BinaryLog)

/-- What an instance must have learnt to remember what it does. -/
def Memory.learnt : Know where
  writable := some true
  logs := logs
  flushed := mem.flushed
  archived := mem.verified.entries.map fun e => (e.1, e.2.metadata)
  scanned := mem.deferredScans.entries.map fun e => (e.1, e.2.scan)
  indexed := mem.indexed

theorem remembers_learnt : Remembers (mem.learnt logs) mem where
  flushed _ := rfl
  verified name stamp h :=
    mem_map.mpr ⟨⟨name,stamp⟩,AList.mem_lookup_iff.mp h,rfl⟩
  scans name stamp h :=
    mem_map.mpr ⟨⟨name,stamp⟩,AList.mem_lookup_iff.mp h,rfl⟩
  indexed _ h := h

theorem covers_archivePending [CaseMapping] {c : Options} {logs : List BinaryLog} {mem mem' : Memory}
    {record : List (Sigma Answer)} {res : ArchiveResult}
    (h : Routine.Ends (archivePending c logs) mem record (.ok res) mem') : Covers logs res := by
  have hkeeps := keeps_archivePending (c := c) rfl (remembers_learnt mem logs) rfl rfl
  obtain ⟨-,-,hres⟩ := Prog.Obeys.yields hkeeps h
  obtain ⟨-,-,hfiles,hfrontier⟩ := hres res rfl
  exact ⟨hfiles,hfrontier⟩

theorem Covers.limit {logs : List BinaryLog} {res : ArchiveResult} (h : Covers logs res)
    (hlogs : Listing logs) (hne : fileBefore logs res.lastArchivedBinlog ≠ "") :
    ∃ before limit after,logs=before++limit::after ∧
      fileBefore logs res.lastArchivedBinlog=limit.name ∧
      (∀ l∈before,l.active=false ∧ l.name≠res.lastArchivedBinlog) ∧
      (res.files.takeWhile (·.name≠limit.name)).map (·.name)=before.map (·.name) := by
  obtain ⟨older,newest,rfl,hnewest,holder⟩ := hlogs.active
  have harch : archivable (older++[newest])=older := archivable_snoc holder hnewest
  have hfiles := h.files
  have hfrontier := h.frontier
  have hasc := hlogs.ascending
  rw [harch] at hfiles hfrontier
  rcases eq_nil_or_concat older with rfl | ⟨init,last,hlast⟩
  · -- nothing is rotated, so nothing comes before the frontier
    refine absurd ?_ hne
    rw [nil_append,fileBefore,fileBeforeLoop]
    split
    · rfl
    · rfl
  · rw [concat_eq_append] at hlast
    subst hlast
    have hlastname : res.lastArchivedBinlog=last.name := by simpa using hfrontier (by simp)
    rw [append_assoc,singleton_append] at hasc hne ⊢
    rw [map_append,pairwise_append] at hasc
    have hbefore : ∀ l∈init, l.name≠last.name := by
      intro l hl
      exact (hasc.2.2 l.name (mem_map_of_mem hl) last.name (by simp)).ne
    have hlimit : fileBefore (init++last::[newest]) res.lastArchivedBinlog =
        (init.getLast?.map (·.name)).getD "" := by
      rw [hlastname]
      exact fileBeforeLoop_append hbefore
    rcases eq_nil_or_concat init with rfl | ⟨before,limit,hinit⟩
    · exact absurd hlimit hne
    · rw [concat_eq_append] at hinit
      subst hinit
      refine ⟨before,limit,last::[newest],by simp,by simpa using hlimit,?_,?_⟩
      · intro l hl
        rw [hlastname]
        exact ⟨holder l (by simp [hl]),hbefore l (by simp [hl])⟩
      · have hlt : ∀ n∈before.map (·.name), n≠limit.name := by
          intro n hn
          have hpair := hasc.1
          rw [map_append,pairwise_append] at hpair
          exact (hpair.2.2 n hn limit.name (by simp)).ne
        have hmap : (res.files.takeWhile (·.name≠limit.name)).map (·.name) =
            (res.files.map (·.name)).takeWhile (·≠limit.name) := by
          rw [takeWhile_map]
          rfl
        rw [hmap,hfiles,map_append,map_append,append_assoc,
          takeWhile_append_of_pos (by simpa using hlt)]
        simp

variable {c : Options} {logs : List BinaryLog} {res : ArchiveResult} {floor : Option Loop.Floor}
  {plan : Loop.PurgePlan}

theorem planPurge_eq_ok (h : Loop.planPurge c logs res floor = .ok plan) (hne : plan.upTo ≠ "") :
    fileBefore logs res.lastArchivedBinlog ≠ "" ∧ ∃ fl,floor=some fl ∧ fl.unknown=[] ∧
      (∀ e∈fl.positions,∃ set,c.ops.parse e.2 = .ok set) ∧ ∃ cleared rest,
        res.files.takeWhile (·.name≠fileBefore logs res.lastArchivedBinlog)=cleared++rest ∧
        plan.upTo=(rest.head?.map (·.name)).getD (fileBefore logs res.lastArchivedBinlog) ∧
        ∀ f∈cleared,∀ e∈fl.positions, Applied c e.2 f := by
  unfold Loop.planPurge at h
  simp only at h
  split at h
  · cases h
    exact absurd rfl hne
  · rename_i hlimit
    refine ⟨hlimit,?_⟩
    split at h
    · cases h
      exact absurd rfl hne
    · cases h
      exact absurd rfl hne
    · rename_i oldest rest fl hcandidates
      split at h
      · cases h
        exact absurd rfl hne
      · rename_i hunknown
        rw [bind_eq_ok] at h
        obtain ⟨applied,happlied,h⟩ := h
        have hparsed := parsePositions_eq_ok happlied
        have hpositions : ∀ e∈fl.positions,∃ set,c.ops.parse e.2 = .ok set ∧
            (e.1, set)∈applied := by
          intro e he
          exact hparsed e ((perm_insertionSort _ _).mem_iff.mpr he)
        obtain ⟨cleared,rest',hsplit,hto,hcleared⟩ := purgeLoop_eq_ok h hne
        refine ⟨fl,rfl,not_not.mp hunknown,?_,cleared,rest',by rw [hcandidates,hsplit],hto,?_⟩
        · intro e he
          obtain ⟨set,hset,-⟩ := hpositions e he
          exact ⟨set,hset⟩
        · intro f hf e he
          obtain ⟨fileSet,hfile,hall⟩ := hcleared f hf
          obtain ⟨set,hset,hin⟩ := hpositions e he
          exact ⟨set,fileSet,hset,hfile,hall _ hin⟩

theorem Covers.upTo (h : Covers logs res) (hlogs : Listing logs)
    (hlimit : fileBefore logs res.lastArchivedBinlog ≠ "") {cleared rest : List ArchivedFile}
    (hsplit : res.files.takeWhile (·.name≠fileBefore logs res.lastArchivedBinlog)=cleared++rest) :
    ∃ before l after,logs=before++l::after ∧
      l.name=(rest.head?.map (·.name)).getD (fileBefore logs res.lastArchivedBinlog) ∧
      (∀ b∈before,b.active=false ∧ b.name≠res.lastArchivedBinlog) ∧
      before.map (·.name)=cleared.map (·.name) := by
  obtain ⟨before,limit,after,hlisting,hname,hbefore,hfiles⟩ := h.limit hlogs hlimit
  rw [hname] at hsplit ⊢
  rw [hsplit,map_append] at hfiles
  obtain ⟨gone,kept,rfl,hgone,hkept⟩ := map_eq_append_iff.mp hfiles.symm
  cases rest with
  | nil =>
    rw [map_nil,map_eq_nil_iff] at hkept
    subst hkept
    rw [append_nil] at hlisting hbefore
    exact ⟨gone,limit,after,hlisting,rfl,hbefore,hgone⟩
  | cons f rest =>
    rw [map_cons,map_eq_cons_iff] at hkept
    obtain ⟨l,kept,rfl,hl,-⟩ := hkept
    refine ⟨gone,l,kept++limit::after,by rw [hlisting]; simp,hl,?_,hgone⟩
    intro b hb
    exact hbefore b (mem_append_left _ hb)

/-- What lies before the log a purge goes up to is archived, closed, not the frontier and applied by
every instance, all of which were observed. -/
theorem planPurge_safe [CaseMapping] (hlogs : Listing logs) {mem mem' : Memory}
    {record : List (Sigma Answer)}
    (hres : Routine.Ends (archivePending c logs) mem record (.ok res) mem') (floor : Option Loop.Floor)
    {plan : Loop.PurgePlan} (hplan : Loop.planPurge c logs res floor = .ok plan) :
    (plan.upTo ≠ "" → ∃ fl,floor=some fl ∧ ∃ before l after,logs=before++l::after ∧
      l.name=plan.upTo ∧ ∀ b∈before,b.active=false ∧ b.name≠(activeLog logs).name ∧
        b.name≠res.lastArchivedBinlog ∧ ∃ file∈res.files,file.name=b.name ∧
          ∀ e∈fl.positions,Applied c e.2 file ∧
            (c.ops=mysqlGTIDSet → gtids file.gtidSet ⊆ gtids e.2)) ∧
    (floor=none ∨ (∃ fl,floor=some fl ∧ (fl.unknown≠[] ∨
      ∃ e∈fl.positions,∀ set,c.ops.parse e.2 ≠ .ok set)) → plan.upTo = "") := by
  constructor
  · intro hne
    obtain ⟨hlimit,fl,hfl,-,-,cleared,rest,hsplit,hto,hcleared⟩ := planPurge_eq_ok hplan hne
    obtain ⟨before,l,after,hlisting,hl,hbefore,hnames⟩ :=
      (covers_archivePending hres).upTo hlogs hlimit hsplit
    refine ⟨fl,hfl,before,l,after,hlisting,hl.trans hto.symm,?_⟩
    intro b hb
    obtain ⟨hclosed,hfrontier⟩ := hbefore b hb
    have hmem : b.name∈cleared.map (·.name) := by
      rw [← hnames]
      exact mem_map_of_mem hb
    obtain ⟨file,hfile,hname⟩ := mem_map.mp hmem
    have hin : file∈res.files := by
      apply (takeWhile_sublist _).subset
      rw [hsplit]
      exact mem_append_left _ hfile
    refine ⟨hclosed,hlogs.ne_active ?_ hclosed,hfrontier,file,hin,hname,?_⟩
    · rw [hlisting]
      exact mem_append_left _ hb
    · intro e he
      have happlied := hcleared file hfile e he
      exact ⟨happlied,fun hops => happlied.mysql hops⟩
  · intro hcause
    by_contra hne
    obtain ⟨-,fl,hfl,hunknown,hparsed,-⟩ := planPurge_eq_ok hplan hne
    rcases hcause with hnone | ⟨fl',hfl',hbad | ⟨e,he,hbad⟩⟩
    · rw [hfl] at hnone
      cases hnone
    · rw [hfl] at hfl'
      cases hfl'
      exact hbad hunknown
    · rw [hfl] at hfl'
      cases hfl'
      obtain ⟨set,hset⟩ := hparsed e he
      exact hbad set hset

namespace Pair

def listing : List BinaryLog :=
  [⟨log1.name,1,false⟩,⟨log2.name,1,false⟩,⟨log3.name,1,false⟩,⟨"binlog.000004",0,true⟩]

theorem listing_listing : Listing listing where
  ascending := by
    have h12 : Before log1.name log2.name := ⟨1,2,by decide,by decide,by decide⟩
    have h13 : Before log1.name log3.name := ⟨1,3,by decide,by decide,by decide⟩
    have h14 : Before log1.name "binlog.000004" := ⟨1,4,by decide,by decide,by decide⟩
    have h23 : Before log2.name log3.name := ⟨2,3,by decide,by decide,by decide⟩
    have h24 : Before log2.name "binlog.000004" := ⟨2,4,by decide,by decide,by decide⟩
    have h34 : Before log3.name "binlog.000004" := ⟨3,4,by decide,by decide,by decide⟩
    simp [listing,h12,h13,h14,h23,h24,h34]
  active := ⟨listing.dropLast,⟨"binlog.000004",0,true⟩,rfl,rfl,by decide⟩

def manifest (l : LogName) : BinlogMetadata where
  serverUUID := "uuid-a"
  binlogName := l.name
  lastEventTime := l.seq
  clusterName := "cluster"
  instanceName := "a"
  sequence := l.seq
  firstGTID := ""
  lastGTID := ""
  gtidSet := gtidSet [l.seq]
  firstEventTime := l.seq
  sizeBytes := 1
  sha256 := ""
  archivedAt := 5

def shipped : Memory where
  verified := [log1,log2,log3].foldl (fun m l => m.insert l.name ⟨⟨1,1,1⟩,manifest l⟩) ∅
  indexed := [log1.name,log2.name,log3.name]

def shippedResult : ArchiveResult where
  lastArchivedBinlog := log3.name
  coveredGTIDSet := "u:1-3"
  lastArchivedTime := 5
  files := [log1,log2,log3].map fun l => ⟨l.name,gtidSet [l.seq]⟩

def shippedRecord : List (Sigma Answer) :=
  [⟨.ask .authority,(1,true)⟩,⟨.ask .statusExists,.ok true⟩,
    ⟨.ask .status,.ok ⟨"cluster","uuid-a","a",log3.name,"","","u:1-3",0⟩⟩] ++
  [log1,log2,log3].flatMap (fun l =>
    [⟨.ask .context,.ok ()⟩,⟨.ask (.stat l.name),.ok ⟨1,1,1⟩⟩]) ++
  [⟨.note (.archived listing shippedResult),()⟩]

/-- The first log is purged: the third is the frontier, and the other instance applied the first. -/
theorem planPurge_safe_shipped : ∃ mem' plan,
    Routine.Ends (archivePending (fleet.options .a) listing) shipped shippedRecord (.ok shippedResult)
      mem' ∧
    Loop.planPurge (fleet.options .a) listing shippedResult (some { positions := [("b", "u:1-2")] }) =
      .ok plan ∧ plan.upTo=log2.name ∧
    ∃ before l after,listing=before++l::after ∧ l.name=log2.name ∧
      ∀ b∈before,∃ file∈shippedResult.files,file.name=b.name ∧
        gtids file.gtidSet ⊆ gtids "u:1-2" := by
  have hplayed : ((archivePending (fleet.options .a) listing).run.run shipped |>.playBack
      shippedRecord).any (fun out => out.1.toOption=some shippedResult)=true := by decide +kernel
  obtain ⟨⟨out,mem'⟩,hout,hres⟩ := (Option.any_eq_true _ _).mp hplayed
  cases out with
  | error e => exact absurd hres (by simp [Except.toOption])
  | ok res =>
    have hends := Prog.yields_of_playBack hout
    cases Option.some.inj (of_decide_eq_true hres)
    have hplan : Loop.planPurge (fleet.options .a) listing shippedResult
        (some { positions := [("b", "u:1-2")] }) = .ok { upTo := log2.name } := by rfl
    refine ⟨mem',_,hends,hplan,rfl,?_⟩
    obtain ⟨fl,hfl,before,l,after,hlisting,hl,hbefore⟩ :=
      (planPurge_safe listing_listing hends _ hplan).1 (by decide)
    cases hfl
    refine ⟨before,l,after,hlisting,hl,?_⟩
    intro b hb
    obtain ⟨-,-,-,file,hfile,hname,happlied⟩ := hbefore b hb
    exact ⟨file,hfile,hname,(happlied ("b", "u:1-2") (by simp)).2 rfl⟩

end Pair

end Cnmsql.Binlog
