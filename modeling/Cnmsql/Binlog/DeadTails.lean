import Cnmsql.Binlog.ForkCuts
import Cnmsql.Binlog.TimelineFolding
import Cnmsql.Engine.MariaReigns

namespace Cnmsql.Binlog

open Framework ObjectStore Engine List

section

variable {d : UInt32} {cuts : Map String Nat}
  (disk : String → List TxnBoundary) (files : List PositionalFile) (u : String)
  (b : TxnBoundary)

/-- A transaction that replaying a segment's files brings back. -/
def Carries : Prop :=
  ∃ f∈files,f.segment=u ∧ b∈below f.endPos (disk f.path)

instance : Decidable (Carries disk files u b) :=
  inferInstanceAs (Decidable (∃ f∈files,_))

structure Downloads (d : UInt32) (u : String) (files : List PositionalFile) : Prop where
  runs : ∀ f∈files,f.segment=u → Run d f.boundaries
  whole : ∀ f∈files,f.segment=u → f.endPos=0
  disk : ∀ f∈files,f.segment=u → disk f.path=f.boundaries
  ordered : Ordered (files.filter (·.segment=u))

variable {disk : String → List TxnBoundary} {files : List PositionalFile}

theorem carries_iff {u : String} (h : ∀ f∈files,f.segment=u → Readable disk d f)
    (b : TxnBoundary) :
    Carries disk files u b ↔ ∃ f∈files,f.segment=u ∧ b∈f.boundaries := by
  apply exists_congr
  intro f
  refine and_congr_right fun hf => and_congr_right fun hu => ?_
  rw [← (h f hf hu).cut]

theorem carries_cutFiles {u : String} (h : Downloads disk d u files) (b : TxnBoundary) :
    Carries disk (cutFiles d cuts [] files) u b ↔
      Carries disk files u b ∧ ∀ c∈cuts.lookup u, b.seq≤c := by
  have huncut : ∀ f∈files,f.segment=u → Readable disk d f := fun f hf hu =>
    readable_of_whole (h.runs f hf hu) (h.whole f hf hu) (h.disk f hf hu)
  rw [carries_iff (readable_cutFiles h.runs h.whole h.disk []),carries_iff huncut,
    mem_cutFiles cuts h.runs h.ordered [] (by simp)]
  unfold KeptBy
  constructor
  · intro hb
    obtain ⟨f,hf,hseg,hb,hle⟩ := hb
    exact ⟨⟨f,hf,hseg,hb⟩,hle⟩
  · intro hb
    obtain ⟨⟨f,hf,hseg,hb⟩,hle⟩ := hb
    exact ⟨f,hf,hseg,hb,hle⟩

end

/-- No fork record holds the target: the recovery stays on the surviving timeline. -/
def OnNoFork (segs : List ReplaySegment) (d : UInt32) (target : Option MariaDBGTID) : Prop :=
  ∀ g∈target,∀ s∈segs,holdsTarget d g s=none

theorem branchHolder_of_onNoFork {segs : List ReplaySegment} {d : UInt32}
    {target : Option MariaDBGTID} (h : OnNoFork segs d target) : branchHolder segs d target=("", 0) := by
  unfold branchHolder
  cases target with
  | none => rfl
  | some g =>
    simp only
    have hnone : (segs.findSome? fun s => (holdsTarget d g s).map (s.serverUUID, ·))=none := by
      rw [List.findSome?_eq_none_iff]
      intro s hs
      rw [h g rfl s hs]
      rfl
    rw [hnone]
    rfl

/-- One incarnation's binary log: the surviving history up to `last`, then `lost` transactions of
its own. -/
structure Incarnation where
  server : UInt32
  last : Nat
  lost : Nat
  deriving DecidableEq

namespace Incarnation

def stop (i : Incarnation) : Nat := i.last+i.lost

variable (i : Incarnation) (hist : List UInt32)

/-- The surviving history holds none of the log's lost transactions. -/
structure Beside : Prop where
  last_le : i.last≤hist.length
  stop_lt : i.stop<2^64
  lost : ∀ seq,i.last<seq → seq ≤ i.stop → authorAt hist seq≠some i.server

def author (seq : Nat) : Option UInt32 :=
  if seq ≤ i.last then authorAt hist seq else some i.server

def position : Option MariaEntry :=
  if i.lost=0 then lastOf (hist.take i.last) else some ⟨i.server,UInt64.ofNat i.stop⟩

variable {i : Incarnation} {hist : List UInt32}

theorem Beside.survives_iff (h : i.Beside hist) {b : TxnBoundary} (hstop : b.seq ≤ i.stop)
    (hauthor : i.author hist b.seq=some b.server) :
    authorAt hist b.seq=some b.server ↔ b.seq ≤ i.last := by
  rw [author] at hauthor
  split_ifs at hauthor with hle
  · exact iff_of_true hauthor hle
  · rw [← hauthor]
    exact iff_of_false (h.lost b.seq (by omega) hstop) hle

theorem Beside.author_position (h : i.Beside hist) (hlost : i.lost=0) {g : MariaEntry}
    (hg : i.position hist=some g) : authorAt hist g.seq.toNat=some g.server := by
  have hlen : (hist.take i.last).length=i.last := by simp [h.last_le]
  have hwidth : i.last<2^64 := by
    have := h.stop_lt
    rw [stop] at this
    omega
  rw [position,if_pos hlost] at hg
  have hne : hist.take i.last≠[] := by
    intro hnil
    rw [hnil] at hg
    cases hg
  have hreached := reached_lastOf _ (hlen.trans_lt hwidth)
  have hauthor := author_lastOf hne
  rw [hg,Option.getD_some] at hreached hauthor
  rw [hreached,hlen,← hauthor,hlen]
  exact (authorAt_initial ( take_prefix _ _) hlen.ge).symm

end Incarnation

theorem map_serverUUID {segs segs' : List ArchiveSegment}
    (h : List.Forall₂ (fun seg seg' => seg'.serverUUID=seg.serverUUID) segs segs') :
    segs'.map (·.serverUUID)=segs.map (·.serverUUID) := by
  induction h with
  | nil => rfl
  | cons hsame _ ih => rw [map_cons,map_cons,hsame,ih]

section

variable [CaseMapping] {idx : ArchiveIndex} {seg : ArchiveSegment} {d : UInt32} {seed : List UInt32}
  {rs : List Reign} {i : Incarnation} {files : List PositionalFile}
  {disk : String → List TxnBoundary}

/-- What a restore keeps of a segment: what record and verdict spare. -/
theorem restore_keeps (hparse : ∀ s∈idx.segments,∃ p,parseMariaPos s.gtidSet = .ok p)
    (hdistinct : (idx.segments.map (·.serverUUID)).Nodup) (hseg : seg∈idx.segments) {p : MariaPos}
    (hp : parseMariaPos seg.gtidSet = .ok p)
    (hfiles : Downloads disk d seg.serverUUID files) :
    ∃ folded,applyArchiveTimeline idx = .ok folded ∧ ∀ target,
      OnNoFork (folded.segments.map replaySegment) d target → ∀ b,
        Carries disk (applyMariadbForks files (folded.segments.map replaySegment) d target)
            seg.serverUUID b ↔
          Carries disk files seg.serverUUID b ∧ (∀ cut∈forkCut (replaySegment seg) d,b.seq≤cut) ∧
            ∀ cut∈(p.lookup d).bind ((engineTimeline idx.mariadbTimeline).deadAfter d),
              b.seq≤cut.toNat := by
  obtain ⟨folded,hfold,hsegs⟩ := applyArchiveTimeline_folds hparse
  refine ⟨folded,hfold,?_⟩
  intro target htarget b
  obtain ⟨seg',hseg',huuid,hspares⟩ := exists_of_forall₂ hsegs hseg
  have huuids := map_serverUUID (hsegs.imp fun _ _ h => h.1)
  have hid : Identified (folded.segments.map replaySegment) := by
    intro s hs s' hs' hsame
    obtain ⟨a,ha,rfl⟩ := mem_map.mp hs
    obtain ⟨a',ha',rfl⟩ := mem_map.mp hs'
    rw [← huuids] at hdistinct
    rw [inj_on_of_nodup_map hdistinct ha ha' hsame]
  have hlook := lookup_segmentCuts hid (mem_map_of_mem hseg') d target
  rw [branchHolder_of_onNoFork htarget] at hlook
  have hcut : cutOf d "" 0 (replaySegment seg')=forkCut (replaySegment seg') d := rfl
  have hsame : (replaySegment seg').serverUUID=seg.serverUUID := huuid
  rw [hcut,hsame] at hlook
  rw [applyMariadbForks,carries_cutFiles hfiles,hlook,hspares p hp d b.seq]

/-- Recovery with a complete timeline. A segment without lost transactions is kept, and so is every
segment when some primary inherited less than its predecessor. Otherwise a segment is cut where the
last reign of the lost transactions' author ended, if it has been out since; when it lost them from
there on, exactly what survived is kept. -/
theorem deadTail_cut (hfollow : Follow seed rs) (hseed : seed.length<2^64)
    (htimeline : List.Forall₂ Takeover.RecordedBy (takeovers d seed rs)
      (engineTimeline idx.mariadbTimeline))
    (hparse : ∀ s∈idx.segments,∃ p,parseMariaPos s.gtidSet = .ok p)
    (hdistinct : (idx.segments.map (·.serverUUID)).Nodup) (hseg : seg∈idx.segments)
    (hi : i.Beside (survivors seed rs))
    (hpos : Reads seg.gtidSet fun d' => if d'=d then i.position (survivors seed rs) else none)
    (hfiles : Downloads disk d seg.serverUUID files)
    (hlog : ∀ b,Carries disk files seg.serverUUID b →
      b.seq ≤ i.stop ∧ i.author (survivors seed rs) b.seq=some b.server) :
    ∃ folded,applyArchiveTimeline idx = .ok folded ∧ ∀ target,
      OnNoFork (folded.segments.map replaySegment) d target → ∀ b,
        let kept := Carries disk (applyMariadbForks files (folded.segments.map replaySegment) d target)
          seg.serverUUID b
        let spared := Carries disk files seg.serverUUID b ∧
          ∀ cut∈forkCut (replaySegment seg) d,b.seq≤cut
        (i.lost=0 ∨ ¬OneChain rs → (kept ↔ spared)) ∧
        (i.lost≠0 → OneChain rs → ∀ left ≤ i.last,OutSince i.server i.stop left rs →
          (kept ↔ spared ∧ b.seq≤left)) ∧
        ((∀ cut∈forkCut (replaySegment seg) d,i.last≤cut) →
          i.lost=0 ∨ OneChain rs ∧ OutSince i.server i.stop i.last rs →
          (kept ↔ Carries disk files seg.serverUUID b ∧
            authorAt (survivors seed rs) b.seq=some b.server)) := by
  obtain ⟨p,hp,hlookup⟩ := hpos
  have hd : p.lookup d=i.position (survivors seed rs) := (hlookup d).trans (if_pos rfl)
  obtain ⟨folded,hfold,hkeeps⟩ := restore_keeps hparse hdistinct hseg hp hfiles
  refine ⟨folded,hfold,?_⟩
  intro target htarget b kept spared
  have hkept : kept ↔ spared ∧ ∀ cut∈(i.position (survivors seed rs)).bind
      ((engineTimeline idx.mariadbTimeline).deadAfter d), b.seq≤cut.toNat := by
    rw [← hd,and_assoc]
    exact hkeeps target htarget b
  have hwhole : i.lost=0 ∨ ¬OneChain rs → (kept ↔ spared) := by
    intro h
    have hnone : ∀ g,i.position (survivors seed rs)=some g →
        (engineTimeline idx.mariadbTimeline).deadAfter d g=none := by
      intro g hg
      cases h with
      | inl hlost =>
        exact MariaDBTimeline.deadAfter_of_survivor htimeline hfollow hseed g
          (hi.author_position hlost hg)
      | inr hback => exact MariaDBTimeline.deadAfter_of_goesBack htimeline hfollow hback g
    rw [hkept]
    apply and_iff_left
    intro cut hcut
    obtain ⟨g,hg,hdead⟩ := Option.bind_eq_some_iff.mp hcut
    rw [hnone g hg] at hdead
    cases hdead
  have hcut : i.lost≠0 → OneChain rs → ∀ left,OutSince i.server i.stop left rs →
      (kept ↔ spared ∧ b.seq≤left) := by
    intro hlost hchain left hout
    have hstop : (UInt64.ofNat i.stop).toNat=i.stop := UInt64.toNat_ofNat_of_lt' hi.stop_lt
    obtain ⟨cut,hdead,hleft⟩ := MariaDBTimeline.deadAfter_of_outSince (g := ⟨i.server,UInt64.ofNat i.stop⟩)
      htimeline hfollow hchain (hstop.symm ▸ hout)
    rw [hkept,Incarnation.position,if_neg hlost,Option.bind_some,hdead]
    simp [hleft]
  refine ⟨hwhole,fun hlost hchain left _ => hcut hlost hchain left,?_⟩
  intro hrecord h
  have hcarried : ∀ h : Carries disk files seg.serverUUID b,
      authorAt (survivors seed rs) b.seq=some b.server ↔ b.seq ≤ i.last :=
    fun h => hi.survives_iff (hlog b h).1 (hlog b h).2
  have hspared : spared ∧ b.seq ≤ i.last ↔
      Carries disk files seg.serverUUID b ∧ authorAt (survivors seed rs) b.seq=some b.server := by
    constructor
    · intro hs
      exact ⟨hs.1.1,(hcarried hs.1.1).mpr hs.2⟩
    · intro hs
      have hle := (hcarried hs.1).mp hs.2
      exact ⟨⟨hs.1,fun cut hc => hle.trans (hrecord cut hc)⟩,hle⟩
  rw [← hspared]
  by_cases hlost : i.lost=0
  · rw [hwhole (.inl hlost),iff_self_and]
    intro hs
    have := (hlog b hs.1).1
    rw [Incarnation.stop] at this
    omega
  · obtain ⟨hchain,hout⟩ := h.resolve_left hlost
    exact hcut hlost hchain i.last hout

end

def logFrom (first : Nat) (authors : List UInt32) : List TxnBoundary :=
  authors.zipIdx.map fun s => ⟨0,s.1,first+s.2,256+100*s.2,0⟩

def laggedReigns : List Reign := [⟨1,0,5⟩,⟨2,3,3⟩]

def laggedIndex : ArchiveIndex where
  segments := [{ serverUUID := "a", gtidSet := "0-1-5" },{ serverUUID := "b", gtidSet := "0-2-6" }]
  mariadbTimeline := [{ serverID := 1 },{ serverID := 2, handoff := "0-1-3" }]

def rolledBackReigns : List Reign := [⟨1,0,5⟩,⟨2,5,1⟩,⟨3,3,2⟩]

def rolledBackIndex : ArchiveIndex where
  segments := [{ serverUUID := "a", gtidSet := "0-1-5" }]
  mariadbTimeline := [{ serverID := 1 },{ serverID := 2, handoff := "0-1-5" },
    { serverID := 3, handoff := "0-1-3" }]

def forkedFiles : List PositionalFile := [⟨"a_1","a",logFrom 1 [1,1,1,1,1],0⟩]

def forkedDisk (_ : String) : List TxnBoundary := logFrom 1 [1,1,1,1,1]

def forkedIncarnation : Incarnation := ⟨1,3,2⟩

theorem forkedFiles_downloads : Downloads forkedDisk 0 "a" forkedFiles where
  runs := by decide
  whole := by decide
  disk := by decide
  ordered := by simp [Ordered,forkedFiles]

theorem carries_forkedFiles {b : TxnBoundary} :
    Carries forkedDisk forkedFiles "a" b ↔ b∈logFrom 1 [1,1,1,1,1] := by
  simp [Carries,forkedFiles,forkedDisk,below]

variable {hist : List UInt32}

theorem forked_beside (hlen : 3≤hist.length) (hfour : authorAt hist 4≠some 1)
    (hfive : authorAt hist 5≠some 1) :
    forkedIncarnation.Beside hist where
  last_le := hlen
  stop_lt := by decide
  lost := by
    intro seq hlo hhi
    have hseq : seq=4 ∨ seq=5 := by
      simp only [forkedIncarnation,Incarnation.stop] at hlo hhi
      omega
    cases hseq with
    | inl h => rwa [h]
    | inr h => rwa [h]

theorem recorded_handoff {r : Takeover} {epoch : MariaDBEpoch} (hserver : epoch.serverID=r.server)
    (hsole : ∀ d,d≠0 → r.inherited d=none) (hr : readsSole epoch.handoff (r.inherited 0)=true) :
    r.RecordedBy epoch :=
  ⟨hserver,reads_of_sole _ _ hsole hr⟩

theorem forked_log
    (h : ∀ b∈logFrom 1 [1,1,1,1,1],b.seq≤forkedIncarnation.stop ∧ forkedIncarnation.author hist b.seq=some b.server)
    (b : TxnBoundary) (hb : Carries forkedDisk forkedFiles "a" b) :
    b.seq≤forkedIncarnation.stop ∧ forkedIncarnation.author hist b.seq=some b.server :=
  h b (carries_forkedFiles.mp hb)

theorem forked_reads (h : readsSole "0-1-5" (forkedIncarnation.position hist)=true) :
    Reads "0-1-5" fun d => if d=0 then forkedIncarnation.position hist else none :=
  reads_of_sole _ _ (fun _ hd => if_neg hd) h

theorem parse_of_all {idx : ArchiveIndex}
    (h : ∀ s∈idx.segments,(parseMariaPos s.gtidSet).isOk=true) :
    ∀ s∈idx.segments,∃ p,parseMariaPos s.gtidSet = .ok p :=
  fun s hs => exists_ok _ (h s hs)

/-- Of the log of server 1, transactions 4 and 5 are left out. -/
theorem deadTail_cut_lagged :
    ∃ folded,applyArchiveTimeline laggedIndex = .ok folded ∧ ∀ b,
      Carries forkedDisk (applyMariadbForks forkedFiles (folded.segments.map replaySegment) 0 none)
          "a" b ↔
        Carries forkedDisk forkedFiles "a" b ∧
          authorAt (survivors [] laggedReigns) b.seq=some b.server := by
  have hrec : List.Forall₂ Takeover.RecordedBy (takeovers 0 [] laggedReigns)
      (engineTimeline laggedIndex.mariadbTimeline) :=
    .cons (recorded_handoff rfl (fun d hd => if_neg hd) (by decide +kernel))
      (.cons (recorded_handoff rfl (fun d hd => if_neg hd) (by decide +kernel)) .nil)
  have hout : OutSince 1 5 3 laggedReigns :=
    ⟨⟨2,3,3⟩,[],rfl,by decide,by decide,.inr ⟨[],⟨1,0,5⟩,rfl,rfl⟩⟩
  obtain ⟨folded,hfold,hcut⟩ := @deadTail_cut _ laggedIndex
    { serverUUID := "a", gtidSet := "0-1-5" } 0 [] laggedReigns forkedIncarnation forkedFiles forkedDisk
    (by decide) (by decide) hrec (parse_of_all (by decide +kernel)) (by decide) (by decide)
    (forked_beside (by decide) (by decide) (by decide)) (forked_reads (by decide +kernel))
    forkedFiles_downloads (forked_log (by decide))
  exact ⟨folded,hfold,fun b => (hcut none (by simp [OnNoFork]) b).2.2 (by decide)
    (.inr ⟨by decide,hout⟩)⟩

/-- A primary inherited less than its predecessor: nothing is cut, and 4 and 5 of server 1 come
back. -/
theorem deadTail_kept :
    ¬∀ (idx : ArchiveIndex) (seg : ArchiveSegment) (d : UInt32) (rs : List Reign) (i : Incarnation)
      (files : List PositionalFile) (disk : String → List TxnBoundary),
      Follow [] rs →
      List.Forall₂ Takeover.RecordedBy (takeovers d [] rs) (engineTimeline idx.mariadbTimeline) →
      (∀ s∈idx.segments,∃ p,parseMariaPos s.gtidSet = .ok p) →
      (idx.segments.map (·.serverUUID)).Nodup → seg∈idx.segments → seg.fork=none →
      i.Beside (survivors [] rs) →
      (Reads seg.gtidSet fun d' => if d'=d then i.position (survivors [] rs) else none) →
      Downloads disk d seg.serverUUID files →
      (∀ b,Carries disk files seg.serverUUID b →
        b.seq ≤ i.stop ∧ i.author (survivors [] rs) b.seq=some b.server) →
      ∃ folded,applyArchiveTimeline idx = .ok folded ∧ ∀ b,
        Carries disk (applyMariadbForks files (folded.segments.map replaySegment) d none)
            seg.serverUUID b ↔
          Carries disk files seg.serverUUID b ∧
            authorAt (survivors [] rs) b.seq=some b.server := by
  intro hall
  have hrec : List.Forall₂ Takeover.RecordedBy (takeovers 0 [] rolledBackReigns)
      (engineTimeline rolledBackIndex.mariadbTimeline) :=
    .cons (recorded_handoff rfl (fun d hd => if_neg hd) (by decide +kernel))
      (.cons (recorded_handoff rfl (fun d hd => if_neg hd) (by decide +kernel))
        (.cons (recorded_handoff rfl (fun d hd => if_neg hd) (by decide +kernel)) .nil))
  obtain ⟨folded,hfold,hkeeps⟩ := hall rolledBackIndex { serverUUID := "a", gtidSet := "0-1-5" } 0
    rolledBackReigns forkedIncarnation forkedFiles forkedDisk (by decide) hrec
    (parse_of_all (by decide +kernel)) (by decide) (by decide) rfl
    (forked_beside (by decide) (by decide) (by decide)) (forked_reads (by decide +kernel))
    forkedFiles_downloads (forked_log (by decide))
  have hsame : applyArchiveTimeline rolledBackIndex = .ok rolledBackIndex := by decide +kernel
  cases hsame.symm.trans hfold
  have hback : Carries forkedDisk (applyMariadbForks forkedFiles
      (rolledBackIndex.segments.map replaySegment) 0 none) "a" ⟨0,1,4,556,0⟩ := by decide +kernel
  have hlost : authorAt (survivors [] rolledBackReigns) 4≠some 1 := by decide
  exact hlost ((hkeeps _).mp hback).2

end Cnmsql.Binlog
