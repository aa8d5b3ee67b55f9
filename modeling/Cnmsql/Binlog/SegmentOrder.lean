import Cnmsql.Binlog.Integrity

namespace Cnmsql.Binlog

open Framework ObjectStore Engine Archiver List

theorem Server.before_rotated (server : Server) : (server.rotated.map (·.log.name)).Pairwise Before := by
  have hord := server.ordered
  rw [pairwise_append] at hord
  rw [pairwise_map]
  refine hord.1.imp ?_
  intro a b hlt
  exact ⟨a.log.seq,b.log.seq,a.log.parse_name,b.log.parse_name,by exact_mod_cast hlt⟩

theorem Server.Grows.getElem? {t : Time} {s s' : Server} (h : s.Grows t s') {q : Nat} {file : LogFile}
    (hq : s.rotated[q]?=some file) : s'.rotated[q]?=some file := by
  obtain ⟨hlt,-⟩ := List.getElem?_eq_some_iff.mp hq
  obtain ⟨rest,hrest⟩ := h.rotated
  rw [← hrest,List.getElem?_append_left hlt]
  exact hq

theorem Server.rotated_unique {s : Server} {q r : Nat} {a b : LogFile} (ha : s.rotated[q]?=some a)
    (hb : s.rotated[r]?=some b) (h : a.log.name=b.log.name) : q=r := by
  obtain ⟨hq,-⟩ := List.getElem?_eq_some_iff.mp ha
  obtain ⟨hr,-⟩ := List.getElem?_eq_some_iff.mp hb
  rw [← s.files_getElem?_rotated hq] at ha
  rw [← s.files_getElem?_rotated hr] at hb
  exact Server.index_unique ha hb h

theorem sublist_snoc {α : Type} {l names : List α} (hsub : l.Sublist names) {q : Nat} {n : α}
    (hq : names[q]?=some n) (hlt : ∀ x∈l,∀ r,names[r]?=some x → r<q) :
    (l++[n]).Sublist names := by
  obtain ⟨hlen,hget⟩ := List.getElem?_eq_some_iff.mp hq
  rw [← take_append_drop q names,sublist_append_iff] at hsub
  obtain ⟨before,after,rfl,hbefore,hafter⟩ := hsub
  have hnil : after=[] := by
    rw [eq_nil_iff_forall_not_mem]
    intro x hx
    obtain ⟨k,hk,hxk⟩ := mem_iff_getElem.mp (hafter.subset hx)
    have hplace : names[q+k]?=some x := by
      rw [← List.getElem?_drop,← hxk]
      exact List.getElem?_eq_getElem hk
    have := hlt x (mem_append_right _ hx) _ hplace
    omega
  rw [hnil,append_nil]
  calc (before++[n]).Sublist (names.take q++[n]) := hbefore.append (List.Sublist.refl _)
    _ = names.take (q+1) := by rw [take_succ_eq_append_getElem hlen,hget]
    List.Sublist _ names := take_sublist _ _

/-- A closed log gone from the disk and not in the listing of the pass. -/
def Gone (server : Server) (know : Know) (n : String) : Prop :=
  ∃ (q : Nat) (file : LogFile),server.rotated[q]?=some file ∧ file.log.name=n ∧ q<server.purged ∧
    n∉know.logs.map (·.name)

/-- A segment lists closed logs in order, and misses before them only logs nothing will come to
again. -/
structure Shelf (c : Options) (server : Server) (archive : Archive) (know : Know) : Prop where
  listed : (archive.listed c.serverUUID).Sublist (server.rotated.map (·.log.name))
  older : ∀ (q r : Nat) (file file' : LogFile),server.rotated[q]?=some file →
    server.rotated[r]?=some file' → q≤r → file'.log.name∈archive.listed c.serverUUID →
    file.log.name∈archive.listed c.serverUUID ∨ Gone server know file.log.name
  indexed : ∀ n∈know.indexed,n∈archive.listed c.serverUUID ∨ Gone server know n
  found : Finds archive know
  logs : know.logs=[] ∨ ∃ p r,Shows server know.logs p r

section

variable {c : Options} {server server' : Server} {archive archive' : Archive} {know know' : Know}
  {n : String}

theorem Shelf.rotated_of_listed (h : Shelf c server archive know)
    (hn : n∈archive.listed c.serverUUID) :
    ∃ (q : Nat) (file : LogFile),server.rotated[q]?=some file ∧ file.log.name=n := by
  obtain ⟨file,hfile,hname⟩ := mem_map.mp (h.listed.subset hn)
  obtain ⟨q,hq⟩ := mem_iff_getElem?.mp hfile
  exact ⟨q,file,hq,hname⟩

theorem Gone.grows {t : Time} (h : Gone server know n) (hg : server.Grows t server') :
    Gone server' know n := by
  obtain ⟨q,file,hq,hname,hlt,hlogs⟩ := h
  exact ⟨q,file,hg.getElem? hq,hname,Nat.lt_of_lt_of_le hlt hg.purged,hlogs⟩

theorem Shelf.grows {t : Time} (h : Shelf c server archive know) (hg : server.Grows t server')
    (ha : archive'.index=archive.index ∧ archive'.version=archive.version) :
    Shelf c server' archive' know := by
  have hsame : archive'.listed c.serverUUID=archive.listed c.serverUUID := by
    rw [Archive.listed,ha.1,Archive.listed]
  refine ⟨?_,?_,?_,h.found.advances (.inl ha),?_⟩
  · rw [hsame]
    exact h.listed.trans (hg.rotated.sublist.map _)
  · intro q r file file' hq hr hle hlisted
    rw [hsame] at hlisted ⊢
    -- a log that is listed was closed before, and so were the ones before it
    obtain ⟨r',old,hold,hname⟩ := h.rotated_of_listed hlisted
    have heq : r'=r := Server.rotated_unique (hg.getElem? hold) hr hname
    subst heq
    obtain ⟨hlen,-⟩ := List.getElem?_eq_some_iff.mp hold
    have hq' : server.rotated[q]?=some file := by
      rw [List.getElem?_eq_getElem (by omega)]
      rw [hg.getElem? (List.getElem?_eq_getElem (by omega))] at hq
      exact hq
    cases h.older q r' file old hq' hold hle (hname ▸ hlisted) with
    | inl hin => exact .inl hin
    | inr hgone => exact .inr (hgone.grows hg)
  · intro n hn
    rw [hsame]
    cases h.indexed n hn with
    | inl hin => exact .inl hin
    | inr hgone => exact .inr (hgone.grows hg)
  · cases h.logs with
    | inl hnil => exact .inl hnil
    | inr hshows =>
      obtain ⟨p,r,hshows⟩ := hshows
      exact .inr ⟨p,r,hshows.grows hg⟩

variable {index : ArchiveIndex}

theorem Shelf.shrink (h : Shelf c server archive know)
    (hsub : (segmentFiles c.serverUUID (some index)).Sublist (archive.listed c.serverUUID))
    (hlost : ∀ n∈archive.listed c.serverUUID,n∈segmentFiles c.serverUUID (some index) ∨ Gone server know n) :
    Shelf c server (archive.putIndex index) know := by
  refine ⟨hsub.trans h.listed,?_,?_,h.found.advances (.inr ⟨rfl,rfl⟩),h.logs⟩
  · intro q r file file' hq hr hle hlisted
    cases h.older q r file file' hq hr hle (hsub.subset hlisted) with
    | inl hin => exact hlost _ hin
    | inr hgone => exact .inr hgone
  · intro n hn
    cases h.indexed n hn with
    | inl hin => exact hlost _ hin
    | inr hgone => exact .inr hgone

theorem Shelf.relist (h : Shelf c server archive know)
    (heq : segmentFiles c.serverUUID (some index)=archive.listed c.serverUUID) :
    Shelf c server (archive.putIndex index) know := by
  apply h.shrink
  · rw [heq]
  · intro n hn
    rw [heq]
    exact .inl hn

theorem Shows.gone {p r : Nat} (h : Shows server know.logs p r) {q : Nat} {file : LogFile}
    (hq : server.rotated[q]?=some file) (hlt : q<p) : Gone server know file.log.name := by
  refine ⟨q,file,hq,rfl,Nat.lt_of_lt_of_le hlt h.purged,?_⟩
  intro hmem
  obtain ⟨hlen,-⟩ := List.getElem?_eq_some_iff.mp hq
  cases h.names _ hmem with
  | inl harch =>
    obtain ⟨l,hl,hname⟩ := mem_map.mp harch
    obtain ⟨before,after,hsplit⟩ := append_of_mem hl
    obtain ⟨file',hfile',hname',-⟩ := h.file hsplit
    have := Server.rotated_unique hq hfile' (hname.symm.trans hname'.symm)
    omega
  | inr hact =>
    obtain ⟨file',hfile',hname',-⟩ := h.active
    rw [← server.files_getElem?_rotated hlen] at hq
    have := Server.index_unique hq hfile' (hact.trans hname')
    have := h.le
    omega

section

variable (h : Shelf c server archive know)
include h

theorem Shelf.due {name : String} (hdue : Due know name) :
    ∃ (m : Nat) (file : LogFile),server.rotated[m]?=some file ∧ file.log.name=name ∧
      ∀ (q : Nat) (older : LogFile),server.rotated[q]?=some older → q < m →
      older.log.name∈archive.listed c.serverUUID ∨ Gone server know older.log.name := by
  have hname := mem_logs_of_archivable hdue.listed
  obtain ⟨before,l,after,hsplit,rfl,hbefore⟩ := hdue
  obtain ⟨p,r,hshows⟩ : ∃ p r, Shows server know.logs p r := by
    cases h.logs with
    | inl hnil =>
      rw [hnil] at hname
      cases hname
    | inr hshows => exact hshows
  obtain ⟨file,hget,hfile,-⟩ := hshows.file hsplit
  refine ⟨_,file,hget,hfile,?_⟩
  intro q older hq hlt
  by_cases hp : q<p
  · exact .inr (hshows.gone hq hp)
  · -- the log is in the listing, before the one whose turn it is
    have hk : q-p<before.length := by omega
    have hsplit' : archivable know.logs =
        before.take (q-p)++before[q-p]::(before.drop (q-p+1)++l::after) := by
      rw [hsplit,← cons_append,← append_assoc,← drop_eq_getElem_cons hk,
        take_append_drop]
    obtain ⟨older',hget',hname',-⟩ := hshows.file hsplit'
    have hplace : p+(before.take (q-p)).length=q := by
      rw [length_take]
      omega
    rw [hplace,hq,Option.some.injEq] at hget'
    rw [hget',hname']
    exact h.indexed _ (hbefore _ (getElem_mem hk))

/-- A file whose turn it is comes after everything the segment lists. -/
theorem Shelf.append {name : String} (hdue : Due know name)
    (hnot : name∉archive.listed c.serverUUID)
    (heq : segmentFiles c.serverUUID (some index)=archive.listed c.serverUUID++[name]) :
    Shelf c server (archive.putIndex index) know := by
  have hlogs := mem_logs_of_archivable hdue.listed
  obtain ⟨m,file,hm,rfl,hbefore⟩ := h.due hdue
  have hlt : ∀ n∈archive.listed c.serverUUID,∀ q,(server.rotated.map (·.log.name))[q]?=some n →
      q < m := by
    intro n hn q hq
    rw [List.getElem?_map,Option.map_eq_some_iff] at hq
    obtain ⟨listed,hq,rfl⟩ := hq
    by_contra hge
    cases h.older m q file listed hm hq (by omega) hn with
    | inl hin => exact hnot hin
    | inr hgone =>
      obtain ⟨_,_,-,-,-,hgone⟩ := hgone
      exact hgone hlogs
  refine ⟨?_,?_,?_,h.found.advances (.inr ⟨rfl,rfl⟩),h.logs⟩
  · rw [listed_putIndex,heq]
    exact sublist_snoc h.listed (by rw [List.getElem?_map,hm]; rfl) hlt
  · intro q r file₁ file₂ hq hr hle hlisted
    rw [listed_putIndex,heq,mem_append] at hlisted ⊢
    cases hlisted with
    | inl hold =>
      cases h.older q r file₁ file₂ hq hr hle hold with
      | inl hin => exact .inl (.inl hin)
      | inr hgone => exact .inr hgone
    | inr hnew =>
      have hrm : r=m := Server.rotated_unique hr hm (mem_singleton.mp hnew)
      subst hrm
      rcases Nat.lt_or_eq_of_le hle with hlt' | heq'
      · cases hbefore q file₁ hq hlt' with
        | inl hin => exact .inl (.inl hin)
        | inr hgone => exact .inr hgone
      · subst heq'
        rw [hm,Option.some.injEq] at hq
        rw [hq]
        exact .inl (.inr mem_cons_self)
  · intro n hn
    rw [listed_putIndex,heq]
    cases h.indexed n hn with
    | inl hin => exact .inl (mem_append_left _ hin)
    | inr hgone => exact .inr hgone

theorem Shelf.relearn (hfound : Finds archive know')
    (hlogs : know'.logs=[] ∨ ∃ p r,Shows server know'.logs p r)
    (hgone : ∀ n,Gone server know n → Gone server know' n)
    (hindexed : ∀ n∈know'.indexed,n∈know.indexed ∨ n∈archive.listed c.serverUUID) :
    Shelf c server archive know' := by
  refine ⟨h.listed,?_,?_,hfound,hlogs⟩
  · intro q r file file' hq hr hle hlisted
    exact (h.older q r file file' hq hr hle hlisted).imp_right (hgone _)
  · intro n hn
    cases hindexed n hn with
    | inl hold => exact (h.indexed n hold).imp_right (hgone _)
    | inr hin => exact .inl hin

theorem Shelf.forget (hlogs : know'.logs=[])
    (hfound : know'.found=none) (hindexed : ∀ n∈know'.indexed,n∈know.indexed) :
    Shelf c server archive know' := by
  apply h.relearn _ (.inl hlogs)
  · intro n hgone
    obtain ⟨q,file,hq,hname,hlt,-⟩ := hgone
    refine ⟨q,file,hq,hname,hlt,?_⟩
    rw [hlogs]
    exact not_mem_nil
  · intro n hn
    exact .inl (hindexed n hn)
  · intro index etag hf
    rw [hfound] at hf
    cases hf

end

theorem Gone.listing (h : Gone server know n) (hlogs : know'.logs=server.listing) :
    Gone server know' n := by
  obtain ⟨q,file,hq,rfl,hlt,-⟩ := h
  have hshows : Shows server know'.logs server.purged server.rotated.length := by
    rw [hlogs]
    exact shows_listing server
  exact hshows.gone hq hlt

end

variable {index : ArchiveIndex}

theorem mem_rewriteIndex {deleted : Deleted} {now : Time} {seg' : ArchiveSegment} :
    seg'∈(rewriteIndex index deleted now).segments ↔
      ∃ seg∈index.segments,¬Emptied deleted seg ∧ trimmed deleted seg=seg' := by
  simp [segments_rewriteIndex,and_assoc]

theorem apart_rewriteIndex (h : Apart index.segments) (deleted : Deleted) (now : Time) :
    Apart (rewriteIndex index deleted now).segments := by
  refine h.sublist ?_
  rw [segments_rewriteIndex,map_map]
  exact filter_sublist.map _

theorem segmentFiles_rewriteIndex (hapart : Apart index.segments) (deleted : Deleted) (now : Time)
    (u : String) :
    segmentFiles u (some (rewriteIndex index deleted now)) =
      (segmentFiles u (some index)).filter (· ∉ deletedOf deleted u) := by
  have hapart' := apart_rewriteIndex hapart deleted now
  simp only [segmentFiles,Option.bind_some,Archiver.segment]
  cases hfind : index.segments.find? (·.serverUUID=u) with
  | none =>
    have hnone : (rewriteIndex index deleted now).segments.find? (·.serverUUID=u)=none := by
      rw [List.find?_eq_none] at hfind ⊢
      intro seg' hseg'
      obtain ⟨seg,hseg,-,rfl⟩ := mem_rewriteIndex.mp hseg'
      exact hfind seg hseg
    rw [hnone]
    rfl
  | some seg =>
    obtain ⟨hseg,rfl⟩ := (find_eq_some_iff hapart).mp hfind
    by_cases hgone : Emptied deleted seg
    · have hnone : (rewriteIndex index deleted now).segments.find?
          (·.serverUUID=seg.serverUUID)=none := by
        rw [List.find?_eq_none]
        intro seg' hseg' huuid
        obtain ⟨other,hother,hkept,rfl⟩ := mem_rewriteIndex.mp hseg'
        exact hkept (inj_on_of_nodup_map hapart hother hseg (of_decide_eq_true huuid) ▸ hgone)
      rw [hnone]
      simpa using hgone.2
    · have hmem : trimmed deleted seg∈(rewriteIndex index deleted now).segments :=
        mem_rewriteIndex.mpr ⟨seg,hseg,hgone,rfl⟩
      have huuid : (trimmed deleted seg).serverUUID=seg.serverUUID := rfl
      rw [(find_eq_some_iff hapart').mpr ⟨hmem,huuid⟩]
      rfl

/-- The log is on the server's disk, or the archive lists it and has its bytes. -/
def Safe (c : Options) (server : Server) (archive : Archive) (file : LogFile) : Prop :=
  file∈server.onDisk ∨ file.log.name∈archive.listed c.serverUUID ∧
    archive.bodies.lookup (c.serverUUID,file.log.name)=some file.bytes

theorem Kept.safe {c : Options} {server : Server} {archive : Archive} (h : Kept c server archive)
    {file : LogFile} (hfile : file∈server.files) : Safe c server archive file := by
  rw [← take_append_drop server.purged server.files,mem_append] at hfile
  apply hfile.symm.imp_right
  intro hpurged
  rw [Server.files,take_append_of_le_length server.purged_le] at hpurged
  obtain ⟨k,hk,-,hlisted⟩ := h.listed
  have hin : file.log.name∈archive.listed c.serverUUID := by
    rw [hlisted]
    exact mem_map_of_mem (take_subset_take_left _ hk hpurged)
  obtain ⟨metadata,hm⟩ := h.stored _ hin
  obtain ⟨file',hfile',hname,-,-,hbody⟩ := h.manifest _ metadata hm
  rw [server.eq_of_name_eq (Server.mem_files_of_rotated hfile')
    (Server.mem_files_of_rotated (mem_of_mem_take hpurged)) hname] at hbody
  exact ⟨hin,hbody⟩

section

variable {ι : Type} {f : Fleet ι} {s s' : System ι} {a : Act ι} {i : ι} {index : ArchiveIndex}

theorem Owned.rewrite (h : Owned f index) (deleted : Deleted) (now : Time) :
    Owned f (rewriteIndex index deleted now) where
  apart := apart_rewriteIndex h.apart deleted now
  owned seg' hseg' := by
    obtain ⟨seg,hseg,-,rfl⟩ := mem_rewriteIndex.mp hseg'
    exact h.owned seg hseg

variable [CaseMapping]

/-- Whatever expires: instances keep their contract, and segments are in order. -/
structure Filed (f : Fleet ι) (s : System ι) : Prop where
  obeying : Obeying f s
  owned : ∀ index,s.archive.index=some index → Owned f index
  shelf : ∀ i,Shelf (f.options i) (s.server i) s.archive (s.nodes i).know

/-- What retention takes out of a segment is neither on disk nor in the listing of a running pass.
-/
def Spares (f : Fleet ι) (s : System ι) : List ObjectStore.Step → Prop
  | .rewriteArchiveIndex deleted _::_ => ∀ i,∀ n∈s.archive.listed (f.options i).serverUUID,
      n∈deletedOf deleted (f.options i).serverUUID →
      n∉(s.server i).onDisk.map (·.log.name) ∧ n∉(s.nodes i).know.logs.map (·.name)
  | _ => True

def Released (f : Fleet ι) (s : System ι) (a : Act ι) : Prop :=
  a.expires=true → Spares f s s.expiry

section

variable (hs : Filed f s) (hnext : (s.nodes i).nextCall=some (.putIndexIf index s.archive.etag))
include hs hnext

theorem Filed.allowed :
    IndexWrite (f.options i) (s.nodes i).know s.archive.index index := by
  obtain ⟨-,found,hfound,hwrite⟩ := hs.obeying.allowed_next hnext
  rw [((hs.shelf i).found found s.archive.etag hfound).2 rfl]
  exact hwrite

theorem shelf_write (j : ι) :
    Shelf (f.options j) (s.server j) (s.archive.putIndex index) (s.nodes j).know := by
  have hwrite := hs.allowed hnext
  by_cases hj : (f.options j).serverUUID=(f.options i).serverUUID
  · obtain rfl := f.injective hj
    cases hwrite.files_own with
    | inl hsame => exact (hs.shelf j).relist hsame
    | inr hadd =>
      obtain ⟨name,metadata,-,hdue,hnot,hadd⟩ := hadd
      exact (hs.shelf j).append hdue hnot hadd
  · exact (hs.shelf j).relist (hwrite.files_other hj)

end

theorem shelf_rewrite (hs : Filed f s) (hindex : s.archive.index=some index) {deleted : Deleted}
    {now : Time} {rest : List ObjectStore.Step}
    (hspares : Spares f s (.rewriteArchiveIndex deleted now::rest)) (t : Time) (j : ι) :
    Shelf (f.options j) (s.server j) (s.archive.putIndex (rewriteIndex index deleted t))
      (s.nodes j).know := by
  have heq := segmentFiles_rewriteIndex (hs.owned index hindex).apart deleted t (f.options j).serverUUID
  have hlisted : s.archive.listed (f.options j).serverUUID =
      segmentFiles (f.options j).serverUUID (some index) := by
    rw [Archive.listed,hindex]
  apply (hs.shelf j).shrink
  · rw [heq,hlisted]
    exact filter_sublist
  · intro n hn
    by_cases hdel : n∈deletedOf deleted (f.options j).serverUUID
    · obtain ⟨hdisk,hlogs⟩ := hspares j n hn hdel
      obtain ⟨q,file,hq,hname⟩ := (hs.shelf j).rotated_of_listed hn
      refine .inr ⟨q,file,hq,hname,?_,hlogs⟩
      -- the file would be on the disk otherwise
      by_contra hge
      apply hdisk
      refine mem_map.mpr ⟨file,?_,hname⟩
      rw [Server.onDisk_eq]
      apply mem_append_left
      rw [mem_drop_iff_getElem]
      obtain ⟨hlen,hget⟩ := List.getElem?_eq_some_iff.mp hq
      exact ⟨q-(s.server j).purged,by omega,by rw [← hget]; congr 1; omega⟩
    · rw [hlisted] at hn
      rw [heq]
      exact .inl (mem_filter.mpr ⟨hn,by simpa using hdel⟩)

variable [DecidableEq ι]

theorem shelf_stable (hs : Filed f s) (hm : Move f s a s') (ha : Released f s a) (j : ι) :
    Shelf (f.options j) (s'.server j) s'.archive (s.nodes j).know := by
  cases reindex_move hm with
  | inl hsame => exact (hs.shelf j).grows (grows_move hm j) hsame
  | inr hchange =>
    obtain ⟨hchange,hserver⟩ := hchange
    rw [hserver]
    generalize s'.archive=archive at hchange
    cases hchange with
    | write i o index next => exact shelf_write hs next j
    | rewrite deleted now rest index expiry index_eq =>
      have hspares := ha rfl
      rw [expiry] at hspares
      exact shelf_rewrite hs index_eq hspares s.clock j

omit [CaseMapping] [DecidableEq ι] in
theorem shelf_learn {o : Outside} {c : Call} {r : Answer c} {know' : Know}
    (hr : s.answer f i o c=r) (hlesson : Lesson (f.options i).serverUUID (s.nodes i).know c r know')
    (h : Shelf (f.options i) (s.serverAfter i o c) (s.archiveAfter f i o c) (s.nodes i).know) :
    Shelf (f.options i) (s.serverAfter i o c) (s.archiveAfter f i o c) know' := by
  have hfound := finds_learn hr hlesson h.found
  have hindexed := fun n => indexed_learn (n := n) hr hlesson
  cases hlesson with
  | listed logs =>
    have hr := (Outside.orFault_eq_ok.mp hr).2
    cases hr
    exact h.relearn hfound (.inr ⟨_,_,shows_listing _⟩) (fun _ hgone => hgone.listing rfl) hindexed
  | _ => exact h.relearn hfound h.logs (fun _ hgone => hgone) hindexed

theorem filed_move (hs : Filed f s) (hm : Move f s a s') (ha : Released f s a) : Filed f s' where
  obeying := obeying_step hm hs.obeying
  owned index hindex := by
    cases reindex_move hm with
    | inl hsame =>
      rw [hsame.1] at hindex
      exact hs.owned index hindex
    | inr hchange =>
      obtain ⟨hchange,-⟩ := hchange
      generalize s'.archive=archive at hchange hindex
      cases hchange with
      | write i o index' next =>
        cases hindex
        exact .write hs.owned (hs.allowed next)
      | rewrite deleted now rest index' expiry index_eq =>
        cases hindex
        exact (hs.owned index' index_eq).rewrite deleted s.clock
  shelf := by
    apply know_move (P := fun s j know => Shelf (f.options j) (s.server j) s.archive know) hm
    · intro j _
      exact shelf_stable hs hm ha j
    · intro j
      exact (shelf_stable hs hm ha j).forget rfl rfl fun _ hn => (nomatch hn)
    · intro j know h
      exact h.forget rfl rfl fun _ hn => hn
    · intro i o c k r know' _ pass heq hr hlesson
      have hstable := shelf_stable hs hm ha i
      rw [heq,server_performed,Function.update_self] at hstable ⊢
      exact shelf_learn hr hlesson hstable
    · exact hs.shelf

omit [DecidableEq ι] in
theorem filed_started (h : Started s) : Filed f s where
  obeying := (sound_started h).obeying
  owned index hindex := by
    rw [h.archive] at hindex
    cases hindex
  shelf i := by
    rw [h.archive,(h.idle i).2]
    exact ⟨nil_sublist _,fun _ _ _ _ _ _ _ hn => (nomatch hn),fun _ hn => (nomatch hn),
      fun _ _ hf => (nomatch hf),.inl rfl⟩

/-- Every segment lists closed logs of its server in order. -/
theorem segments_ascending (h : Started s) {as : List (Act ι)} {t : System ι}
    (hrun : Along (step f) (fun s a _ => Released f s a) s as) (ht : exec (step f) s as=some t)
    {index : ArchiveIndex} (hindex : t.archive.index=some index) {seg : ArchiveSegment}
    (hseg : seg∈index.segments) :
    seg.binlogs.Pairwise Before ∧ ∃ i,(f.options i).serverUUID=seg.serverUUID ∧
      seg.binlogs.Sublist ((t.server i).rotated.map (·.log.name)) := by
  have hs : Filed f t := by
    apply exec_invariant (I := Filed f) _ hrun ht (filed_started h)
    intro s a s' hstep ha hs
    exact filed_move hs (move_of_step hstep) ha
  have howned := hs.owned index hindex
  obtain ⟨i,hi⟩ := howned.owned seg hseg
  have hlisted := (hs.shelf i).listed
  rw [hi,listed_of_mem hindex howned.apart hseg] at hlisted
  exact ⟨(t.server i).before_rotated.sublist hlisted,i,hi,hlisted⟩

/-- Purging loses nothing: in every run without expiry each log ever written is safe. -/
theorem logs_safe (h : Started s) {as : List (Act ι)} {t : System ι}
    (hrun : Along (step f) (fun _ a _ => a.expires=false) s as)
    (ht : exec (step f) s as=some t) (i : ι) :
    ∀ file∈(t.server i).files,Safe (f.options i) (t.server i) t.archive file := by
  have hs : Sound f t := by
    apply exec_invariant (I := Sound f) _ hrun ht (sound_started h)
    intro s a s' hstep ha hs
    exact sound_move hs (move_of_step hstep) ha
  exact fun file => (hs.kept i).safe

end

namespace Pair

instance (P : Member → Prop) [DecidablePred P] : Decidable (∀ i, P i) :=
  decidable_of_iff (P .a ∧ P .b)
    ⟨fun h i => match i with | .a => h.1 | .b => h.2,fun h => ⟨h .a,h .b⟩⟩

variable (f : Fleet Member) (s : System Member)

instance : ∀ steps,Decidable (Spares f s steps)
  | .rewriteArchiveIndex _ _::_ => inferInstanceAs (Decidable (∀ _,∀ n∈_,_ → _ ∧ _))
  | .remove _::_ => isTrue trivial
  | [] => isTrue trivial

instance (a : Act Member) : Decidable (Released f s a) :=
  inferInstanceAs (Decidable (_ → Spares _ _ _))

def writes (txns : List (UInt8 × LogName)) : List (Act Member) :=
  txns.flatMap fun e => [.commit .a [e.1],.rotate .a { log := e.2 }]

def retention : List (Act Member) :=
  [.plan [⟨"old",⟨"old",1,2⟩⟩,⟨"new",⟨"new",5,6⟩⟩] 4,.expire,.expire,.expire]

def purging : Fleet Member where
  options i := { fleet.options i with purge := true }
  injective _ _ h := fleet.injective h

/-- Three logs are archived and the first is purged before retention takes it out. -/
def purgedRun : List (Act Member) :=
  [.advance 10]++writes [(1,log2),(8,log3),(9,log4)]++[.start .a] ++
    calls .a 63 { positions := some ([], []) } ++ [.restart .a]++retention

theorem segments_ascending_purgedRun : ∃ t index seg,
    exec (step purging) initial purgedRun=some t ∧ t.archive.index=some index ∧
    seg∈index.segments ∧ seg.binlogs=["binlog.000002","binlog.000003"] ∧
    seg.binlogs.Pairwise Before := by
  obtain ⟨t,ht,htest⟩ : ∃ t,exec (step purging) initial purgedRun=some t ∧
      (t.archive.index.any fun index => index.segments.any fun seg =>
        seg.binlogs=["binlog.000002","binlog.000003"])=true :=
    exec_reaches (by decide +kernel)
  obtain ⟨index,hindex,htest⟩ := (Option.any_eq_true _ _).mp htest
  obtain ⟨seg,hseg,htest⟩ := any_eq_true.mp htest
  have hrun : Along (step purging) (fun s a _ => Released purging s a) initial purgedRun := by
    decide +kernel
  exact ⟨t,index,seg,ht,hindex,hseg,of_decide_eq_true htest,
    (segments_ascending started_initial hrun ht hindex hseg).1⟩

theorem logs_safe_purgedRun : ∃ t,exec (step purging) initial (purgedRun.take 71)=some t ∧
    (t.server .a).purged=1 ∧
    ∀ file∈(t.server .a).files,Safe (purging.options .a) (t.server .a) t.archive file := by
  obtain ⟨t,ht,htest⟩ : ∃ t,exec (step purging) initial (purgedRun.take 71)=some t ∧
      decide ((t.server .a).purged=1)=true := exec_reaches (by decide +kernel)
  exact ⟨t,ht,of_decide_eq_true htest,logs_safe started_initial (by decide +kernel) ht .a⟩

/-- Retention takes the first of two logs out while it is on disk; the restarted archiver archives
it again, behind the second. -/
def rearchivedRun : List (Act Member) :=
  [.advance 10]++writes [(1,log2),(9,log3)]++[.start .a]++calls .a 45++retention ++
    [.restart .a,.start .a]++calls .a 23

theorem segments_rearchivedRun : Started initial ∧ ∃ t index seg,
    exec (step fleet) initial rearchivedRun=some t ∧ t.archive.index=some index ∧
    seg∈index.segments ∧ seg.binlogs=["binlog.000002","binlog.000001"] ∧
    ¬ seg.binlogs.Pairwise Before := by
  refine ⟨started_initial,?_⟩
  obtain ⟨t,ht,htest⟩ : ∃ t,exec (step fleet) initial rearchivedRun=some t ∧
      (t.archive.index.any fun index => index.segments.any fun seg =>
        seg.binlogs=["binlog.000002","binlog.000001"])=true :=
    exec_reaches (by decide +kernel)
  obtain ⟨index,hindex,htest⟩ := (Option.any_eq_true _ _).mp htest
  obtain ⟨seg,hseg,htest⟩ := any_eq_true.mp htest
  have hbinlogs : seg.binlogs=["binlog.000002","binlog.000001"] := of_decide_eq_true htest
  refine ⟨t,index,seg,ht,hindex,hseg,hbinlogs,?_⟩
  rw [hbinlogs,pairwise_pair]
  intro hbefore
  obtain ⟨a,b,ha,hb,hlt⟩ := hbefore
  have hsecond := log2.parse_name.symm.trans ha
  have hfirst := log1.parse_name.symm.trans hb
  cases hsecond
  cases hfirst
  exact absurd hlt (by decide)

end Pair

end Cnmsql.Binlog
