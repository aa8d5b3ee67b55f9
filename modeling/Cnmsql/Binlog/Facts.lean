import Cnmsql.Binlog.Moves

namespace Cnmsql.Binlog

open Framework ObjectStore Archiver List

namespace Server

variable {t : Time} {s s' : Server}

theorem Grows.take (h : s.Grows t s') {r : Nat} (hr : r ≤ s.rotated.length) :
    s'.rotated.take r=s.rotated.take r := by
  obtain ⟨rest,hrest⟩ := h.rotated
  rw [← hrest,take_append_of_le_length hr]

variable {file : LogFile}

theorem Grows.mem (h : s.Grows t s') (hf : file∈s.rotated) : file∈s'.rotated :=
  h.rotated.subset hf

theorem mem_files_of_rotated (hf : file∈s.rotated) : file∈s.files :=
  mem_append_left _ hf

theorem index_unique {q r : Nat} {a b : LogFile} (ha : s.files[q]?=some a)
    (hb : s.files[r]?=some b) (h : a.log.name=b.log.name) : q=r := by
  obtain ⟨hq,-⟩ := List.getElem?_eq_some_iff.mp ha
  have heq : a=b := s.eq_of_name_eq (mem_of_getElem? ha) (mem_of_getElem? hb) h
  rw [← heq,← ha] at hb
  exact (List.getElem?_inj hq (List.Nodup.of_map _ s.seqs_nodup)).mp hb.symm

theorem position_of_getElem? {q : Nat} {a : LogFile} (ha : s.files[q]?=some a)
    (h : (s.file a.log.name).isSome) : s.position a.log.name=q := by
  obtain ⟨b,hb⟩ := Option.isSome_iff_exists.mp h
  exact index_unique (getElem?_position hb) ha (file_eq_some hb).2

theorem purged_le_position {name : String} (h : s.file name=some file) :
    s.purged ≤ s.position name := by
  obtain ⟨hmem,hname⟩ := file_eq_some h
  obtain ⟨k,hk,hget⟩ := mem_iff_getElem.mp hmem
  have hq : s.files[s.purged+k]?=some file := by
    rw [← hget,← List.getElem?_drop]
    exact List.getElem?_eq_getElem hk
  rw [index_unique (getElem?_position h) hq rfl]
  exact Nat.le_add_right _ _

theorem grows_purgeTo {name : String} (h : s.purgeTo name=some s') (t : Time) : s.Grows t s' := by
  rw [purgeTo,Option.ite_none_right_eq_some] at h
  obtain ⟨hfile,h⟩ := h
  cases h
  obtain ⟨file,hfile⟩ := Option.isSome_iff_exists.mp hfile
  refine ⟨prefix_refl _,purged_le_position hfile,fun q f hq => ⟨f,hq,.refl t f⟩,?_⟩
  intro q f' hnone hsome
  have hsome' : s.files[q]?=some f' := hsome
  rw [hnone] at hsome'
  cases hsome'

end Server

/-- A listing shows the logs from the `p`-th to the `r`-th, the active one. -/
structure Shows (s : Server) (logs : List BinaryLog) (p r : Nat) : Prop where
  le : p≤r
  purged : p ≤ s.purged
  rotated : r ≤ s.rotated.length
  closed : archivable logs=((s.rotated.take r).drop p).map LogFile.row
  active : ∃ file,s.files[r]?=some file ∧ (activeLog logs).name=file.log.name ∧
    (activeLog logs).sizeBytes≤file.bytes.length
  names : ∀ n∈logs.map (·.name),
    n∈(archivable logs).map (·.name) ∨ n=(activeLog logs).name

theorem shows_listing (s : Server) : Shows s s.listing s.purged s.rotated.length where
  le := s.purged_le
  purged := Nat.le_refl _
  rotated := Nat.le_refl _
  closed := by
    rw [s.archivable_listing,take_length]
  active := by
    refine ⟨s.active,s.files_getElem?_active,?_⟩
    rw [s.activeLog_listing]
    exact ⟨rfl,Int.le_refl _⟩
  names := by
    rw [s.archivable_listing,s.activeLog_listing,s.listing_eq]
    intro n hn
    rw [map_append,mem_append] at hn
    cases hn with
    | inl hrot => exact .inl hrot
    | inr hact => exact .inr (by simpa using hact)

variable {logs : List BinaryLog}

theorem Shows.grows {s s' : Server} {t : Time} {p r : Nat} (h : Shows s logs p r)
    (hg : s.Grows t s') : Shows s' logs p r where
  le := h.le
  purged := Nat.le_trans h.purged hg.purged
  rotated := Nat.le_trans h.rotated hg.rotated.length_le
  closed := by
    rw [hg.take h.rotated]
    exact h.closed
  active := by
    obtain ⟨file,hfile,hname,hsize⟩ := h.active
    obtain ⟨file',hfile',hext⟩ := hg.kept r file hfile
    refine ⟨file',hfile',by rw [hext.log,hname],?_⟩
    have := hext.size
    omega
  names := h.names

theorem Shows.file {s : Server} {logs : List BinaryLog} {p r : Nat} (h : Shows s logs p r)
    {before after : List BinaryLog} {l : BinaryLog}
    (hsplit : archivable logs=before++l::after) :
    ∃ file,s.rotated[p+before.length]?=some file ∧ file.log.name=l.name ∧
      p+before.length<r := by
  rw [h.closed] at hsplit
  have hget : (((s.rotated.take r).drop p).map LogFile.row)[before.length]?=some l := by
    rw [hsplit]
    simp
  rw [List.getElem?_map,Option.map_eq_some_iff] at hget
  obtain ⟨file,hfile,rfl⟩ := hget
  rw [List.getElem?_drop,List.getElem?_take] at hfile
  split at hfile
  · rename_i hlt
    exact ⟨file,hfile,rfl,hlt⟩
  · cases hfile

section

variable {s : Server} {p r : Nat} (h : Shows s logs p r) {n : String}
  (hn : n∈(archivable logs).map (·.name))
include p r h hn

theorem Shows.rotated_of_mem : ∃ file∈s.rotated, file.log.name=n := by
  rw [h.closed] at hn
  simp only [map_map,mem_map] at hn
  obtain ⟨file,hfile,hname⟩ := hn
  exact ⟨file,mem_of_mem_take (mem_of_mem_drop hfile),hname⟩

theorem Shows.file_rotated {file : LogFile} (hfile : s.file n=some file) :
    file∈s.rotated ∧ file.log.name=n := by
  obtain ⟨file',hfile',hname'⟩ := h.rotated_of_mem hn
  obtain ⟨hmem,hname⟩ := Server.file_eq_some hfile
  have heq : file=file' := s.eq_of_name_eq (s.mem_files_of_mem_onDisk hmem)
    (Server.mem_files_of_rotated hfile') (hname.trans hname'.symm)
  rw [heq]
  exact ⟨hfile',hname'⟩

end

theorem segmentFiles_getD (u : String) (found : Option ArchiveIndex) :
    segmentFiles u (some (found.getD {}))=segmentFiles u found := by
  cases found with
  | none => rfl
  | some index => rfl

variable {c : Options} {index base : ArchiveIndex}

theorem Folded.files_other {name gtidSet u : String}
    (h : Folded c index name gtidSet base) (hu : u≠c.serverUUID) :
    segmentFiles u (some base)=segmentFiles u (some index) := by
  obtain ⟨-,seg',-,-,-,-,huuid,hsegs⟩ := h.own
  simp [segmentFiles,Archiver.segment,hsegs,find_putSegment,huuid,hu]

theorem Folded.files_own {name gtidSet : String} (h : Folded c index name gtidSet base) :
    segmentFiles c.serverUUID (some base)=segmentFiles c.serverUUID (some index) ∨
      name∉segmentFiles c.serverUUID (some index) ∧
        segmentFiles c.serverUUID (some base)=segmentFiles c.serverUUID (some index)++[name] := by
  obtain ⟨seg,seg',hold,-,hbinlogs,-,huuid,hsegs⟩ := h.own
  have hnew : segmentFiles c.serverUUID (some base)=(addFile name seg).binlogs := by
    simp [segmentFiles,Archiver.segment,hsegs,find_putSegment,huuid,hbinlogs]
  rw [hnew,hold,addFile]
  split
  · rename_i hadd
    exact .inr ⟨hadd.2,rfl⟩
  · exact .inl rfl

section

variable [CaseMapping] {c : Options} {know : Know} {found : Option ArchiveIndex} {index : ArchiveIndex}

theorem Judged.files {base judged : ArchiveIndex} (h : judged=base ∨ Judged c know base judged)
    (u : String) : segmentFiles u (some judged)=segmentFiles u (some base) := by
  cases h with
  | inl heq => rw [heq]
  | inr hj => exact hj.segments.segmentFiles u

theorem IndexWrite.files_other (h : IndexWrite c know found index) {u : String}
    (hu : u≠c.serverUUID) : segmentFiles u (some index)=segmentFiles u found := by
  obtain ⟨base,judged,hbase,hjudged,hsegs,-⟩ := h.content
  have hindex : segmentFiles u (some index)=segmentFiles u (some judged) := by
    simp only [segmentFiles,Option.bind_some,Archiver.segment,hsegs]
  rw [hindex,Judged.files hjudged]
  cases hbase with
  | inl heq => rw [heq]
  | inr hfold =>
    obtain ⟨name,metadata,-,-,hfolded⟩ := hfold
    rw [hfolded.files_other hu,segmentFiles_getD]

theorem IndexWrite.files_own (h : IndexWrite c know found index) :
    segmentFiles c.serverUUID (some index)=segmentFiles c.serverUUID found ∨
      ∃ name metadata,(name,metadata)∈know.archived ∧ Due know name ∧
        name∉segmentFiles c.serverUUID found ∧
        segmentFiles c.serverUUID (some index)=segmentFiles c.serverUUID found++[name] := by
  obtain ⟨base,judged,hbase,hjudged,hsegs,-⟩ := h.content
  have hindex : segmentFiles c.serverUUID (some index)=segmentFiles c.serverUUID (some judged) := by
    simp only [segmentFiles,Option.bind_some,Archiver.segment,hsegs]
  rw [hindex,Judged.files hjudged]
  cases hbase with
  | inl heq =>
    rw [heq]
    exact .inl rfl
  | inr hfold =>
    obtain ⟨name,metadata,harch,hdue,hfolded⟩ := hfold
    have hown := hfolded.files_own
    rw [segmentFiles_getD] at hown
    cases hown with
    | inl hsame => exact .inl hsame
    | inr hadd => exact .inr ⟨name,metadata,harch,hdue,hadd⟩

end

variable {ι : Type}

/-- The segments are of different instances. -/
structure Owned (f : Fleet ι) (index : ArchiveIndex) : Prop where
  apart : Apart index.segments
  owned : ∀ seg∈index.segments,∃ i,(f.options i).serverUUID=seg.serverUUID

variable {f : Fleet ι} {i : ι} {found : Option ArchiveIndex}

theorem Owned.folded {base : ArchiveIndex} {name gtidSet : String}
    (h : ∀ index,found=some index → Owned f index)
    (hfold : Folded (f.options i) (found.getD {}) name gtidSet base) : Owned f base := by
  have hold : Owned f (found.getD {}) := by
    cases found with
    | none => exact ⟨nodup_nil,fun _ hseg => (nomatch hseg)⟩
    | some index => exact h index rfl
  obtain ⟨-,seg',-,-,-,-,hown,hsegs⟩ := hfold.own
  constructor
  · rw [hsegs]
    exact apart_putSegment hold.apart
  · intro x hx
    rw [hsegs,mem_putSegment hold.apart] at hx
    cases hx with
    | inl hx =>
      subst hx
      exact ⟨i,hown.symm⟩
    | inr hx => exact hold.owned x hx.1

theorem Owned.sameButForks {index index' : ArchiveIndex} (h : Owned f index)
    (hsegs : SameButForks index.segments index'.segments) : Owned f index' where
  apart := hsegs.apart.mpr h.apart
  owned seg' hseg' := by
    obtain ⟨seg,hseg,heq⟩ := hsegs.mem hseg'
    rw [heq]
    exact h.owned seg hseg

variable [CaseMapping]

theorem Owned.write {index : ArchiveIndex} {know : Know}
    (h : ∀ index,found=some index → Owned f index)
    (hwrite : IndexWrite (f.options i) know found index) : Owned f index := by
  obtain ⟨base,judged,hbase,hjudged,hsegs,-⟩ := hwrite.content
  have hb : Owned f base := by
    cases hbase with
    | inl heq => exact h base heq
    | inr hfold =>
      obtain ⟨name,metadata,-,-,hfold⟩ := hfold
      exact .folded h hfold
  apply hb.sameButForks
  rw [hsegs]
  cases hjudged with
  | inl heq =>
    rw [heq]
    exact .refl _
  | inr hj => exact hj.segments

end Cnmsql.Binlog
