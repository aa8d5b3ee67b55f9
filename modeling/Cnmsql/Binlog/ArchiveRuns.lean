import Cnmsql.Binlog.Facts

namespace Cnmsql.Binlog

open Framework Replication ObjectStore Archiver List

variable (c : Options) (server : Server) (archive : Archive)

/-- What the archive has of a server: manifests of closed logs whose bytes are there, and a segment
that lists the first closed logs in order, past the purged ones. -/
structure Kept : Prop where
  manifest : ∀ n metadata,archive.manifests.lookup (c.serverUUID,n)=some metadata →
    ∃ file∈server.rotated,file.log.name=n ∧ metadata.sha256=c.sha256 file.bytes ∧
      metadata.gtidSet=(c.scan file.bytes).gtidSet ∧
      archive.bodies.lookup (c.serverUUID,n)=some file.bytes
  stored : ∀ n∈archive.listed c.serverUUID,
    ∃ metadata,archive.manifests.lookup (c.serverUUID,n)=some metadata
  listed : ∃ k,server.purged≤k ∧ k ≤ server.rotated.length ∧
    archive.listed c.serverUUID=(server.rotated.take k).map (·.log.name)

/-- What was found is the stored index, if the version is still the same. -/
def Finds (know : Know) : Prop :=
  ∀ index etag,know.found=some (index,etag) →
    (∀ v,etag=some v → v≤archive.version) ∧ (archive.etag=etag → archive.index=index)

theorem Finds.advances {archive archive' : Archive} {know : Know} (h : Finds archive know)
    (ha : archive'.index=archive.index ∧ archive'.version=archive.version ∨
      archive'.index.isSome ∧ archive'.version=archive.version+1) : Finds archive' know := by
  intro index etag hf
  obtain ⟨hv,heq⟩ := h index etag hf
  cases ha with
  | inl hsame =>
    rw [Archive.etag,hsame.1,hsame.2]
    exact ⟨hv,heq⟩
  | inr hwrite =>
    obtain ⟨index',hindex'⟩ := Option.isSome_iff_exists.mp hwrite.1
    constructor
    · intro v hve
      have := hv v hve
      omega
    · intro he
      rw [Archive.etag,hindex',hwrite.2,Option.map_some] at he
      have := hv _ he.symm
      omega

/-- What an instance has learnt is true. -/
structure Facts (know : Know) : Prop where
  hashed : ∀ n sum size,(n,sum,size)∈know.hashed →
    ∃ file∈server.rotated,file.log.name=n ∧ sum=c.sha256 file.bytes
  scanned : ∀ n scan,(n,scan)∈know.scanned →
    ∃ file∈server.rotated,file.log.name=n ∧ scan=c.scan file.bytes
  uploaded : ∀ n∈know.uploaded,∃ file∈server.rotated,file.log.name=n ∧
    archive.bodies.lookup (c.serverUUID,n)=some file.bytes
  archived : ∀ n metadata,(n,metadata)∈know.archived →
    archive.manifests.lookup (c.serverUUID,n)=some metadata
  indexed : ∀ n∈know.indexed,n∈archive.listed c.serverUUID
  found : ∀ index etag,know.found=some (index,etag) →
    (∀ v,etag=some v → v≤archive.version) ∧ (archive.etag=etag → archive.index=index)
  logs : know.logs=[] ∨ ∃ p r,Shows server know.logs p r

variable {c : Options} {server : Server} {archive : Archive} {k : Nat} {logs : List BinaryLog}
  {name : String}

theorem Facts.next {know : Know} (h : Facts c server archive know) :
    Facts c server archive know.next :=
  { h with
    found _ _ hf := by cases hf
    logs := .inl rfl }

theorem facts_fresh (c : Options) (server : Server) (archive : Archive) : Facts c server archive {} where
  hashed _ _ _ h := by cases h
  scanned _ _ h := by cases h
  uploaded _ h := by cases h
  archived _ _ h := by cases h
  indexed _ h := by cases h
  found _ _ h := by cases h
  logs := .inl rfl

/-- How a server and its archive change while nothing is expired. -/
structure Advances (u : String) (t : Time) (server server' : Server) (archive archive' : Archive) :
    Prop where
  grows : server.Grows t server'
  manifests : ∀ n metadata,archive.manifests.lookup (u,n)=some metadata →
    archive'.manifests.lookup (u,n)=some metadata
  bodies : ∀ file∈server.rotated,archive.bodies.lookup (u,file.log.name)=some file.bytes →
    archive'.bodies.lookup (u,file.log.name)=some file.bytes
  index : archive'.index=archive.index ∧ archive'.version=archive.version ∨
    archive'.index.isSome ∧ archive'.version=archive.version+1
  listed : ∀ n∈archive.listed u,n∈archive'.listed u

theorem Facts.advances {c : Options} {t : Time} {server server' : Server} {archive archive' : Archive}
    {know : Know} (h : Facts c server archive know)
    (ha : Advances c.serverUUID t server server' archive archive') : Facts c server' archive' know where
  hashed n sum size hn := by
    obtain ⟨file,hfile,hname,hsum⟩ := h.hashed n sum size hn
    exact ⟨file,ha.grows.mem hfile,hname,hsum⟩
  scanned n scan hn := by
    obtain ⟨file,hfile,hname,hscan⟩ := h.scanned n scan hn
    exact ⟨file,ha.grows.mem hfile,hname,hscan⟩
  uploaded n hn := by
    obtain ⟨file,hfile,rfl,hbody⟩ := h.uploaded n hn
    exact ⟨file,ha.grows.mem hfile,rfl,ha.bodies file hfile hbody⟩
  archived n metadata hn := ha.manifests n metadata (h.archived n metadata hn)
  indexed n hn := ha.listed n (h.indexed n hn)
  found := Finds.advances h.found ha.index
  logs := by
    cases h.logs with
    | inl hnil => exact .inl hnil
    | inr hshows =>
      obtain ⟨p,r,hshows⟩ := hshows
      exact .inr ⟨p,r,hshows.grows ha.grows⟩

theorem lt_of_listed {q : Nat} {file : LogFile} (hq : server.rotated[q]?=some file)
    (h : file.log.name∈(server.rotated.take k).map (·.log.name)) : q<k := by
  obtain ⟨file',hmem,hname⟩ := mem_map.mp h
  obtain ⟨q',hq',hget⟩ := mem_iff_getElem.mp hmem
  have hlt : q'<k := by
    rw [length_take] at hq'
    omega
  have hlen : q'<server.rotated.length := by
    rw [length_take] at hq'
    omega
  have hget' : server.files[q']?=some file' := by
    rw [server.files_getElem?_rotated hlen,← hget,getElem_take]
    exact List.getElem?_eq_getElem hlen
  obtain ⟨hqlen,-⟩ := List.getElem?_eq_some_iff.mp hq
  rw [← server.files_getElem?_rotated hqlen] at hq
  rw [← Server.index_unique hget' hq hname]
  exact hlt

/-- The segment reaches as far as a listing's closed logs are indexed. -/
theorem Shows.le_of_listed {p r : Nat} (h : Shows server logs p r) (hk : server.purged≤k)
    {before after : List BinaryLog} (hsplit : archivable logs=before++after)
    (hlisted : ∀ l∈before,l.name∈(server.rotated.take k).map (·.log.name)) :
    p+before.length≤k := by
  rcases eq_nil_or_concat before with hnil | ⟨init,last,hlast⟩
  · rw [hnil]
    exact Nat.le_trans h.purged hk
  · rw [concat_eq_append] at hlast
    subst hlast
    have hsplit' : archivable logs=init++last::after := by simpa using hsplit
    obtain ⟨file,hfile,hname,-⟩ := h.file hsplit'
    have hin := hlisted last (by simp)
    rw [← hname] at hin
    have := lt_of_listed hfile hin
    simp only [length_append,length_singleton]
    omega

theorem Shows.reach {p r : Nat} (h : Shows server logs p r) (hk : server.purged≤k)
    (hlisted : ∀ l∈archivable logs,l.name∈(server.rotated.take k).map (·.log.name)) :
    r≤k := by
  have hsplit : archivable logs=archivable logs++[] := (append_nil _).symm
  have hle := h.le_of_listed hk hsplit hlisted
  have hlen : (archivable logs).length=r-p := by
    have := h.rotated
    rw [h.closed]
    simp only [length_map,length_drop,length_take]
    omega
  have := h.le
  omega

theorem Fleet.eq_of_key {ι : Type} (f : Fleet ι) {i j : ι} {m n : String}
    (h : ((f.options j).serverUUID,n)=((f.options i).serverUUID, m)) : j=i ∧ n=m := by
  rw [Prod.mk.injEq] at h
  exact ⟨f.injective h.1,h.2⟩

theorem Facts.shows {c : Options} {server : Server} {archive : Archive} {know : Know}
    (h : Facts c server archive know) {n : String} (hn : n∈know.logs.map (·.name)) :
    ∃ p r, Shows server know.logs p r := by
  cases h.logs with
  | inl hnil =>
    rw [hnil] at hn
    cases hn
  | inr hshows => exact hshows

theorem mem_logs_of_archivable {n : String} (hn : n∈(archivable logs).map (·.name)) :
    n∈logs.map (·.name) := by
  obtain ⟨l,hl,hname⟩ := mem_map.mp hn
  exact mem_map.mpr ⟨l,(mem_filter.mp hl).1,hname⟩

theorem Facts.file_rotated {know : Know} (h : Facts c server archive know)
    (hname : name∈(archivable know.logs).map (·.name)) {file : LogFile}
    (hfile : server.file name=some file) : file∈server.rotated ∧ file.log.name=name := by
  obtain ⟨p,r,hshows⟩ := h.shows (mem_logs_of_archivable hname)
  exact hshows.file_rotated hname hfile

theorem Kept.grows {server' : Server} {t : Time} (h : Kept c server archive)
    (hg : server.Grows t server')
    (hp : ∀ k,server.purged≤k → k ≤ server.rotated.length → archive.listed c.serverUUID=(server.rotated.take k).map (·.log.name) → server'.purged≤k) :
    Kept c server' archive where
  manifest n metadata hm := by
    obtain ⟨file,hfile,hrest⟩ := h.manifest n metadata hm
    exact ⟨file,hg.mem hfile,hrest⟩
  stored := h.stored
  listed := by
    obtain ⟨k,hk,hlen,heq⟩ := h.listed
    exact ⟨k,hp k hk hlen heq,Nat.le_trans hlen hg.rotated.length_le,by rw [heq,hg.take hlen]⟩

theorem Facts.purged_le {server' : Server} {know : Know} (h : Facts c server archive know)
    (hp : server.purgeTo name=some server') (hname : name∈know.logs.map (·.name))
    (hall : AllIndexed know) (hk : server.purged≤k)
    (hlisted : archive.listed c.serverUUID=(server.rotated.take k).map (·.log.name)) :
    server'.purged≤k := by
  obtain ⟨p,r,hshows⟩ := h.shows hname
  have hreach : r≤k := by
    refine hshows.reach hk ?_
    intro l hl
    rw [← hlisted]
    exact h.indexed l.name (hall l hl)
  rw [Server.purgeTo,Option.ite_none_right_eq_some] at hp
  obtain ⟨hfile,hp⟩ := hp
  cases hp
  change server.position name≤k
  cases hshows.names name hname with
  | inl harch =>
    obtain ⟨l,hl,rfl⟩ := mem_map.mp harch
    obtain ⟨before,after,hsplit⟩ := append_of_mem hl
    obtain ⟨file,hget,hfname,hlt⟩ := hshows.file hsplit
    obtain ⟨hlen,-⟩ := List.getElem?_eq_some_iff.mp hget
    rw [← server.files_getElem?_rotated hlen] at hget
    rw [← hfname] at hfile ⊢
    rw [Server.position_of_getElem? hget hfile]
    omega
  | inr hact =>
    obtain ⟨file,hget,hfname,-⟩ := hshows.active
    rw [hact,hfname] at hfile ⊢
    rw [Server.position_of_getElem? hget hfile]
    exact hreach

theorem Facts.due {know : Know} (h : Facts c server archive know) (hdue : Due know name)
    (hk : server.purged≤k)
    (hlisted : archive.listed c.serverUUID=(server.rotated.take k).map (·.log.name))
    (hnot : name∉archive.listed c.serverUUID) :
    ∃ file,server.rotated[k]?=some file ∧ file.log.name=name := by
  obtain ⟨p,r,hshows⟩ := h.shows (mem_logs_of_archivable hdue.listed)
  obtain ⟨before,l,after,hsplit,rfl,hbefore⟩ := hdue
  obtain ⟨file,hget,hname,-⟩ := hshows.file hsplit
  have hle : p+before.length≤k := by
    refine hshows.le_of_listed hk hsplit ?_
    intro b hb
    rw [← hlisted]
    exact h.indexed b.name (hbefore b hb)
  have hge : k≤p+before.length := by
    by_contra hlt
    apply hnot
    rw [hlisted,← hname]
    refine mem_map.mpr ⟨file,?_,rfl⟩
    rw [mem_take_iff_getElem]
    obtain ⟨hlen,hfile⟩ := List.getElem?_eq_some_iff.mp hget
    exact ⟨p+before.length,by omega,hfile⟩
  have heq : k=p+before.length := Nat.le_antisymm hge hle
  exact ⟨file,heq ▸ hget,hname⟩

theorem Kept.relist {index : ArchiveIndex} (h : Kept c server archive)
    (heq : segmentFiles c.serverUUID (some index)=archive.listed c.serverUUID) :
    Kept c server (archive.putIndex index) where
  manifest := h.manifest
  stored n hn := h.stored n (heq ▸ hn)
  listed := by
    obtain ⟨k,hk,hlen,hlisted⟩ := h.listed
    exact ⟨k,hk,hlen,heq.trans hlisted⟩

@[simp] theorem listed_putIndex (archive : Archive) (index : ArchiveIndex) (u : String) :
    (archive.putIndex index).listed u=segmentFiles u (some index) := rfl

theorem ofFile_eq_ok {ι α : Type} {s : System ι} {i : ι} {o : Outside} {g : LogFile → α} {a : α}
    (h : s.ofFile i o name g = .ok a) :
    o.fault=none ∧ ∃ file,(s.server i).file name=some file ∧ g file=a := by
  rw [System.ofFile,Outside.orFault_eq_ok] at h
  obtain ⟨hfault,h⟩ := h
  cases hf : (s.server i).file name with
  | none =>
    rw [hf] at h
    cases h
  | some file =>
    rw [hf] at h
    cases h
    exact ⟨hfault,file,rfl,rfl⟩

section

variable [CaseMapping] {ι : Type}

/-- What holds of the archive and its instances as long as nothing is expired. -/
structure Sound (f : Fleet ι) (s : System ι) : Prop where
  obeying : Obeying f s
  kept : ∀ i,Kept (f.options i) (s.server i) s.archive
  facts : ∀ i,Facts (f.options i) (s.server i) s.archive (s.nodes i).know
  absent : ∀ i n,(s.nodes i).know.absent=some n →
    s.archive.manifests.lookup ((f.options i).serverUUID,n)=none

variable {f : Fleet ι} {s : System ι} {i : ι} {server : Server} {archive : Archive} {c : Call}

theorem Facts.indexWrite {c : Options} {know : Know} (h : Facts c server archive know)
    {index : ArchiveIndex} (hallowed : (contract c).allowed know (.putIndexIf index archive.etag)) :
    IndexWrite c know archive.index index := by
  obtain ⟨-,found,hfound,hwrite⟩ := hallowed
  rw [(h.found found archive.etag hfound).2 rfl]
  exact hwrite

variable [DecidableEq ι]

omit [CaseMapping] in
theorem Effect.grows (he : Effect f s i c server archive) (t : Time) (j : ι) :
    (s.server j).Grows t (Function.update s.server i server j) := by
  have hown : (s.server i).Grows t server := by
    cases he with
    | rotated h => exact Server.grows_rotate h t
    | purged h => exact Server.grows_purgeTo h t
    | _ => exact .refl _ _
  by_cases hj : j=i
  · subst hj
    rw [Function.update_self]
    exact hown
  · rw [Function.update_of_ne hj]
    exact .refl _ _

section

variable {c : Call} {server : Server} {archive : Archive} (hs : Sound f s)
  (he : Effect f s i c server archive)
  (hallowed : (contract (f.options i)).allowed (s.nodes i).know c) (j : ι)
include hs he hallowed j

theorem advances_effect : Advances (f.options j).serverUUID s.clock (s.server j)
      (Function.update s.server i server j) s.archive archive := by
  have hgrows := he.grows s.clock j
  cases he with
  | @uploaded name size file h =>
    refine ⟨hgrows,fun _ _ h => h,?_,.inl ⟨rfl,rfl⟩,fun _ h => h⟩
    intro file' hfile' hbody
    by_cases hkey : ((f.options j).serverUUID,file'.log.name)=((f.options i).serverUUID,name)
    · obtain ⟨rfl,rfl⟩ := f.eq_of_key hkey
      obtain ⟨hmem,hname⟩ := Server.file_eq_some h
      rw [AList.lookup_insert,(s.server j).eq_of_name_eq (Server.mem_files_of_rotated hfile')
        (Server.mem_files_of_mem_onDisk _ hmem) hname.symm]
    · rw [AList.lookup_insert_ne hkey]
      exact hbody
  | @manifest name metadata =>
    refine ⟨hgrows,?_,fun _ _ h => h,.inl ⟨rfl,rfl⟩,fun _ h => h⟩
    intro n m hm
    by_cases hkey : ((f.options j).serverUUID,n)=((f.options i).serverUUID,name)
    · obtain ⟨rfl,rfl⟩ := f.eq_of_key hkey
      rw [hs.absent j n hallowed.2.1] at hm
      cases hm
    · rw [AList.lookup_insert_ne hkey]
      exact hm
  | @index index =>
    refine ⟨hgrows,fun _ _ h => h,fun _ _ h => h,.inr ⟨rfl,rfl⟩,?_⟩
    have hwrite := (hs.facts i).indexWrite hallowed
    intro n hn
    by_cases hj : j=i
    · subst hj
      cases hwrite.files_own with
      | inl hsame =>
        rw [listed_putIndex,hsame]
        exact hn
      | inr hadd =>
        obtain ⟨name,metadata,-,-,-,hadd⟩ := hadd
        rw [listed_putIndex,hadd]
        exact mem_append_left _ hn
    · have hu : (f.options j).serverUUID≠(f.options i).serverUUID := fun h => hj (f.injective h)
      rw [listed_putIndex,hwrite.files_other hu]
      exact hn
  | _ => exact ⟨hgrows,fun _ _ h => h,fun _ _ h => h,.inl ⟨rfl,rfl⟩,fun _ h => h⟩

theorem kept_effect : Kept (f.options j) (Function.update s.server i server j) archive := by
  have hadv := advances_effect hs he hallowed j
  have hkept := hs.kept j
  cases he with
  | none =>
    rw [Function.update_eq_self]
    exact hkept
  | rotated h =>
    refine hkept.grows hadv.grows ?_
    intro k hk _ _
    by_cases hj : j=i
    · subst hj
      rw [Function.update_self,Server.rotate_purged h]
      exact hk
    · rw [Function.update_of_ne hj]
      exact hk
  | purged h =>
    refine hkept.grows hadv.grows ?_
    intro k hk _ hlisted
    by_cases hj : j=i
    · subst hj
      rw [Function.update_self]
      exact (hs.facts j).purged_le h hallowed.1 hallowed.2 hk hlisted
    · rw [Function.update_of_ne hj]
      exact hk
  | @uploaded name size file h =>
    rw [Function.update_eq_self]
    refine ⟨?_,hkept.stored,hkept.listed⟩
    intro n metadata hm
    obtain ⟨file',hfile',hname,hsum,hset,hbody⟩ := hkept.manifest n metadata hm
    refine ⟨file',hfile',hname,hsum,hset,?_⟩
    -- bytes go only where no manifest is
    have hkey : ((f.options j).serverUUID,n)≠((f.options i).serverUUID, name) := by
      intro hkey
      obtain ⟨rfl,rfl⟩ := f.eq_of_key hkey
      have hnone := hs.absent j n hallowed.2.1
      have hm' : s.archive.manifests.lookup ((f.options j).serverUUID, n)=some metadata := hm
      rw [hnone] at hm'
      cases hm'
    rw [AList.lookup_insert_ne hkey]
    exact hbody
  | @manifest name metadata =>
    rw [Function.update_eq_self]
    refine ⟨?_,?_,hkept.listed⟩
    · intro n m hm
      rcases Map.lookup_insert_eq_some hm with ⟨hkey,rfl⟩ | hm
      · obtain ⟨rfl,rfl⟩ := f.eq_of_key hkey
        obtain ⟨-,-,-,-,hdesc⟩ := hallowed
        obtain ⟨file,hfile,hname,hbody⟩ := (hs.facts j).uploaded n hdesc.uploaded
        obtain ⟨file1,hfile1,hname1,hsum⟩ := (hs.facts j).hashed n _ _ hdesc.hashed
        obtain ⟨scan,hscan,hset⟩ := hdesc.scanned
        obtain ⟨file2,hfile2,hname2,hscan⟩ := (hs.facts j).scanned n scan hscan
        have h1 : file1=file := (s.server j).eq_of_name_eq (Server.mem_files_of_rotated hfile1)
          (Server.mem_files_of_rotated hfile) (hname1.trans hname.symm)
        have h2 : file2=file := (s.server j).eq_of_name_eq (Server.mem_files_of_rotated hfile2)
          (Server.mem_files_of_rotated hfile) (hname2.trans hname.symm)
        subst h1
        subst h2
        exact ⟨_,hfile,hname,hsum,by rw [hset,hscan],hbody⟩
      · exact hkept.manifest n m hm
    · intro n hn
      obtain ⟨m,hm⟩ := hkept.stored n hn
      exact ⟨m,hadv.manifests n m hm⟩
  | status =>
    rw [Function.update_eq_self]
    exact ⟨hkept.manifest,hkept.stored,hkept.listed⟩
  | @index index =>
    rw [Function.update_eq_self]
    have hwrite := (hs.facts i).indexWrite hallowed
    by_cases hj : j=i
    · subst hj
      cases hwrite.files_own with
      | inl hsame => exact hkept.relist hsame
      | inr hadd =>
        obtain ⟨name,metadata,harch,hdue,hnot,hadd⟩ := hadd
        have heq : (s.archive.putIndex index).listed (f.options j).serverUUID =
            s.archive.listed (f.options j).serverUUID++[name] := hadd
        refine ⟨hkept.manifest,?_,?_⟩
        · intro n hn
          rw [heq,mem_append,mem_singleton] at hn
          cases hn with
          | inl hold => exact hkept.stored n hold
          | inr hnew =>
            subst hnew
            exact ⟨metadata,(hs.facts j).archived n metadata harch⟩
        · obtain ⟨k,hk,hlen,hlisted⟩ := hkept.listed
          obtain ⟨file,hget,hname⟩ := (hs.facts j).due hdue hk hlisted hnot
          obtain ⟨hlt,hfile⟩ := List.getElem?_eq_some_iff.mp hget
          refine ⟨k+1,Nat.le_succ_of_le hk,hlt,?_⟩
          rw [heq,hlisted,take_succ_eq_append_getElem hlt,map_append,hfile]
          simp [hname]
    · have hu : (f.options j).serverUUID≠(f.options i).serverUUID := fun h => hj (f.injective h)
      exact hkept.relist (hwrite.files_other hu)

end

variable {o : Outside} {r : Answer c} {know' : Know} (hr : s.answer f i o c=r)
  (hlesson : Lesson (f.options i).serverUUID (s.nodes i).know c r know')

include hr hlesson

omit [CaseMapping] [DecidableEq ι] in
theorem finds_learn (h : Finds (s.archiveAfter f i o c) (s.nodes i).know) :
    Finds (s.archiveAfter f i o c) know' := by
  cases hlesson with
  | read index etag =>
    have hr := (Outside.orFault_eq_ok.mp hr).2
    cases hr
    intro index' etag' hf
    cases hf
    refine ⟨?_,fun _ => rfl⟩
    intro v hv
    change s.archive.etag=some v at hv
    rw [Archive.etag,Option.map_eq_some_iff] at hv
    obtain ⟨_,-,rfl⟩ := hv
    exact Nat.le_refl _
  | wrote | tried => exact fun _ _ hf => (nomatch hf)
  | _ => exact h

omit [CaseMapping] [DecidableEq ι] in
theorem indexed_learn {n : String} (hn : n∈know'.indexed) :
    n∈(s.nodes i).know.indexed ∨ n∈(s.archiveAfter f i o c).listed (f.options i).serverUUID := by
  cases hlesson with
  | read index etag =>
    have hr := (Outside.orFault_eq_ok.mp hr).2
    cases hr
    exact (mem_append.mp hn).symm
  | wrote index etag =>
    obtain ⟨hfault,hr⟩ := Outside.orFault_eq_ok.mp hr
    have hetag : etag=s.archive.etag := by simpa using hr
    simp only [System.archiveAfter,Outside.took_of_fault hfault,hetag,and_self,if_true]
    exact (mem_append.mp hn).symm
  | _ => exact .inl hn

theorem facts_learn (hs : Sound f s)
    (hallowed : (contract (f.options i)).allowed (s.nodes i).know c) :
    Facts (f.options i) (s.serverAfter i o c) (s.archiveAfter f i o c) know' := by
  have hadv := advances_effect hs (effect_of_call f s i o c) hallowed i
  rw [Function.update_self] at hadv
  have hfacts := (hs.facts i).advances hadv
  have hfound := finds_learn hr hlesson hfacts.found
  have hindexed : ∀ n∈know'.indexed,n∈(s.archiveAfter f i o c).listed (f.options i).serverUUID :=
    fun n hn => (indexed_learn hr hlesson hn).elim (hfacts.indexed n) id
  cases hlesson with
  | hashed n sum size =>
    obtain ⟨-,file,hfile,hsum⟩ := ofFile_eq_ok hr
    rw [Prod.mk.injEq] at hsum
    obtain ⟨hrot,hname⟩ := (hs.facts i).file_rotated hallowed hfile
    refine { hfacts with hashed := ?_ }
    rintro n' sum' size' (_ | ⟨_,hold⟩)
    · exact ⟨file,hrot,hname,hsum.1.symm⟩
    · exact hfacts.hashed n' sum' size' hold
  | scanned n scan =>
    obtain ⟨-,file,hfile,hscan⟩ := ofFile_eq_ok hr
    obtain ⟨hrot,hname⟩ := (hs.facts i).file_rotated hallowed hfile
    refine { hfacts with scanned := ?_ }
    rintro n' scan' (_ | ⟨_,hold⟩)
    · exact ⟨file,hrot,hname,hscan.symm⟩
    · exact hfacts.scanned n' scan' hold
  | uploaded n size =>
    obtain ⟨hfault,file,hfile,-⟩ := ofFile_eq_ok hr
    obtain ⟨hrot,hname⟩ := (hs.facts i).file_rotated hallowed.2.2.1.listed hfile
    refine { hfacts with uploaded := ?_ }
    rintro n' (_ | ⟨_,hold⟩)
    · refine ⟨file,hrot,hname,?_⟩
      simp [System.archiveAfter,Outside.took_of_fault hfault,hfile]
    · exact hfacts.uploaded n' hold
  | manifest n metadata =>
    have hr := (Outside.orFault_eq_ok.mp hr).2
    refine { hfacts with archived := ?_ }
    rintro n' metadata' (_ | ⟨_,hold⟩)
    · change s.archive.manifests.lookup ((f.options i).serverUUID,n)=some metadata
      cases hl : s.archive.manifests.lookup ((f.options i).serverUUID,n) with
      | none =>
        rw [hl] at hr
        cases hr
      | some m =>
        rw [hl] at hr
        cases hr
        rfl
    · exact hfacts.archived n' metadata' hold
  | described n metadata =>
    have hfault := (Outside.orFault_eq_ok.mp hr).1
    refine { hfacts with archived := ?_ }
    rintro n' metadata' (_ | ⟨_,hold⟩)
    · simp [System.archiveAfter,Outside.took_of_fault hfault]
    · exact hfacts.archived n' metadata' hold
  | listed logs =>
    have hr := (Outside.orFault_eq_ok.mp hr).2
    cases hr
    exact { hfacts with logs := .inr ⟨_,_,shows_listing (s.server i)⟩ }
  | _ => exact { hfacts with found := hfound, indexed := hindexed }

omit hr hlesson

theorem absent_performed (hs : Sound f s) {o : Outside} {k : Answer c → Running} {j : ι}
    {n : String} (h : ((performed f s i o c k).nodes j).know.absent=some n) :
    (s.archiveAfter f i o c).manifests.lookup ((f.options j).serverUUID, n)=none := by
  have heffect := effect_of_call f s i o c
  have hold : (s.nodes j).know.absent=some n →
      (∀ name metadata,c = .putManifest name metadata → j≠i) →
      (s.archiveAfter f i o c).manifests.lookup ((f.options j).serverUUID, n)=none := by
    intro habsent hother
    have hnone := hs.absent j n habsent
    generalize s.archiveAfter f i o c=archive at heffect ⊢
    generalize s.serverAfter i o c=server at heffect
    cases heffect with
    | @manifest name metadata =>
      have hkey : ((f.options j).serverUUID,n)≠((f.options i).serverUUID, name) := by
        intro hkey
        exact hother name metadata rfl (f.eq_of_key hkey).1
      rw [AList.lookup_insert_ne hkey]
      exact hnone
    | _ => exact hnone
  by_cases hj : j=i
  · subst hj
    rw [performed_self] at h
    cases learn_absent (lesson_learn _ _ _) h with
    | inl habsent =>
      apply hold habsent
      intro name metadata hc
      subst hc
      rw [learn_putManifest_absent] at h
      cases h
    | inr hnew =>
      obtain ⟨rfl,hr⟩ := hnew
      have hr := (Outside.orFault_eq_ok.mp (eq_of_heq hr)).2
      change s.archive.manifests.lookup ((f.options j).serverUUID,n)=none
      simpa using hr
  · rw [performed_other f s o c k hj] at h
    exact hold h fun _ _ _ => hj

def Act.expires : Act ι → Bool
  | .expire => true
  | _ => false

def Reported (s : System ι) : Act ι → Prop
  | .record (some (_,position)) => gtids position ⊆ gtids s.executed
  | _ => True

instance (s : System ι) : ∀ a,Decidable (Reported s a)
  | .record (some _) => inferInstanceAs (Decidable (gtids _ ⊆ gtids _))
  | .record none | .advance _ | .commit _ _ | .rotate _ _ | .execute _ | .restart _ | .start _
  | .call _ _ | .plan _ _ | .expire | .abandon => isTrue trivial

theorem grows_move {s' : System ι} {a : Act ι} (hm : Move f s a s') (j : ι) :
    (s.server j).Grows s.clock (s'.server j) := by
  cases hm with
  | quiet nodes archive =>
    rw [System.server,System.server,nodes]
    exact .refl _ _
  | log i server grows =>
    rw [server_setServer]
    by_cases hj : j=i
    · subst hj
      rw [Function.update_self]
      exact grows
    · rw [Function.update_of_ne hj]
      exact .refl _ _
  | restart i =>
    rw [server_restarted]
    exact .refl _ _
  | start i r mem pass =>
    rw [server_started]
    exact .refl _ _
  | call i o c k pass =>
    rw [server_performed]
    exact (effect_of_call f s i o c).grows s.clock j
  | expire => exact .refl _ _

theorem advances_move (hs : Sound f s) {s' : System ι} {a : Act ι} (hm : Move f s a s')
    (ha : a.expires=false) (j : ι) :
    Advances (f.options j).serverUUID s.clock (s.server j) (s'.server j) s.archive s'.archive := by
  have hgrows := grows_move hm j
  cases hm with
  | quiet nodes archive =>
    rw [archive]
    exact ⟨hgrows,fun _ _ h => h,fun _ _ h => h,.inl ⟨rfl,rfl⟩,fun _ h => h⟩
  | call i o c k pass =>
    rw [server_performed]
    exact advances_effect hs (effect_of_call f s i o c) (hs.obeying.allowed pass) j
  | expire => cases ha
  | _ => exact ⟨hgrows,fun _ _ h => h,fun _ _ h => h,.inl ⟨rfl,rfl⟩,fun _ h => h⟩

omit [CaseMapping] [DecidableEq ι] in
theorem Effect.index_eq (he : Effect f s i c server archive) :
    archive.index=s.archive.index ∧ archive.version=s.archive.version ∨
      ∃ index,c = .putIndexIf index s.archive.etag ∧ server=s.server i ∧
        archive=s.archive.putIndex index := by
  cases he with
  | @index index => exact .inr ⟨index,rfl,rfl,rfl⟩
  | _ => exact .inl ⟨rfl,rfl⟩

/-- How the index changes: an instance writes it, or retention rewrites it. -/
inductive Reindex (s : System ι) : Act ι → Archive → Prop where
  | write (i : ι) (o : Outside) (index : ArchiveIndex)
      (next : (s.nodes i).nextCall=some (.putIndexIf index s.archive.etag)) :
      Reindex s (.call i o) (s.archive.putIndex index)
  | rewrite (deleted : Deleted) (now : Time) (rest : List ObjectStore.Step) (index : ArchiveIndex)
      (expiry : s.expiry = .rewriteArchiveIndex deleted now::rest)
      (index_eq : s.archive.index=some index) :
      Reindex s .expire (s.archive.putIndex (rewriteIndex index deleted s.clock))

theorem reindex_move {s' : System ι} {a : Act ι} (hm : Move f s a s') :
    s'.archive.index=s.archive.index ∧ s'.archive.version=s.archive.version ∨
      Reindex s a s'.archive ∧ ∀ j, s'.server j=s.server j := by
  cases hm with
  | quiet nodes archive =>
    rw [archive]
    exact .inl ⟨rfl,rfl⟩
  | call i o c k pass =>
    cases (effect_of_call f s i o c).index_eq with
    | inl hsame => exact .inl hsame
    | inr hwrite =>
      obtain ⟨index,rfl,hserver,harchive⟩ := hwrite
      have hnext : (s.nodes i).nextCall=some (.putIndexIf index s.archive.etag) := by
        rw [Node.nextCall,pass]
      have heq : (performed f s i o (.putIndexIf index s.archive.etag) k).archive =
        s.archive.putIndex index := harchive
      rw [heq]
      refine .inr ⟨.write i o index hnext,?_⟩
      intro j
      rw [server_performed,hserver,Function.update_eq_self]
  | expire st rest expiry =>
    cases st with
    | remove key =>
      cases key <;> exact .inl ⟨rfl,rfl⟩
    | rewriteArchiveIndex deleted now =>
      cases hindex : s.archive.index with
      | none =>
        simp only [Archive.expire,hindex]
        exact .inl ⟨trivial,trivial⟩
      | some index =>
        simp only [Archive.expire,hindex]
        exact .inr ⟨.rewrite deleted now rest index expiry hindex,fun _ => rfl⟩
  | _ => exact .inl ⟨rfl,rfl⟩

variable {s' : System ι}

section

variable (hs : Sound f s)
include hs

theorem index_move {a : Act ι} (hm : Move f s a s') (ha : a.expires=false) :
    s'.archive.index=s.archive.index ∨
      ∃ i o index,a = .call i o ∧ (s.nodes i).nextCall=some (.putIndexIf index s.archive.etag) ∧
        s'.archive=s.archive.putIndex index ∧ (s.nodes i).know.deferred=none ∧
        IndexWrite (f.options i) (s.nodes i).know s.archive.index index := by
  cases reindex_move hm with
  | inl hsame => exact .inl hsame.1
  | inr hchange =>
    obtain ⟨hchange,-⟩ := hchange
    generalize s'.archive=archive at hchange
    cases hchange with
    | write i o index next =>
      have hallowed := hs.obeying.allowed_next next
      exact .inr ⟨i,o,index,rfl,next,rfl,hallowed.1,(hs.facts i).indexWrite hallowed⟩
    | rewrite => cases ha

theorem kept_move {s' : System ι} {a : Act ι} (hm : Move f s a s')
    (ha : a.expires=false) (j : ι) : Kept (f.options j) (s'.server j) s'.archive := by
  have hadv := advances_move hs hm ha j
  cases hm with
  | quiet nodes archive =>
    rw [System.server,nodes,archive]
    exact hs.kept j
  | log i server grows purged =>
    refine (hs.kept j).grows hadv.grows ?_
    intro k hk _ _
    rw [server_setServer]
    by_cases hj : j=i
    · subst hj
      rw [Function.update_self,purged]
      exact hk
    · rw [Function.update_of_ne hj]
      exact hk
  | restart i =>
    rw [server_restarted]
    exact hs.kept j
  | start i r mem pass =>
    rw [server_started]
    exact hs.kept j
  | call i o c k pass =>
    rw [server_performed]
    exact kept_effect hs (effect_of_call f s i o c) (hs.obeying.allowed pass) j
  | expire => cases ha

theorem facts_move {a : Act ι} (hm : Move f s a s') (ha : a.expires=false)
    (j : ι) : Facts (f.options j) (s'.server j) s'.archive (s'.nodes j).know := by
  apply know_move (P := fun s j know => Facts (f.options j) (s.server j) s.archive know) hm
  · intro j h
    exact h.advances (advances_move hs hm ha j)
  · intro j
    exact facts_fresh _ _ _
  · intro j know h
    exact h.next
  · intro i o c k r know' _ pass heq hr hlesson
    rw [heq,server_performed,Function.update_self]
    exact facts_learn hr hlesson hs (hs.obeying.allowed pass)
  · exact hs.facts

theorem absent_move {s' : System ι} {a : Act ι} (hm : Move f s a s')
    (ha : a.expires=false) (j : ι) {n : String} (h : (s'.nodes j).know.absent=some n) :
    s'.archive.manifests.lookup ((f.options j).serverUUID, n)=none := by
  cases hm with
  | quiet nodes archive =>
    rw [nodes] at h
    rw [archive]
    exact hs.absent j n h
  | log i server grows purged =>
    refine hs.absent j n ?_
    by_cases hj : j=i
    · subst hj
      rwa [setServer_self] at h
    · rwa [setServer_other s server hj] at h
  | restart i =>
    by_cases hj : j=i
    · subst hj
      rw [restarted_self] at h
      cases h
    · rw [restarted_other s hj] at h
      exact hs.absent j n h
  | start i r mem pass =>
    by_cases hj : j=i
    · subst hj
      rw [started_self] at h
      cases h
    · rw [started_other f s mem hj] at h
      exact hs.absent j n h
  | call i o c k pass => exact absent_performed hs h
  | expire => cases ha

theorem sound_move {a : Act ι} (hm : Move f s a s') (ha : a.expires=false) :
    Sound f s' where
  obeying := obeying_step hm hs.obeying
  kept := kept_move hs hm ha
  facts := facts_move hs hm ha
  absent j _ h := absent_move hs hm ha j h

end

end

section

variable {ι : Type}

/-- The archive is empty, and no instance has run a pass or purged a log yet. -/
structure Started (s : System ι) : Prop where
  archive : s.archive={}
  expiry : s.expiry=[]
  idle : ∀ i,(s.nodes i).pass = .pure (.ok (),{}) ∧ (s.nodes i).know={}
  fresh : ∀ i,(s.server i).purged=0 ∧ (s.nodes i).through=0

variable [CaseMapping] {f : Fleet ι} {s : System ι}

theorem sound_started (h : Started s) : Sound f s where
  obeying i := by
    rw [(h.idle i).1,(h.idle i).2]
    exact remembers_fresh
  kept i := by
    rw [h.archive]
    have hzero : (s.server i).purged≤0 := Nat.le_of_eq (h.fresh i).1
    exact ⟨fun _ _ hm => (nomatch hm),fun _ hn => (nomatch hn),0,hzero,Nat.zero_le _,rfl⟩
  facts i := by
    rw [(h.idle i).2]
    exact facts_fresh _ _ _
  absent i n hn := by
    rw [(h.idle i).2] at hn
    cases hn

end

theorem Pair.started_initial : Started Pair.initial :=
  ⟨rfl,rfl,fun _ => ⟨rfl,rfl⟩,fun _ => ⟨rfl,rfl⟩⟩

end Cnmsql.Binlog
