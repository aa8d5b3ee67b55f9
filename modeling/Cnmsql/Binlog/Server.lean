import Mathlib.Data.List.Infix
import Mathlib.Data.List.Nodup
import Cnmsql.Binlog.Logs
import Cnmsql.ObjectStore.Index

namespace Cnmsql.Binlog

open ObjectStore List

/-- A binary log: its bytes and the commit times in it. -/
structure LogFile where
  log : LogName
  bytes : List UInt8 := []
  commits : List Time := []
  deriving DecidableEq

def LogFile.row (f : LogFile) : BinaryLog := { name := f.log.name, sizeBytes := f.bytes.length }

/-- A rotation: the next log with its first events, and the event that closes the last. -/
structure Rotation where
  log : LogName
  header : List UInt8 := []
  trailer : List UInt8 := []
  deriving DecidableEq

/-- A server's binary logs: the closed ones, the first `purged` of them gone, and the active one. -/
structure Server where
  rotated : List LogFile
  active : LogFile
  purged : Nat := 0
  ordered : (rotated++[active]).Pairwise fun a b => a.log.seq<b.log.seq
  purged_le : purged≤rotated.length

namespace Server

variable (s : Server)

def files : List LogFile := s.rotated++[s.active]

def onDisk : List LogFile := s.files.drop s.purged

def listing : List BinaryLog := markActive (s.onDisk.map LogFile.row)

def file (name : String) : Option LogFile := s.onDisk.find? (·.log.name=name)

def commit (bytes : List UInt8) (t : Time) : Server where
  rotated := s.rotated
  active := { s.active with bytes := s.active.bytes++bytes, commits := s.active.commits++[t] }
  purged := s.purged
  ordered := by
    have h := s.ordered
    rw [pairwise_append] at h ⊢
    simpa using h
  purged_le := s.purged_le

/-- The active log is closed and the next one, of a higher number, is begun. -/
def rotate (r : Rotation) : Option Server :=
  if h : s.active.log.seq<r.log.seq then
    some {
      rotated := s.rotated++[{ s.active with bytes := s.active.bytes++r.trailer }]
      active := { log := r.log, bytes := r.header }
      purged := s.purged
      ordered := by
        have hord := s.ordered
        rw [pairwise_append] at hord ⊢
        obtain ⟨hrot,-,hact⟩ := hord
        simp only [mem_singleton,forall_eq] at hact
        refine ⟨?_,by simp,?_⟩
        · rw [pairwise_append]
          exact ⟨hrot,by simp,by simpa using hact⟩
        · intro a ha b hb
          rw [mem_singleton] at hb
          subst hb
          rcases mem_append.mp ha with ha | ha
          · exact (hact a ha).trans h
          · rw [mem_singleton] at ha
            subst ha
            exact h
      purged_le := by
        have := s.purged_le
        simp only [length_append,length_singleton]
        omega }
  else none

def position (name : String) : Nat := s.rotated.findIdx (·.log.name=name)

def purgeTo (name : String) : Option Server :=
  if (s.file name).isSome then
    some { s with purged := s.position name, purged_le := findIdx_le_length }
  else none

variable (s : Server)

theorem seqs_nodup : (s.files.map fun f => f.log.seq).Nodup := by
  rw [nodup_iff_pairwise_ne,pairwise_map]
  exact s.ordered.imp fun hlt => Nat.ne_of_lt hlt

theorem eq_of_name_eq {f g : LogFile} (hf : f∈s.files) (hg : g∈s.files)
    (h : f.log.name=g.log.name) : f=g :=
  inj_on_of_nodup_map s.seqs_nodup hf hg (LogName.seq_eq h)

theorem names_nodup : (s.files.map fun f => f.log.name).Nodup :=
  List.Nodup.map_on (fun _ hf _ hg h => s.eq_of_name_eq hf hg h) (List.Nodup.of_map _ s.seqs_nodup)

theorem onDisk_eq : s.onDisk=s.rotated.drop s.purged++[s.active] := by
  rw [onDisk,files,drop_append_of_le_length s.purged_le]

theorem mem_files_of_mem_onDisk {f : LogFile} (h : f∈s.onDisk) : f∈s.files :=
  mem_of_mem_drop h

theorem listing_eq :
    s.listing=(s.rotated.drop s.purged).map LogFile.row++[{ s.active.row with active := true }] := by
  have hord := s.ordered
  rw [pairwise_append] at hord
  rw [listing,onDisk_eq,map_append,map_singleton]
  have hseq : parseSequence s.active.row.name=some (s.active.log.seq : Int) := s.active.log.parse_name
  refine markActive_snoc hseq ?_
  intro l hl n hn
  obtain ⟨f,hf,rfl⟩ := mem_map.mp hl
  have hlt := hord.2.2 f (mem_of_mem_drop hf) s.active mem_cons_self
  simp only [LogFile.row,f.log.parse_name,Option.some.injEq] at hn
  omega

theorem archivable_listing : archivable s.listing=(s.rotated.drop s.purged).map LogFile.row := by
  rw [listing_eq]
  apply archivable_snoc
  · intro l hl
    obtain ⟨f,_,rfl⟩ := mem_map.mp hl
    rfl
  · rfl

theorem activeLog_listing : activeLog s.listing={ s.active.row with active := true } := by
  rw [listing_eq]
  apply activeLog_snoc
  · intro l hl
    obtain ⟨f,_,rfl⟩ := mem_map.mp hl
    rfl
  · rfl

theorem file_eq_some {s : Server} {name : String} {f : LogFile} (h : s.file name=some f) :
    f∈s.onDisk ∧ f.log.name=name := by
  rw [file] at h
  exact ⟨mem_of_find?_eq_some h,by simpa using List.find?_some h⟩

end Server

/-- A log that was written on from `t` on, if at all. -/
structure LogFile.Extends (t : Time) (f f' : LogFile) : Prop where
  log : f'.log=f.log
  size : f.bytes.length≤f'.bytes.length
  commits : ∀ x∈f'.commits,x∈f.commits ∨ t≤x
  grown : f'.commits=f.commits ∨ f.bytes.length<f'.bytes.length

theorem LogFile.Extends.refl (t : Time) (f : LogFile) : f.Extends t f :=
  ⟨rfl,Nat.le_refl _,fun _ hx => .inl hx,.inl rfl⟩

namespace Server

/-- What the server can have done since `t`: closed logs stay, the others keep their place, and
commits are not older. -/
structure Grows (t : Time) (s s' : Server) : Prop where
  rotated : s.rotated <+: s'.rotated
  purged : s.purged ≤ s'.purged
  kept : ∀ (q : Nat) (f : LogFile),s.files[q]?=some f →
    ∃ f',s'.files[q]?=some f' ∧ f.Extends t f'
  added : ∀ (q : Nat) (f' : LogFile),s.files[q]?=none → s'.files[q]?=some f' →
    ∀ x∈f'.commits,t≤x

theorem Grows.refl (t : Time) (s : Server) : s.Grows t s := by
  refine ⟨prefix_refl _,Nat.le_refl _,fun q f hq => ⟨f,hq,.refl t f⟩,?_⟩
  intro q f' hnone hsome
  rw [hnone] at hsome
  cases hsome

variable (s : Server)

theorem files_getElem?_active : s.files[s.rotated.length]?=some s.active := by
  simp [files]

theorem files_getElem?_rotated {q : Nat} (h : q<s.rotated.length) :
    s.files[q]?=s.rotated[q]? := by
  rw [files,List.getElem?_append_left h]

theorem files_getElem?_eq_some {s : Server} {q : Nat} {f : LogFile} (h : s.files[q]?=some f) :
    s.rotated[q]?=some f ∨ q=s.rotated.length ∧ f=s.active := by
  rcases Nat.lt_or_ge q s.rotated.length with hq | hq
  · rw [files_getElem?_rotated s hq] at h
    exact .inl h
  · rw [files,List.getElem?_append_right hq] at h
    have hlt : q-s.rotated.length<1 := by
      obtain ⟨hlt,-⟩ := List.getElem?_eq_some_iff.mp h
      simpa using hlt
    have hzero : q-s.rotated.length=0 := by omega
    rw [hzero] at h
    simp only [List.getElem?_cons_zero,Option.some.injEq] at h
    exact .inr ⟨by omega,h.symm⟩

theorem grows_commit {bytes : List UInt8} (h : bytes≠[]) (t : Time) :
    s.Grows t (s.commit bytes t) := by
  have hpos : 0<bytes.length := length_pos_iff.mpr h
  refine ⟨prefix_refl _,Nat.le_refl _,?_,?_⟩
  · intro q f hq
    rcases files_getElem?_eq_some hq with hrot | ⟨rfl,rfl⟩
    · obtain ⟨hlt,-⟩ := List.getElem?_eq_some_iff.mp hrot
      refine ⟨f,?_,.refl t f⟩
      rw [files_getElem?_rotated (s.commit bytes t) hlt]
      exact hrot
    · refine ⟨_,files_getElem?_active (s.commit bytes t),rfl,?_,?_,.inr ?_⟩
      · simp [commit]
      · intro x hx
        simp only [commit,mem_append,mem_singleton] at hx
        rcases hx with hx | hx
        · exact .inl hx
        · exact .inr (Nat.le_of_eq hx.symm)
      · simp only [commit,length_append]
        omega
  · intro q f' hnone hsome
    rcases files_getElem?_eq_some hsome with hrot | ⟨rfl,-⟩
    · obtain ⟨hlt,-⟩ := List.getElem?_eq_some_iff.mp hrot
      have hlt' : q<s.rotated.length := hlt
      rw [files_getElem?_rotated s hlt',List.getElem?_eq_none_iff] at hnone
      omega
    · rw [show (s.commit bytes t).rotated.length=s.rotated.length from rfl,
        files_getElem?_active] at hnone
      cases hnone

theorem grows_rotate {s s' : Server} {r : Rotation} (h : s.rotate r=some s') (t : Time) :
    s.Grows t s' := by
  rw [rotate,Option.dite_none_right_eq_some] at h
  obtain ⟨hlt,h⟩ := h
  cases h
  refine ⟨prefix_append _ _,Nat.le_refl _,?_,?_⟩
  · intro q f hq
    rcases files_getElem?_eq_some hq with hrot | ⟨rfl,rfl⟩
    · obtain ⟨hq',-⟩ := List.getElem?_eq_some_iff.mp hrot
      refine ⟨f,?_,.refl t f⟩
      simp only [files,append_assoc]
      rw [List.getElem?_append_left hq']
      exact hrot
    · refine ⟨{ s.active with bytes := s.active.bytes++r.trailer },by simp [files],rfl,?_,?_,
        .inl rfl⟩
      · simp
      · intro x hx
        exact .inl hx
  · intro q f' hnone hsome x hx
    rcases files_getElem?_eq_some hsome with hrot | ⟨-,rfl⟩
    · obtain ⟨hq,-⟩ := List.getElem?_eq_some_iff.mp hrot
      rw [files,List.getElem?_eq_none_iff] at hnone
      simp only [length_append,length_singleton] at hq hnone
      omega
    · cases hx

theorem rotate_purged {server server' : Server} {r : Rotation}
    (h : server.rotate r=some server') : server'.purged=server.purged := by
  rw [rotate,Option.dite_none_right_eq_some] at h
  obtain ⟨_,h⟩ := h
  cases h
  rfl

theorem rotate_active {server server' : Server} {r : Rotation}
    (h : server.rotate r=some server') : server'.active={ log := r.log, bytes := r.header } := by
  rw [rotate,Option.dite_none_right_eq_some] at h
  obtain ⟨_,h⟩ := h
  cases h
  rfl

theorem position_le (name : String) : s.position name ≤ s.rotated.length :=
  findIdx_le_length

theorem getElem?_position {s : Server} {name : String} {f : LogFile} (h : s.file name=some f) :
    s.files[s.position name]?=some f := by
  obtain ⟨hmem,hname⟩ := file_eq_some h
  have hf := mem_files_of_mem_onDisk s hmem
  obtain ⟨g,hg,hgname⟩ : ∃ g,s.files[s.position name]?=some g ∧ g.log.name=name := by
    rcases Nat.lt_or_ge (s.position name) s.rotated.length with hlt | hge
    · refine ⟨s.rotated[s.position name],?_,?_⟩
      · rw [files_getElem?_rotated s hlt]
        exact List.getElem?_eq_getElem hlt
      · have hfound := findIdx_getElem (w := hlt)
        exact of_decide_eq_true hfound
    · have heq : s.position name=s.rotated.length := Nat.le_antisymm (position_le s name) hge
      refine ⟨s.active,by rw [heq]; exact files_getElem?_active s,?_⟩
      rcases mem_append.mp hf with hrot | hact
      · rw [position,findIdx_eq_length] at heq
        have := heq f hrot
        simp [hname] at this
      · rw [mem_singleton] at hact
        rw [← hact]
        exact hname
  rw [hg,s.eq_of_name_eq (mem_of_getElem? hg) hf (hgname.trans hname.symm)]

end Server

end Cnmsql.Binlog
