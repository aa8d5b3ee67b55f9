import Cnmsql.Binlog.ArchiveRuns

namespace Cnmsql.Binlog

open Framework ObjectStore List

def Since (server : Server) (t : Time) (q : Nat) : Prop :=
  ∀ r,q≤r → ∀ file,server.files[r]?=some file → ∀ x∈file.commits,t≤x

variable {server server' : Server} {t : Time}

theorem Since.mono {q r : Nat} (h : Since server t q) (hqr : q≤r) : Since server t r := by
  intro k hk
  exact h k (Nat.le_trans hqr hk)

theorem Server.Grows.commit_of_lt {t : Time} {s s' : Server} (hg : s.Grows t s') {q : Nat}
    {file' : LogFile} (hq : s'.files[q]?=some file') {x : Time} (hx : x∈file'.commits)
    (hlt : x<t) : ∃ file,s.files[q]?=some file ∧ file.log=file'.log ∧ x∈file.commits := by
  cases hold : s.files[q]? with
  | none => exact absurd (hg.added q file' hold hq x hx) (Nat.not_le.mpr hlt)
  | some file =>
    obtain ⟨file'',hget,hext⟩ := hg.kept q file hold
    rw [hq,Option.some.injEq] at hget
    subst hget
    cases hext.commits x hx with
    | inl hin => exact ⟨file,rfl,hext.log.symm,hin⟩
    | inr hle => exact absurd hle (Nat.not_le.mpr hlt)

theorem Since.grows {u : Time} {q : Nat} (h : Since server t q) (hg : server.Grows u server')
    (htu : t≤u) : Since server' t q := by
  intro r hr file' hfile' x hx
  by_contra hlt
  have hxu : x<u := Nat.lt_of_lt_of_le (Nat.lt_of_not_le hlt) htu
  obtain ⟨file,hfile,-,hin⟩ := hg.commit_of_lt hfile' hx hxu
  exact hlt (h r hr file hfile x hin)

theorem since_active {server : Server} {t : Time} (h : ∀ x∈server.active.commits,t≤x) :
    Since server t server.rotated.length := by
  intro r hr file hfile
  cases Server.files_getElem?_eq_some hfile with
  | inl hrot =>
    obtain ⟨hlt,-⟩ := List.getElem?_eq_some_iff.mp hrot
    omega
  | inr hact =>
    rw [hact.2]
    exact h

/-- The active log of the last forced rotation, empty while it has the size it was listed with. -/
def Flushed.Holds (flushed : Flushed) (server : Server) : Prop :=
  ∃ q file,server.files[q]?=some file ∧ file.log.name=flushed.flushedActive ∧
    flushed.flushedSize≤file.bytes.length ∧
    ((file.bytes.length : Int)=flushed.flushedSize → file.commits=[]) ∧
    Since server flushed.flushedAt q

theorem Flushed.Holds.grows {flushed : Flushed} {server server' : Server} {t : Time}
    (h : flushed.Holds server) (hg : server.Grows t server') (ht : flushed.flushedAt≤t) :
    flushed.Holds server' := by
  obtain ⟨q,file,hfile,hname,hsize,hempty,hsince⟩ := h
  obtain ⟨file',hfile',hext⟩ := hg.kept q file hfile
  have hle := hext.size
  refine ⟨q,file',hfile',by rw [hext.log,hname],by omega,?_,hsince.grows hg ht⟩
  intro heq
  cases hext.grown with
  | inl hsame =>
    rw [hsame]
    exact hempty (by omega)
  | inr hlt => omega

/-- What an instance knows of the times at which things were done. -/
structure Timed (server : Server) (now : Time) (know : Know) : Prop where
  clock : know.clock≤now
  flushing : ∀ t,know.flushing=some t → t≤now ∧ Since server t server.rotated.length
  flushed : know.flushed.flushedActive ≠ "" →
    know.flushed.flushedAt≤now ∧ know.flushed.Holds server
  listed : ∀ t,know.listedAt=some t → t≤now ∧ (know.flushed.flushedActive ≠ "" →
    ∃ p r,Shows server know.logs p r ∧ Since server know.flushed.flushedAt r ∧
      ((activeLog know.logs).name=know.flushed.flushedActive →
        (activeLog know.logs).sizeBytes=know.flushed.flushedSize → Since server t r))

theorem timed_fresh (server : Server) (now : Time) : Timed server now {} where
  clock := Nat.zero_le now
  flushing _ h := by cases h
  flushed h := absurd rfl h
  listed _ h := by cases h

theorem Timed.next {now : Time} {know : Know} (h : Timed server now know) :
    Timed server now know.next where
  clock := Nat.zero_le now
  flushing _ h := by cases h
  flushed := h.flushed
  listed _ h := by cases h

theorem Timed.grows {server server' : Server} {now now' : Time} {know : Know}
    (h : Timed server now know) (hg : server.Grows now server') (hc : now≤now') :
    Timed server' now' know where
  clock := Nat.le_trans h.clock hc
  flushing t ht := by
    obtain ⟨hle,hsince⟩ := h.flushing t ht
    exact ⟨Nat.le_trans hle hc,(hsince.grows hg hle).mono hg.rotated.length_le⟩
  flushed hne := by
    obtain ⟨hle,hholds⟩ := h.flushed hne
    exact ⟨Nat.le_trans hle hc,hholds.grows hg hle⟩
  listed t ht := by
    obtain ⟨hle,hlisted⟩ := h.listed t ht
    refine ⟨Nat.le_trans hle hc,?_⟩
    intro hne
    obtain ⟨p,r,hshows,hflushed,hsame⟩ := hlisted hne
    refine ⟨p,r,hshows.grows hg,hflushed.grows hg (h.flushed hne).1,?_⟩
    intro hname hsize
    exact (hsame hname hsize).grows hg hle

/-- A listing right after a forced rotation finds nothing in the new log. -/
theorem Timed.list {server : Server} {now : Time} {know : Know} (h : Timed server now know)
    (hempty : know.flushing.isSome → server.active.commits=[]) :
    Timed server now (know.list server.listing) := by
  have hname : (activeLog server.listing).name=server.active.log.name := by
    rw [server.activeLog_listing]
    rfl
  have hsize : (activeLog server.listing).sizeBytes=server.active.bytes.length := by
    rw [server.activeLog_listing]
    rfl
  have hnone : server.active.commits=[] → ∀ t,Since server t server.rotated.length := by
    intro hnil t
    apply since_active
    rw [hnil]
    intro x hx
    cases hx
  cases hf : know.flushing with
  | some t =>
    obtain ⟨hle,hsince⟩ := h.flushing t hf
    have hnil := hempty (by rw [hf]; rfl)
    have hholds : (know.list server.listing).flushed.Holds server := by
      simp only [Know.list,hf]
      exact ⟨_,_,server.files_getElem?_active,hname.symm,hsize.le,fun _ => hnil,hsince⟩
    refine ⟨h.clock,?_,?_,?_⟩
    · intro _ hnext
      cases hnext
    · intro _
      refine ⟨?_,hholds⟩
      simp only [Know.list,hf]
      exact hle
    · intro t' ht'
      cases ht'
      refine ⟨h.clock,?_⟩
      intro _
      refine ⟨_,_,shows_listing server,?_,fun _ _ => hnone hnil _⟩
      simp only [Know.list,hf]
      exact hsince
  | none =>
    have hflushed : (know.list server.listing).flushed=know.flushed := by
      simp only [Know.list,hf]
    refine ⟨h.clock,?_,?_,?_⟩
    · intro _ hnext
      cases hnext
    · rw [hflushed]
      exact h.flushed
    · intro t' ht'
      cases ht'
      refine ⟨h.clock,?_⟩
      rw [hflushed]
      intro hne
      obtain ⟨-,q,file,hfile,hfname,hfsize,hfempty,hsince⟩ := h.flushed hne
      have hq : q ≤ server.rotated.length := by
        obtain ⟨hlt,-⟩ := List.getElem?_eq_some_iff.mp hfile
        rw [Server.files,length_append,length_singleton] at hlt
        omega
      refine ⟨_,_,shows_listing server,hsince.mono hq,?_⟩
      intro hsamename hsamesize
      -- the log of the last rotation is still the active one, and has not grown
      have hqeq : q=server.rotated.length := by
        apply Server.index_unique hfile server.files_getElem?_active
        rw [hfname,← hname]
        exact hsamename.symm
      rw [hqeq,server.files_getElem?_active,Option.some.injEq] at hfile
      subst hfile
      exact hnone (hfempty (by rw [← hsize]; exact hsamesize)) _

def Reached (c : Options) (server : Server) (archive : Archive) (t : Time) : Prop :=
  ∀ q file,server.files[q]?=some file → ∀ x∈file.commits,x<t →
    q<server.rotated.length ∧ file.log.name∈archive.listed c.serverUUID

theorem reached_zero (c : Options) (server : Server) (archive : Archive) :
    Reached c server archive 0 := by
  intro q file _ x _ hx
  exact absurd hx (Nat.not_lt_zero x)

theorem Reached.advances {c : Options} {archive archive' : Archive} {u : Time}
    (h : Reached c server archive t) (ha : Advances c.serverUUID u server server' archive archive')
    (htu : t≤u) : Reached c server' archive' t := by
  intro q file' hfile' x hx hlt
  obtain ⟨file,hfile,hlog,hin⟩ := ha.grows.commit_of_lt hfile' hx (Nat.lt_of_lt_of_le hlt htu)
  obtain ⟨hq,hlisted⟩ := h q file hfile x hin hlt
  rw [hlog] at hlisted
  exact ⟨Nat.lt_of_lt_of_le hq ha.grows.rotated.length_le,ha.listed _ hlisted⟩

/-- A fully indexed listing reaches what was committed before its active log began. -/
theorem Shows.reached {c : Options} {archive : Archive} {know : Know} {p r : Nat}
    (h : Shows server know.logs p r) (hkept : Kept c server archive)
    (hfacts : Facts c server archive know) (hall : AllIndexed know) (hsince : Since server t r) :
    Reached c server archive t := by
  obtain ⟨k,hk,hlen,hlisted⟩ := hkept.listed
  have hreach : r≤k := by
    apply h.reach hk
    intro l hl
    rw [← hlisted]
    exact hfacts.indexed l.name (hall l hl)
  intro q file hfile x hx hlt
  have hqr : q<r := by
    by_contra hge
    exact absurd (hsince q (by omega) file hfile x hx) (Nat.not_le.mpr hlt)
  have hq : q<server.rotated.length := by omega
  refine ⟨hq,?_⟩
  rw [server.files_getElem?_rotated hq] at hfile
  rw [hlisted]
  refine mem_map.mpr ⟨file,?_,rfl⟩
  rw [mem_take_iff_getElem]
  obtain ⟨hget,heq⟩ := List.getElem?_eq_some_iff.mp hfile
  exact ⟨q,by omega,heq⟩

section

variable [CaseMapping] {ι : Type} {f : Fleet ι} {s : System ι} {i : ι}

def Announced (f : Fleet ι) (s : System ι) (i : ι) (t : Time) : Prop :=
  t ≤ s.clock ∧ Reached (f.options i) (s.server i) s.archive t

omit [CaseMapping] in
theorem announced_zero (f : Fleet ι) (s : System ι) (i : ι) : Announced f s i 0 :=
  ⟨Nat.zero_le _,reached_zero _ _ _⟩

theorem announced_of_allowed (hs : Sound f s) (ht : Timed (s.server i) s.clock (s.nodes i).know)
    {t : Time} (h : (contract (f.options i)).allowed (s.nodes i).know (.note (.through t))) :
    Announced f s i t := by
  cases h with
  | inl hzero =>
    subst hzero
    exact announced_zero f s i
  | inr hrest =>
    obtain ⟨hall,hne,hsome,ht'⟩ := hrest
    obtain ⟨at',hat⟩ := Option.isSome_iff_exists.mp hsome
    obtain ⟨hle,hlisted⟩ := ht.listed at' hat
    obtain ⟨p,r,hshows,hflushed,hsame⟩ := hlisted hne
    have hreached : ∀ u,Since (s.server i) u r → Reached (f.options i) (s.server i) s.archive u :=
      fun u hu => hshows.reached (hs.kept i) (hs.facts i) hall hu
    cases ht' with
    | inl hflush =>
      rw [hflush]
      exact ⟨(ht.flushed hne).1,hreached _ hflushed⟩
    | inr hlist =>
      obtain ⟨heq,hname,hsize⟩ := hlist
      rw [hat,Option.some.injEq] at heq
      subst heq
      exact ⟨hle,hreached _ (hsame hname hsize)⟩

structure Timely (f : Fleet ι) (s : System ι) : Prop extends Sound f s where
  timed : ∀ i,Timed (s.server i) s.clock (s.nodes i).know
  known : ∀ i,Announced f s i (s.nodes i).know.through
  through : ∀ i,Announced f s i (s.nodes i).through

/-- No commit between a forced rotation and the listing after it. -/
def Unraced (s : System ι) : Act ι → System ι → Prop
  | .call i _,_ => (s.nodes i).nextCall=some .listBinaryLogs →
      (s.nodes i).know.flushing.isSome → (s.server i).active.commits=[]
  | _,_ => True

variable [DecidableEq ι] {s' : System ι} {a : Act ι}

omit [CaseMapping] [DecidableEq ι] in
theorem unraced_call {o : Outside} {k : Answer .listBinaryLogs → Running}
    (h : Unraced s (.call i o) s') (pass : (s.nodes i).pass = .call .listBinaryLogs k) :
    (s.nodes i).know.flushing.isSome → (s.server i).active.commits=[] := by
  apply h
  rw [Node.nextCall,pass]

omit [CaseMapping] [DecidableEq ι] in
theorem timed_learn (ht : Timed (s.server i) s.clock (s.nodes i).know) {o : Outside} {c : Call}
    (hgrows : (s.server i).Grows s.clock (s.serverAfter i o c))
    (hraced : c = .listBinaryLogs → (s.nodes i).know.flushing.isSome →
      (s.server i).active.commits=[]) {r : Answer c} {know' : Know} (hr : s.answer f i o c=r)
    (hlesson : Lesson (f.options i).serverUUID (s.nodes i).know c r know') :
    Timed (s.serverAfter i o c) s.clock know' := by
  have hold := ht.grows hgrows (Nat.le_refl _)
  cases hlesson with
  | listed logs =>
    have hr := (Outside.orFault_eq_ok.mp hr).2
    cases hr
    exact ht.list (hraced rfl)
  | clock t => exact { hold with clock := Nat.le_of_eq hr.symm }
  | flushed =>
    refine { hold with flushing := ?_ }
    intro t htt
    cases htt
    refine ⟨ht.clock,?_⟩
    obtain ⟨hfault,hr⟩ := Outside.orFault_eq_ok.mp hr
    cases hrot : o.rotation.bind (s.server i).rotate with
    | none =>
      rw [hrot] at hr
      cases hr
    | some server =>
      obtain ⟨r,-,hrotate⟩ := Option.bind_eq_some_iff.mp hrot
      apply since_active
      rw [System.serverAfter,if_pos (Outside.took_of_fault hfault),hrot,Option.getD_some,
        Server.rotate_active hrotate]
      intro x hx
      cases hx
  | _ => exact { hold with }

theorem clock_move {s' : System ι} {a : Act ι} (hm : Move f s a s') : s.clock ≤ s'.clock := by
  cases hm with
  | quiet nodes archive clock => exact clock
  | _ => exact Nat.le_refl _

theorem Announced.move (hs : Sound f s) (hm : Move f s a s') (ha : a.expires=false) {t : Time}
    (h : Announced f s i t) : Announced f s' i t :=
  ⟨Nat.le_trans h.1 (clock_move hm),h.2.advances (advances_move hs hm ha i) h.1⟩

section

variable (hs : Timely f s) (hm : Move f s a s') (ha : a.expires=false)
include hs hm ha

theorem timed_move (hraced : Unraced s a s') (j : ι) :
    Timed (s'.server j) s'.clock (s'.nodes j).know := by
  have hgrows : ∀ j,(s.server j).Grows s.clock (s'.server j) :=
    fun j => (advances_move hs.toSound hm ha j).grows
  apply know_move (P := fun s j know => Timed (s.server j) s.clock know) hm
  · intro j h
    exact h.grows (hgrows j) (clock_move hm)
  · intro j
    exact timed_fresh _ _
  · intro j know h
    exact h.next
  · intro i o c k r know' hact pass heq hr hlesson
    have hgrow := hgrows i
    subst heq
    subst hact
    rw [server_performed,Function.update_self] at hgrow ⊢
    refine timed_learn (hs.timed i) hgrow ?_ hr hlesson
    intro hc
    subst hc
    exact unraced_call hraced pass
  · exact hs.timed

theorem known_move (j : ι) : Announced f s' j (s'.nodes j).know.through := by
  apply know_move (P := fun s j know => Announced f s j know.through) hm
  · intro j h
    exact h.move hs.toSound hm ha
  · intro j
    exact announced_zero f s' j
  · intro j know _
    exact announced_zero f s' j
  · intro i o c k r know' _ pass heq _ hlesson
    cases hlesson with
    | through t =>
      exact (announced_of_allowed hs.toSound (hs.timed i) (hs.obeying.allowed pass)).move hs.toSound hm ha
    | _ => exact (hs.known i).move hs.toSound hm ha
  · exact hs.known

theorem through_move (j : ι) : Announced f s' j (s'.nodes j).through := by
  have hold := (hs.through j).move hs.toSound hm ha
  have hturn := turn_of_move hm j
  generalize s'.nodes j=node at hturn ⊢
  cases hturn with
  | call o c k pass =>
    change Announced f s' j (throughAfter (s.nodes j).through c)
    unfold throughAfter
    split
    · exact (announced_of_allowed hs.toSound (hs.timed j) (hs.obeying.allowed pass)).move
        hs.toSound hm ha
    · exact hold
  | _ => exact hold

end

theorem timely_move (hs : Timely f s) (hm : Move f s a s') (ha : a.expires=false)
    (hraced : Unraced s a s') : Timely f s' where
  toSound := sound_move hs.toSound hm ha
  timed := timed_move hs hm ha hraced
  known := known_move hs hm ha
  through := through_move hs hm ha

omit [DecidableEq ι] in
theorem timely_started (h : Started s) : Timely f s where
  toSound := sound_started h
  timed i := by
    rw [(h.idle i).2]
    exact timed_fresh _ _
  known i := by
    rw [(h.idle i).2]
    exact announced_zero f s i
  through i := by
    rw [(h.fresh i).2]
    exact announced_zero f s i

def System.stamp (s : System ι) : Option Time := s.archive.index.map (·.archivedThrough)

def Act.caller : Act ι → Option ι
  | .call i _ => some i
  | _ => none

/-- The instance whose call was the last in a run to change the stamp of the index. -/
def stampedBy (f : Fleet ι) (s : System ι) (last : Option ι) : List (Act ι) → Option ι
  | [] => last
  | a::as =>
    match step f s a with
    | none => last
    | some s' => stampedBy f s' (if s'.stamp=s.stamp then last else a.caller) as

def Stamped (f : Fleet ι) (s : System ι) (last : Option ι) : Prop :=
  ∀ t,s.stamp=some t → ∃ i,last=some i ∧ Announced f s i t

theorem stamped_move (hs : Timely f s) (hm : Move f s a s') (ha : a.expires=false)
    {last : Option ι} (h : Stamped f s last) :
    Stamped f s' (if s'.stamp=s.stamp then last else a.caller) := by
  intro t ht
  split
  · rename_i hsame
    obtain ⟨i,hi,hannounced⟩ := h t (hsame.symm.trans ht)
    exact ⟨i,hi,hannounced.move hs.toSound hm ha⟩
  · rename_i hchanged
    cases index_move hs.toSound hm ha with
    | inl hsame => exact absurd (congrArg (Option.map _) hsame) hchanged
    | inr hwrite =>
      obtain ⟨i,o,index,rfl,-,harchive,-,hwrite⟩ := hwrite
      have hindex : s'.stamp=some index.archivedThrough := by
        rw [System.stamp,harchive]
        rfl
      cases hindex.symm.trans ht
      refine ⟨i,rfl,?_⟩
      cases hwrite.archivedThrough with
      | inr hnew =>
        rw [hnew]
        exact (hs.known i).move hs.toSound hm ha
      | inl hkept =>
        -- an index is begun without a stamp, and a kept one has not changed it
        cases hfound : s.archive.index with
        | none =>
          rw [hkept,hfound]
          exact announced_zero f s' i
        | some found =>
          rw [hfound] at hkept
          refine absurd ?_ hchanged
          rw [hindex,hkept,System.stamp,hfound]
          rfl

/-- Every transaction committed before `t` is in a closed log archived and indexed. -/
def ArchivedBefore (f : Fleet ι) (s : System ι) (i : ι) (t : Time) : Prop :=
  ∀ file∈(s.server i).files,∀ x∈file.commits,x<t →
    file∈(s.server i).rotated ∧ file.log.name∈s.archive.listed (f.options i).serverUUID ∧
    (s.archive.manifests.lookup ((f.options i).serverUUID,file.log.name)).isSome ∧
    s.archive.bodies.lookup ((f.options i).serverUUID,file.log.name)=some file.bytes

omit [DecidableEq ι] in
theorem Announced.archivedBefore (hs : Sound f s) {t : Time} (h : Announced f s i t) :
    ArchivedBefore f s i t := by
  intro file hfile x hx hlt
  obtain ⟨q,hq,hget⟩ := mem_iff_getElem.mp hfile
  have hq' : (s.server i).files[q]?=some file := by
    rw [← hget]
    exact List.getElem?_eq_getElem hq
  obtain ⟨hlen,hlisted⟩ := h.2 q file hq' x hx hlt
  have hrot : file∈(s.server i).rotated := by
    rw [(s.server i).files_getElem?_rotated hlen] at hq'
    exact mem_of_getElem? hq'
  obtain ⟨metadata,hm⟩ := (hs.kept i).stored _ hlisted
  obtain ⟨file',hfile',hname,-,-,hbody⟩ := (hs.kept i).manifest _ metadata hm
  have heq : file'=file := (s.server i).eq_of_name_eq (Server.mem_files_of_rotated hfile') hfile hname
  rw [heq] at hbody
  exact ⟨hrot,hlisted,by rw [hm]; rfl,hbody⟩

theorem timely_run (hs : Timely f s) {last : Option ι} (h : Stamped f s last) {as : List (Act ι)}
    {t : System ι} (hrun : Along (step f) (fun s a s' => a.expires=false ∧ Unraced s a s') s as)
    (ht : exec (step f) s as=some t) : Timely f t ∧ Stamped f t (stampedBy f s last as) := by
  induction as generalizing s last with
  | nil =>
    cases ht
    exact ⟨hs,h⟩
  | cons a as ih =>
    obtain ⟨s',hstep,ht⟩ := (exec_cons _).mp ht
    obtain ⟨⟨ha,hraced⟩,hrun⟩ := hrun s' hstep
    have hm := move_of_step hstep
    rw [stampedBy,hstep]
    exact ih (timely_move hs hm ha hraced) (stamped_move hs hm ha h) hrun ht

/-- Whatever the loops do, if nothing is committed between a forced rotation and its listing. -/
theorem archivedThrough_sound (h : Started s) {as : List (Act ι)} {t : System ι}
    (hrun : Along (step f) (fun s a s' => a.expires=false ∧ Unraced s a s') s as)
    (ht : exec (step f) s as=some t) :
    (∀ i,ArchivedBefore f t i (t.nodes i).through) ∧
      ∀ index,t.archive.index=some index →
        ∃ i,stampedBy f s none as=some i ∧ ArchivedBefore f t i index.archivedThrough := by
  have hnone : Stamped f s none := by
    intro t ht
    rw [System.stamp,h.archive] at ht
    cases ht
  obtain ⟨hinv,hstamped⟩ := timely_run (timely_started h) hnone hrun ht
  constructor
  · intro i
    exact (hinv.through i).archivedBefore hinv.toSound
  · intro index hindex
    obtain ⟨i,hi,hannounced⟩ := hstamped index.archivedThrough (by rw [System.stamp,hindex]; rfl)
    exact ⟨i,hi,hannounced.archivedBefore hinv.toSound⟩

end

instance {ι : Type} (s s' : System ι) : ∀ a,Decidable (Unraced s a s')
  | .call _ _ => inferInstanceAs (Decidable (_ → _ → _))
  | .advance _ | .commit _ _ | .rotate _ _ | .execute _ | .record _ | .restart _ | .start _
  | .plan _ _ | .expire | .abandon => isTrue trivial

theorem Server.active_not_rotated (server : Server) : server.active∉server.rotated := by
  intro h
  have hord := server.ordered
  rw [pairwise_append] at hord
  exact Nat.lt_irrefl _ (hord.2.2 server.active h server.active mem_cons_self)

namespace Pair

theorem archivedThrough_rotationRun : ∃ t,exec (step fleet) initial (rotationRun [])=some t ∧
    (t.nodes .a).through=60*second+2 ∧ ArchivedBefore fleet t .a (60*second+2) ∧
    t.stamp=some (60*second+2) ∧ ∃ i,stampedBy fleet initial none (rotationRun [])=some i ∧
      ArchivedBefore fleet t i (60*second+2) := by
  obtain ⟨t,ht,htest⟩ : ∃ t,exec (step fleet) initial (rotationRun [])=some t ∧
      decide ((t.nodes .a).through=60*second+2 ∧ t.stamp=some (60*second+2))=true :=
    exec_reaches (by decide +kernel)
  obtain ⟨hthrough,hstamp⟩ := of_decide_eq_true htest
  have hquiet : Along (step fleet) (fun s a s' => a.expires=false ∧ Unraced s a s') initial
      (rotationRun []) := by decide +kernel
  have hsound := archivedThrough_sound started_initial hquiet ht
  obtain ⟨index,hindex,hat⟩ := Option.map_eq_some_iff.mp hstamp
  refine ⟨t,ht,hthrough,?_,hstamp,?_⟩
  · rw [← hthrough]
    exact hsound.1 .a
  · rw [← hat]
    exact hsound.2 index hindex

/-- A transaction committed between rotation and listing stays in the active log, and a later time
is stamped. -/
theorem archivedThrough_racingRun : Started initial ∧
    (∀ a∈rotationRun [.commit .a [2]],a.expires=false) ∧
    ∃ t,exec (step fleet) initial (rotationRun [.commit .a [2]])=some t ∧
      ¬ ArchivedBefore fleet t .a (t.nodes .a).through ∧
      t.archive.index.map (·.archivedThrough)=some (t.nodes .a).through := by
  refine ⟨started_initial,by decide +kernel,?_⟩
  obtain ⟨t,ht,htest⟩ : ∃ t,exec (step fleet) initial (rotationRun [.commit .a [2]])=some t ∧
      ((t.server .a).active.commits.any (·<(t.nodes .a).through) &&
        t.archive.index.map (·.archivedThrough)=some (t.nodes .a).through)=true :=
    exec_reaches (by decide +kernel)
  rw [Bool.and_eq_true,any_eq_true,decide_eq_true_eq] at htest
  obtain ⟨⟨x,hx,hlt⟩,hstamp⟩ := htest
  refine ⟨t,ht,?_,hstamp⟩
  intro hbefore
  have hactive : (t.server .a).active∈(t.server .a).files := by simp [Server.files]
  exact (t.server .a).active_not_rotated
    (hbefore _ hactive x hx (of_decide_eq_true hlt)).1

end Pair

end Cnmsql.Binlog
