import Cnmsql.Binlog.Ticks

namespace Cnmsql.Binlog

open Framework Replication ObjectStore

namespace Outside

variable {α : Type} {o : Outside}

theorem orFault_eq_ok {x : Except String α} {a : α} :
    o.orFault x = .ok a ↔ o.fault=none ∧ x = .ok a := by
  unfold orFault
  cases o.fault with
  | none => simp
  | some e => simp

theorem took_of_fault (h : o.fault=none) : o.took=true := by simp [took,h]

end Outside

section

variable {ι : Type} [DecidableEq ι]

@[simp] theorem setServer_self (s : System ι) (i : ι) (server : Server) :
    (s.setServer i server).nodes i={ s.nodes i with server } := by
  simp [System.setServer]

theorem setServer_other (s : System ι) {i j : ι} (server : Server) (h : j≠i) :
    (s.setServer i server).nodes j=s.nodes j := by
  simp [System.setServer,h]

def System.restarted (s : System ι) (i : ι) : System ι :=
  { s with
    nodes := Function.update s.nodes i { s.nodes i with pass := .pure (.ok (), {}), know := {} } }

def System.started [CaseMapping] (f : Fleet ι) (s : System ι) (i : ι) (mem : Memory) : System ι :=
  { s with
    nodes := Function.update s.nodes i
      { s.nodes i with pass := begin (f.options i) mem, know := (s.nodes i).know.next } }

variable (f : Fleet ι) (s : System ι) (i : ι) (o : Outside) (c : Call) (k : Answer c → Running)

@[simp] theorem performed_self :
    (performed f s i o c k).nodes i =
      { server := s.serverAfter i o c
        pass := k (s.answer f i o c)
        know := (s.nodes i).know.learn (f.options i).serverUUID c (s.answer f i o c)
        through := throughAfter (s.nodes i).through c
        atRead := atReadAfter s.executed (s.nodes i).atRead c } := by
  simp [performed]

theorem performed_other {i j : ι} (h : j≠i) : (performed f s i o c k).nodes j=s.nodes j := by
  simp [performed,h]

@[simp] theorem restarted_self :
    (s.restarted i).nodes i={ s.nodes i with pass := .pure (.ok (), {}), know := {} } := by
  simp [System.restarted]

theorem restarted_other {i j : ι} (h : j≠i) : (s.restarted i).nodes j=s.nodes j := by
  simp [System.restarted,h]

theorem server_setServer (j : ι) (server : Server) :
    (s.setServer i server).server j=Function.update s.server i server j := by
  by_cases hj : j=i
  · subst hj
    simp [System.server]
  · simp [System.server,setServer_other s server hj,hj]

theorem server_restarted (j : ι) : (s.restarted i).server j=s.server j := by
  by_cases hj : j=i
  · subst hj
    simp [System.server]
  · simp [System.server,restarted_other s hj]

theorem server_performed (j : ι) (o : Outside) (c : Call) (k : Answer c → Running) :
    (performed f s i o c k).server j=Function.update s.server i (s.serverAfter i o c) j := by
  by_cases hj : j=i
  · subst hj
    simp [System.server]
  · simp [System.server,performed_other f s o c k hj,hj]

theorem remembers_fresh : Remembers {} {} where
  flushed h := absurd rfl h
  verified _ _ h := by cases h
  scans _ _ h := by cases h
  indexed _ h := by cases h

/-- What a call does outside the pass, if anything. -/
inductive Effect (f : Fleet ι) (s : System ι) (i : ι) : Call → Server → Archive → Prop where
  | none {c : Call} : Effect f s i c (s.server i) s.archive
  | rotated {server : Server} {r : Rotation} (h : (s.server i).rotate r=some server) :
      Effect f s i .flushLogs server s.archive
  | purged {name : String} {server : Server} (h : (s.server i).purgeTo name=some server) :
      Effect f s i (.purgeLogsTo name) server s.archive
  | uploaded {name : String} {size : Nat} {file : LogFile} (h : (s.server i).file name=some file) :
      Effect f s i (.upload name size) (s.server i)
        { s.archive with
          bodies := s.archive.bodies.insert ((f.options i).serverUUID,name) file.bytes }
  | manifest {name : String} {metadata : BinlogMetadata} :
      Effect f s i (.putManifest name metadata) (s.server i)
        { s.archive with
          manifests := s.archive.manifests.insert ((f.options i).serverUUID,name) metadata }
  | status {status : ArchiveStatus} :
      Effect f s i (.putStatus status) (s.server i)
        { s.archive with statuses := s.archive.statuses.insert (f.options i).serverUUID status }
  | index {index : ArchiveIndex} :
      Effect f s i (.putIndexIf index s.archive.etag) (s.server i) (s.archive.putIndex index)

omit [DecidableEq ι] in
theorem effect_of_call (f : Fleet ι) (s : System ι) (i : ι) (o : Outside) (c : Call) :
    Effect f s i c (s.serverAfter i o c) (s.archiveAfter f i o c) := by
  cases c with simp only [System.serverAfter,System.archiveAfter]
  | flushLogs =>
    split
    · cases hr : o.rotation.bind (s.server i).rotate with
      | none => exact .none
      | some server =>
        obtain ⟨r,-,hr⟩ := Option.bind_eq_some_iff.mp hr
        exact .rotated hr
    · exact .none
  | purgeLogsTo name =>
    split
    · cases hp : (s.server i).purgeTo name with
      | none => exact .none
      | some server => exact .purged hp
    · exact .none
  | upload name size =>
    split
    · cases hf : (s.server i).file name with
      | none => exact .none
      | some file => exact .uploaded hf
    · exact .none
  | putManifest name metadata =>
    split
    · exact .manifest
    · exact .none
  | putStatus status =>
    split
    · exact .status
    · exact .none
  | putIndexIf index etag =>
    split
    · rename_i h
      rw [h.2]
      exact .index
    · exact .none
  | _ => exact .none

end

section

variable [CaseMapping] {ι : Type} [DecidableEq ι]

/-- What a step can be. -/
inductive Move (f : Fleet ι) (s : System ι) : Act ι → System ι → Prop where
  | quiet {a : Act ι} {s' : System ι} (nodes : s'.nodes=s.nodes) (archive : s'.archive=s.archive)
      (clock : s.clock ≤ s'.clock) (executed : s'.executed=s.executed ∨ a = .execute s'.executed)
      (recorded : s'.recorded=s.recorded ∨ a = .record s'.recorded) : Move f s a s'
  | log {a : Act ι} (i : ι) (server : Server) (grows : (s.server i).Grows s.clock server)
      (purged : server.purged=(s.server i).purged) : Move f s a (s.setServer i server)
  | restart (i : ι) : Move f s (.restart i) (s.restarted i)
  | start (i : ι) (r : Except ArchiveError Unit) (mem : Memory)
      (pass : (s.nodes i).pass = .pure (r,mem)) : Move f s (.start i) (s.started f i mem)
  | call (i : ι) (o : Outside) (c : Call) (k : Answer c → Running)
      (pass : (s.nodes i).pass = .call c k) : Move f s (.call i o) (performed f s i o c k)
  | expire (st : ObjectStore.Step) (rest : List ObjectStore.Step) (expiry : s.expiry=st::rest) :
      Move f s .expire { s with archive := s.archive.expire s.clock st, expiry := rest }

theorem move_of_step {f : Fleet ι} {s s' : System ι} {a : Act ι} (h : step f s a=some s') :
    Move f s a s' := by
  cases a with simp only [step,Option.ite_none_right_eq_some,Option.some.injEq] at h
  | advance d =>
    cases h
    exact .quiet rfl rfl (Nat.le_add_right _ _) (.inl rfl) (.inl rfl)
  | commit i bytes =>
    obtain ⟨hne,rfl⟩ := h
    exact .log i _ (Server.grows_commit _ hne _) rfl
  | rotate i r =>
    obtain ⟨server,hr,rfl⟩ := Option.map_eq_some_iff.mp h
    exact .log i server (Server.grows_rotate hr _) (Server.rotate_purged hr)
  | execute gtidSet =>
    cases h
    exact .quiet rfl rfl (Nat.le_refl _) (.inr rfl) (.inl rfl)
  | record view =>
    cases h
    exact .quiet rfl rfl (Nat.le_refl _) (.inl rfl) (.inr rfl)
  | restart i =>
    cases h
    exact .restart i
  | start i =>
    split at h
    · cases h
    · rename_i r mem hpass
      cases h
      exact .start i r mem hpass
  | call i o =>
    split at h
    · cases h
    · rename_i c k hpass
      cases h
      exact .call i o c k hpass
  | plan backups cutoff =>
    obtain ⟨-,rfl⟩ := h
    exact .quiet rfl rfl (Nat.le_refl _) (.inl rfl) (.inl rfl)
  | expire =>
    split at h
    · cases h
    · rename_i st rest hexpiry
      cases h
      exact .expire st rest hexpiry
  | abandon =>
    cases h
    exact .quiet rfl rfl (Nat.le_refl _) (.inl rfl) (.inl rfl)

variable (f : Fleet ι) (s : System ι)

@[simp] theorem started_self (i : ι) (mem : Memory) :
    (s.started f i mem).nodes i =
      { s.nodes i with pass := begin (f.options i) mem, know := (s.nodes i).know.next } := by
  simp [System.started]

theorem started_other (mem : Memory) {i j : ι} (h : j≠i) :
    (s.started f i mem).nodes j=s.nodes j := by
  simp [System.started,h]

theorem server_started (i j : ι) (mem : Memory) : (s.started f i mem).server j=s.server j := by
  by_cases hj : j=i
  · subst hj
    simp [System.server]
  · simp [System.server,started_other f s mem hj]

/-- What a step does to one instance. -/
inductive Turn (f : Fleet ι) (s s' : System ι) (j : ι) : Act ι → Node → Prop where
  | idle {a : Act ι} : Turn f s s' j a (s.nodes j)
  | log {a : Act ι} (server : Server) : Turn f s s' j a { s.nodes j with server }
  | restart : Turn f s s' j (.restart j) { s.nodes j with pass := .pure (.ok (), {}), know := {} }
  | start (r : Except ArchiveError Unit) (mem : Memory) (pass : (s.nodes j).pass = .pure (r,mem)) :
      Turn f s s' j (.start j)
        { s.nodes j with pass := begin (f.options j) mem, know := (s.nodes j).know.next }
  | call (o : Outside) (c : Call) (k : Answer c → Running) (pass : (s.nodes j).pass = .call c k)
      (next : s'=performed f s j o c k) : Turn f s s' j (.call j o)
        { server := s.serverAfter j o c
          pass := k (s.answer f j o c)
          know := (s.nodes j).know.learn (f.options j).serverUUID c (s.answer f j o c)
          through := throughAfter (s.nodes j).through c
          atRead := atReadAfter s.executed (s.nodes j).atRead c }

section

variable {f : Fleet ι} {s s' : System ι} {a : Act ι} (hm : Move f s a s')
include hm

theorem turn_of_move (j : ι) : Turn f s s' j a (s'.nodes j) := by
  cases hm with
  | quiet nodes =>
    rw [nodes]
    exact .idle
  | log i server =>
    by_cases hj : j=i
    · subst hj
      rw [setServer_self]
      exact .log server
    · rw [setServer_other s server hj]
      exact .idle
  | restart i =>
    by_cases hj : j=i
    · subst hj
      rw [restarted_self]
      exact .restart
    · rw [restarted_other s hj]
      exact .idle
  | start i r mem pass =>
    by_cases hj : j=i
    · subst hj
      rw [started_self]
      exact .start r mem pass
    · rw [started_other f s mem hj]
      exact .idle
  | call i o c k pass =>
    by_cases hj : j=i
    · subst hj
      rw [performed_self]
      exact .call o c k pass rfl
    · rw [performed_other f s o c k hj]
      exact .idle
  | expire => exact .idle

/-- How a fact about what was learnt is kept: while others move, when nothing is known, past a pass,
and of what is learnt. -/
theorem know_move {P : System ι → ι → Know → Prop}
    (stable : ∀ j,P s j (s.nodes j).know → P s' j (s.nodes j).know) (fresh : ∀ j,P s' j {})
    (next : ∀ j know,P s' j know → P s' j know.next)
    (learn : ∀ i o c k r know',a = .call i o → (s.nodes i).pass = .call c k → s'=performed f s i o c k → s.answer f i o c=r → Lesson (f.options i).serverUUID (s.nodes i).know c r know' → P s' i know')
    (h : ∀ j,P s j (s.nodes j).know) (j : ι) : P s' j (s'.nodes j).know := by
  have hold := stable j (h j)
  have hturn := turn_of_move hm j
  generalize s'.nodes j=node at hturn ⊢
  cases hturn with
  | idle => exact hold
  | log => exact hold
  | restart => exact fresh j
  | start => exact next j _ hold
  | call o c k pass heq => exact learn j o c k _ _ rfl pass heq rfl (lesson_learn _ _ _)

theorem executed_move : s'.executed=s.executed ∨ a = .execute s'.executed := by
  cases hm with
  | quiet nodes archive clock executed => exact executed
  | _ => exact .inl rfl

end

section

variable {f : Fleet ι} {s s' : System ι}

theorem executed_call {i : ι} {o : Outside}
    (hm : Move f s (.call i o) s') : s'.executed=s.executed := by
  cases executed_move hm with
  | inl heq => exact heq
  | inr hexec => cases hexec

theorem executed_grows {a : Act ι} (hm : Move f s a s')
    (h : ∀ g,a = .execute g → gtids s.executed ⊆ gtids g) : gtids s.executed ⊆ gtids s'.executed := by
  cases executed_move hm with
  | inl heq => rw [heq]
  | inr hexec => exact h _ hexec

theorem recorded_move {a : Act ι} (hm : Move f s a s') :
    s'.recorded=s.recorded ∨ a = .record s'.recorded := by
  cases hm with
  | quiet nodes archive clock executed recorded => exact recorded
  | _ => exact .inl rfl

end

end

section

variable {ι : Type}

def System.written (s : System ι) (i : ι) : Option ArchiveIndex :=
  match (s.nodes i).nextCall with
  | some (.putIndexIf index etag) => if etag=s.archive.etag then some index else none
  | _ => none

theorem nextCall_of_written {s : System ι} {i : ι} {index : ArchiveIndex} (h : s.written i=some index) :
    (s.nodes i).nextCall=some (.putIndexIf index s.archive.etag) := by
  unfold System.written at h
  split at h
  · rename_i hnext
    rw [Option.ite_none_right_eq_some] at h
    obtain ⟨hetag,h⟩ := h
    cases h
    rw [hnext,hetag]
  · cases h

end

variable [CaseMapping] {ι : Type}

/-- The running pass keeps the contract and leaves a memory of things learnt. -/
def Obeying (f : Fleet ι) (s : System ι) : Prop :=
  ∀ i,Prog.Obeys (contract (f.options i)) (fun know r => Remembers know r.2) (s.nodes i).know
    (s.nodes i).pass

theorem Obeying.allowed {f : Fleet ι} {s : System ι} (h : Obeying f s) {i : ι} {c : Call}
    {k : Answer c → Running} (pass : (s.nodes i).pass = .call c k) :
    (contract (f.options i)).allowed (s.nodes i).know c := by
  have hcall := h i
  rw [pass] at hcall
  exact hcall.1

theorem Obeying.allowed_next {f : Fleet ι} {s : System ι} (h : Obeying f s) {i : ι} {c : Call}
    (hnext : (s.nodes i).nextCall=some c) : (contract (f.options i)).allowed (s.nodes i).know c := by
  cases hpass : (s.nodes i).pass with
  | pure r =>
    rw [Node.nextCall,hpass] at hnext
    cases hnext
  | call c' k =>
    rw [Node.nextCall,hpass,Option.some.injEq] at hnext
    subst hnext
    exact h.allowed hpass

variable [DecidableEq ι]

theorem obeys_begin (c : Options) {know : Know} {mem : Memory} (hmem : Remembers know mem) :
    Prog.Obeys (contract c) (fun know r => Remembers know r.2) know.next (begin c mem) := by
  have hmem' : Remembers know.next mem := { hmem with }
  have h := runs_tick (c := c) hmem' rfl rfl
  exact Prog.Obeys.mono (fun _ _ hr => hr.1) h

theorem obeying_step {f : Fleet ι} {s s' : System ι} {a : Act ι} (hm : Move f s a s')
    (h : Obeying f s) : Obeying f s' := by
  intro j
  have hold := h j
  have hturn := turn_of_move hm j
  generalize s'.nodes j=node at hturn ⊢
  cases hturn with
  | idle => exact hold
  | log => exact hold
  | restart => exact remembers_fresh
  | start r mem pass =>
    rw [pass] at hold
    exact obeys_begin (f.options j) hold
  | call o c k pass =>
    rw [pass] at hold
    exact hold.2 (s.answer f j o c)

end Cnmsql.Binlog
