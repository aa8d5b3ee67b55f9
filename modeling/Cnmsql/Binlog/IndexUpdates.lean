import Cnmsql.Binlog.Archiver

namespace Cnmsql.Binlog

open Framework ObjectStore

def Call.Apart : Call → Prop
  | .getIndex | .putIndexIf _ _ => False
  | _ => True

namespace Archiver

section

def apart : Discipline Call Answer Unit where
  allowed _ op := op.Apart
  next _ _ _ := ()

variable {α β : Type}

def Silent (p : Prog Call Answer α) : Prop := Prog.Obeys apart (fun _ _ => True) () p

def Quiet (m : Pass α) : Prop := ∀ mem,Silent (m.run.run mem)

theorem quiet_pure (a : α) : Quiet (pure a) := fun _ => trivial

theorem quiet_throw (e : ArchiveError) : Quiet (throw e : Pass α) := fun _ => trivial

theorem quiet_ofExcept (x : Except ArchiveError α) : Quiet (Routine.ofExcept x) := by
  cases x with
  | ok a => exact quiet_pure a
  | error e => exact quiet_throw e

theorem quiet_perform {op : Call} (h : op.Apart) : Quiet (perform op) := fun _ => ⟨h,fun _ => trivial⟩

theorem quiet_bind {m : Pass α} {f : α → Pass β} (hm : Quiet m) (hf : ∀ a,Quiet (f a)) :
    Quiet (m >>= f) := by
  intro mem
  change Routine.Meets apart (fun _ _ _ => True) () mem (m >>= f)
  refine Routine.meets_bind.mpr ((hm mem).mono ?_)
  rintro-⟨r,mem'⟩ -
  cases r with
  | ok a => exact hf a mem'
  | error e => trivial

theorem quiet_now : Quiet now := quiet_perform trivial

theorem quiet_ask (q : Query) : Quiet (ask q) := quiet_perform trivial

theorem quiet_openSegment (c : Options) (index : ArchiveIndex) : Quiet (openSegment c index) := by
  unfold openSegment
  cases segment c.serverUUID index with
  | some seg => exact quiet_pure seg
  | none => exact quiet_bind quiet_now fun _ => quiet_pure _

theorem quiet_foldFile (c : Options) (index : ArchiveIndex) (status : ArchiveStatus)
    (fileName fileGTIDSet : String) : Quiet (foldFile c index status fileName fileGTIDSet) := by
  unfold foldFile
  refine quiet_bind (quiet_ask _) fun uid => quiet_bind (quiet_openSegment c index) fun seg => ?_
  refine quiet_bind quiet_now fun endedAt => quiet_bind (quiet_ofExcept _) fun segSet => ?_
  refine quiet_bind (quiet_ofExcept _) fun fileSet => quiet_bind (quiet_ofExcept _) fun empty => ?_
  exact quiet_bind (quiet_ofExcept _) fun covered => quiet_bind quiet_now fun _ => quiet_pure _

variable [CaseMapping]

theorem quiet_forkSource : Quiet forkSource := by
  refine quiet_bind (quiet_ask _) fun authority => ?_
  rcases authority with e | (_ | authority)
  · exact quiet_pure _
  · exact quiet_pure _
  · exact quiet_pure _

theorem quiet_load (pass : ForkPass) : Quiet (load pass) := by
  unfold load
  cases pass.preloaded with
  | some judge => exact quiet_pure _
  | none => exact quiet_bind quiet_forkSource fun _ => quiet_pure _

theorem quiet_checkForks (c : Options) (index : ArchiveIndex) (pass : ForkPass) :
    Quiet (checkForks c index pass) := by
  unfold checkForks
  split_ifs
  · exact quiet_pure _
  · exact quiet_pure _
  · refine quiet_bind (quiet_load pass) fun loaded => ?_
    obtain ⟨pass,judge⟩ := loaded
    rcases judge with e | (_ | judge)
    · exact quiet_pure _
    · exact quiet_pure _
    · refine quiet_bind quiet_now fun checkedAt => ?_
      cases judgeIndex judge c.serverUUID checkedAt (forkIdentity c) index with
      | error e => exact quiet_pure _
      | ok r => exact quiet_pure _

theorem quiet_foldAttempt (c : Options) (status : ArchiveStatus) (fileName fileGTIDSet : String)
    (pass : ForkPass) (found : Option ArchiveIndex) :
    Quiet (foldAttempt c status fileName fileGTIDSet pass found) := by
  unfold foldAttempt
  refine quiet_bind (quiet_foldFile c _ status fileName fileGTIDSet) fun index => ?_
  exact quiet_bind (quiet_checkForks c _ pass) fun _ => quiet_pure _

theorem quiet_stampAttempt (c : Options) (through : Time) (generation : Int)
    (b : ForkPass × ForkReport) (found : Option ArchiveIndex) :
    Quiet (stampAttempt c through generation b found) := by
  unfold stampAttempt
  cases found with
  | none => exact quiet_pure _
  | some index =>
    refine quiet_bind (quiet_checkForks c index b.1) fun r => ?_
    cases r.report.err with
    | some e => exact quiet_throw _
    | none =>
      dsimp only
      split
      · exact quiet_pure _
      · exact quiet_bind quiet_now fun _ => quiet_pure _

end

section

variable {β : Type} (mutate : β → Option ArchiveIndex → Pass (β × Option ArchiveIndex))

/-- What a round does with the outcome of `mutate` on the index read at `etag`. -/
def afterMutate (attempts : Nat) (etag : Option Nat) :
    Except ArchiveError (β × Option ArchiveIndex) × Memory →
      Prog Call Answer (Except ArchiveError β × Memory)
  | (.error e,mem) => .pure (.error e,mem)
  | (.ok (b,none),mem) => .pure (.ok b,mem)
  | (.ok (b,some index),mem) => .call (.putIndexIf index etag) fun
    | .error e => .pure (.error (.failed "writing archive index" e),mem)
    | .ok true => .pure (.ok b,mem)
    | .ok false => (updateArchiveIndex mutate attempts b).run.run mem

theorem run_update_succ (attempts : Nat) (b : β) (mem : Memory) :
    (updateArchiveIndex mutate (attempts+1) b).run.run mem = .call .getIndex fun
      | .error e => .pure (.error (.failed "reading archive index" e),mem)
      | .ok (found,etag) =>
        (mutate b found).run.run mem >>= afterMutate mutate attempts etag := by
  refine congrArg (Prog.call Call.getIndex) (funext fun r => ?_)
  rcases r with e | ⟨found,etag⟩
  · rfl
  · refine congrArg (Prog.bind ((mutate b found).run.run mem)) (funext fun outcome => ?_)
    obtain ⟨(e | ⟨b',(_ | index)⟩),mem'⟩ := outcome
    · rfl
    · rfl
    · refine congrArg (Prog.call (Call.putIndexIf index etag)) (funext fun written => ?_)
      rcases written with e | (_ | _)
      · rfl
      · rfl
      · rfl

end

/-- A caller of the update: what it makes of an index, and its start. -/
structure Updater where
  State : Type
  init : State
  memory : Memory
  mutate : State → Option ArchiveIndex → Pass (State × Option ArchiveIndex)
  quiet : ∀ b found,Quiet (mutate b found)

namespace Updater

abbrev Program (u : Updater) := Prog Call Answer (Except ArchiveError u.State × Memory)

def program (u : Updater) : u.Program :=
  (updateArchiveIndex u.mutate indexUpdateAttempts u.init).run.run u.memory

/-- What an attempt can start with: every one before lost its race. -/
inductive Reached (u : Updater) : u.State → Memory → Prop
  | start : Reached u u.init u.memory
  | again {b b' : u.State} {mem mem' : Memory} {found : Option ArchiveIndex} {index : ArchiveIndex}
      {record : List (Sigma Answer)} (h : Reached u b mem)
      (hlost : Routine.Ends (u.mutate b found) mem record (.ok (b',some index)) mem') :
      Reached u b' mem'

def Makes (u : Updater) (before : Option ArchiveIndex) (after : ArchiveIndex) : Prop :=
  ∃ b mem record b' mem',u.Reached b mem ∧
    Routine.Ends (u.mutate b before) mem record (.ok (b',some after)) mem'

def LeavesAlone (u : Updater) (found : Option ArchiveIndex) (b' : u.State) (mem' : Memory) : Prop :=
  ∃ b mem record,u.Reached b mem ∧
    Routine.Ends (u.mutate b found) mem record (.ok (b',none)) mem'

variable {u : Updater} {contents : Option Nat → Option ArchiveIndex}

/-- How far an updater is that has not written: before an attempt, inside `mutate`, or failed. -/
inductive Phase (contents : Option Nat → Option ArchiveIndex) (u : Updater) : u.Program → Prop
  | looping {b : u.State} {mem : Memory} (n : Nat) (h : u.Reached b mem) :
      Phase contents u ((updateArchiveIndex u.mutate n b).run.run mem)
  | mutating {b : u.State} {mem : Memory} {record : List (Sigma Answer)}
      {rest : Prog Call Answer (Except ArchiveError (u.State × Option ArchiveIndex) × Memory)}
      (n : Nat) (v : Option Nat) (h : u.Reached b mem)
      (hrest : Prog.Resumes ((u.mutate b (contents v)).run.run mem) record rest)
      (hsilent : Silent rest) : Phase contents u (rest >>= afterMutate u.mutate n v)
  | failed (e : ArchiveError) (mem : Memory) : Phase contents u (.pure (.error e,mem))

/-- Where an updater that has not written can be, with its next call. -/
theorem Phase.call {op : Call} {k : Answer op → u.Program} (h : Phase contents u (.call op k)) :
    (∃ n b mem,u.Reached b mem ∧
      Prog.call op k=(updateArchiveIndex u.mutate (n+1) b).run.run mem) ∨
    (∃ n v b mem record k',u.Reached b mem ∧
      Prog.Resumes ((u.mutate b (contents v)).run.run mem) record (.call op k') ∧
      Silent (.call op k') ∧ k=fun r => k' r >>= afterMutate u.mutate n v) ∨
    ∃ n v b mem record b' mem' index,u.Reached b mem ∧
      Routine.Ends (u.mutate b (contents v)) mem record (.ok (b',some index)) mem' ∧
      Prog.call op k=afterMutate u.mutate n v (.ok (b',some index), mem') := by
  generalize hp : Prog.call op k=p at h
  cases h with
  | looping n h =>
    cases n with
    | zero => cases hp
    | succ n => exact .inl ⟨n,_,_,h,rfl⟩
  | @mutating b mem record rest n v h hrest hsilent =>
    cases rest with
    | call op' k' =>
      cases hp
      exact .inr (.inl ⟨n,v,b,mem,record,k',h,hrest,hsilent,rfl⟩)
    | pure outcome =>
      obtain ⟨(e | ⟨b',(_ | index)⟩),mem'⟩ := outcome
      · cases hp
      · cases hp
      · refine .inr (.inr ⟨n,v,b,mem,record,b',mem',index,h,?_,rfl⟩)
        simpa using hrest.yields (.pure _)
  | failed e mem => cases hp

theorem Phase.read {k : Answer .getIndex → u.Program} (h : Phase contents u (.call .getIndex k))
    (v : Option Nat) : Phase contents u (k (.ok (contents v,v))) ∧
      ∀ e,Phase contents u (k (.error e)) := by
  rcases h.call with ⟨n,b,mem,hb,hp⟩ | ⟨n,v,b,mem,record,k',-,-,hsilent,-⟩ |
    ⟨n,v,b,mem,record,b',mem',index,-,-,hp⟩
  · rw [run_update_succ] at hp
    cases hp
    exact ⟨.mutating n v hb .refl (u.quiet b _ mem),fun e => .failed _ _⟩
  · exact hsilent.1.elim
  · cases hp

theorem Phase.write {index : ArchiveIndex} {etag : Option Nat}
    {k : Answer (.putIndexIf index etag) → u.Program}
    (h : Phase contents u (.call (.putIndexIf index etag) k)) :
    u.Makes (contents etag) index ∧ (∃ b mem,k (.ok true) = .pure (.ok b,mem)) ∧
      Phase contents u (k (.ok false)) ∧ ∀ e,Phase contents u (k (.error e)) := by
  rcases h.call with ⟨n,b,mem,-,hp⟩ | ⟨n,v,b,mem,record,k',-,-,hsilent,-⟩ |
    ⟨n,v,b,mem,record,b',mem',index,hb,hends,hp⟩
  · rw [run_update_succ] at hp
    cases hp
  · exact hsilent.1.elim
  · cases hp
    exact ⟨⟨b,mem,record,b',mem',hb,hends⟩,⟨b',mem',rfl⟩,.looping n (.again hb hends),
      fun e => .failed _ _⟩

theorem Phase.other {op : Call} {k : Answer op → u.Program} (h : Phase contents u (.call op k))
    (hop : op.Apart) (r : Answer op) : Phase contents u (k r) := by
  rcases h.call with ⟨n,b,mem,-,hp⟩ | ⟨n,v,b,mem,record,k',hb,hrest,hsilent,rfl⟩ |
    ⟨n,v,b,mem,record,b',mem',index,-,-,hp⟩
  · rw [run_update_succ] at hp
    cases hp
    exact hop.elim
  · exact .mutating n v hb (hrest.call r) (hsilent.2 r)
  · cases hp
    exact hop.elim

theorem Phase.done {b : u.State} {mem : Memory} (h : Phase contents u (.pure (.ok b,mem))) :
    ∃ v,u.LeavesAlone (contents v) b mem := by
  generalize hp : (Prog.pure (.ok b,mem) : u.Program)=p at h
  cases h with
  | looping n h =>
    cases n with
    | zero => cases hp
    | succ n =>
      rw [run_update_succ] at hp
      cases hp
  | @mutating b₀ mem₀ record rest n v h hrest hsilent =>
    cases rest with
    | call op k => cases hp
    | pure outcome =>
      obtain ⟨(e | ⟨b',(_ | index)⟩),mem'⟩ := outcome
      · cases hp
      · cases hp
        refine ⟨v,b₀,mem₀,record,h,?_⟩
        simpa using hrest.yields (.pure _)
      · cases hp
  | failed e mem => cases hp

end Updater

variable {κ : Type}

/-- A write of the index that took effect. -/
structure Put (κ : Type) where
  writer : κ
  before : Option ArchiveIndex
  after : ArchiveIndex

/-- The current version, how far every caller is, and the writes that took effect. -/
structure Shared (u : κ → Updater) where
  version : Option Nat
  running : (i : κ) → (u i).Program
  puts : List (Put κ) := []

variable {u : κ → Updater}

namespace Shared

def start (u : κ → Updater) (version : Option Nat) : Shared u where
  version := version
  running i := (u i).program

def writers (s : Shared u) : List κ := s.puts.map Put.writer

end Shared

def Composed : Option ArchiveIndex → List (Put κ) → Option ArchiveIndex → Prop
  | first,[],last => first=last
  | first,p::puts,last => p.before=first ∧ Composed (some p.after) puts last

theorem Composed.snoc {first last : Option ArchiveIndex} {puts : List (Put κ)} {i : κ}
    {index : ArchiveIndex} (h : Composed first puts last) :
    Composed first (puts++[⟨i,last,index⟩]) (some index) := by
  induction puts generalizing first with
  | nil => exact ⟨h.symm,rfl⟩
  | cons p puts ih => exact ⟨h.1,ih h.2⟩

variable (contents : Option Nat → Option ArchiveIndex) (first : Option ArchiveIndex) (s : Shared u)

/-- The index is what the callers whose write took effect made of it, in order; each of them wrote
once, and no other is among them. -/
structure Sequential : Prop where
  composed : Composed first s.puts (contents s.version)
  made : ∀ p∈s.puts,(u p.writer).Makes p.before p.after
  once : s.writers.Nodup
  returned : ∀ i∈s.writers,∃ b mem,s.running i = .pure (.ok b,mem)
  failed : ∀ i e mem,s.running i = .pure (.error e,mem) → i∉s.writers
  unchanged : ∀ i b mem,s.running i = .pure (.ok b,mem) → i∉s.writers →
    ∃ v,(u i).LeavesAlone (contents v) b mem

/-- What every call keeps. -/
structure Consistent : Prop where
  composed : Composed first s.puts (contents s.version)
  made : ∀ p∈s.puts,(u p.writer).Makes p.before p.after
  once : s.writers.Nodup
  returned : ∀ i∈s.writers,∃ b mem,s.running i = .pure (.ok b,mem)
  phase : ∀ i∉s.writers,(u i).Phase contents (s.running i)

variable {contents : Option Nat → Option ArchiveIndex} {first : Option ArchiveIndex} {s s' : Shared u}

section

variable {i : κ} {op : Call} {k : Answer op → (u i).Program} (h : Consistent contents first s)
  (hi : s.running i = .call op k)
include h hi

theorem Consistent.not_written : i∉s.writers := by
  intro hmem
  obtain ⟨b,mem,hdone⟩ := h.returned i hmem
  rw [hi] at hdone
  cases hdone

theorem Consistent.phase_of_call : (u i).Phase contents (.call op k) :=
  hi ▸ h.phase i (h.not_written hi)

end

theorem consistent_start (u : κ → Updater) (version : Option Nat) :
    Consistent contents (contents version) (Shared.start u version) where
  composed := rfl
  made := by simp [Shared.start]
  once := by simp [Shared.start,Shared.writers]
  returned := by simp [Shared.start,Shared.writers]
  phase i _ := .looping indexUpdateAttempts .start

theorem Consistent.sequential (h : Consistent contents first s) : Sequential contents first s :=
  { h with
    failed i e mem hi hmem := by
      obtain ⟨b,mem',hdone⟩ := h.returned i hmem
      rw [hi] at hdone
      cases hdone
    unchanged i b mem hi hmem := (hi ▸ h.phase i hmem).done }

variable [DecidableEq κ]

namespace Shared

def resume (s : Shared u) (i : κ) (p : (u i).Program) : Shared u :=
  { s with running := Function.update s.running i p }

@[simp] theorem resume_same (s : Shared u) (i : κ) (p : (u i).Program) : (s.resume i p).running i=p := by
  simp [resume]

theorem resume_of_ne (s : Shared u) {i j : κ} (h : j≠i) (p : (u i).Program) :
    (s.resume i p).running j=s.running j := by
  simp [resume,h]

/-- One call of one caller. A conditional write takes effect only at the current version, and a
failed call changes nothing. -/
inductive Step (contents : Option Nat → Option ArchiveIndex) : Shared u → Shared u → Prop
  | read {s : Shared u} {i : κ} {k : Answer .getIndex → (u i).Program}
      (h : s.running i = .call .getIndex k) :
      Step contents s (s.resume i (k (.ok (contents s.version,s.version))))
  | readFails {s : Shared u} {i : κ} {k : Answer .getIndex → (u i).Program} (e : String)
      (h : s.running i = .call .getIndex k) : Step contents s (s.resume i (k (.error e)))
  | write {s : Shared u} {i : κ} {index : ArchiveIndex}
      {k : Answer (.putIndexIf index s.version) → (u i).Program} (version : Option Nat)
      (h : s.running i = .call (.putIndexIf index s.version) k)
      (hversion : contents version=some index) :
      Step contents s
        { s.resume i (k (.ok true)) with
          version := version
          puts := s.puts++[⟨i,contents s.version,index⟩] }
  | lose {s : Shared u} {i : κ} {index : ArchiveIndex} {etag : Option Nat}
      {k : Answer (.putIndexIf index etag) → (u i).Program}
      (h : s.running i = .call (.putIndexIf index etag) k) (hlost : etag≠s.version) :
      Step contents s (s.resume i (k (.ok false)))
  | writeFails {s : Shared u} {i : κ} {index : ArchiveIndex} {etag : Option Nat}
      {k : Answer (.putIndexIf index etag) → (u i).Program} (e : String)
      (h : s.running i = .call (.putIndexIf index etag) k) :
      Step contents s (s.resume i (k (.error e)))
  | other {s : Shared u} {i : κ} {op : Call} {k : Answer op → (u i).Program} (r : Answer op)
      (h : s.running i = .call op k) (hop : op.Apart) : Step contents s (s.resume i (k r))

end Shared

theorem Consistent.resume (h : Consistent contents first s) {i : κ} (hi : i∉s.writers)
    {p : (u i).Program} (hp : (u i).Phase contents p) : Consistent contents first (s.resume i p) where
  composed := h.composed
  made := h.made
  once := h.once
  returned j hj := by
    have hne : j≠i := fun he => hi (he ▸ hj)
    obtain ⟨b,mem,hdone⟩ := h.returned j hj
    exact ⟨b,mem,(s.resume_of_ne hne p).trans hdone⟩
  phase j hj := by
    by_cases he : j=i
    · subst he
      rw [Shared.resume_same]
      exact hp
    · rw [Shared.resume_of_ne s he]
      exact h.phase j hj

theorem Consistent.write (h : Consistent contents first s) {i : κ} {index : ArchiveIndex}
    {k : Answer (.putIndexIf index s.version) → (u i).Program} {version : Option Nat}
    (hi : s.running i = .call (.putIndexIf index s.version) k)
    (hversion : contents version=some index) :
    Consistent contents first
      { s.resume i (k (.ok true)) with
        version := version
        puts := s.puts++[⟨i,contents s.version,index⟩] } := by
  have hnew := h.not_written hi
  obtain ⟨hmakes,⟨b,mem,hdone⟩,-,-⟩ := (h.phase_of_call hi).write
  have hwriters : (s.puts++[Put.mk i (contents s.version) index]).map Put.writer=s.writers++[i] := by
    simp [Shared.writers]
  constructor
  · rw [hversion]
    exact h.composed.snoc
  · intro p hp
    rcases List.mem_append.mp hp with hp | hp
    · exact h.made p hp
    · rw [List.mem_singleton.mp hp]
      exact hmakes
  · rw [Shared.writers,hwriters]
    exact h.once.append (List.nodup_singleton i) (by simpa using hnew)
  · intro j hj
    rw [Shared.writers,hwriters,List.mem_append,List.mem_singleton] at hj
    by_cases he : j=i
    · subst he
      exact ⟨b,mem,(s.resume_same j _).trans hdone⟩
    · obtain ⟨b,mem,hdone⟩ := h.returned j (hj.resolve_right he)
      exact ⟨b,mem,(s.resume_of_ne he _).trans hdone⟩
  · intro j hj
    rw [Shared.writers,hwriters,List.mem_append,List.mem_singleton,not_or] at hj
    exact (s.resume_of_ne hj.2 (k (.ok true))).symm ▸ h.phase j hj.1

theorem Consistent.step (h : Consistent contents first s) (hstep : Shared.Step contents s s') :
    Consistent contents first s' := by
  cases hstep with
  | read hi => exact h.resume (h.not_written hi) ((h.phase_of_call hi).read _).1
  | readFails e hi => exact h.resume (h.not_written hi) (((h.phase_of_call hi).read none).2 e)
  | write version hi hversion => exact h.write hi hversion
  | lose hi hlost => exact h.resume (h.not_written hi) (h.phase_of_call hi).write.2.2.1
  | writeFails e hi => exact h.resume (h.not_written hi) ((h.phase_of_call hi).write.2.2.2 e)
  | other r hi hop => exact h.resume (h.not_written hi) ((h.phase_of_call hi).other hop r)

theorem consistent_of_run {version : Option Nat}
    (hrun : Relation.ReflTransGen (Shared.Step contents) (Shared.start u version) s) :
    Consistent contents (contents version) s := by
  induction hrun with
  | refl => exact consistent_start u version
  | tail _ hstep ih => exact ih.step hstep

end Archiver

end Cnmsql.Binlog
