import Cnmsql.Binlog.Archiving

namespace Cnmsql.Binlog.Cadence

open Framework ObjectStore Archiver

section

/-- Lists the logs and forces the rotation that is due. -/
def listAndRotate (c : Options) : Pass (List BinaryLog × Time) := do
  let listedAt ← now
  let logs ← Loop.listBinaryLogs
  Loop.rotateIfDue c logs listedAt

def begin (c : Options) (mem : Memory) : Running :=
  (do let _ ← listAndRotate c; pure () : Pass Unit).run.run mem

/-- A primary's loop. `owed`: a rotation was due at the pass's start and the log is not closed yet;
`window`: one was forced and not listed since; `base`: the size of the active log when the last forced
one was listed. -/
structure State (ι : Type) where
  sys : System ι
  owed : Bool := false
  window : Bool := false
  base : Nat := 0

/-- What happens next. A pass starts with the two variables `Run` keeps. -/
inductive Moment where
  | advance (d : Time)
  | commit (bytes : List UInt8)
  | rotate (r : Rotation)
  | start (mem : Memory)
  | call (o : Outside)

variable {ι : Type} [DecidableEq ι] (f : Fleet ι) (i : ι)

/-- The interval has passed, and the active log holds a transaction. -/
def due (s : System ι) (mem : Memory) : Bool :=
  mem.lastFlush≠0 ∧ (f.options i).flushInterval ≤ s.clock-mem.lastFlush ∧
    (s.server i).active.commits≠[]

def step (s : State ι) : Moment → Option (State ι)
  | .advance d => some { s with sys := { s.sys with clock := s.sys.clock+d } }
  | .commit bytes =>
    if bytes≠[] then
      some { s with sys := s.sys.setServer i ((s.sys.server i).commit bytes s.sys.clock) }
    else none
  -- by itself the server closes the log that was due, too
  | .rotate r => ((s.sys.server i).rotate r).map fun server =>
      { s with sys := s.sys.setServer i server, owed := false }
  | .start mem =>
    match (s.sys.nodes i).pass with
    | .call _ _ => none
    | .pure (_,last) =>
      if mem.lastFlush=last.lastFlush ∧ mem.lastFlushSize=last.lastFlushSize then
        some { s with
          sys := { s.sys with
            nodes := Function.update s.sys.nodes i
              { s.sys.nodes i with pass := begin (f.options i) mem } }
          owed := due f i s.sys mem }
      else none
  | .call o =>
    match (s.sys.nodes i).pass with
    | .pure _ => none
    | .call c k => some
        { sys := performed f s.sys i o c k
          owed := s.owed && c ≠ .flushLogs
          window :=
            match c with
            | .flushLogs => s.window || (o.took && (o.rotation.bind (s.sys.server i).rotate).isSome)
            | .listBinaryLogs => s.window && o.fault.isSome
            | _ => s.window
          base :=
            match c with
            | .listBinaryLogs =>
              if s.window && o.fault.isNone then (s.sys.server i).active.bytes.length else s.base
            | _ => s.base }

/-- A pass that came to its end without an error still owes the rotation. -/
def overdue (s : State ι) : Bool :=
  match (s.sys.nodes i).pass with
  | .pure (.ok _,_) => s.owed
  | _ => false

/-- Nothing is committed between a forced rotation and a successful listing, forced rotations are
reported, and after the listing the server itself begins no smaller log. -/
def calm (s : State ι) : Moment → Bool
  | .commit _ => !s.window
  | .rotate r => s.window || s.base≤r.header.length
  | .call o =>
    match (s.sys.nodes i).nextCall with
    | some .flushLogs => !o.lost
    | some .listBinaryLogs => !s.window || o.fault.isNone
    | _ => true
  | _ => true

theorem tick_eq [CaseMapping] (c : Options) : Loop.tick c=(do
    let writable ← orFail "checking writability" (← ask .writable)
    if writable=false then
      modify Loop.demoted
      Loop.drain c
    else
      let rotated ← listAndRotate c
      let res ← archivePending c rotated.1
      let through := Loop.archivedThrough (← get).flushed rotated.1 res rotated.2
      perform (.note (.through through))
      Loop.finish c rotated.1 res through) := by
  simp only [Loop.tick,listAndRotate,bind_assoc]

end

section

/-- What may have happened on the server since. -/
structure World where
  clock : Time
  server : Server
  owed : Bool
  window : Bool
  base : Nat

def World.size (w : World) : Int := w.server.active.bytes.length

/-- A log of that size holds no transaction. -/
def World.Above (w : World) (n : Int) : Prop :=
  n≤w.size ∧ (w.server.active.commits≠[] → n<w.size)

structure World.Later (w w' : World) : Prop where
  clock : w.clock≤w'.clock
  window : w'.window=w.window
  base : w'.base=w.base
  above : w.window=false → ∀ n≤(w.base : Int),w.Above n → w'.Above n
  owed : w'.owed=true → w.owed=true ∧ (w.server.active.commits≠[] → w'.server.active.commits≠[])
  still : w.window=true → w.server.active.commits=[] → w'.server.active.commits=[]

variable {w w' w'' : World}

theorem World.Later.refl (w : World) : w.Later w :=
  ⟨le_rfl,rfl,rfl,fun _ _ _ h => h,fun h => ⟨h,fun hc => hc⟩,fun _ h => h⟩

theorem World.Later.trans (h : w.Later w') (h' : w'.Later w'') : w.Later w'' where
  clock := h.clock.trans h'.clock
  window := h'.window.trans h.window
  base := h'.base.trans h.base
  above hw n hn ha := by
    apply h'.above (h.window.trans hw) n (by rwa [h.base])
    exact h.above hw n hn ha
  owed ho := by
    obtain ⟨ho',hc'⟩ := h'.owed ho
    obtain ⟨ho,hc⟩ := h.owed ho'
    exact ⟨ho,hc' ∘ hc⟩
  still hw hc := h'.still (h.window.trans hw) (h.still hw hc)

theorem World.Later.not_owed (h : w.Later w') (ho : w.owed=false) : w'.owed=false := by
  by_contra hne
  rw [(h.owed (by simpa using hne)).1] at ho
  cases ho

/-- The baseline is a size below which the active log holds no transaction. -/
def Baseline (w : World) (mem : Memory) : Prop :=
  mem.lastFlush≠0 → mem.lastFlushSize≤w.base ∧ w.Above mem.lastFlushSize

theorem Baseline.later {mem : Memory} (h : Baseline w mem) (hwindow : w.window=false)
    (hl : w.Later w') : Baseline w' mem := by
  intro hne
  obtain ⟨hbase,habove⟩ := h hne
  exact ⟨by rwa [hl.base],hl.above hwindow _ hbase habove⟩

/-- Whatever happens meanwhile, the program ends with nothing owed, outside the window, with a
baseline. -/
def Sound (w : World) : Running → Prop
  | .pure (r,mem) => w.window=false ∧ (∀ a,r = .ok a → w.owed=false) ∧ Baseline w mem
  | .call .now k => ∀ w',w.Later w' → Sound w' (k w'.clock)
  | .call .listBinaryLogs k => ∀ w',w.Later w' →
      Sound { w' with
        window := false
        base := if w'.window then w'.server.active.bytes.length else w'.base }
        (k (.ok w'.server.listing)) ∧
        (w'.window=false → ∀ e,Sound w' (k (.error e)))
  | .call .flushLogs k => ∀ w',w.Later w' →
      (∀ r server,w'.server.rotate r=some server →
        Sound { w' with server, owed := false, window := true } (k (.ok ()))) ∧
      ∀ e, Sound { w' with owed := false } (k (.error e))
  | .call _ _ => False

theorem Sound.later {p : Running} (h : Sound w p) (hl : w.Later w') : Sound w' p := by
  match p with
  | .pure (r,mem) =>
    obtain ⟨hwindow,howed,hbase⟩ := h
    exact ⟨hl.window.trans hwindow,fun a ha => hl.not_owed (howed a ha),hbase.later hwindow hl⟩
  | .call .now k | .call .listBinaryLogs k
  | .call .flushLogs k => exact fun w'' h' => h w'' (hl.trans h')

/-- A forced rotation leaves the new log's size as the baseline. -/
theorem sound_rotate (mem : Memory) (hbase : Baseline w mem) (hwindow : w.window=false) :
    Sound w ((do let _ ← Loop.rotate; pure () : Pass Unit).run.run mem) := by
  intro w₁ h₁ w₂ h₂
  have hlater := h₁.trans h₂
  constructor
  · intro r server hrotate w₃ h₃ w₄ h₄ w₅ h₅
    have hsince := (h₃.trans h₄).trans h₅
    have hempty : w₅.server.active.commits=[] :=
      hsince.still rfl (congrArg LogFile.commits (Server.rotate_active hrotate))
    have hopen : w₅.window=true := hsince.window
    constructor
    · refine ⟨rfl,fun _ _ => hsince.not_owed rfl,fun _ => ?_⟩
      change (activeLog w₅.server.listing).sizeBytes≤(ite _ _ _ : Nat) ∧
        World.Above _ (activeLog w₅.server.listing).sizeBytes
      rw [Server.activeLog_listing,hopen,if_pos rfl]
      exact ⟨le_rfl,le_rfl,fun hc => absurd hempty hc⟩
    · intro hw
      rw [hw] at hopen
      cases hopen
  · intro e
    exact ⟨hlater.window.trans hwindow,nofun,(hbase.later hwindow hlater : Baseline w₂ mem)⟩

theorem sound_rotateIfDue (c : Options) (mem : Memory) {logs : List BinaryLog} {listedAt : Time}
    (hbase : Baseline w mem) (hwindow : w.window=false)
    (howed : w.owed=true → mem.lastFlush≠0 ∧ c.flushInterval≤w.clock-mem.lastFlush ∧
      mem.lastFlushSize<(activeLog logs).sizeBytes) :
    Sound w ((do let _ ← Loop.rotateIfDue c logs listedAt; pure () : Pass Unit).run.run mem) := by
  change Sound w ((do
    let _ ← (if mem.lastFlush=0 then do
        let lastFlush ← now
        modify fun m => { m with lastFlush, lastFlushSize := -1 }
        return (logs,listedAt)
      else do
        let t ← now
        if c.flushInterval≤t-mem.lastFlush ∧ mem.lastFlushSize<(activeLog logs).sizeBytes then
          Loop.rotate
        else return (logs,listedAt) : Pass (List BinaryLog × Time))
    pure () : Pass Unit).run.run mem)
  split
  · -- the first pass only starts the clock
    rename_i hfirst
    intro w₁ h₁
    refine ⟨h₁.window.trans hwindow,fun _ _ => ?_,fun _ => ?_⟩
    · by_contra h
      exact (howed (h₁.owed (by simpa using h)).1).1 hfirst
    · have hpos : (0 : Int)≤w₁.size := Int.natCast_nonneg _
      change (-1 : Int)≤w₁.base ∧ (-1 : Int)≤w₁.size ∧ (_ → (-1 : Int)<w₁.size)
      exact ⟨by omega,by omega,fun _ => by omega⟩
  · intro w₁ h₁
    change Sound w₁ ((do
      let _ ← (if c.flushInterval≤w₁.clock-mem.lastFlush ∧
          mem.lastFlushSize<(activeLog logs).sizeBytes then Loop.rotate
        else return (logs,listedAt) : Pass (List BinaryLog × Time))
      pure () : Pass Unit).run.run mem)
    split
    · exact sound_rotate mem (hbase.later hwindow h₁) (h₁.window.trans hwindow)
    · rename_i hidle
      refine ⟨h₁.window.trans hwindow,fun _ _ => ?_,hbase.later hwindow h₁⟩
      by_contra h
      obtain ⟨-,helapsed,hsize⟩ := howed (h₁.owed (by simpa using h)).1
      exact hidle ⟨helapsed.trans (Nat.sub_le_sub_right h₁.clock _),hsize⟩

/-- What a pass owes when it starts it sees when it lists the logs. -/
theorem sound_begin (c : Options) (mem : Memory) (hbase : Baseline w mem) (hwindow : w.window=false)
    (howed : w.owed=true → mem.lastFlush≠0 ∧ c.flushInterval≤w.clock-mem.lastFlush ∧
      w.server.active.commits≠[]) : Sound w (begin c mem) := by
  intro w₁ h₁ w₂ h₂
  have hlater := h₁.trans h₂
  have hclosed := hlater.window.trans hwindow
  have hlisted := hbase.later hwindow hlater
  constructor
  · have hidle : ({ w₂ with
        window := false
        base := if w₂.window then w₂.server.active.bytes.length else w₂.base } : World)=w₂ := by
      simp only [hclosed,Bool.false_eq_true,if_false]
      rw [← hclosed]
    rw [hidle]
    refine sound_rotateIfDue c mem hlisted hclosed fun ho => ?_
    obtain ⟨ho,hkept⟩ := hlater.owed ho
    obtain ⟨hne,helapsed,hcommits⟩ := howed ho
    rw [Server.activeLog_listing]
    exact ⟨hne,helapsed.trans (Nat.sub_le_sub_right hlater.clock _),
      (hlisted hne).2.2 (hkept hcommits)⟩
  · intro hw e
    exact ⟨hw,nofun,hlisted⟩

end

variable {ι : Type}

def State.world (s : State ι) (i : ι) : World :=
  ⟨s.sys.clock,s.sys.server i,s.owed,s.window,s.base⟩

theorem later_commit (s : State ι) (i : ι) {bytes : List UInt8} (hne : bytes≠[])
    (hwindow : s.window=false) : (s.world i).Later
      { s.world i with server := (s.sys.server i).commit bytes s.sys.clock } := by
  have hpos : 0<bytes.length := List.length_pos_iff.mpr hne
  refine ⟨le_rfl,rfl,rfl,?_,?_,?_⟩
  · intro _ n _ habove
    have hgrown : n<World.size
        { s.world i with server := (s.sys.server i).commit bytes s.sys.clock } := by
      have hle := habove.1
      simp only [World.size,State.world,Server.commit,List.length_append] at hle ⊢
      omega
    exact ⟨hgrown.le,fun _ => hgrown⟩
  · intro ho
    exact ⟨ho,fun _ => by simp [Server.commit]⟩
  · intro hw
    rw [State.world,hwindow] at hw
    cases hw

/-- A log that begins no smaller than the baseline is above it. -/
theorem later_rotate {s : State ι} {i : ι} {r : Rotation} {server : Server}
    (hrotate : (s.sys.server i).rotate r=some server)
    (hbase : s.window=true ∨ s.base≤r.header.length) :
    (s.world i).Later { s.world i with server, owed := false } := by
  have hactive := Server.rotate_active hrotate
  have hempty : server.active.commits=[] := by rw [hactive]
  refine ⟨le_rfl,rfl,rfl,?_,nofun,fun _ _ => hempty⟩
  intro hw n hn _
  have hheader : s.base≤r.header.length := by
    cases hbase with
    | inl hopen => cases hopen.symm.trans hw
    | inr hle => exact hle
  refine ⟨?_,fun hc => absurd hempty hc⟩
  simp only [World.size,State.world,hactive] at hn ⊢
  omega

variable [DecidableEq ι] {f : Fleet ι} {i : ι} {s t : State ι}
  (o : Outside) (c : Call) (k : Answer c → Running)

theorem world_performed (owed window : Bool) (base : Nat) :
    State.world ⟨performed f s.sys i o c k,owed,window,base⟩ i =
      ⟨s.sys.clock,s.sys.serverAfter i o c,owed,window,base⟩ := by
  simp [State.world,performed,System.server]

theorem pass_performed : ((performed f s.sys i o c k).nodes i).pass=k (s.sys.answer f i o c) := by
  simp [performed]

theorem sound_call {o : Outside} {c : Call} {k : Answer c → Running}
    (hpass : (s.sys.nodes i).pass = .call c k) (hcalm : calm i s (.call o)=true)
    (h : Sound (s.world i) (.call c k)) (hstep : step f i s (.call o)=some t) :
    Sound (t.world i) (t.sys.nodes i).pass := by
  have hnext : (s.sys.nodes i).nextCall=some c := by rw [Node.nextCall,hpass]
  simp only [step,hpass,Option.some.injEq] at hstep
  subst hstep
  simp only [calm,hnext] at hcalm
  rw [world_performed,pass_performed]
  match c with
  | .now => simpa [System.answer,System.serverAfter,State.world] using h _ (.refl _)
  | .listBinaryLogs =>
    obtain ⟨hok,hfail⟩ := h _ (.refl _)
    cases hfault : o.fault with
    | none =>
      cases hopen : s.window
      all_goals
        simpa [System.answer,System.serverAfter,Outside.orFault,hfault,hopen,State.world] using hok
    | some e =>
      have hwindow : s.window=false := by simpa [hfault] using hcalm
      simpa [System.answer,System.serverAfter,Outside.orFault,hfault,State.world] using hfail hwindow e
  | .flushLogs =>
    obtain ⟨hok,hfail⟩ := h _ (.refl _)
    have hlost : o.lost=false := by simpa using hcalm
    cases hfault : o.fault with
    | some e =>
      simpa [System.answer,System.serverAfter,System.refusable,Outside.orFault,Outside.took,hfault,
        hlost,State.world] using hfail e
    | none =>
      cases hrotate : o.rotation.bind (s.sys.server i).rotate with
      | none =>
        simpa [System.answer,System.serverAfter,System.refusable,Outside.orFault,Outside.took,
          hfault,hrotate,State.world] using hfail "refused"
      | some server =>
        obtain ⟨r,-,hr⟩ := Option.bind_eq_some_iff.mp hrotate
        simpa [System.answer,System.serverAfter,System.refusable,Outside.orFault,Outside.took,
          hfault,hrotate,State.world] using hok r server hr

theorem sound_start {mem : Memory} (h : Sound (s.world i) (s.sys.nodes i).pass)
    (hstep : step f i s (.start mem)=some t) : Sound (t.world i) (t.sys.nodes i).pass := by
  simp only [step] at hstep
  split at hstep
  · cases hstep
  · rename_i r last hpass
    rw [hpass] at h
    obtain ⟨hwindow,-,hbase⟩ := h
    split at hstep
    · rename_i hkept
      obtain rfl := Option.some.inj hstep
      simp only [State.world,System.server,Function.update_self]
      have hbase : Baseline (s.world i) mem := by
        unfold Baseline
        rw [hkept.1,hkept.2]
        exact hbase
      exact sound_begin _ mem hbase hwindow fun howed => of_decide_eq_true (p := _ ∧ _ ∧ _) howed
    · cases hstep

theorem sound_step {m : Moment} (hcalm : calm i s m=true)
    (h : Sound (s.world i) (s.sys.nodes i).pass) (hstep : step f i s m=some t) :
    Sound (t.world i) (t.sys.nodes i).pass := by
  cases m with
  | advance d =>
    obtain rfl := Option.some.inj hstep
    exact h.later { World.Later.refl (s.world i) with clock := Nat.le_add_right _ _ }
  | commit bytes =>
    rw [step,Option.ite_none_right_eq_some,Option.some.injEq] at hstep
    obtain ⟨hne,rfl⟩ := hstep
    have hlater := later_commit s i hne (by simpa [calm] using hcalm)
    simpa [State.world,System.server,System.setServer] using h.later hlater
  | rotate r =>
    obtain ⟨server,hrotate,rfl⟩ := Option.map_eq_some_iff.mp hstep
    have hlater := later_rotate hrotate (by simpa [calm] using hcalm)
    simpa [State.world,System.server,System.setServer] using h.later hlater
  | start mem => exact sound_start h hstep
  | call o =>
    cases hpass : (s.sys.nodes i).pass with
    | pure r => simp [step,hpass] at hstep
    | call c k => exact sound_call hpass hcalm (hpass ▸ h) hstep

/-- A loop about to make its first pass. -/
def Fresh (i : ι) (s : State ι) : Prop :=
  ∃ mem : Memory,mem.lastFlush=0 ∧ (s.sys.nodes i).pass = .pure (.ok (),mem) ∧ s.owed=false ∧
    s.window=false

/-- Outside the window after a rotation, every pass forces the rotation that is due. -/
theorem rotates_when_due {moments : List Moment} (hfresh : Fresh i s)
    (hcalm : Along (step f i) (fun s m _ => calm i s m=true) s moments)
    (hrun : exec (step f i) s moments=some t) : overdue i t=false := by
  have hsound : Sound (s.world i) (s.sys.nodes i).pass := by
    obtain ⟨mem,hzero,hpass,howed,hwindow⟩ := hfresh
    rw [hpass]
    exact ⟨hwindow,fun _ _ => howed,fun hne => absurd hzero hne⟩
  have hstep : ∀ s m s',step f i s m=some s' → calm i s m=true →
      Sound (s.world i) (s.sys.nodes i).pass → Sound (s'.world i) (s'.sys.nodes i).pass :=
    fun _ _ _ hs hm h => sound_step hm h hs
  have hend := exec_invariant hstep hcalm hrun hsound
  unfold overdue
  split
  · rename_i r mem hpass
    rw [hpass] at hend
    exact hend.2.1 _ rfl
  · rfl

/-- A pass that rotates, with `inWindow` before it lists. -/
def rotatingPass (mem : Memory) (log : LogName) (inWindow : List Moment) : List Moment :=
  [.advance (60*second),.start mem]++List.replicate 4 (.call {}) ++
    [.call { rotation := some { log } }]++inWindow++List.replicate 3 (.call {})

/-- Two passes after a commit: the first starts the clock, the second rotates. -/
def windowRun (inWindow : List Moment) : List Moment :=
  [.advance 1,.commit [1],.start {}]++List.replicate 3 (.call {}) ++
    rotatingPass { lastFlush := 1, lastFlushSize := -1 } Pair.log2 inWindow

/-- The server rotates by itself, and the next pass for what is committed after that. -/
def ownRotation : List Moment :=
  windowRun []++[.rotate { log := Pair.log3 },.commit [3]] ++
    rotatingPass { lastFlush := 1+60*second } Pair.log4 []

theorem rotates_when_due_calm :
    ∃ t,exec (step Pair.fleet .a) { sys := Pair.initial } ownRotation=some t ∧
      (t.sys.server .a).active.log=Pair.log4 ∧ overdue .a t=false := by
  have hcalm : Along (step Pair.fleet .a) (fun s m _ => calm Pair.Member.a s m=true)
      { sys := Pair.initial } ownRotation := by decide +kernel
  have hrun : (exec (step Pair.fleet .a) { sys := Pair.initial } ownRotation).map
      (fun t => (t.sys.server .a).active.log)=some Pair.log4 := by decide +kernel
  obtain ⟨t,ht,hlog⟩ := Option.map_eq_some_iff.mp hrun
  exact ⟨t,ht,hlog,rotates_when_due ⟨{},rfl,rfl,rfl,rfl⟩ hcalm ht⟩

def laterPass : List Moment :=
  [.advance (60*second),.start { lastFlush := 1+60*second, lastFlushSize := 1 }] ++
    List.replicate 3 (.call {})

/-- A transaction committed in the window is in the baseline, and nothing rotates for it. -/
theorem window_commit_stays :
    ¬∀ (s t : State Pair.Member) (moments : List Moment),Fresh .a s →
      exec (step Pair.fleet .a) s moments=some t → overdue .a t=false := by
  intro h
  obtain ⟨t,ht,hover⟩ : ∃ t,exec (step Pair.fleet .a) { sys := Pair.initial }
      (windowRun [.commit [2]]++laterPass)=some t ∧ overdue .a t=true := by
    have hrun : ((exec (step Pair.fleet .a) { sys := Pair.initial }
        (windowRun [.commit [2]]++laterPass)).map (overdue .a))=some true := by decide +kernel
    exact Option.map_eq_some_iff.mp hrun
  have := h _ t _ ⟨{},rfl,rfl,rfl,rfl⟩ ht
  rw [hover] at this
  cases this

end Cnmsql.Binlog.Cadence
