import Cnmsql.Engine.MariaText

namespace Cnmsql.Engine

open Framework

/-- From `handoff` on, `serverID` authors every domain's transactions until the next epoch. -/
structure MariaDBEpoch where
  serverID : UInt32
  handoff : String
  deriving DecidableEq

abbrev MariaDBTimeline := List MariaDBEpoch

/-- An epoch in one domain: the sequence it starts after, and who wrote that. -/
structure DomainEpoch where
  serverID : UInt32
  start : UInt64
  handoffServer : UInt32
  deriving DecidableEq

namespace MariaDBTimeline

/-- The loop of `domain`; `prev` is the start of the epoch before. -/
def domainLoop (d : UInt32) (prev : UInt64) : MariaDBTimeline → Option (List DomainEpoch)
  | [] => some []
  | epoch::rest =>
    match parseMariaPos epoch.handoff with
    | .error _ => none
    | .ok pos =>
      let e := (pos.lookup d).getD ⟨0,0⟩
      -- a successor inherited less than its predecessor did: no longer a single chain
      if e.seq<prev then none
      else (domainLoop d e.seq rest).map (⟨epoch.serverID,e.seq,e.server⟩ :: ·)

variable (t : MariaDBTimeline) (pos : String)

/-- A timeline in one domain, `none` when no stretch can be attributed. -/
def domain (d : UInt32) : Option (List DomainEpoch) := domainLoop d 0 t

def containing (view : List DomainEpoch) (seq : UInt64) : Option Nat :=
  view.zipIdx.foldl (fun idx e => if e.1.start<seq then some e.2 else idx) none

/-- Whether a transaction is of the surviving timeline, `none` when unknown. -/
def verdict (d : UInt32) (g : MariaEntry) : Option Bool :=
  if t=[] ∨ g.seq=0 then none
  else do
    let view ← domain t d
    let i ← containing view g.seq
    let epoch ← view[i]?
    match view[i+1]? with
    | none => some (g.server=epoch.serverID)
    | some next =>
      if next.handoffServer=epoch.serverID then some (g.server=epoch.serverID)
      -- a primary nobody observed wrote part of this stretch: only its last transaction is certain
      else if g.seq=next.start then some (g.server=next.handoffServer)
      else none

/-- The loop of `Judge` over the domains of a position. -/
def judgeLoop (t : MariaDBTimeline) (p : MariaPos) (allKnown : Bool) : List UInt32 → Option Bool
  | [] => if allKnown then some true else none
  | d::rest =>
    match (p.lookup d).map (verdict t d) with
    | none => judgeLoop t p allKnown rest
    | some (some true) => judgeLoop t p allKnown rest
    | some (some false) => some false
    | some none => judgeLoop t p false rest

def judge : Except String (Option Bool) := do
  let p ← parseMariaPos pos
  .ok (judgeLoop t p true p.domains)

/-- The loop of `DeadAfter`, from the epoch before the transaction's down. -/
def lastInherited (server : UInt32) (view : List DomainEpoch) : Nat → Option UInt64
  | 0 => none
  | k+1 =>
    match view[k]?,view[k+1]? with
    | some epoch,some next =>
      if epoch.serverID=server ∨ next.handoffServer=server then some next.start
      else lastInherited server view k
    | _,_ => none

/-- The sequence past which the author of a transaction off the timeline is dead. -/
def deadAfter (d : UInt32) (g : MariaEntry) : Option UInt64 :=
  if verdict t d g=some false then do
    let view ← domain t d
    let i ← containing view g.seq
    (lastInherited g.server view i).or (view.head?.map (·.start))
  else none

/-- A timeline that started with `next` could not judge the position. -/
def pins (next : MariaDBEpoch) (position : String) : Bool :=
  match parseMariaPos next.handoff,parseMariaPos position with
  | .ok floor, .ok pos => pos.entries.any fun e => (floor.lookup e.1).any (e.2.seq≤·.seq)
  | _,_ => true

/-- How many of the oldest epochs nothing needs. -/
def unpinned (refs : List String) : MariaDBTimeline → Nat
  | _::next::rest => if refs.any (pins next) then 0 else unpinned refs (next::rest)+1
  | _ => 0

def mariaDBTimelineCeiling : Nat := 256

def pruned (refs : List String) : Nat :=
  max (unpinned refs t) (t.length-mariaDBTimelineCeiling)

def OnTimeline : Prop :=
  ∃ p,parseMariaPos pos = .ok p ∧ ∀ d e,p.lookup d=some e → verdict t d e=some true

theorem judgeLoop_eq_on (t : MariaDBTimeline) (p : MariaPos) (allKnown : Bool) (ds : List UInt32) :
    judgeLoop t p allKnown ds=some true ↔
      allKnown=true ∧ ∀ d∈ds,∀ e,p.lookup d=some e → verdict t d e=some true := by
  induction ds generalizing allKnown with
  | nil => simp [judgeLoop]
  | cons d ds ih =>
    rw [judgeLoop,List.forall_mem_cons]
    cases hl : p.lookup d with
    | none => simp [ih]
    | some e =>
      cases hv : verdict t d e with
      | none => simp [ih,hv]
      | some on =>
        cases on with
        | false => simp [hv]
        | true => simp [ih,hv]

theorem judge_eq_on : judge t pos = .ok (some true) ↔ OnTimeline t pos := by
  rw [judge,bind_eq_ok,OnTimeline]
  apply exists_congr
  intro p
  apply and_congr_right
  intro _
  rw [Except.ok.injEq,judgeLoop_eq_on]
  constructor
  · intro h d e hl
    exact h.2 d ((p.mem_domains d).mpr (by simp [hl])) e hl
  · intro h
    exact ⟨rfl,fun d _ e hl => h d e hl⟩

end MariaDBTimeline

end Cnmsql.Engine
