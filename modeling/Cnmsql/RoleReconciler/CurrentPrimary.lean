import Cnmsql.Api.Cluster

namespace Cnmsql.RoleReconciler

open Api

/-- The primary's part of a merge patch; an absent field stays. -/
structure StatusPatch where
  currentPrimary : Option String
  currentPrimaryTimestamp : Option (Option Timestamp)
  currentPrimaryGeneration : Option Int64
  deriving DecidableEq

def changed {α : Type} [DecidableEq α] (before after : α) : Option α :=
  if before=after then none else some after

variable {ρ : Type}

/-- `client.MergeFrom(before)` of an object that differs in these fields. -/
def mergeFrom (before after : ClusterStatus ρ) : StatusPatch where
  currentPrimary := changed before.currentPrimary after.currentPrimary
  currentPrimaryTimestamp := changed before.currentPrimaryTimestamp after.currentPrimaryTimestamp
  currentPrimaryGeneration :=
    changed before.currentPrimaryGeneration after.currentPrimaryGeneration

def StatusPatch.apply (patch : StatusPatch) (s : ClusterStatus ρ) : ClusterStatus ρ :=
  { s with
    currentPrimary := patch.currentPrimary.getD s.currentPrimary
    currentPrimaryTimestamp := patch.currentPrimaryTimestamp.getD s.currentPrimaryTimestamp
    currentPrimaryGeneration := patch.currentPrimaryGeneration.getD s.currentPrimaryGeneration }

/-- None when it is recorded already; the counter wraps as an `int64`. -/
def setCurrentPrimary (read : ClusterStatus ρ) (me : String) (now : Timestamp) :
    Option StatusPatch :=
  if read.currentPrimary=me then none
  else some (mergeFrom read { read with
    currentPrimary := me
    currentPrimaryTimestamp := some now
    currentPrimaryGeneration := read.currentPrimaryGeneration+1 })

theorem int64_toInt_succ (g : Int64) :
    (g+1).toInt=g.toInt+1 ↔ g≠Int64.maxValue := by
  have hlo := Int64.le_toInt g
  have hhi := Int64.toInt_lt g
  have hmax : g≠Int64.maxValue ↔ g.toInt≠9223372036854775807 := by
    rw [ne_eq,← Int64.toInt_inj]
    rfl
  rw [hmax,Int64.toInt_add,show Int64.toInt 1=1 from rfl,Int.bmod_def]
  omega

theorem setCurrentPrimary_apply {read : ClusterStatus ρ} {me : String} {now : Timestamp}
    {patch : StatusPatch} (h : setCurrentPrimary read me now=some patch)
    (live : ClusterStatus ρ) :
    (patch.apply live).currentPrimary=me ∧
    (patch.apply live).currentPrimaryGeneration=read.currentPrimaryGeneration+1 := by
  rw [setCurrentPrimary,Option.ite_none_left_eq_some] at h
  obtain ⟨hme,hpatch⟩ := h
  cases hpatch
  rw [StatusPatch.apply,mergeFrom]
  simp [changed,hme]

end Cnmsql.RoleReconciler
