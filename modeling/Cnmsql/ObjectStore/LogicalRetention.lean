import Mathlib.Data.List.Sort
import Cnmsql.ObjectStore.Index

namespace Cnmsql.ObjectStore

/-- What retention reads of a logical backup's manifest. -/
structure LogicalBackupMetadata where
  backupID : String
  clusterUID : String
  completedAt : Time
  deriving DecidableEq

structure LogicalBackupEntry where
  dir : String
  metadata : LogicalBackupMetadata
  deriving DecidableEq

def completesBefore (a b : LogicalBackupEntry) : Prop :=
  a.metadata.completedAt<b.metadata.completedAt ∨
    a.metadata.completedAt=b.metadata.completedAt ∧ a.dir≤b.dir

instance : DecidableRel completesBefore := fun _ _ => inferInstanceAs (Decidable (_ ∨ _))

/-- The directories of expired dumps; the newest and undatable ones are kept. -/
def planLogicalRetention (entries : List LogicalBackupEntry) (cutoff : Time) : List String :=
  ((entries.insertionSort completesBefore).dropLast.filter fun e =>
    e.metadata.completedAt≠0 ∧ e.metadata.completedAt<cutoff).map (·.dir)

theorem mem_planLogicalRetention {entries : List LogicalBackupEntry} {cutoff : Time} {dir : String}
    (h : dir∈planLogicalRetention entries cutoff) :
    ∃ e∈entries,e.dir=dir ∧ e.metadata.completedAt<cutoff := by
  obtain ⟨e,he,hdir⟩ := List.mem_map.mp h
  obtain ⟨hmem,hexpired⟩ := List.mem_filter.mp he
  have hentry : e∈entries := (List.mem_insertionSort _).mp (List.dropLast_subset _ hmem)
  exact ⟨e,hentry,hdir,(of_decide_eq_true hexpired).2⟩

end Cnmsql.ObjectStore
