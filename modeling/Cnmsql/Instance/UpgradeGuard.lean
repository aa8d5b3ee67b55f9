import Cnmsql.Engine.ServerVersion

namespace Cnmsql.Instance

open Framework Engine
open Binlog (trimSpace isSpace)

section

/-- The server that last ran on a directory, and its marker file. -/
structure DataDir where
  served : Option Version := none
  marker : Option (List Char) := none
  deriving DecidableEq

variable (flavor : Flavor) (d : DataDir) (version : String)

def readVersionMarker : Except String (Option Version) :=
  match d.marker with
  | none => .ok none
  | some content =>
    match Version.parse (String.ofList (trimSpace content)) with
    | .error e => .error ("parsing mysql version marker " ++ (String.ofList content).quote ++ ": " ++ e)
    | .ok v => .ok (some v)

/-- `guardDataDirUpgrade`: a directory without a marker is always allowed. -/
def guardDataDirUpgrade (targetVersion : String) :
    Except String Unit := do
  match ← readVersionMarker d with
  | none => .ok ()
  | some u =>
    let v ← (Version.parse targetVersion).mapError fun e =>
      "parsing target MySQL version " ++ targetVersion.quote ++ ": " ++ e
    (flavor.checkUpgrade u v).mapError fun e => "refusing to start mysqld on this data directory: " ++ e

def markerContent : List Char := version.toList++['\n']

/-- How far an instance start came. -/
inductive StartOutcome where
  /-- It ended before mysqld ran. -/
  | notStarted
  /-- mysqld ran, but the marker was not written. -/
  | unrecorded
  /-- The write of the marker failed after `k` characters. -/
  | truncated (k : Nat)
  | recorded
  deriving DecidableEq

/-- The directory after mysqld ran on it. -/
def DataDir.afterStart (v : Version) : StartOutcome → DataDir
  | .notStarted => d
  | .unrecorded => { d with served := some v }
  | .truncated k => { served := some v, marker := some ((markerContent version).take k) }
  | .recorded => { served := some v, marker := some (markerContent version) }

variable (outcome : StartOutcome)

def Starts (v : Version) : Prop :=
  Version.parse version = .ok v ∧ guardDataDirUpgrade flavor d version = .ok () ∧ outcome ≠ .notStarted

/-- One instance start. -/
def start : DataDir :=
  match Version.parse version,guardDataDirUpgrade flavor d version with
  | .ok v, .ok () => d.afterStart version v outcome
  | _,_ => d

theorem start_cases :
    start flavor d version outcome=d ∨
      ∃ v,Starts flavor d version outcome v ∧
        start flavor d version outcome=d.afterStart version v outcome := by
  unfold start
  cases hv : Version.parse version with
  | error e => exact .inl rfl
  | ok v =>
    cases hg : guardDataDirUpgrade flavor d version with
    | error e => exact .inl rfl
    | ok u =>
      cases outcome with
      | notStarted => exact .inl rfl
      | unrecorded | truncated k | recorded => exact .inr ⟨v,⟨hv,hg,by simp⟩,rfl⟩

end

variable {content : List Char} (s : List Char)

theorem trimSpace_newline : trimSpace (s++['\n'])=trimSpace s := by
  change ((s++['\n']).dropWhile isSpace).rdropWhile isSpace=(s.dropWhile isSpace).rdropWhile isSpace
  rw [List.dropWhile_append]
  split
  · rename_i hnil
    rw [List.isEmpty_iff.mp hnil]
    rfl
  · exact List.rdropWhile_concat_pos _ _ _ (by decide)

theorem trimSpace_idem : trimSpace (trimSpace s)=trimSpace s := by
  have hhead : (trimSpace s).dropWhile isSpace=trimSpace s := by
    obtain ⟨rest,hrest⟩ : trimSpace s <+: s.dropWhile isSpace := List.rdropWhile_prefix _ _
    cases ht : trimSpace s with
    | nil => rfl
    | cons c t =>
      have hc := List.head?_dropWhile_not isSpace s
      rw [← hrest,ht] at hc
      rw [List.dropWhile_cons,if_neg (by simpa using hc)]
  change ((trimSpace s).dropWhile isSpace).rdropWhile isSpace=trimSpace s
  rw [hhead]
  exact List.rdropWhile_idempotent _ _

theorem parse_trimSpace :
    Version.parse (String.ofList (trimSpace s))=Version.parse (String.ofList s) := by
  unfold Version.parse
  simp only [String.toList_ofList,trimSpace_idem]

variable {flavor : Flavor}

/-- What was written, or a part of it, for a server no newer than `u`. -/
def Records (flavor : Flavor) (content : List Char) (u : Version) : Prop :=
  ∃ raw w,Version.parse raw = .ok w ∧ content <+: markerContent raw ∧ flavor.NotNewer w u

theorem index_of_truncated {raw : String} {w m : Version} (hw : Version.parse raw = .ok w)
    (hcut : content <+: markerContent raw)
    (hm : Version.parse (String.ofList (trimSpace content)) = .ok m)
    (hfirst : flavor.seriesIndex w=some 0) {k : Nat} (hk : flavor.seriesIndex m=some k) :
    k=0 := by
  have hwhole : Version.parse (String.ofList (trimSpace (markerContent raw))) = .ok w := by
    rw [markerContent,trimSpace_newline,parse_trimSpace,String.ofList_toList,hw]
  have hpre : (String.ofList (trimSpace content)).toList <+:
      (String.ofList (trimSpace (markerContent raw))).toList := by
    rw [String.toList_ofList,String.toList_ofList]
    exact Version.isPrefix_trimSpace hcut
  have hcases := Version.parse_truncated hpre hwhole hm
  exact flavor.index_zero_of_truncated hfirst hcases hk

theorem checked_of_guard {d : DataDir} {version : String} {v : Version}
    (hmarker : d.marker=some content) (hv : Version.parse version = .ok v)
    (hguard : guardDataDirUpgrade flavor d version = .ok ()) :
    ∃ m,Version.parse (String.ofList (trimSpace content)) = .ok m ∧
      flavor.checkUpgrade m v = .ok () := by
  obtain ⟨read,hread,hguard⟩ := bind_eq_ok.mp hguard
  simp only [readVersionMarker,hmarker] at hread
  split at hread
  · cases hread
  · rename_i m hm
    cases hread
    obtain ⟨v',hv',hcheck⟩ := bind_eq_ok.mp hguard
    rw [mapError_eq_ok,hv] at hv'
    cases hv'
    exact ⟨m,hm,mapError_eq_ok.mp hcheck⟩

theorem hop_of_guard {d : DataDir} {version : String} {u v : Version}
    (hmarker : d.marker=some content) (hrecords : Records flavor content u)
    (hnewer : flavor.NotNewer u v) (hv : Version.parse version = .ok v)
    (hguard : guardDataDirUpgrade flavor d version = .ok ()) : flavor.Hop u v := by
  obtain ⟨raw,w,hw,hcut,hwu⟩ := hrecords
  obtain ⟨m,hm,hcheck⟩ := checked_of_guard hmarker hv hguard
  apply flavor.hop_of_notNewer hnewer
  intro hu hlast
  have hfirst : flavor.seriesIndex w=some 0 := flavor.index_zero_of_notNewer hwu hu
  rcases (flavor.checkUpgrade_eq_ok m v).mp hcheck with hsame | ⟨i,hi,hj⟩
  · have hindex := index_of_truncated hw hcut hm hfirst ((flavor.seriesIndex_congr hsame).trans hlast)
    exact absurd hindex (by decide)
  · have hzero := index_of_truncated hw hcut hm hfirst hi
    rw [hlast] at hj
    simp [hzero] at hj

end Cnmsql.Instance
