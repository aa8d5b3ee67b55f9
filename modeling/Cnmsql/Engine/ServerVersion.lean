import Cnmsql.Binlog.MariaReplay
import Cnmsql.Engine.GTIDModel

namespace Cnmsql.Engine

open Framework
open Binlog (trimSpace)

/-- A parsed `major.minor.patch` version. -/
structure Version where
  major : Int := 0
  minor : Int := 0
  patch : Int := 0
  deriving DecidableEq

/-- `strconv.Atoi`. -/
def atoi (s : List Char) : Except String Int :=
  match parseInt s with
  | some n => .ok n
  | none => .error ("strconv.Atoi: parsing " ++ (String.ofList s).quote ++
      if (parseDigits (unsigned s)).isSome then ": value out of range" else ": invalid syntax")

theorem atoi_eq_ok {s : List Char} {n : Int} : atoi s = .ok n ↔ parseInt s=some n := by
  unfold atoi
  cases parseInt s with
  | none => simp
  | some m => simp

namespace Version

def dropV : List Char → List Char
  | 'v'::rest => rest
  | rest => rest

def parsePart (text part : List Char) : Except String Int :=
  (atoi part).mapError fun err => "invalid MySQL version " ++ (String.ofList text).quote ++ ": " ++ err

/-- `Parse`: a leading `v` is tolerated and a suffix after a dash is dropped. -/
def parse (raw : String) : Except String Version :=
  let v := dropV (trimSpace raw.toList)
  if v=[] then .error "empty MySQL version"
  else
    let text := v.takeWhile (· ≠ '-')
    match text.splitOn '.' with
    | [] => .ok {}
    | [major] => do .ok { major := ← parsePart text major }
    | [major,minor] => do .ok { major := ← parsePart text major, minor := ← parsePart text minor }
    | major::minor::patch::_ => do
      .ok { major := ← parsePart text major, minor := ← parsePart text minor,
            patch := ← parsePart text patch }

/-- The numbers of a version's series, from its parts. -/
def SeriesParts (v : Version) : List (List Char) → Prop
  | [] => False
  | [major] => parseInt major=some v.major ∧ v.minor=0
  | major::minor::_ => parseInt major=some v.major ∧ parseInt minor=some v.minor

def versionText (raw : String) : List Char := (dropV (trimSpace raw.toList)).takeWhile (· ≠ '-')

theorem parsePart_eq_ok {text part : List Char} {n : Int} :
    parsePart text part = .ok n ↔ parseInt part=some n := by
  rw [parsePart,mapError_eq_ok,atoi_eq_ok]

theorem seriesParts_of_parse {raw : String} {v : Version} (h : parse raw = .ok v) :
    dropV (trimSpace raw.toList)≠[] ∧ v.SeriesParts ((versionText raw).splitOn '.') := by
  unfold parse at h
  simp only at h
  split at h
  · cases h
  rename_i hne
  refine ⟨hne,?_⟩
  unfold versionText
  split at h
  · rename_i hnil
    exact absurd hnil (List.splitOn_ne_nil _ _)
  · rename_i major heq
    obtain ⟨m,hm,h⟩ := bind_eq_ok.mp h
    cases h
    rw [heq]
    exact ⟨parsePart_eq_ok.mp hm,rfl⟩
  · rename_i major minor heq
    obtain ⟨m,hm,h⟩ := bind_eq_ok.mp h
    obtain ⟨n,hn,h⟩ := bind_eq_ok.mp h
    cases h
    rw [heq]
    exact ⟨parsePart_eq_ok.mp hm,parsePart_eq_ok.mp hn⟩
  · rename_i major minor patch rest heq
    obtain ⟨m,hm,h⟩ := bind_eq_ok.mp h
    obtain ⟨n,hn,h⟩ := bind_eq_ok.mp h
    obtain ⟨k,hk,h⟩ := bind_eq_ok.mp h
    cases h
    rw [heq]
    exact ⟨parsePart_eq_ok.mp hm,parsePart_eq_ok.mp hn⟩

theorem isPrefix_trimSpace {s t : List Char} (h : s <+: t) : trimSpace s <+: trimSpace t :=
  rdropWhile_prefix_rdropWhile (dropWhile_prefix_dropWhile h)

theorem isPrefix_dropV {s t : List Char} (h : s <+: t) (hs : s≠[]) : dropV s <+: dropV t := by
  obtain ⟨c,s,rfl⟩ := List.exists_cons_of_ne_nil hs
  obtain ⟨rest,rfl⟩ := h
  by_cases hv : c = 'v'
  · subst hv
    exact List.prefix_append _ _
  · have hself : ∀ l, dropV (c::l)=c::l := by
      intro l
      unfold dropV
      split
      · rename_i heq
        cases heq
        exact absurd rfl hv
      · rfl
    rw [List.cons_append,hself,hself]
    exact List.prefix_append _ _

/-- The beginning of a version's text stands for a whole major number, or its own major and, where
the minor is zero, zero. -/
theorem parse_truncated {raw cut : String} {v w : Version} (hcut : cut.toList <+: raw.toList)
    (hw : parse raw = .ok w) (hv : parse cut = .ok v) :
    v.minor=0 ∨ v.major=w.major ∧ (w.minor=0 → v.minor=0) := by
  obtain ⟨-,hwparts⟩ := seriesParts_of_parse hw
  obtain ⟨hne,hvparts⟩ := seriesParts_of_parse hv
  have hnonempty : trimSpace cut.toList≠[] := by
    intro hnil
    rw [hnil] at hne
    exact hne rfl
  have htext : versionText cut <+: versionText raw :=
    takeWhile_prefix_takeWhile (isPrefix_dropV (isPrefix_trimSpace hcut) hnonempty)
  obtain ⟨whole,last,part,rest,hs,ht,hlast⟩ := @exists_splitOn _ _ _ _ '.' htext
  rw [hs] at hvparts
  rw [ht] at hwparts
  -- by how many parts are whole
  match whole with
  | [] => exact .inl hvparts.2
  | [major] =>
    have hmajor : v.major=w.major := Option.some.inj (hvparts.1.symm.trans hwparts.1)
    refine .inr ⟨hmajor,?_⟩
    intro hzero
    exact parseInt_prefix_zero hlast (hzero ▸ hwparts.2) hvparts.2
  | major::minor::more =>
    have hmajor : v.major=w.major := Option.some.inj (hvparts.1.symm.trans hwparts.1)
    have hminor : v.minor=w.minor := Option.some.inj (hvparts.2.symm.trans hwparts.2)
    exact .inr ⟨hmajor,fun hzero => hminor.trans hzero⟩

def series (v : Version) : Version := { major := v.major, minor := v.minor }

def atLeast (v : Version) (major minor patch : Int) : Bool :=
  if v.major≠major then v.major > major
  else if v.minor≠minor then v.minor > minor
  else v.patch ≥ patch

def SeriesBefore (u v : Version) : Prop := u.major<v.major ∨ u.major=v.major ∧ u.minor<v.minor

instance (u v : Version) : Decidable (SeriesBefore u v) := inferInstanceAs (Decidable (_ ∨ _))

end Version

namespace Flavor

def label : Flavor → String
  | .mysql => "MySQL"
  | .mariadb => "MariaDB"

def upgradeChain : Flavor → List Version
  | .mysql => [{ major := 8, minor := 0 },{ major := 8, minor := 4 },{ major := 9, minor := 7 }]
  | .mariadb => [{ major := 10, minor := 11 },{ major := 11, minor := 4 },{ major := 12, minor := 3 }]

def seriesIndex (flavor : Flavor) (v : Version) : Option Nat :=
  flavor.upgradeChain.findIdx? (·=v.series)

variable {u v : Version} (flavor : Flavor)

theorem series_eq_of_index {flavor : Flavor} {i : Nat} (hu : flavor.seriesIndex u=some i)
    (hv : flavor.seriesIndex v=some i) : u.series=v.series := by
  obtain ⟨_,hseries,_⟩ := List.findIdx?_eq_some_iff_getElem.mp hu
  obtain ⟨_,hseries',_⟩ := List.findIdx?_eq_some_iff_getElem.mp hv
  exact (of_decide_eq_true hseries).symm.trans (of_decide_eq_true hseries')

/-- `CheckUpgrade`: the same series, or one hop forward. -/
def checkUpgrade (flavor : Flavor) (u v : Version) : Except String Unit :=
  let text := fun (w : Version) => toString w.major ++ "." ++ toString w.minor
  if u.series=v.series then .ok ()
  else
    match flavor.seriesIndex u,flavor.seriesIndex v with
    | none,_ => .error ("unsupported source " ++ flavor.label ++ " series " ++ text u)
    | _,none => .error ("unsupported target " ++ flavor.label ++ " series " ++ text v)
    | some i,some j =>
      if j < i then
        .error ("downgrade from " ++ flavor.label ++ " " ++ text u ++ " to " ++ text v ++
          " is not supported")
      else if i+1<j then
        .error ("cannot upgrade from " ++ flavor.label ++ " " ++ text u ++ " directly to " ++ text v ++
          ": upgrade to " ++ ((flavor.upgradeChain[i+1]?).map text).getD "" ++ " first")
      else .ok ()

def Hop (flavor : Flavor) (u v : Version) : Prop :=
  u.series=v.series ∨
    ∃ i,flavor.seriesIndex u=some i ∧ flavor.seriesIndex v=some (i+1)

theorem checkUpgrade_eq_ok (u v : Version) : flavor.checkUpgrade u v = .ok () ↔ flavor.Hop u v := by
  unfold checkUpgrade Hop
  by_cases hsame : u.series=v.series
  · simp [hsame]
  · simp only [hsame,if_false,false_or]
    cases hi : flavor.seriesIndex u with
    | none => simp
    | some i =>
      cases hj : flavor.seriesIndex v with
      | none => simp
      | some j =>
        have hne : i≠j := fun h => hsame (series_eq_of_index hi (h ▸ hj))
        simp only [Option.some.injEq,exists_eq_left']
        split_ifs with hback hskip
        · simp
          omega
        · simp
          omega
        · simp
          omega

theorem seriesIndex_congr (h : u.series=v.series) :
    flavor.seriesIndex u=flavor.seriesIndex v := by
  rw [seriesIndex,seriesIndex,h]

theorem seriesIndex_lt {flavor : Flavor} {u : Version} {i : Nat} (h : flavor.seriesIndex u=some i) :
    i<3 := by
  obtain ⟨hlt,_⟩ := List.findIdx?_eq_some_iff_getElem.mp h
  cases flavor with
  | mysql => exact hlt
  | mariadb => exact hlt

def NotNewer (flavor : Flavor) (u v : Version) : Prop :=
  u.series=v.series ∨
    ∃ i j,flavor.seriesIndex u=some i ∧ flavor.seriesIndex v=some j ∧ i≤j

theorem NotNewer.refl (u : Version) : flavor.NotNewer u u := .inl rfl

theorem NotNewer.trans {flavor : Flavor} {u v w : Version} (h : flavor.NotNewer u v)
    (h' : flavor.NotNewer v w) : flavor.NotNewer u w := by
  rcases h with h | ⟨i,j,hi,hj,hij⟩
  · rcases h' with h' | ⟨i,j,hi,hj,hij⟩
    · exact .inl (h.trans h')
    · exact .inr ⟨i,j,(flavor.seriesIndex_congr h).trans hi,hj,hij⟩
  · rcases h' with h' | ⟨j',k,hj',hk,hjk⟩
    · exact .inr ⟨i,j,hi,(flavor.seriesIndex_congr h').symm.trans hj,hij⟩
    · rw [hj] at hj'
      cases hj'
      exact .inr ⟨i,k,hi,hk,hij.trans hjk⟩

theorem Hop.notNewer {flavor : Flavor} (h : flavor.Hop u v) : flavor.NotNewer u v := by
  rcases h with h | ⟨i,hi,hj⟩
  · exact .inl h
  · exact .inr ⟨i,i+1,hi,hj,Nat.le_succ i⟩

theorem hop_of_notNewer (h : flavor.NotNewer u v)
    (hends : flavor.seriesIndex u=some 0 → flavor.seriesIndex v=some 2 → False) :
    flavor.Hop u v := by
  rcases h with h | ⟨i,j,hi,hj,hij⟩
  · exact .inl h
  · by_cases hsame : i=j
    · subst hsame
      exact .inl (series_eq_of_index hi hj)
    · have hlt := seriesIndex_lt hj
      have hne : ¬(i=0 ∧ j=2) := fun ⟨hi0,hj2⟩ => hends (hi0 ▸ hi) (hj2 ▸ hj)
      have hnext : j=i+1 := by omega
      exact .inr ⟨i,hi,hnext ▸ hj⟩

theorem index_zero_of_notNewer {w : Version} (h : flavor.NotNewer w u)
    (hu : flavor.seriesIndex u=some 0) : flavor.seriesIndex w=some 0 := by
  rcases h with h | ⟨i,j,hi,hj,hij⟩
  · exact (flavor.seriesIndex_congr h).trans hu
  · rw [hu] at hj
    cases hj
    rw [hi,Nat.le_zero.mp hij]

theorem index_zero_of_truncated {w m : Version} (hw : flavor.seriesIndex w=some 0)
    (hm : m.minor=0 ∨ m.major=w.major ∧ (w.minor=0 → m.minor=0)) {k : Nat}
    (hk : flavor.seriesIndex m=some k) : k=0 := by
  have hlt := seriesIndex_lt hk
  obtain ⟨_,hwseries,_⟩ := List.findIdx?_eq_some_iff_getElem.mp hw
  obtain ⟨_,hmseries,_⟩ := List.findIdx?_eq_some_iff_getElem.mp hk
  have hwseries := of_decide_eq_true hwseries
  have hmseries := of_decide_eq_true hmseries
  obtain rfl | rfl | rfl : k=0 ∨ k=1 ∨ k=2 := by omega
  · rfl
  all_goals
    cases flavor <;>
      simp only [upgradeChain,List.getElem_cons_zero,List.getElem_cons_succ,Version.series,
        Version.mk.injEq] at hwseries hmseries <;>
      omega

end Flavor

end Cnmsql.Engine
