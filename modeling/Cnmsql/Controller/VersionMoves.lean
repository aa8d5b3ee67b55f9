import Cnmsql.Framework.Execution
import Cnmsql.Instance.UpgradeGuard

namespace Cnmsql.Controller

open Framework Engine Instance

section

/-- What a probe found in an image. -/
structure ImageInfo where
  image : String
  flavor : String
  serverVersion : String
  deriving DecidableEq

structure ImageCatalogRef where
  kind : String := ""
  series : String
  deriving DecidableEq

def ImageCatalogRef.catalogKind (ref : ImageCatalogRef) : String :=
  if ref.kind = "" then "ImageCatalog" else ref.kind

/-- An image that the cluster cannot move to. -/
structure ImageRejectedError where
  reason : String
  message : String
  deriving DecidableEq

def flavorName : Flavor → String
  | .mysql => "mysql"
  | .mariadb => "mariadb"

def imageTag (image : String) : String :=
  let last := (image.toList.takeWhile (· ≠ '@')).rtakeWhile (· ≠ '/')
  if ':'∈last then String.ofList (last.rtakeWhile (· ≠ ':')) else ""

def namedSeries (ref : Option ImageCatalogRef) (image : String) : Option (Version × String) :=
  match ref with
  | some ref =>
    match Version.parse ref.series with
    | .ok v => some (v.series, "the " ++ ref.catalogKind ++ " " ++ ref.series.quote ++ " entry")
    | .error _ => none
  | none =>
    if imageTag image = "" then none
    else
      match Version.parse (imageTag image) with
      | .ok v => some (v.series, "the image tag " ++ (imageTag image).quote)
      | .error _ => none

variable (flavor : Flavor) (ref : Option ImageCatalogRef) (previous : Option ImageInfo)
  (info : ImageInfo)

def validateTargetImage : Except ImageRejectedError Unit :=
  if info.flavor≠flavorName flavor then
    .error ⟨"ImageFlavorMismatch","Image " ++ info.image ++ " runs " ++ info.flavor ++
      ", but the cluster's flavor is " ++ flavorName flavor⟩
  else
    match Version.parse info.serverVersion with
    | .error e => .error ⟨"ImageProbeFailed",e⟩
    | .ok probed =>
      if flavor = .mysql ∧ ¬probed.atLeast 5 7 0 then
        .error ⟨"UnsupportedUpgrade","Image " ++ info.image ++ " runs MySQL " ++ info.serverVersion ++
          "; MySQL 5.6 and older are not supported"⟩
      else
        match namedSeries ref info.image with
        | some (named,source) =>
          if named≠probed.series then
            .error ⟨"ImageSeriesMismatch","Image " ++ info.image ++ " runs " ++ info.serverVersion ++
              ", which is not series " ++ toString named.major ++ "." ++ toString named.minor ++
              " named by " ++ source⟩
          else checkMove previous probed
        | none => checkMove previous probed
where
  /-- The move from the previous target must be a supported upgrade. -/
  checkMove (previous : Option ImageInfo) (probed : Version) : Except ImageRejectedError Unit :=
    match previous with
    | none => .ok ()
    | some p =>
      match Version.parse p.serverVersion with
      | .error _ => .ok ()
      | .ok u => (flavor.checkUpgrade u probed).mapError fun e => ⟨"UnsupportedUpgrade",
          "Cannot move from " ++ p.image ++ " (" ++ p.serverVersion ++ ") to " ++ info.image ++ " (" ++
            info.serverVersion ++ "): " ++ e⟩

/-- An accepted image is one supported move from the previous target. -/
theorem hop_of_validate {flavor : Flavor} {ref : Option ImageCatalogRef} {previous : Option ImageInfo}
    {info : ImageInfo} (h : validateTargetImage flavor ref previous info = .ok ()) :
    ∃ v,Version.parse info.serverVersion = .ok v ∧ ∀ p u,previous=some p →
      Version.parse p.serverVersion = .ok u → flavor.Hop u v := by
  unfold validateTargetImage at h
  split at h
  · cases h
  split at h
  · cases h
  rename_i probed hprobed
  refine ⟨probed,hprobed,?_⟩
  have hmove : validateTargetImage.checkMove flavor info previous probed = .ok () := by
    split at h
    · cases h
    split at h
    · split at h
      · cases h
      · exact h
    · exact h
  intro p u hp hu
  simp only [validateTargetImage.checkMove,hp,hu] at hmove
  exact (flavor.checkUpgrade_eq_ok u probed).mp (mapError_eq_ok.mp hmove)

inductive Probe where
  | running
  | rejected (e : ImageRejectedError)
  | failed (message : String)
  | found (info : ImageInfo)
  deriving DecidableEq

/-- Why there is no target image. -/
inductive ImageError where
  | probing (image : String)
  | rejected (e : ImageRejectedError)
  | transient (message : String)
  deriving DecidableEq

/-- The previous target until the image is probed and valid, and whether it was accepted. -/
def resolveTargetImage (image : String) (probe : Probe) : Except ImageError (ImageInfo × Bool) :=
  match previous.filter (·.image=image) with
  | some p => .ok (p,false)
  | none =>
    let keep := fun (e : ImageError) =>
      match previous with
      | none => .error e
      | some p => .ok (p,false)
    match probe with
    | .failed message => .error (.transient message)
    | .running => keep (.probing image)
    | .rejected e => keep (.rejected e)
    | .found info =>
      match validateTargetImage flavor ref previous info with
      | .error e => keep (.rejected e)
      | .ok () => .ok (info,true)

end

/-- The accepted target, the version of each Pod's image, and the data directories. -/
structure VersionSite where
  target : Option ImageInfo := none
  pods : Map String String := ∅
  dirs : Map String DataDir := ∅

inductive MoveEvent where
  /-- A pass resolves the image of the spec. -/
  | resolve (ref : Option ImageCatalogRef) (image : String) (probe : Probe)
  | createPod (name : String)
  | deletePod (name : String)
  /-- The instance manager of the Pod starts the server, or tries to. -/
  | start (name : String) (outcome : StartOutcome)
  /-- A replaced manager adopts the server and writes the marker if it can. -/
  | adopt (name : String) (outcome : StartOutcome)
  /-- A new data directory, of the target's server. -/
  | newDir (name : String)
  /-- A re-clone from another instance. -/
  | clone (name donor : String)
  /-- A restore of a physical backup that was taken by a server of version `u`. -/
  | restore (name : String) (u : Version)
  /-- The volume is lost. -/
  | lose (name : String)

namespace VersionSite

/-- A directory is replaced while no Pod mounts it; the new one has no marker. -/
def replaceDir (s : VersionSite) (name : String) (served : Option Version) : Option VersionSite :=
  if name∈s.pods then none else some { s with dirs := s.dirs.insert name { served } }

def step (flavor : Flavor) (s : VersionSite) : MoveEvent → Option VersionSite
  | .resolve ref image probe =>
    match resolveTargetImage flavor ref s.target image probe with
    | .error _ => some s
    | .ok (info, _) => some { s with target := some info }
  | .createPod name =>
    match s.target with
    | none => none
    | some info =>
      if name∈s.pods then none else some { s with pods := s.pods.insert name info.serverVersion }
  | .deletePod name => some { s with pods := s.pods.erase name }
  | .start name outcome =>
    match s.pods.lookup name,s.dirs.lookup name with
    | some version,some d =>
      some { s with dirs := s.dirs.insert name (Instance.start flavor d version outcome) }
    | _,_ => none
  | .adopt name outcome =>
    match s.pods.lookup name,s.dirs.lookup name with
    | some version,some d =>
      match Version.parse version with
      | .error _ => none
      | .ok v =>
        if d.served=some v then
          some { s with dirs := s.dirs.insert name (d.afterStart version v outcome) }
        else none
    | _,_ => none
  | .newDir name =>
    match s.target with
    | none => none
    | some info => s.replaceDir name (Version.parse info.serverVersion).toOption
  | .clone name donor =>
    match s.dirs.lookup donor with
    | none => none
    | some d => s.replaceDir name d.served
  | .restore name u => s.replaceDir name (some u)
  | .lose name => if name∈s.pods then none else some { s with dirs := s.dirs.erase name }

/-- The server a step starts is a supported move from the directory's last, when `P` holds of it. -/
def MovesSupported (flavor : Flavor) (P : DataDir → Prop) (s : VersionSite) :
    MoveEvent → VersionSite → Prop
  | .start name outcome,_ => ∀ version d v u,s.pods.lookup name=some version →
      s.dirs.lookup name=some d → Starts flavor d version outcome v → P d → d.served=some u →
      flavor.checkUpgrade u v = .ok ()
  | _,_ => True

variable {flavor : Flavor}

def BelowTarget (flavor : Flavor) (s : VersionSite) (u : Version) : Prop :=
  ∃ info t,s.target=some info ∧ Version.parse info.serverVersion = .ok t ∧ flavor.NotNewer u t

/-- Targets have versions, Pods are not newer than the target, and a marker records its directory's
history, no newer than the target or the Pod. -/
structure Ordered (flavor : Flavor) (s : VersionSite) : Prop where
  target : ∀ info,s.target=some info → ∃ t,Version.parse info.serverVersion = .ok t
  pods : ∀ name version,s.pods.lookup name=some version →
    ∃ v,Version.parse version = .ok v ∧ s.BelowTarget flavor v
  dirs : ∀ name d content,s.dirs.lookup name=some d → d.marker=some content →
    ∃ u,d.served=some u ∧ Records flavor content u ∧ s.BelowTarget flavor u ∧
      ∀ version v,s.pods.lookup name=some version → Version.parse version = .ok v →
        flavor.NotNewer u v

theorem ordered_empty : Ordered flavor {} where
  target := by simp
  pods := by simp
  dirs := by simp

theorem Ordered.resolve {s : VersionSite} (h : s.Ordered flavor) {ref : Option ImageCatalogRef}
    {image : String} {probe : Probe} {info : ImageInfo} {accepted : Bool}
    (hresolve : resolveTargetImage flavor ref s.target image probe = .ok (info,accepted)) :
    Ordered flavor { s with target := some info } := by
  have hmove : (∃ t,Version.parse info.serverVersion = .ok t) ∧
      ∀ u,s.BelowTarget flavor u → BelowTarget flavor { s with target := some info } u := by
    have hkeep : s.target=some info → (∃ t,Version.parse info.serverVersion = .ok t) ∧
        ∀ u,s.BelowTarget flavor u → BelowTarget flavor { s with target := some info } u := by
      intro htarget
      refine ⟨h.target info htarget,?_⟩
      intro u hu
      rw [← htarget]
      exact hu
    unfold resolveTargetImage at hresolve
    split at hresolve
    · rename_i p hp
      cases hresolve
      exact hkeep (Option.filter_eq_some_iff.mp hp).1
    · simp only at hresolve
      have hkept : ∀ e,(match s.target with
          | none => (.error e : Except ImageError (ImageInfo × Bool))
          | some p => .ok (p,false)) = .ok (info,accepted) → s.target=some info := by
        intro e he
        cases hs : s.target with
        | none =>
          rw [hs] at he
          cases he
        | some p =>
          rw [hs] at he
          cases he
          rfl
      split at hresolve
      · cases hresolve
      · exact hkeep (hkept _ hresolve)
      · exact hkeep (hkept _ hresolve)
      · split at hresolve
        · exact hkeep (hkept _ hresolve)
        · rename_i hvalid
          cases hresolve
          obtain ⟨v,hv,hhop⟩ := hop_of_validate hvalid
          refine ⟨⟨v,hv⟩,?_⟩
          intro u ⟨old,t,hold,ht,hut⟩
          exact ⟨info,v,rfl,hv,hut.trans (hhop old t hold ht).notNewer⟩
  refine ⟨?_,?_,?_⟩
  · intro i hi
    cases hi
    exact hmove.1
  · intro name version hversion
    obtain ⟨v,hv,hbelow⟩ := h.pods name version hversion
    exact ⟨v,hv,hmove.2 v hbelow⟩
  · intro name d content hd hmarker
    obtain ⟨u,hu,hrecords,hbelow,hpod⟩ := h.dirs name d content hd hmarker
    exact ⟨u,hu,hrecords,hmove.2 u hbelow,hpod⟩

theorem records_afterStart {d : DataDir} {version : String} {v : Version} {outcome : StartOutcome}
    (hold : ∀ content,d.marker=some content → ∃ u,d.served=some u ∧ Records flavor content u ∧
      flavor.NotNewer u v)
    (hv : Version.parse version = .ok v) (hran : outcome ≠ .notStarted ∨ d.served=some v)
    {content : List Char} (hmarker : (d.afterStart version v outcome).marker=some content) :
    (d.afterStart version v outcome).served=some v ∧ Records flavor content v := by
  have hkept : d.marker=some content → Records flavor content v := by
    intro hm
    obtain ⟨u,hu,⟨raw,w,hw,hcut,hwu⟩,huv⟩ := hold content hm
    exact ⟨raw,w,hw,hcut,hwu.trans huv⟩
  cases outcome with
  | notStarted =>
    rcases hran with hran | hserved
    · exact absurd rfl hran
    · exact ⟨hserved,hkept hmarker⟩
  | unrecorded => exact ⟨rfl,hkept hmarker⟩
  | truncated k =>
    cases hmarker
    exact ⟨rfl,version,v,hv,List.take_prefix _ _,Flavor.NotNewer.refl _ _⟩
  | recorded =>
    cases hmarker
    exact ⟨rfl,version,v,hv,List.prefix_rfl,Flavor.NotNewer.refl _ _⟩

theorem Ordered.setDir {s : VersionSite} (h : s.Ordered flavor) {name : String} {d : DataDir}
    (hd : ∀ content,d.marker=some content → ∃ u,d.served=some u ∧ Records flavor content u ∧
      s.BelowTarget flavor u ∧ ∀ version v,s.pods.lookup name=some version →
        Version.parse version = .ok v → flavor.NotNewer u v) :
    Ordered flavor { s with dirs := s.dirs.insert name d } := by
  refine ⟨h.target,h.pods,?_⟩
  intro n d' content hd' hmarker
  rcases Map.lookup_insert_eq_some hd' with ⟨rfl,rfl⟩ | hold
  · exact hd content hmarker
  · exact h.dirs n d' content hold hmarker

theorem Ordered.replaceDir {s s' : VersionSite} (h : s.Ordered flavor) {name : String}
    {served : Option Version} (hs : s.replaceDir name served=some s') : s'.Ordered flavor := by
  unfold VersionSite.replaceDir at hs
  split at hs
  · cases hs
  · cases hs
    exact h.setDir (by simp)

theorem Ordered.afterStart {s : VersionSite} (h : s.Ordered flavor) {name version : String}
    {d : DataDir} {v : Version} {outcome : StartOutcome} (hpod : s.pods.lookup name=some version)
    (hd : s.dirs.lookup name=some d) (hv : Version.parse version = .ok v)
    (hran : outcome ≠ .notStarted ∨ d.served=some v) :
    Ordered flavor { s with dirs := s.dirs.insert name (d.afterStart version v outcome) } := by
  obtain ⟨v',hv',hbelow⟩ := h.pods name version hpod
  rw [hv] at hv'
  cases hv'
  apply h.setDir
  intro content hmarker
  obtain ⟨hserved,hrecords⟩ := records_afterStart (by
    intro content hm
    obtain ⟨u,hu,hrec,_,hpods⟩ := h.dirs name d content hd hm
    exact ⟨u,hu,hrec,hpods version v hpod hv⟩) hv hran hmarker
  refine ⟨v,hserved,hrecords,hbelow,?_⟩
  intro version' v' hpod' hv'
  rw [hpod] at hpod'
  cases hpod'
  rw [hv] at hv'
  cases hv'
  exact Flavor.NotNewer.refl _ _

theorem Ordered.step {s s' : VersionSite} {e : MoveEvent} (hstep : s.step flavor e=some s')
    (h : s.Ordered flavor) : s'.Ordered flavor := by
  cases e with simp only [VersionSite.step] at hstep
  | resolve ref image probe =>
    split at hstep
    · cases hstep
      exact h
    · rename_i info accepted hresolve
      cases hstep
      exact h.resolve hresolve
  | createPod name =>
    split at hstep
    · cases hstep
    rename_i info htarget
    split at hstep
    · cases hstep
    cases hstep
    obtain ⟨t,ht⟩ := h.target info htarget
    refine ⟨h.target,?_,?_⟩
    · intro n version hversion
      rcases Map.lookup_insert_eq_some hversion with ⟨-,rfl⟩ | hold
      · exact ⟨t,ht,info,t,htarget,ht,Flavor.NotNewer.refl _ _⟩
      · exact h.pods n version hold
    · intro n d content hd hmarker
      obtain ⟨u,hu,hrecords,hbelow,hpods⟩ := h.dirs n d content hd hmarker
      refine ⟨u,hu,hrecords,hbelow,?_⟩
      intro version v hversion hv
      rcases Map.lookup_insert_eq_some hversion with ⟨-,rfl⟩ | hold
      · obtain ⟨info',t',htarget',ht',hut⟩ := hbelow
        rw [htarget] at htarget'
        cases htarget'
        rw [hv] at ht'
        cases ht'
        exact hut
      · exact hpods version v hold hv
  | deletePod name =>
    cases hstep
    refine ⟨h.target,fun n version hold => h.pods n version (Map.lookup_of_erase hold),?_⟩
    intro n d content hd hmarker
    obtain ⟨u,hu,hrecords,hbelow,hpods⟩ := h.dirs n d content hd hmarker
    exact ⟨u,hu,hrecords,hbelow,fun version v hold => hpods version v (Map.lookup_of_erase hold)⟩
  | start name outcome =>
    split at hstep
    · rename_i version d hpod hd
      cases hstep
      rcases start_cases flavor d version outcome with hsame | ⟨v,⟨hv,_,hran⟩,hafter⟩
      · rw [hsame]
        exact h.setDir fun content hmarker => h.dirs name d content hd hmarker
      · rw [hafter]
        exact h.afterStart hpod hd hv (.inl hran)
    · cases hstep
  | adopt name outcome =>
    split at hstep
    · rename_i version d hpod hd
      split at hstep
      · cases hstep
      · rename_i v hv
        split at hstep
        · rename_i hserved
          cases hstep
          exact h.afterStart hpod hd hv (.inr hserved)
        · cases hstep
    · cases hstep
  | newDir name | clone name donor =>
    split at hstep
    · cases hstep
    · exact h.replaceDir hstep
  | restore name u => exact h.replaceDir hstep
  | lose name =>
    split at hstep
    · cases hstep
    · cases hstep
      exact ⟨h.target,h.pods,fun n d content hd => h.dirs n d content (Map.lookup_of_erase hd)⟩

theorem Ordered.supported {s : VersionSite} (h : s.Ordered flavor) (e : MoveEvent) (s' : VersionSite) :
    s.MovesSupported flavor (fun d => d.marker.isSome=true) e s' := by
  cases e with
  | start name outcome =>
    intro version d v u hpod hd ⟨hv,hguard,_⟩ hmarked hserved
    obtain ⟨content,hmarker⟩ := Option.isSome_iff_exists.mp hmarked
    obtain ⟨u',hu',hrecords,_,hpods⟩ := h.dirs name d content hd hmarker
    rw [hserved] at hu'
    cases hu'
    exact (flavor.checkUpgrade_eq_ok u v).mpr
      (hop_of_guard hmarker hrecords (hpods version v hpod hv) hv hguard)
  | _ => trivial

end VersionSite

open VersionSite

/-- In every run, each start on a marked directory is a supported move from the version that last
served it. -/
theorem marked_moves_supported (flavor : Flavor) (es : List MoveEvent) :
    Along (step flavor)
      (MovesSupported flavor fun d => d.marker.isSome=true) {} es := by
  refine Along.imp_invariant (P := fun _ _ _ => True) (I := Ordered flavor) ?_ ?_
    (along_of_step (fun _ _ _ _ => trivial) _ _) ordered_empty
  · intro s e s' hstep _ h
    exact h.step hstep
  · intro s e s' _ _ h
    exact h.supported e s'

def probed (version : String) : MoveEvent :=
  .resolve none ("mysql:" ++ version) (.found ⟨"mysql:" ++ version,"mysql",version⟩)

def firstStart (outcome : StartOutcome) : List MoveEvent :=
  [probed "8.0.36",.newDir "db-1",.createPod "db-1",.start "db-1" outcome]

def recreated : List MoveEvent := [.deletePod "db-1",.createPod "db-1",.start "db-1" .recorded]

def recordedMove : List MoveEvent := firstStart .recorded++[probed "8.4.2"]++recreated

theorem marked_moves_supported_recorded :
    ((exec (step .mysql) {} recordedMove).any fun s => s.dirs.lookup "db-1" =
      some { served := some { major := 8, minor := 4, patch := 2 }, marker := some "8.4.2\n".toList }) =
      true ∧
    Along (step .mysql)
      (MovesSupported .mysql fun d => d.marker.isSome=true) {} recordedMove :=
  ⟨by decide +kernel,marked_moves_supported .mysql recordedMove⟩

/-- The marker of 8.0 is never written, and the cluster goes on to 8.4 and 9.7. -/
def unrecordedMove : List MoveEvent :=
  firstStart .unrecorded++[probed "8.4.2",probed "9.7.0"]++recreated

def restoredMove : List MoveEvent :=
  [probed "9.7.0",.restore "db-1" { major := 8, minor := 0, patch := 36 },.createPod "db-1",
    .start "db-1" .recorded]

def unsupported (flavor : Flavor) (s : VersionSite) : MoveEvent → VersionSite → Bool
  | .start name outcome,_ =>
    match s.pods.lookup name,s.dirs.lookup name with
    | some version,some d =>
      match Version.parse version,d.served with
      | .ok v,some u => (guardDataDirUpgrade flavor d version).toBool && outcome != .notStarted &&
          !(flavor.checkUpgrade u v).toBool
      | _,_ => false
    | _,_ => false
  | _,_ => false

theorem unsupported_eq_false {flavor : Flavor} {s s' : VersionSite} {e : MoveEvent}
    (h : s.MovesSupported flavor (fun _ => True) e s') : unsupported flavor s e s'=false := by
  cases e with
  | start name outcome =>
    simp only [unsupported]
    split
    · rename_i version d hpod hd
      split
      · rename_i v u hv hserved
        cases hguard : guardDataDirUpgrade flavor d version with
        | error e => rfl
        | ok x =>
          by_cases hran : outcome = .notStarted
          · simp [hran]
          · have hok := h version d v u hpod hd ⟨hv,hguard,hran⟩ trivial hserved
            simp [hok,Except.toBool]
      · rfl
    · rfl
  | _ => rfl

/-- A directory without a marker can be served by 9.7 right after 8.0. -/
theorem unmarked_moves_unsupported :
    (¬∀ (flavor : Flavor) (es : List MoveEvent),
      Along (step flavor) (MovesSupported flavor fun _ => True) {} es) ∧
    ¬Along (step .mysql) (MovesSupported .mysql fun _ => True) {}
      restoredMove := by
  constructor
  · intro hclaim
    have hbad : ¬Along (step .mysql) (fun s e s' => unsupported .mysql s e s'=false) {}
        unrecordedMove := by decide +kernel
    exact hbad ((hclaim .mysql unrecordedMove).imp fun _ _ _ _ => unsupported_eq_false)
  · intro hclaim
    have hbad : ¬Along (step .mysql) (fun s e s' => unsupported .mysql s e s'=false) {}
        restoredMove := by decide +kernel
    exact hbad (hclaim.imp fun _ _ _ _ => unsupported_eq_false)

end Cnmsql.Controller
