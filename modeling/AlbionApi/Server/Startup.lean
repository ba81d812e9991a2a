import AlbionApi.Server.Settings

/-! # The registry over several starts

A start takes the registry from the stored setting, and from the configuration
when there is none, which it then stores. A setting that cannot be read counts
as none, so that a start may put the configured URL in its place.
-/

namespace AlbionApi.Startup

/-- `get_setting` of `registry_url`. -/
def getSetting (stored : Option String) (readable : Bool) : Except Unit (Option String) :=
  if readable then .ok stored else .error ()

/-- `set_setting` of `registry_url`: what is stored then. -/
def setSetting (stored : Option String) (writable : Bool) (value : String) : Option String :=
  if writable then some value else stored

/-- A start: its configuration and what happens around it. -/
structure Start where
  /-- The configured `registry_url`. -/
  registryUrl : String
  readable : Bool
  writable : Bool
  /-- Whether every later step succeeds: the load of the registry, the directories, the launch. -/
  boots : Bool
  deriving DecidableEq, Repr

/-- The stored setting and the URL that is served, if a server runs. -/
structure Deployment where
  stored : Option String
  serving : Option String
  deriving DecidableEq, Repr

/-- The configured URL, which is stored on the way; a failure to store it is only logged. -/
def seedRegistryUrl (stored : Option String) (start : Start) : Option String × Option String :=
  if start.registryUrl ≠ "" then
    (setSetting stored start.writable start.registryUrl, some start.registryUrl)
  else (stored, none)

/-- The choice of the URL, after which the setting may be another. -/
def selectRegistryUrl (stored : Option String) (start : Start) : Option String × Option String :=
  match (getSetting stored start.readable).toOption.join with
  | some url => if url ≠ "" then (stored, some url) else seedRegistryUrl stored start
  | none => seedRegistryUrl stored start

/-- `serve`: without a URL, or when a later step fails, the process exits. -/
def Deployment.start (d : Deployment) (start : Start) : Deployment :=
  let (stored, url) := selectRegistryUrl d.stored start
  ⟨stored, if start.boots then url else none⟩

/-- An update of the registry: its URL, and whether it loads and is persisted. -/
structure Update where
  registryUrl : String
  loads : Bool
  persists : Bool
  deriving DecidableEq, Repr

/-- The update is acknowledged by a running server. -/
def Update.Succeeds (u : Update) : Prop := u.registryUrl ≠ "" ∧ u.loads = true ∧ u.persists = true

instance (u : Update) : Decidable u.Succeeds :=
  inferInstanceAs (Decidable (_ ∧ _ ∧ _))

/-- `put_registry`, which needs a running server. -/
def Deployment.update (d : Deployment) (u : Update) : Deployment :=
  if d.serving.isSome ∧ u.Succeeds then ⟨some u.registryUrl, some u.registryUrl⟩ else d

inductive Event where
  | start (start : Start)
  | update (update : Update)
  deriving DecidableEq, Repr

def step (d : Deployment) : Event → Deployment
  | .start start => d.start start
  | .update update => d.update update

def run (d : Deployment) (events : List Event) : Deployment := events.foldl step d

theorem run_append (d : Deployment) (events events' : List Event) :
    run d (events ++ events') = run (run d events) events' :=
  List.foldl_append

/-! ## A stored URL over starts -/

/-- The URL stays stored, and no start serves another one. -/
def Kept (url : String) : Deployment → List Event → Prop
  | d, [] => d.stored = some url
  | d, e :: es => d.stored = some url ∧
    (∀ start, e = .start start → (step d e).serving = none ∨ (step d e).serving = some url) ∧
    Kept url (step d e) es

/-- A start leaves a stored URL alone: the setting is read, the configuration has no other URL, or
neither the seed nor the start succeeds. -/
def Start.Keeps (url : String) (start : Start) : Prop :=
  start.readable = true ∨ start.registryUrl = "" ∨ start.registryUrl = url ∨
    start.writable = false ∧ start.boots = false

variable {d : Deployment} {url : String} {start : Start}

theorem selectRegistryUrl_readable (hu : url ≠ "") (hr : start.readable = true) :
    selectRegistryUrl (some url) start = (some url, some url) := by
  simp [selectRegistryUrl, getSetting, hr, Except.toOption, hu]

theorem selectRegistryUrl_unreadable (stored : Option String) (hr : start.readable = false) :
    selectRegistryUrl stored start = seedRegistryUrl stored start := by
  simp [selectRegistryUrl, getSetting, hr, Except.toOption]

theorem start_keeps_iff (hd : d.stored = some url) (hu : url ≠ "") :
    (d.start start).stored = some url ∧
      ((d.start start).serving = none ∨ (d.start start).serving = some url) ↔
      start.Keeps url := by
  cases hr : start.readable with
  | true => simp [Deployment.start, hd, selectRegistryUrl_readable hu hr, Start.Keeps, hr]
  | false =>
    rw [Deployment.start, selectRegistryUrl_unreadable _ hr, hd]
    by_cases hc : start.registryUrl = ""
    · simp [seedRegistryUrl, Start.Keeps, hc]
    · cases hw : start.writable <;> cases hb : start.boots <;>
        simp [seedRegistryUrl, setSetting, Start.Keeps, hc, hw, hr, hb]

theorem update_of_not_succeeds {u : Update} (hu : ¬ u.Succeeds) : d.update u = d :=
  if_neg fun h => hu h.2

/-- Without a further update that succeeds, a stored URL is kept if and only if every start
leaves it alone. -/
theorem kept_iff {events : List Event} (hd : d.stored = some url) (hu : url ≠ "")
    (hno : ∀ u, .update u ∈ events → ¬ u.Succeeds) :
    Kept url d events ↔ ∀ start, .start start ∈ events → start.Keeps url := by
  induction events generalizing d with
  | nil => simpa [Kept] using hd
  | cons e es ih =>
    have hno' : ∀ u, .update u ∈ es → ¬ u.Succeeds := fun u hm => hno u (List.mem_cons_of_mem _ hm)
    cases e with
    | update u =>
      have hstep : step d (.update u) = d := update_of_not_succeeds (hno u List.mem_cons_self)
      rw [Kept, hstep, ih hd hno']
      simp [hd]
    | start start =>
      have hkeeps : _ ↔ start.Keeps url := start_keeps_iff hd hu
      constructor
      · rintro ⟨-, hserving, hkept⟩ start' hm
        have hstored : (d.start start).stored = some url := by
          cases es with
          | nil => exact hkept
          | cons e' es' => exact hkept.1
        rcases List.mem_cons.1 hm with hm | hm
        · cases hm
          exact hkeeps.1 ⟨hstored, hserving start rfl⟩
        · exact (ih hstored hno').1 hkept start' hm
      · intro h
        obtain ⟨hstored, hserving⟩ := hkeeps.2 (h start List.mem_cons_self)
        refine ⟨hd, fun _ _ => hserving, (ih hstored hno').2 fun start' hm => ?_⟩
        exact h start' (List.mem_cons_of_mem _ hm)

/-- After whatever history, an acknowledged URL is kept over starts and failing updates if and only
if every start leaves it alone. -/
theorem acknowledged_kept_iff (d : Deployment) (before after : List Event) (u : Update)
    (hserving : (run d before).serving.isSome = true) (hu : u.Succeeds)
    (hno : ∀ v, .update v ∈ after → ¬ v.Succeeds) :
    Kept u.registryUrl (run d (before ++ [.update u])) after ↔
      ∀ start, .start start ∈ after → start.Keeps u.registryUrl := by
  refine kept_iff ?_ hu.1 hno
  rw [run_append]
  exact congrArg Deployment.stored (if_pos ⟨hserving, hu⟩)

def firstStart : Event := .start ⟨"a", true, true, true⟩

theorem acknowledged_kept_iff_restart :
    Kept "b" (run ⟨none, none⟩ ([firstStart] ++ [.update ⟨"b", true, true⟩])) [firstStart] ↔
      ∀ start, Event.start start ∈ [firstStart] → start.Keeps "b" :=
  acknowledged_kept_iff ⟨none, none⟩ [firstStart] [firstStart] ⟨"b", true, true⟩ (by decide)
    (by decide) (by simp [firstStart])

/-- After an update to another URL the setting cannot be read, and the next start puts the
configured URL back. -/
theorem unreadable_not_kept :
    run ⟨none, none⟩ [firstStart, .update ⟨"b", true, true⟩] = ⟨some "b", some "b"⟩ ∧
      step ⟨some "b", some "b"⟩ (.start ⟨"a", false, true, true⟩) = ⟨some "a", some "a"⟩ ∧
      ¬ Kept "b" ⟨some "b", some "b"⟩ [.start ⟨"a", false, true, true⟩] := by
  refine ⟨by decide, by decide, fun h => ?_⟩
  have hs : (step ⟨some "b", some "b"⟩ (.start ⟨"a", false, true, true⟩)).stored = some "b" := h.2.2
  exact absurd hs (by decide)

def installAll (url₀ : String) (urls : List String) : Deployment :=
  run ⟨some url₀, some url₀⟩ (urls.map fun url => .update ⟨url, true, true⟩)

theorem installAll_eq {urls : List String} (hne : ∀ url ∈ urls, url ≠ "") (url₀ : String) :
    installAll url₀ urls = ⟨some (urls.getLastD url₀), some (urls.getLastD url₀)⟩ := by
  induction urls generalizing url₀ with
  | nil => rfl
  | cons url urls ih =>
    have hu : url ≠ "" := hne url List.mem_cons_self
    have hstep : installAll url₀ (url :: urls) = installAll url urls :=
      congrArg (fun d => run d _) (if_pos ⟨rfl, hu, rfl, rfl⟩)
    rw [hstep, ih (fun url' hm => hne url' (List.mem_cons_of_mem _ hm)), List.getLastD_cons]

/-- Whatever the interleaving, a running server leaves what its successful updates leave one after
another. -/
theorem installAll_of_run {ι K : Type} [DecidableEq ι] [DecidableEq K]
    {provider : Server.RaindexProvider} {directTrades : Option DirectTrades.DirectTradesFetcher}
    {events : List (Server.Event ι K)} {s : Server.State ι K}
    (hr : Runs.run Server.step (Server.init provider (some provider.registryUrl) directTrades)
      events = some s) (hw : s.lock.writer = none) :
    installAll provider.registryUrl s.installed = ⟨s.setting, some s.provider.registryUrl⟩ := by
  have h := Server.settled_of_run hr
  rw [installAll_eq (fun url hm => h.installed_ne_empty hm), h.setting_eq hw, h.installed]

end AlbionApi.Startup
