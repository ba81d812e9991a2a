import AlbionApi.Server.Settings

/-! # The direct fetcher after an update

The fetcher is made once, for an orderbook of the registry in force at the
start. An update swaps the provider and leaves the fetcher, which then answers
for an orderbook that the registry in force may not have.
-/

namespace AlbionApi.Server

open DirectTrades

section InForce

variable {ι K : Type} [HexText]

/-- The caches whose values the direct fetcher computes. -/
def CacheName.direct : CacheName → Bool
  | tradesByOrderHash | takerTradesTxHash => true
  | _ => false

def AsksFetcher (s : State ι K) (i : ι) (f : DirectTradesFetcher) : Prop :=
  s.directTrades = some f ∧ ∃ r c rest, s.tasks i = some (.reader r) ∧ r.waits = none ∧
    r.rest = .compute c :: rest ∧ c.direct = true

/-- The orderbooks that a computation asks: those of the registry in force, unless there is a
fetcher, which asks its own. -/
def State.orderbooksFor (s : State ι K) (c : CacheName) : Set OrderbookCfg :=
  match s.directTrades with
  | some f => if c.direct then {ob | fetcherFor ob = f} else {ob | ob ∈ s.provider.orderbooks}
  | none => {ob | ob ∈ s.provider.orderbooks}

/-- A fetcher is the one of an orderbook of the registry. -/
def RaindexProvider.Lists (p : RaindexProvider) (f : DirectTradesFetcher) : Prop :=
  ∃ ob ∈ p.orderbooks, f = fetcherFor ob

/-- The fetcher's orderbook is the only one of the registry. -/
def RaindexProvider.Serves (p : RaindexProvider) (f : DirectTradesFetcher) : Prop :=
  p.orderbooks ≠ [] ∧ ∀ ob ∈ p.orderbooks, f = fetcherFor ob

theorem RaindexProvider.Serves.fetcherFor_eq_iff {p : RaindexProvider} {f : DirectTradesFetcher}
    (h : p.Serves f) (ob : OrderbookCfg) : fetcherFor ob = f ↔ ob ∈ p.orderbooks := by
  constructor
  · intro hob
    obtain ⟨ob', hmem⟩ := List.exists_mem_of_ne_nil _ h.1
    exact fetcherFor_injective (hob.trans (h.2 ob' hmem)) ▸ hmem
  · intro hob
    exact (h.2 ob hob).symm

theorem orderbooksFor_eq {s : State ι K}
    (h : ∀ f, s.directTrades = some f → s.provider.Serves f) (c : CacheName) :
    s.orderbooksFor c = {ob | ob ∈ s.provider.orderbooks} := by
  rw [State.orderbooksFor]
  cases hf : s.directTrades with
  | none => rfl
  | some f =>
    dsimp only
    split_ifs
    · exact Set.ext (h f hf).fetcherFor_eq_iff
    · rfl

def started {F : Type} (url : String) (setting : Option String) (dbPath : Option DbFile)
    (client : RaindexClient F) : State ι K :=
  init ⟨url, client.getAllOrderbooks.toOption.getD []⟩ setting (setupDirectTrades dbPath client)

variable [DecidableEq ι] {s s' : State ι K} {i : ι} {f : DirectTradesFetcher}

/-- An update only installs a registry whose only orderbook is the fetcher's. -/
def InstallsServed (s : State ι K) : Event ι K → Prop
  | .run i _ => ∀ url p f, s.tasks i = some (.put url (.assign p)) → s.directTrades = some f →
    p.Serves f
  | _ => True

def InstallsNone (s : State ι K) : Event ι K → Prop
  | .run i _ => ∀ url p, s.tasks i ≠ some (.put url (.assign p))
  | _ => True

variable [DecidableEq K]

omit [HexText] in
/-- A step keeps the fetcher, and the provider unless it installs another. -/
theorem provider_step {e : Event ι K} (hs : step s e = some s') :
    s'.directTrades = s.directTrades ∧ (s'.provider = s.provider ∨
      ∃ i o url p, e = .run i o ∧ s.tasks i = some (.put url (.assign p)) ∧ s'.provider = p) := by
  cases e with
  | arrive i request =>
    obtain ⟨-, rfl⟩ := step_arrive hs
    exact ⟨rfl, Or.inl rfl⟩
  | run i o =>
    rcases stepTask_eq_some.1 hs with ⟨r, -, -, hs⟩ | ⟨url, phase, hi, hs⟩
    · have hsame := SameRegistry.stepReader hs
      exact ⟨hsame.directTrades, Or.inl hsame.provider⟩
    · rcases stepPut_cases hs with ⟨hsame, -⟩ | ⟨p, s₁, -, hs₁, -, rfl⟩ | ⟨p, -, rfl⟩ |
        ⟨p, rfl, rfl⟩ | ⟨n, c, cs, -, rfl⟩
      · exact ⟨hsame.directTrades, Or.inl hsame.provider⟩
      · have hsame := (SameRegistry.acquire hs₁).1
        exact ⟨hsame.directTrades, Or.inl hsame.provider⟩
      · exact ⟨rfl, Or.inl rfl⟩
      · exact ⟨rfl, Or.inr ⟨i, o, url, p, rfl, hi, rfl⟩⟩
      · exact ⟨rfl, Or.inl rfl⟩
  | evict slot =>
    obtain rfl := Option.some.inj hs
    exact ⟨rfl, Or.inl rfl⟩

/-- An update has swapped the provider. -/
def State.Updated (s : State ι K) : Prop :=
  ∃ i url phase, s.updates i = some (url, phase) ∧ (installedUrl (url, phase)).isSome

omit [HexText] in
theorem updated_step {e : Event ι K} (hs : step s e = some s') (hu : s'.Updated) :
    s.Updated ∨ ∃ i o url p, e = .run i o ∧ s.tasks i = some (.put url (.assign p)) ∧
      s'.provider = p := by
  obtain ⟨j, url', phase', hj, hinst⟩ := hu
  rcases updates_step hs with hsame | ⟨i, url, -, -, hupd⟩ |
    ⟨i, o, url, phase, next, rfl, hi, hm, hupd⟩
  · exact Or.inl ⟨j, url', phase', hsame ▸ hj, hinst⟩
  · rcases updates_cases hupd hj with ⟨-, -, rfl⟩ | ⟨-, hj⟩
    · cases hinst
    · exact Or.inl ⟨j, url', phase', hj, hinst⟩
  · rcases updates_cases hupd hj with ⟨-, rfl, rfl⟩ | ⟨-, hj⟩
    · cases hm with
      | quiet hq _ => exact Or.inl ⟨i, url', phase, hi, hq.installedUrl_eq ▸ hinst⟩
      | write p | persist p => cases hinst
      | assign p n =>
        have ht := updates_eq_some.1 hi
        refine Or.inr ⟨i, o, url', p, rfl, ht, ?_⟩
        simp only [step, State.stepTask, ht, State.stepPut, Option.some.injEq] at hs
        rw [← hs]
    · exact Or.inl ⟨j, url', phase', hj, hinst⟩

/-- While every registry installed has the fetcher's orderbook as its only one, once an update has
succeeded, each answer of the fetcher is for the orderbooks of the registry in force, and so is
what the other routes compute. -/
theorem direct_in_force {F : Type} {url : String} {setting : Option String}
    {dbPath : Option DbFile} {client : RaindexClient F} {events : List (Event ι K)}
    (hr : Runs.run step (started url setting dbPath client) events = some s)
    (hm : Runs.Meets step InstallsServed (started url setting dbPath client) events)
    {j : ι} {newUrl : String} (hj : s.tasks j = some (.put newUrl (.finished true))) :
    (∀ i f, AsksFetcher s i f → ∀ ob, fetcherFor ob = f ↔ ob ∈ s.provider.orderbooks) ∧
      ∀ c, s.orderbooksFor c = {ob | ob ∈ s.provider.orderbooks} := by
  have hserves : s.Updated → ∀ f, s.directTrades = some f → s.provider.Serves f := by
    refine Runs.invariant_of_meets
      (P := fun s => s.Updated → ∀ f, s.directTrades = some f → s.provider.Serves f) ?_ hm hr ?_
    · intro s e s' h hc hs hu f hf
      obtain ⟨hd, hp⟩ := provider_step hs
      rw [hd] at hf
      rcases updated_step hs hu with hu | ⟨k, o, url, p, rfl, hk, hp'⟩
      · rcases hp with hp | ⟨k, o, url, p, rfl, hk, hp⟩
        · rw [hp]
          exact h hu f hf
        · rw [hp]
          exact hc url p f hk hf
      · rw [hp']
        exact hc url p f hk hf
    · rintro ⟨i, url, phase, hi, -⟩
      cases hi
  have hs := hserves ⟨j, newUrl, _, updates_eq_some.2 hj, rfl⟩
  exact ⟨fun i f ha => (hs f ha.1).fetcherFor_eq_iff, orderbooksFor_eq hs⟩

/-- From a registry without the fetcher's orderbook on, until the next one is installed, no
answer of the fetcher is for the registry in force. -/
theorem not_direct_in_force {after : List (Event ι K)} (hf : s.directTrades = some f)
    (hn : ¬ s.provider.Lists f) (hr : Runs.run step s after = some s')
    (hm : Runs.Meets step InstallsNone s after) (i : ι) (f' : DirectTradesFetcher)
    (ha : AsksFetcher s' i f') : ¬ s'.provider.Lists f' := by
  have h := Runs.invariant_of_meets
    (P := fun s => s.directTrades = some f ∧ ¬ s.provider.Lists f) ?_ hm hr ⟨hf, hn⟩
  · obtain rfl : f = f' := Option.some.inj (h.1.symm.trans ha.1)
    exact h.2
  · rintro s e s' ⟨hf, hn⟩ hc hs
    obtain ⟨hd, hp | ⟨j, o, url, p, rfl, hj, -⟩⟩ := provider_step hs
    · rw [hd, hp]
      exact ⟨hf, hn⟩
    · exact absurd hj (hc url p)

/-- Every registry that is loaded has the fetcher's orderbook as its only one. -/
def LoadsServed (f : DirectTradesFetcher) : Event ι K → Prop
  | .run _ (.loaded orderbooks) => orderbooks ≠ [] ∧ ∀ ob ∈ orderbooks, f = fetcherFor ob
  | _ => True

def PutPhase.Serves (f : DirectTradesFetcher) : PutPhase → Prop
  | write p | setSetting p | assign p => p.Serves f
  | _ => True

theorem serves_step {e : Event ι K}
    (h : ∀ j url phase, s.updates j = some (url, phase) → phase.Serves f)
    (hl : LoadsServed f e) (hs : step s e = some s') (j : ι) (url : String) (phase : PutPhase)
    (hj : s'.updates j = some (url, phase)) : phase.Serves f := by
  rcases updates_step hs with hsame | ⟨i, url, -, -, hupd⟩ |
    ⟨i, o, url, phase', next, rfl, hi, hm, hupd⟩
  · exact h j url phase (hsame ▸ hj)
  · rcases updates_cases hupd hj with ⟨-, -, rfl⟩ | ⟨-, hj⟩
    · trivial
    · exact h j _ phase hj
  · rcases updates_cases hupd hj with ⟨-, -, rfl⟩ | ⟨-, hj⟩
    · cases hm with
      | quiet hq hload =>
        cases hq with
        | load orderbooks =>
          obtain rfl := hload _ rfl
          exact hl
        | _ => trivial
      | write p => exact h i url (.write p) hi
      | persist p => exact h i url (.setSetting p) hi
      | assign p n => trivial
    · exact h j _ phase hj

theorem installsServed_of_loads {events : List (Event ι K)} {provider : RaindexProvider}
    {setting : Option String} (hl : ∀ e ∈ events, LoadsServed f e) :
    Runs.Meets step InstallsServed (init provider setting (some f)) events := by
  refine Runs.Meets.of_invariant
    (P := fun s => s.directTrades = some f ∧
      ∀ j url phase, s.updates j = some (url, phase) → phase.Serves f) ?_ ?_
    (Runs.Meets.of_forall_mem hl) ⟨rfl, fun _ _ _ h => by cases h⟩
  · rintro s e s' ⟨hf, h⟩ he hs
    exact ⟨(provider_step hs).1.trans hf, serves_step h he hs⟩
  · rintro s e ⟨hf, h⟩ -
    cases e with
    | run i o =>
      intro url p f' hi hf'
      obtain rfl : f = f' := Option.some.inj (hf.symm.trans hf')
      exact h i url _ (updates_eq_some.2 hi)
    | _ => trivial

end InForce

/-! ## A registry with another orderbook -/

section OtherRegistry

local instance otherRegistryHexText : HexText := Hex.text

def soleClient (address : Address) : RaindexClient ℚ where
  getAllOrderbooks := .ok [⟨8453, address⟩]
  getOrders _ _ _ := .ok ([], 0)
  getOrderByHash _ _ := .error .orderNotFound
  getTradesList _ _ _ := .ok []
  getTransactionTrades _ _ := .ok []
  getTransaction _ _ := .ok ()

/-- The registry is replaced by one with these orderbooks, then a batch of trades is asked for. -/
def updateThenBatch (orderbooks : List OrderbookCfg) : List (Event ℕ ℕ) :=
  alone 0 (.putRegistry "b") (List.replicate 19 (.loaded orderbooks)) ++
    alone 1 (.postTradesBatch [7]) (List.replicate 4 .ok)

/-- A registry with the same orderbook under another URL. -/
theorem direct_in_force_renamed : ∃ s : State ℕ ℕ,
    Runs.run step (started "a" (some "a") (some ⟨true, .ok ()⟩) (soleClient 1))
      (updateThenBatch [⟨8453, 1⟩]) = some s ∧
    AsksFetcher s 1 (fetcherFor ⟨8453, 1⟩) ∧ s.provider.registryUrl = "b" ∧
    (∀ ob, fetcherFor ob = fetcherFor ⟨8453, 1⟩ ↔ ob ∈ s.provider.orderbooks) ∧
    ∀ c, s.orderbooksFor c = {ob | ob ∈ s.provider.orderbooks} := by
  have ha : ∃ s : State ℕ ℕ,
      Runs.run step (started "a" (some "a") (some ⟨true, .ok ()⟩) (soleClient 1))
        (updateThenBatch [⟨8453, 1⟩]) = some s ∧
      s.tasks 0 = some (.put "b" (.finished true)) ∧
      AsksFetcher s 1 (fetcherFor ⟨8453, 1⟩) ∧ s.provider.registryUrl = "b" := by
    refine ⟨_, (Option.some_get (by decide)).symm, by decide, ⟨by rfl, _, _, _, by rfl, rfl, rfl,
      rfl⟩, ?_⟩
    decide
  obtain ⟨s, hr, hj, ha, hu⟩ := ha
  have hl : LoadsServed (fetcherFor ⟨8453, 1⟩)
      (.run 0 (.loaded [⟨8453, 1⟩]) : Event ℕ ℕ) := ⟨by simp, by simp⟩
  have hm : ∀ e ∈ updateThenBatch [⟨8453, 1⟩], LoadsServed (fetcherFor ⟨8453, 1⟩) e := by
    intro e he
    simp only [updateThenBatch, alone, List.mem_append, List.mem_cons, List.mem_map,
      List.mem_replicate] at he
    rcases he with (rfl | ⟨o, ⟨-, rfl⟩, rfl⟩) | (rfl | ⟨o, ⟨-, rfl⟩, rfl⟩)
    · trivial
    · exact hl
    · trivial
    · trivial
  obtain ⟨hask, hall⟩ := direct_in_force hr (installsServed_of_loads hm) hj
  exact ⟨s, hr, ha, hu, hask 1 _ ha, hall⟩

/-- A batch is fetched for the orderbook of the replaced registry. -/
theorem replaced_asked : ∃ s : State ℕ ℕ,
    Runs.run step (started "a" (some "a") (some ⟨true, .ok ()⟩) (soleClient 1))
      (updateThenBatch [⟨8453, 2⟩]) = some s ∧
    s.tasks 0 = some (.put "b" (.finished true)) ∧ AsksFetcher s 1 (fetcherFor ⟨8453, 1⟩) ∧
    s.provider = ⟨"b", [⟨8453, 2⟩]⟩ ∧ ¬ s.provider.Lists (fetcherFor ⟨8453, 1⟩) := by
  refine ⟨_, (Option.some_get (by decide)).symm, by decide,
    ⟨by rfl, _, _, _, by rfl, rfl, rfl, rfl⟩, by decide, ?_⟩
  rintro ⟨ob, hob, hf⟩
  have hp : ob ∈ [(⟨8453, 2⟩ : OrderbookCfg)] := hob
  rw [List.mem_singleton.1 hp] at hf
  exact absurd (fetcherFor_injective hf) (by decide)

end OtherRegistry

end AlbionApi.Server
