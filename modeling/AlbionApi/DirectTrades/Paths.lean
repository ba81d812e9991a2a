import AlbionApi.DirectTrades.Batch
import AlbionApi.DirectTrades.Trades

/-! # The two paths of a batch

The direct fetcher is bound to the first configured orderbook, the library
path looks an order up on every one. They agree on the trades of a hash as long
as these are on the fetcher's orderbook, their rows convert and the batch
attributes them rightly.
-/

namespace AlbionApi.DirectTrades

section Paths

variable {F : Type} [FloatLib F] [HexText] {db : EventDb} {f : DirectTradesFetcher}
  {hashes : List B256} {h : B256}

/-- The library serves an order from a database: it finds the order on the orderbooks where it
was added, with its trades there, whose id is made of the transaction hash and log index. -/
structure LibraryServes (client : RaindexClient F) (db : EventDb) (obs : List OrderbookCfg)
    (h : B256) : Prop where
  orderbooks : client.getAllOrderbooks = .ok obs
  found : ∀ ob ∈ obs, AddedOn db (fetcherFor ob) (HexText.formatB256 h) →
    ∃ order trades, client.getOrderByHash ob h = .ok order ∧
      client.getTradesList order none none = .ok trades ∧
      ∀ txHash id, (∃ t ∈ trades, t.transaction.id = txHash ∧ t.id = id) ↔
        ∃ logIndex, id = tradeId (HexText.formatB256 txHash) logIndex ∧
          IsTrade db (fetcherFor ob) (HexText.formatB256 h) (HexText.formatB256 txHash) logIndex
  missing : ∀ ob ∈ obs, ¬ AddedOn db (fetcherFor ob) (HexText.formatB256 h) →
    client.getOrderByHash ob h = .error .orderNotFound

/-- An order hash exists on at most one of the orderbooks. -/
def OnOneOrderbook (db : EventDb) (obs : List OrderbookCfg) (hash : String) : Prop :=
  ∀ ob ∈ obs, ∀ ob' ∈ obs, AddedOn db (fetcherFor ob) hash → AddedOn db (fetcherFor ob') hash →
    ob = ob'

variable {client : RaindexClient F} {obs : List OrderbookCfg}

omit [FloatLib F] in
theorem LibraryServes.fetch_of_addedOn (hl : LibraryServes client db obs h)
    (hone : OnOneOrderbook db obs (HexText.formatB256 h)) {ob : OrderbookCfg} (hob : ob ∈ obs)
    (ha : AddedOn db (fetcherFor ob) (HexText.formatB256 h)) :
    ∃ entries, fetchTradesForHash (raindexTradesDataSource client) h = .ok entries ∧
      ∀ txHash id, (txHash, id) ∈ entries.map tradeKey ↔
        ∃ logIndex, id = tradeId (HexText.formatB256 txHash) logIndex ∧
          IsTrade db (fetcherFor ob) (HexText.formatB256 h) (HexText.formatB256 txHash)
            logIndex := by
  obtain ⟨order, trades, ho, ht, hk⟩ := hl.found ob hob ha
  have hmiss : ∀ ob' ∈ obs, ob' ≠ ob → client.getOrderByHash ob' h = .error .orderNotFound :=
    fun ob' hob' hne => hl.missing ob' hob' fun ha' => hne (hone ob' hob' ob hob ha' ha)
  refine ⟨trades.map mapTrade, ?_, ?_⟩
  · simp only [fetchTradesForHash, raindexTradesDataSource, hl.orderbooks, mapErr, ht,
      firstOrder_eq_some hob ho hmiss, bind, Except.bind, pure, Except.pure]
  · intro txHash id
    rw [← hk, List.map_map, List.mem_map]
    simp only [Function.comp_apply, tradeKey, mapTrade, Prod.mk.injEq]

omit [FloatLib F] in
theorem LibraryServes.fetch_of_not_addedOn (hl : LibraryServes client db obs h)
    (ha : ∀ ob ∈ obs, ¬ AddedOn db (fetcherFor ob) (HexText.formatB256 h)) :
    fetchTradesForHash (raindexTradesDataSource client) h = .ok [] := by
  simp only [fetchTradesForHash, raindexTradesDataSource, hl.orderbooks, mapErr,
    firstOrder_eq_none fun ob hob => hl.missing ob hob (ha ob hob), bind, Except.bind, pure,
    Except.pure]

/-- The direct and the library path return the same set of trades. -/
def PathsAgree (f : DirectTradesFetcher) (client : RaindexClient F) (db : EventDb)
    (hashes : List B256) (h : B256) : Prop :=
  ∃ entries, fetchTradesForHash (raindexTradesDataSource client) h = .ok entries ∧
    ∀ key, key ∈ (fetchedTrades F f db hashes h).map tradeKey ↔ key ∈ entries.map tradeKey

/-- The hash has no trades on another orderbook than the fetcher's. -/
def TradesOnFetcher (f : DirectTradesFetcher) (db : EventDb) (obs : List OrderbookCfg)
    (hash : String) : Prop :=
  ∀ ob ∈ obs, ∀ transactionHash logIndex,
    IsTrade db (fetcherFor ob) hash transactionHash logIndex → fetcherFor ob = f

variable (F) in
/-- A readable take whose latest requested add event is one of the hash has no later add event. -/
def LatestRequested (f : DirectTradesFetcher) (db : EventDb) (hashes : List B256)
    (hash : String) : Prop :=
  ∀ t ∈ takesOf db (f.params hashes), (takeRowFor t hash).Readable F →
    LatestHash (orderAddEvents db (f.params hashes)) t hash →
    LatestHash (addOrderV3Events db f.chainId f.orderbookAddress) t hash

variable (F) in
/-- Every trade of the hash on the fetcher's orderbook has a readable row. -/
def TradesReadable (f : DirectTradesFetcher) (db : EventDb) (hash : String) : Prop :=
  ∀ r, IsTradeRow db f hash r → ∃ r', IsTradeRow db f hash r' ∧ r'.Readable F ∧
    r'.transactionHash = r.transactionHash ∧ r'.logIndex = r.logIndex

omit [FloatLib F] in
theorem IsTradeRow.mem_hashRows {r : TradeRow} (hm : h ∈ hashes)
    (hr : IsTradeRow db f (HexText.formatB256 h) r) :
    r ∈ hashRows db (f.params hashes) (HexText.formatB256 h) := by
  rw [DirectTrades.mem_hashRows]
  refine hr.imp ?_ id
  rintro ⟨t, ⟨h1, h2, h3, hl⟩, rfl⟩
  have hrep := LatestHash.reported (q := f.params hashes) (mem_params hm) hl
  exact ⟨t, mem_takesOf.2 ⟨h1, h2, h3⟩, hrep, rfl⟩

theorem LatestRequested.isTradeRow {r : TradeRow}
    (hl : LatestRequested F f db hashes (HexText.formatB256 h)) (hread : r.Readable F)
    (hr : r ∈ hashRows db (f.params hashes) (HexText.formatB256 h)) :
    IsTradeRow db f (HexText.formatB256 h) r := by
  refine (DirectTrades.mem_hashRows.1 hr).imp ?_ id
  rintro ⟨t, ht, hrep, rfl⟩
  obtain ⟨h1, h2, h3⟩ := mem_takesOf.1 ht
  exact ⟨t, ⟨h1, h2, h3, hl t ht hread (reported_iff.1 hrep)⟩, rfl⟩

theorem not_mem_direct (hid : db.Identified) (hm : h ∈ hashes)
    (ha : ¬ AddedOn db f (HexText.formatB256 h)) (key : B256 × String) :
    key ∉ (fetchedTrades F f db hashes h).map tradeKey := by
  obtain ⟨txHash, id⟩ := key
  rw [mem_direct_iff hid hm]
  rintro ⟨r, hr, -⟩
  rcases DirectTrades.mem_hashRows.1 hr with ⟨t, -, ⟨oe, hoe, -, he⟩, -⟩ | hr | hr
  · exact ha ⟨oe, (mem_orderAddEvents.1 hoe).1, he⟩
  · exact ha hr.addedOn
  · exact ha hr.addedOn

section Agree

variable {ob₀ : OrderbookCfg} (hob₀ : ob₀ ∈ obs) (hl : LibraryServes client db obs h)
  (hone : OnOneOrderbook db obs (HexText.formatB256 h)) (hid : db.Identified) (hm : h ∈ hashes)

include hob₀ hl hone hid hm

theorem TradesOnFetcher.of_pathsAgree (hp : PathsAgree (fetcherFor ob₀) client db hashes h) :
    TradesOnFetcher (fetcherFor ob₀) db obs (HexText.formatB256 h) := by
  rintro ob hob - - ⟨r, hr, rfl, rfl⟩
  obtain ⟨⟨txHash, ht⟩, -⟩ := hid.hashRows (hr.mem_hashRows hm)
  obtain ⟨entries, hf, hk⟩ := hl.fetch_of_addedOn hone hob hr.addedOn
  obtain ⟨entries', hf', hk'⟩ := hp
  obtain rfl : entries = entries' := Except.ok.inj (hf.symm.trans hf')
  have hmem := (hk' _).2 ((hk txHash _).2 ⟨r.logIndex, rfl, r, hr, ht, rfl⟩)
  by_contra hne
  refine not_mem_direct hid hm (fun ha => hne ?_) _ hmem
  rw [hone ob hob ob₀ hob₀ hr.addedOn ha]

theorem exists_isTradeRow_of_pathsAgree (hp : PathsAgree (fetcherFor ob₀) client db hashes h)
    {r : TradeRow} (hr : r ∈ hashRows db ((fetcherFor ob₀).params hashes) (HexText.formatB256 h))
    (hread : r.Readable F) (ha : AddedOn db (fetcherFor ob₀) (HexText.formatB256 h)) :
    ∃ r', IsTradeRow db (fetcherFor ob₀) (HexText.formatB256 h) r' ∧
      r'.transactionHash = r.transactionHash ∧ r'.logIndex = r.logIndex := by
  obtain ⟨⟨txHash, ht⟩, hlog⟩ := hid.hashRows hr
  obtain ⟨entries, hf, hk⟩ := hl.fetch_of_addedOn hone hob₀ ha
  obtain ⟨entries', hf', hk'⟩ := hp
  obtain rfl : entries = entries' := Except.ok.inj (hf.symm.trans hf')
  have hmem := (hk' _).1 ((mem_direct_iff hid hm).2 ⟨r, hr, hread, ht, rfl⟩)
  obtain ⟨logIndex, he, r', hr', ht', rfl⟩ := (hk _ _).1 hmem
  obtain ⟨-, hlog'⟩ := hid.hashRows (hr'.mem_hashRows hm)
  exact ⟨r', hr', ht'.trans ht.symm, (tradeId_injective hlog hlog' he).symm⟩

theorem LatestRequested.of_pathsAgree (hp : PathsAgree (fetcherFor ob₀) client db hashes h) :
    LatestRequested F (fetcherFor ob₀) db hashes (HexText.formatB256 h) := by
  intro t ht hread hlr
  have hrep := reported_iff.2 hlr
  have ha : AddedOn db (fetcherFor ob₀) (HexText.formatB256 h) := by
    obtain ⟨oe, hoe, -, he⟩ := hrep
    exact ⟨oe, (mem_orderAddEvents.1 hoe).1, he⟩
  obtain ⟨htm, htc, hto⟩ := mem_takesOf.1 ht
  -- the trade with the identity of the take is the take itself
  obtain ⟨r', hr', htx, hlog⟩ := exists_isTradeRow_of_pathsAgree hob₀ hl hone hid hm hp
    (DirectTrades.mem_hashRows.2 (Or.inl ⟨t, ht, hrep, rfl⟩)) hread ha
  have hclear : ∀ side, ¬ IsClearRow db (fetcherFor ob₀) (HexText.formatB256 h) side r' := by
    rintro side ⟨c, hcm, hcc, hco, -, -, a, -, rfl⟩
    exact hid.clears t htm c hcm (htc.trans hcc.symm) (hto.trans hco.symm) htx.symm hlog.symm
  rcases hr' with ⟨t', ⟨htm', htc', hto', hlh⟩, rfl⟩ | hr' | hr'
  · rwa [hid.takes t htm t' htm' (htc.trans htc'.symm) (hto.trans hto'.symm) htx.symm hlog.symm]
  · exact absurd hr' (hclear alice)
  · exact absurd hr' (hclear bob)

theorem TradesReadable.of_pathsAgree (hp : PathsAgree (fetcherFor ob₀) client db hashes h) :
    TradesReadable F (fetcherFor ob₀) db (HexText.formatB256 h) := by
  intro r hr
  have hlr := LatestRequested.of_pathsAgree hob₀ hl hone hid hm hp
  obtain ⟨⟨txHash, ht⟩, hlog⟩ := hid.hashRows (hr.mem_hashRows hm)
  obtain ⟨entries, hf, hk⟩ := hl.fetch_of_addedOn hone hob₀ hr.addedOn
  obtain ⟨entries', hf', hk'⟩ := hp
  obtain rfl : entries = entries' := Except.ok.inj (hf.symm.trans hf')
  have hmem := (hk' _).2 ((hk txHash _).2 ⟨r.logIndex, rfl, r, hr, ht, rfl⟩)
  obtain ⟨r', hr', hread, ht', he⟩ := (mem_direct_iff hid hm).1 hmem
  obtain ⟨-, hlog'⟩ := hid.hashRows hr'
  exact ⟨r', hlr.isTradeRow hread hr', hread, ht'.trans ht.symm,
    (tradeId_injective hlog hlog' he).symm⟩

theorem pathsAgree_of_readable
    (ht : TradesOnFetcher (fetcherFor ob₀) db obs (HexText.formatB256 h))
    (hr : LatestRequested F (fetcherFor ob₀) db hashes (HexText.formatB256 h))
    (hread : TradesReadable F (fetcherFor ob₀) db (HexText.formatB256 h)) :
    PathsAgree (fetcherFor ob₀) client db hashes h := by
  by_cases ha : ∃ ob ∈ obs, AddedOn db (fetcherFor ob) (HexText.formatB256 h)
  · obtain ⟨ob, hob, ha⟩ := ha
    obtain ⟨entries, hf, hk⟩ := hl.fetch_of_addedOn hone hob ha
    refine ⟨entries, hf, ?_⟩
    rintro ⟨txHash, id⟩
    rw [hk]
    by_cases he : ob = ob₀
    · subst he
      rw [mem_direct_iff hid hm]
      constructor
      · rintro ⟨r, hrow, hreadable, hx, rfl⟩
        exact ⟨r.logIndex, rfl, r, hr.isTradeRow hreadable hrow, hx, rfl⟩
      · rintro ⟨-, rfl, r, hrow, hx, rfl⟩
        obtain ⟨r', hrow', hreadable, hx', hlog⟩ := hread r hrow
        exact ⟨r', hrow'.mem_hashRows hm, hreadable, hx'.trans hx, by rw [hlog]⟩
    · -- neither path has a trade of the order on another orderbook
      have hn : ¬ AddedOn db (fetcherFor ob₀) (HexText.formatB256 h) :=
        fun ha₀ => he (hone ob hob ob₀ hob₀ ha ha₀)
      refine ⟨fun hmem => absurd hmem (not_mem_direct hid hm hn _), ?_⟩
      rintro ⟨logIndex, -, htr⟩
      exact absurd (fetcherFor_injective (ht ob hob _ logIndex htr)) he
  · have ha' : ∀ ob ∈ obs, ¬ AddedOn db (fetcherFor ob) (HexText.formatB256 h) :=
      fun ob hob hadd => ha ⟨ob, hob, hadd⟩
    refine ⟨[], hl.fetch_of_not_addedOn ha', fun key => ?_⟩
    exact ⟨fun hmem => absurd hmem (not_mem_direct hid hm (ha' ob₀ hob₀) key), by simp⟩

theorem pathsAgree_iff : PathsAgree (fetcherFor ob₀) client db hashes h ↔
    TradesOnFetcher (fetcherFor ob₀) db obs (HexText.formatB256 h) ∧
    LatestRequested F (fetcherFor ob₀) db hashes (HexText.formatB256 h) ∧
    TradesReadable F (fetcherFor ob₀) db (HexText.formatB256 h) := by
  constructor
  · intro hp
    exact ⟨.of_pathsAgree hob₀ hl hone hid hm hp, .of_pathsAgree hob₀ hl hone hid hm hp,
      .of_pathsAgree hob₀ hl hone hid hm hp⟩
  · rintro ⟨ht, hr, hread⟩
    exact pathsAgree_of_readable hob₀ hl hone hid hm ht hr hread

end Agree

/-! ## The answers of a batch -/

variable {ds : TradesDataSource F} {cache : TradesByOrderHashCache}

theorem batchAnswer_direct (hu : h ∈ (checkCache cache hashes).2) :
    batchAnswer ds cache (some f) (some db) hashes h =
      fetchedTrades F f db (checkCache cache hashes).2 h := by
  rw [batchAnswer_uncached hu, fetchedFor, fetchedTrades]
  simp only [DirectTradesFetcher.batchFetch]
  split_ifs <;> rfl

theorem batchAnswer_library (hu : h ∈ (checkCache cache hashes).2) (db : Option EventDb)
    {entries : List OrderTradeEntry} (hok : fetchTradesForHash ds h = .ok entries) :
    batchAnswer ds cache none db hashes h = entries := by
  rw [batchAnswer_uncached hu, fetchedFor, hok]
  rfl

/-- A batch answers the same set of trades for the hash with and without the fetcher. -/
def AnswersAgree (f : DirectTradesFetcher) (ds : TradesDataSource F) (db : EventDb)
    (cache : TradesByOrderHashCache) (hashes : List B256) (h : B256) : Prop :=
  ∀ key, key ∈ (batchAnswer ds cache (some f) (some db) hashes h).map tradeKey ↔
    key ∈ (batchAnswer ds cache none (some db) hashes h).map tradeKey

omit [FloatLib F] in
theorem LibraryServes.fetch_ok (hl : LibraryServes client db obs h)
    (hone : OnOneOrderbook db obs (HexText.formatB256 h)) :
    ∃ entries, fetchTradesForHash (raindexTradesDataSource client) h = .ok entries := by
  by_cases ha : ∃ ob ∈ obs, AddedOn db (fetcherFor ob) (HexText.formatB256 h)
  · obtain ⟨ob, hob, ha⟩ := ha
    obtain ⟨entries, hf, -⟩ := hl.fetch_of_addedOn hone hob ha
    exact ⟨entries, hf⟩
  · exact ⟨[], hl.fetch_of_not_addedOn fun ob hob hadd => ha ⟨ob, hob, hadd⟩⟩

theorem answersAgree_iff_pathsAgree (hu : h ∈ (checkCache cache hashes).2)
    (hl : LibraryServes client db obs h) (hone : OnOneOrderbook db obs (HexText.formatB256 h)) :
    AnswersAgree f (raindexTradesDataSource client) db cache hashes h ↔
      PathsAgree f client db (checkCache cache hashes).2 h := by
  obtain ⟨entries, hok⟩ := hl.fetch_ok hone
  rw [AnswersAgree, batchAnswer_direct hu, batchAnswer_library hu _ hok]
  constructor
  · intro hk
    exact ⟨entries, hok, hk⟩
  · rintro ⟨entries', hok', hk⟩
    obtain rfl : entries = entries' := Except.ok.inj (hok.symm.trans hok')
    exact hk

/-- A batch that does not find a hash in the cache answers for it alike with the fetcher set up at
the start and without one, if and only if the trades of the hash are on the fetcher's orderbook, no
take of them was added anew under a hash that is not fetched along, and their rows are readable. -/
theorem answersAgree_iff {dbPath : Option DbFile} {startup : RaindexClient F}
    {obs₀ : List OrderbookCfg} (hs : setupDirectTrades dbPath startup = some f)
    (ho : startup.getAllOrderbooks = .ok obs₀) (hp : obs₀.Perm obs)
    (hl : LibraryServes client db obs h) (hone : OnOneOrderbook db obs (HexText.formatB256 h))
    (hid : db.Identified) (hm : h ∈ hashes) (hc : cache.get h = none) :
    AnswersAgree f (raindexTradesDataSource client) db cache hashes h ↔
      TradesOnFetcher f db obs (HexText.formatB256 h) ∧
      LatestRequested F f db (checkCache cache hashes).2 (HexText.formatB256 h) ∧
      TradesReadable F f db (HexText.formatB256 h) := by
  obtain ⟨ob₀, obs', ho', rfl⟩ := setupDirectTrades_eq_some hs
  have hob₀ : ob₀ ∈ obs := by
    rw [Except.ok.inj (ho.symm.trans ho')] at hp
    exact hp.mem_iff.1 List.mem_cons_self
  have hu : h ∈ (checkCache cache hashes).2 := mem_uncached.2 ⟨hm, hc⟩
  rw [answersAgree_iff_pathsAgree hu hl hone, pathsAgree_iff hob₀ hl hone hid hu]

end Paths

section Elsewhere

local instance elsewhereHexText : HexText := Hex.text

local instance elsewhereFloats : FloatLib ℚ := Rational.floats

def baseOrderbook : OrderbookCfg where
  chainId := 8453
  address := 1

def otherOrderbook : OrderbookCfg where
  chainId := 8453
  address := 2

def elsewhere : EventDb where
  orderEvents := [{ added 1 10 with orderbookAddress := HexText.formatAddress 2 }]
  takeOrders := [{ taken 3 with orderbookAddress := HexText.formatAddress 2 }]
  clearV3Events := []
  afterClearV2Events := []

def elsewhereTrade : RaindexTrade ℚ where
  id := tradeId (HexText.formatB256 5) 0
  orderHash := []
  transaction := { id := 5, sender := 2, blockNumber := 3, timestamp := 3 }
  inputVaultBalanceChange := {
    token := { address := 3, symbol := none, decimals := 6 }
    amount := 4
    formattedAmount := "4" }
  outputVaultBalanceChange := {
    token := { address := 4, symbol := none, decimals := 6 }
    amount := -3
    formattedAmount := "-3" }
  timestamp := 3

def elsewhereClient : RaindexClient ℚ where
  getAllOrderbooks := .ok [baseOrderbook, otherOrderbook]
  getOrders _ _ _ := .ok ([], 0)
  getOrderByHash ob hash :=
    if ob = otherOrderbook ∧ hash = 10 then
      .ok { id := [], chainId := 8453, orderbook := 2, orderHash := 10, owner := 7 }
    else .error .orderNotFound
  getTradesList _ _ _ := .ok [elsewhereTrade]
  getTransactionTrades _ _ := .ok []
  getTransaction _ _ := .ok ()

theorem elsewhere_not_addedOn : ¬ AddedOn elsewhere (fetcherFor baseOrderbook)
    (HexText.formatB256 10) := by
  have h : addOrderV3Events elsewhere (fetcherFor baseOrderbook).chainId
      (fetcherFor baseOrderbook).orderbookAddress = [] := by decide +kernel
  rintro ⟨oe, hoe, -⟩
  rw [h] at hoe
  cases hoe

theorem elsewhere_isTakeOf : IsTakeOf elsewhere (fetcherFor otherOrderbook)
    (HexText.formatB256 10) { taken 3 with orderbookAddress := HexText.formatAddress 2 } := by
  have h : addOrderV3Events elsewhere (fetcherFor otherOrderbook).chainId
      (fetcherFor otherOrderbook).orderbookAddress = elsewhere.orderEvents := by decide +kernel
  refine ⟨List.mem_singleton_self _, rfl, rfl,
    { added 1 10 with orderbookAddress := HexText.formatAddress 2 }, ⟨⟨?_, ?_⟩, ?_⟩, rfl⟩
  · rw [h]
    exact List.mem_singleton_self _
  · decide +kernel
  · rintro oe ⟨hoe, -⟩ -
    rw [h] at hoe
    rw [List.mem_singleton.1 hoe]

theorem elsewhere_isTradeRow_iff {r : TradeRow} :
    IsTradeRow elsewhere (fetcherFor otherOrderbook) (HexText.formatB256 10) r ↔
      r = takeRowFor (taken 3) (HexText.formatB256 10) := by
  constructor
  · rintro (⟨t, ⟨ht, -⟩, rfl⟩ | ⟨c, hc, -⟩ | ⟨c, hc, -⟩)
    · rw [List.mem_singleton.1 ht]
      rfl
    · cases hc
    · cases hc
  · rintro rfl
    exact Or.inl ⟨_, elsewhere_isTakeOf, rfl⟩

theorem elsewhere_isTrade_iff {txHash : B256} {logIndex : ℤ} :
    IsTrade elsewhere (fetcherFor otherOrderbook) (HexText.formatB256 10)
      (HexText.formatB256 txHash) logIndex ↔ txHash = 5 ∧ logIndex = 0 := by
  simp only [IsTrade, elsewhere_isTradeRow_iff, exists_eq_left]
  constructor
  · rintro ⟨hx, hl⟩
    exact ⟨HexText.formatB256_injective hx.symm, hl.symm⟩
  · rintro ⟨rfl, rfl⟩
    exact ⟨rfl, rfl⟩

theorem elsewhere_served :
    LibraryServes elsewhereClient elsewhere [baseOrderbook, otherOrderbook] 10 where
  orderbooks := rfl
  found ob hob ha := by
    have he : ob = otherOrderbook := by
      simp only [List.mem_cons, List.not_mem_nil, or_false] at hob
      rcases hob with rfl | rfl
      · exact absurd ha elsewhere_not_addedOn
      · rfl
    subst he
    refine ⟨_, [elsewhereTrade], rfl, rfl, fun txHash id => ?_⟩
    simp only [List.mem_singleton, exists_eq_left, elsewhere_isTrade_iff]
    constructor
    · rintro ⟨rfl, rfl⟩
      exact ⟨0, rfl, rfl, rfl⟩
    · rintro ⟨logIndex, rfl, rfl, rfl⟩
      exact ⟨rfl, rfl⟩
  missing ob hob ha := by
    simp only [List.mem_cons, List.not_mem_nil, or_false] at hob
    rcases hob with rfl | rfl
    · rfl
    · exact absurd (elsewhere_isTradeRow_iff.2 rfl).addedOn ha

theorem elsewhere_onOneOrderbook :
    OnOneOrderbook elsewhere [baseOrderbook, otherOrderbook] (HexText.formatB256 10) := by
  intro ob hob ob' hob' ha ha'
  simp only [List.mem_cons, List.not_mem_nil, or_false] at hob hob'
  rcases hob with rfl | rfl <;> rcases hob' with rfl | rfl
  · rfl
  · exact absurd ha elsewhere_not_addedOn
  · exact absurd ha' elsewhere_not_addedOn
  · rfl

theorem elsewhere_identified : elsewhere.Identified where
  takes t ht t' ht' _ _ _ _ := by
    rw [List.mem_singleton.1 ht, List.mem_singleton.1 ht']
  clears t _ c hc := by cases hc
  takeHashes t ht := by
    rw [List.mem_singleton.1 ht]
    exact ⟨5, rfl⟩
  clearHashes c hc := by cases hc
  takeLogs t ht := by
    rw [List.mem_singleton.1 ht]
    decide
  clearLogs c hc := by cases hc

theorem answersAgree_iff_elsewhere :
    AnswersAgree (fetcherFor baseOrderbook) (raindexTradesDataSource elsewhereClient) elsewhere
        .new [10] 10 ↔
      TradesOnFetcher (fetcherFor baseOrderbook) elsewhere [baseOrderbook, otherOrderbook]
        (HexText.formatB256 10) ∧
      LatestRequested ℚ (fetcherFor baseOrderbook) elsewhere (checkCache .new [10]).2
        (HexText.formatB256 10) ∧
      TradesReadable ℚ (fetcherFor baseOrderbook) elsewhere (HexText.formatB256 10) := by
  have hs : setupDirectTrades (some ⟨true, .ok ()⟩) elsewhereClient =
      some (fetcherFor baseOrderbook) := rfl
  exact answersAgree_iff hs rfl (List.Perm.refl _) elsewhere_served elsewhere_onOneOrderbook
    elsewhere_identified (List.mem_singleton_self 10) rfl

/-- Without the fetcher a batch answers the trade on the second orderbook, with it none. -/
theorem elsewhere_disagree :
    setupDirectTrades (some ⟨true, .ok ()⟩) elsewhereClient = some (fetcherFor baseOrderbook) ∧
      LibraryServes elsewhereClient elsewhere [baseOrderbook, otherOrderbook] 10 ∧
      OnOneOrderbook elsewhere [baseOrderbook, otherOrderbook] (HexText.formatB256 10) ∧
      elsewhere.Identified ∧
      batchAnswer (raindexTradesDataSource elsewhereClient) .new (some (fetcherFor baseOrderbook))
        (some elsewhere) [10] 10 = [] ∧
      batchAnswer (raindexTradesDataSource elsewhereClient) .new none (some elsewhere) [10] 10 =
        [mapTrade elsewhereTrade] ∧
      ¬ AnswersAgree (fetcherFor baseOrderbook) (raindexTradesDataSource elsewhereClient) elsewhere
        .new [10] 10 := by
  have hu : (10 : B256) ∈ (checkCache .new [10]).2 :=
    mem_uncached.2 ⟨List.mem_singleton_self 10, rfl⟩
  have hdirect : batchAnswer (raindexTradesDataSource elsewhereClient) .new
      (some (fetcherFor baseOrderbook)) (some elsewhere) [10] 10 = [] := by
    rw [batchAnswer_direct hu, List.eq_nil_iff_forall_not_mem]
    intro e he
    exact not_mem_direct elsewhere_identified hu elsewhere_not_addedOn (tradeKey e)
      (List.mem_map_of_mem he)
  have hlibrary : batchAnswer (raindexTradesDataSource elsewhereClient) .new none (some elsewhere)
      [10] 10 = [mapTrade elsewhereTrade] := batchAnswer_library hu _ rfl
  refine ⟨rfl, elsewhere_served, elsewhere_onOneOrderbook, elsewhere_identified, hdirect,
    hlibrary, fun hagree => ?_⟩
  have hk := (hagree (tradeKey (mapTrade elsewhereTrade))).2
    (by rw [hlibrary]; exact List.mem_cons_self)
  rw [hdirect] at hk
  cases hk

end Elsewhere

end AlbionApi.DirectTrades
