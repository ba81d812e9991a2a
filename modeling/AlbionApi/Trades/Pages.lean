import AlbionApi.Api.Rational
import AlbionApi.Trades.Listings
import AlbionApi.Trades.OrderScan

/-! # The law of pages

The pages of both listings, put together, are the listing: nothing is lost or
repeated at a page boundary, and no page number leaves the listing's range.
-/

namespace AlbionApi

variable {F : Type}

/-- A source that serves the orders of an owner page by page and their trades, all of
them within the range of the response's fields and of one vector. -/
structure ServesTrades (ds : TradesDataSource F) (owner : Address)
    (startTime endTime : Option UInt64) (orders : List RaindexOrder)
    (trades : RaindexOrder → List (RaindexTrade F)) : Prop where
  pages : ServesOrders ds { owners := [owner], active := none } orders
  scannable : orders.length ≤ 50 * 65534
  loads : ∀ o ∈ orders, ds.getOrderTrades o startTime endTime = .ok (trades o)
  timestamp : ∀ o ∈ orders, ∀ t ∈ trades o, t.timestamp.toNat < 2 ^ 64
  blockNumber : ∀ o ∈ orders, ∀ t ∈ trades o, t.transaction.blockNumber.toNat < 2 ^ 64
  allocatable : (orders.flatMap trades).length ≤ isizeMax

theorem toU64_eq {value : U256} (h : value.toNat < 2 ^ 64) (field : String) :
    toU64 value field = .ok (UInt64.ofNat value.toNat) := by
  simp only [toU64, U256.tryIntoU64, if_pos h, orInternal]

section ByAddress

variable [HexText]

/-- The listed form of a trade whose timestamp and block number fit. -/
def listed (trade : RaindexTrade F) : TradeByAddress where
  txHash := trade.transaction.id
  inputAmount := trade.inputVaultBalanceChange.formattedAmount
  outputAmount := trade.outputVaultBalanceChange.formattedAmount
  inputToken := tokenRef trade.inputVaultBalanceChange.token
  outputToken := tokenRef trade.outputVaultBalanceChange.token
  orderHash := maybeParseTradeOrderHash trade.orderHash
  timestamp := UInt64.ofNat trade.timestamp.toNat
  blockNumber := UInt64.ofNat trade.transaction.blockNumber.toNat

theorem tradeByAddress_eq {trade : RaindexTrade F} (ht : trade.timestamp.toNat < 2 ^ 64)
    (hb : trade.transaction.blockNumber.toNat < 2 ^ 64) :
    tradeByAddress trade = .ok (listed trade) := by
  rw [tradeByAddress, toU64_eq ht, toU64_eq hb]
  rfl

theorem mapM_tradeByAddress {l : List (TradeWithOwner F)}
    (ht : ∀ t ∈ l, t.trade.timestamp.toNat < 2 ^ 64)
    (hb : ∀ t ∈ l, t.trade.transaction.blockNumber.toNat < 2 ^ 64) :
    (l.mapM fun t => tradeByAddress t.trade) = .ok (l.map fun t => listed t.trade) := by
  induction l with
  | nil => rfl
  | cons t l ih =>
    rw [List.mapM_cons, tradeByAddress_eq (ht t List.mem_cons_self) (hb t List.mem_cons_self),
      ih (fun t' h => ht t' (List.mem_cons_of_mem _ h))
        (fun t' h => hb t' (List.mem_cons_of_mem _ h))]
    rfl

variable {ds : TradesDataSource F} {owner : Address} {startTime endTime : Option UInt64}
  {orders : List RaindexOrder} {trades : RaindexOrder → List (RaindexTrade F)}

/-- The scan and the load yield every trade of every order, in load order. -/
theorem ServesTrades.collectTradesByAddress_eq
    (h : ServesTrades ds owner startTime endTime orders trades) :
    collectTradesByAddress ds owner startTime endTime =
      .ok ((orders.flatMap trades).map listed) := by
  have hfit : ∀ t ∈ orders.flatMap fun o => (trades o).map (TradeWithOwner.mk o.owner),
      t.trade.timestamp.toNat < 2 ^ 64 ∧ t.trade.transaction.blockNumber.toNat < 2 ^ 64 := by
    intro t ht
    obtain ⟨o, ho, ht⟩ := List.mem_flatMap.1 ht
    obtain ⟨trade, htrade, rfl⟩ := List.mem_map.1 ht
    exact ⟨h.timestamp o ho trade htrade, h.blockNumber o ho trade htrade⟩
  rw [collectTradesByAddress, h.pages.fetchAllOrders_eq h.scannable]
  simp only [bind, Except.bind, loadTradesWithOwners_eq h.loads]
  rw [mapM_tradeByAddress (fun t ht => (hfit t ht).1) fun t ht => (hfit t ht).2,
    List.map_flatMap, List.map_flatMap]
  simp only [List.map_map, Function.comp_def]

theorem processGetTradesByAddress_eq {collected : List TradeByAddress}
    (hc : collectTradesByAddress ds owner startTime endTime = .ok collected)
    (hl : collected.length ≤ isizeMax) (page pageSize : Option UInt32) :
    processGetTradesByAddress ds owner ⟨page, pageSize, startTime, endTime⟩ = some (.ok {
      trades := Listing.page (sortTrades collected) (pageSize.getD 20).toNat (page.getD 1).toNat
      pagination :=
        pagination (len (sortTrades collected)) (page.getD 1) (pageSize.getD 20) }) := by
  have hl' : (sortTrades collected).length ≤ isizeMax := by
    rw [sortTrades, Listing.length_sortByKey]
    exact hl
  simp only [processGetTradesByAddress, hc, pageSlice_eq hl', Option.map_some]

/-- The trades that a request for a page gets. -/
def tradesOn (ds : TradesDataSource F) (owner : Address) (startTime endTime : Option UInt64)
    (pageSize page : UInt32) : List TradeByAddress :=
  match processGetTradesByAddress ds owner ⟨some page, some pageSize, startTime, endTime⟩ with
  | some (.ok response) => response.trades
  | _ => []

theorem tradesOn_eq {collected : List TradeByAddress}
    (hc : collectTradesByAddress ds owner startTime endTime = .ok collected)
    (hl : collected.length ≤ isizeMax) (pageSize page : UInt32) :
    tradesOn ds owner startTime endTime pageSize page =
      Listing.page (sortTrades collected) pageSize.toNat page.toNat := by
  rw [tradesOn, processGetTradesByAddress_eq hc hl]
  rfl

theorem ServesTrades.pagesOf (h : ServesTrades ds owner startTime endTime orders trades) :
    ∃ sorted : List TradeByAddress,
      Listing.IsListing recency ((orders.flatMap trades).map listed) sorted ∧
      (∀ page pageSize : Option UInt32,
        processGetTradesByAddress ds owner ⟨page, pageSize, startTime, endTime⟩ = some (.ok {
          trades := tradesOn ds owner startTime endTime (pageSize.getD 20) (page.getD 1)
          pagination := pagination (len sorted) (page.getD 1) (pageSize.getD 20) })) ∧
      PagesOf sorted (tradesOn ds owner startTime endTime) fun pageSize page =>
        pagination (len sorted) page pageSize := by
  have hc := h.collectTradesByAddress_eq
  have hl : ((orders.flatMap trades).map listed).length ≤ isizeMax := by
    rw [List.length_map]
    exact h.allocatable
  have hl' : (sortTrades ((orders.flatMap trades).map listed)).length ≤ isizeMax := by
    rw [sortTrades, Listing.length_sortByKey]
    exact hl
  refine ⟨sortTrades ((orders.flatMap trades).map listed),
    Listing.isListing_sortByKey recency _, ?_, ?_⟩
  · intro page pageSize
    rw [processGetTradesByAddress_eq hc hl, tradesOn_eq hc hl]
  · apply pagesOf_pageSlice hl'
    intro pageSize page
    rw [tradesOn_eq hc hl, pageSlice_eq hl']

end ByAddress

section Taker

variable [FloatLib F] [HexText]

/-- The trades a hash resolves to, from the cache or else from the source. -/
def resolvedTx (ds : TradesDataSource F) (cache : TradesByTxCache) (txHash : B256) :
    Option TradesByTxResponse :=
  (getCachedTradesByTx cache ds txHash).1.toOption

variable {ds : TradesDataSource F}

theorem resolvedTx_getCachedTradesByTx (cache : TradesByTxCache) (txHash txHash' : B256) :
    resolvedTx ds (getCachedTradesByTx cache ds txHash).2 txHash' =
      resolvedTx ds cache txHash' := by
  simp only [resolvedTx, getCachedTradesByTx, AppCache.fst_getOrTryInsert]
  unfold AppCache.getOrTryInsert
  cases hg : cache.get txHash with
  | some value => rfl
  | none =>
    cases hp : processGetTradesByTx ds txHash with
    | error e => rfl
    | ok value =>
      by_cases he : txHash' = txHash
      · subst he
        simp only [AppCache.get_insert_self, hg, hp]
        rfl
      · simp only [AppCache.get_insert_of_ne cache value he]

theorem resolveMarketOrders_eq (cache : TradesByTxCache) (hashes : List B256) :
    (resolveMarketOrders ds cache hashes).1 = hashes.filterMap (resolvedTx ds cache) := by
  induction hashes generalizing cache with
  | nil => rfl
  | cons txHash hashes ih =>
    have hcongr : hashes.filterMap (resolvedTx ds (getCachedTradesByTx cache ds txHash).2) =
        hashes.filterMap (resolvedTx ds cache) :=
      List.filterMap_congr fun h _ => resolvedTx_getCachedTradesByTx cache txHash h
    rw [resolveMarketOrders, List.filterMap_cons]
    cases hr : getCachedTradesByTx cache ds txHash with
    | mk result cache' =>
      rw [hr] at hcongr
      cases result with
      | ok txTrades =>
        simp only [resolvedTx, hr, Except.toOption]
        rw [ih, hcongr]
      | error e =>
        simp only [resolvedTx, hr, Except.toOption]
        rw [ih, hcongr]

variable (ds) in
theorem processGetTakerTrades_eq {fetchTakerTxHashes : FetchTakerTxHashes}
    {caches : TakerCaches} {sender : Address} {txHashes : List (B256 × UInt64)}
    (h : (caches.takerTx.getOrTryInsert sender (fetchTakerTxHashes sender)).1 = .ok txHashes)
    (hl : txHashes.length ≤ isizeMax) (page pageSize : Option UInt32)
    (startTime endTime : Option UInt64) :
    ∃ caches', processGetTakerTrades ds (some fetchTakerTxHashes) caches sender
        ⟨page, pageSize, startTime, endTime⟩ = some (.ok {
      marketOrders := (Listing.page txHashes (pageSize.getD 20).toNat
        (page.getD 1).toNat).filterMap fun entry => resolvedTx ds caches.tradesByTx entry.1
      pagination := pagination (len txHashes) (page.getD 1) (pageSize.getD 20) }, caches') := by
  obtain ⟨takerTx, ht⟩ : ∃ takerTx, caches.takerTx.getOrTryInsert sender
      (fetchTakerTxHashes sender) = (.ok txHashes, takerTx) := ⟨_, Prod.ext h rfl⟩
  simp only [processGetTakerTrades, ht, pageSlice_eq hl, Option.map_some,
    resolveMarketOrders_eq, List.filterMap_map]
  exact ⟨_, rfl⟩

theorem processGetTakerTrades_pagesOf {fetchTakerTxHashes : FetchTakerTxHashes}
    {caches : TakerCaches} {sender : Address} {txHashes : List (B256 × UInt64)}
    (h : (caches.takerTx.getOrTryInsert sender (fetchTakerTxHashes sender)).1 = .ok txHashes)
    (hl : txHashes.length ≤ isizeMax) :
    ∃ pageHashes : UInt32 → UInt32 → List (B256 × UInt64),
      (∀ page pageSize startTime endTime, ∃ caches',
        processGetTakerTrades ds (some fetchTakerTxHashes) caches sender
            ⟨page, pageSize, startTime, endTime⟩ =
          some (.ok {
            marketOrders := (pageHashes (pageSize.getD 20) (page.getD 1)).filterMap fun entry =>
              resolvedTx ds caches.tradesByTx entry.1
            pagination := pagination (len txHashes) (page.getD 1) (pageSize.getD 20) },
          caches')) ∧
      PagesOf txHashes pageHashes fun pageSize page => pagination (len txHashes) page pageSize :=
  ⟨fun pageSize page => Listing.page txHashes pageSize.toNat page.toNat,
    processGetTakerTrades_eq ds h hl,
    pagesOf_pageSlice hl fun pageSize page => pageSlice_eq hl page pageSize⟩

end Taker

/-! ## Both listings -/

theorem trades_paged [FloatLib F] [HexText] (ds : TradesDataSource F) :
    (∀ {owner : Address} {startTime endTime : Option UInt64} {orders : List RaindexOrder}
      {trades : RaindexOrder → List (RaindexTrade F)},
      ServesTrades ds owner startTime endTime orders trades →
      ∃ sorted : List TradeByAddress,
        Listing.IsListing recency ((orders.flatMap trades).map listed) sorted ∧
        (∀ page pageSize : Option UInt32,
          processGetTradesByAddress ds owner ⟨page, pageSize, startTime, endTime⟩ = some (.ok {
            trades := tradesOn ds owner startTime endTime (pageSize.getD 20) (page.getD 1)
            pagination := pagination (len sorted) (page.getD 1) (pageSize.getD 20) })) ∧
        PagesOf sorted (tradesOn ds owner startTime endTime) fun pageSize page =>
          pagination (len sorted) page pageSize) ∧
    ∀ {fetchTakerTxHashes : FetchTakerTxHashes} {caches : TakerCaches} {sender : Address}
      {txHashes : List (B256 × UInt64)},
      (caches.takerTx.getOrTryInsert sender (fetchTakerTxHashes sender)).1 = .ok txHashes →
      txHashes.length ≤ isizeMax →
      ∃ pageHashes : UInt32 → UInt32 → List (B256 × UInt64),
        (∀ page pageSize startTime endTime, ∃ caches',
          processGetTakerTrades ds (some fetchTakerTxHashes) caches sender
              ⟨page, pageSize, startTime, endTime⟩ =
            some (.ok {
              marketOrders := (pageHashes (pageSize.getD 20) (page.getD 1)).filterMap fun entry =>
                resolvedTx ds caches.tradesByTx entry.1
              pagination := pagination (len txHashes) (page.getD 1) (pageSize.getD 20) },
            caches')) ∧
        PagesOf txHashes pageHashes fun pageSize page =>
          pagination (len txHashes) page pageSize := by
  constructor
  · intro owner startTime endTime orders trades h
    exact h.pagesOf
  · intro fetchTakerTxHashes caches sender txHashes h hl
    exact processGetTakerTrades_pagesOf h hl

section Example

def soleOrder : RaindexOrder where
  id := [1]
  chainId := 8453
  orderbook := 1
  orderHash := 43981
  owner := 7

def soleToken : RaindexVaultToken where
  address := 3
  symbol := some "USDC"
  decimals := 6

def soleTrade (timestamp : U256) : RaindexTrade ℚ where
  id := "trade"
  orderHash := [1]
  transaction := { id := 5, sender := 2, blockNumber := 10, timestamp := timestamp }
  inputVaultBalanceChange := { token := soleToken, amount := 1, formattedAmount := "1" }
  outputVaultBalanceChange := { token := soleToken, amount := -1, formattedAmount := "-1" }
  timestamp := timestamp

def soleSource (trades : List (RaindexTrade ℚ)) : TradesDataSource ℚ where
  getOrders _ page pageSize :=
    .ok (Listing.page [soleOrder] (pageSize.getD 50).toNat (page.getD 1).toNat, 1)
  getOrderTrades _ _ _ := .ok trades
  getTradesByTx _ := .ok []
  findOrderByHash _ := .ok none
  checkTxIndexState _ := .ok .indexed

theorem soleSource_serves (trades : List (RaindexTrade ℚ))
    (ht : ∀ t ∈ trades, t.timestamp.toNat < 2 ^ 64)
    (hb : ∀ t ∈ trades, t.transaction.blockNumber.toNat < 2 ^ 64)
    (hl : trades.length ≤ isizeMax) :
    ServesTrades (soleSource trades) 7 none none [soleOrder] fun _ => trades where
  pages _ _ := rfl
  scannable := by simp
  loads _ _ := rfl
  timestamp _ _ := ht
  blockNumber _ _ := hb
  allocatable := by simpa using hl

local instance soleHexText : HexText := Hex.text

local instance soleFloats : FloatLib ℚ := Rational.floats

def soleTaker : FetchTakerTxHashes := fun _ => .ok [(5, 9), (6, 5), (4, 5)]

theorem trades_paged_sole :
    (∃ sorted : List TradeByAddress,
      Listing.IsListing recency ([soleTrade 5, soleTrade 9].map listed) sorted ∧
      PagesOf sorted (tradesOn (soleSource [soleTrade 5, soleTrade 9]) 7 none none)
        fun pageSize page => pagination (len sorted) page pageSize) ∧
    ∃ pageHashes : UInt32 → UInt32 → List (B256 × UInt64),
      (∃ caches', processGetTakerTrades (soleSource [])
          (some fun _ => .ok [(5, 9), (6, 5), (4, 5)]) ⟨.new, .new⟩ 2
          ⟨some 2, some 2, none, none⟩ =
        some (.ok {
          marketOrders := (pageHashes 2 2).filterMap fun entry =>
            resolvedTx (soleSource []) .new entry.1
          pagination := pagination (len [((5 : B256), (9 : UInt64)), (6, 5), (4, 5)]) 2 2 },
        caches')) ∧
      PagesOf [(5, 9), (6, 5), (4, 5)] pageHashes fun pageSize page =>
        pagination (len [((5 : B256), (9 : UInt64)), (6, 5), (4, 5)]) page pageSize := by
  have hs := soleSource_serves [soleTrade 5, soleTrade 9]
    (by decide) (by decide) (by decide)
  constructor
  · obtain ⟨sorted, hl, -, hp⟩ := (trades_paged _).1 hs
    exact ⟨sorted, hl, hp⟩
  · have hf : ((⟨.new, .new⟩ : TakerCaches).takerTx.getOrTryInsert 2 (soleTaker 2)).1 =
        .ok [(5, 9), (6, 5), (4, 5)] := rfl
    obtain ⟨pageHashes, hr, hp⟩ := (trades_paged (soleSource [])).2 hf (by decide)
    exact ⟨pageHashes, hr (some 2) (some 2) none none, hp⟩

def crowd : List (RaindexTrade ℚ) := List.replicate (2 ^ 32) (soleTrade 5)

theorem length_crowd : crowd.length = 2 ^ 32 := List.length_replicate

/-- Pages of one trade never reach the last trade of the crowd: its page has no number. -/
theorem crowd_unpageable :
    ServesTrades (soleSource crowd) 7 none none [soleOrder] (fun _ => crowd) ∧
      (∃ response, processGetTradesByAddress (soleSource crowd) 7 ⟨some 1, some 1, none, none⟩ =
          some (.ok response) ∧
        ¬ ∃ pages : List UInt32,
          pages.map UInt32.toNat = List.range' 1 response.pagination.totalPages.toNat) ∧
      ¬ ((List.range' 1 (2 ^ 32 - 1)).flatMap fun page =>
          tradesOn (soleSource crowd) 7 none none 1 (UInt32.ofNat page)).Perm
        (crowd.map listed) := by
  have hn := length_crowd
  have hs := soleSource_serves crowd
    (fun t ht => by rw [List.eq_of_mem_replicate ht]; decide)
    (fun t ht => by rw [List.eq_of_mem_replicate ht]; decide) (by rw [hn]; decide)
  obtain ⟨sorted, hl, hr, hp⟩ := hs.pagesOf
  have hlen : sorted.length = 2 ^ 32 := by
    rw [hl.perm.length_eq]
    simpa using hn
  have hlen' : sorted.length ≤ isizeMax := by
    rw [hlen]
    decide
  refine ⟨hs, ⟨_, hr (some 1) (some 1), ?_⟩, ?_⟩
  · rintro ⟨pages, hpages⟩
    -- the last page number is one past the largest that fits
    have hmem : 2 ^ 32 ∈ pages.map UInt32.toNat := by
      rw [hpages, List.mem_range'_1]
      simp only [pagination, toNat_totalPages, toNat_len hlen', hlen]
      decide
    obtain ⟨page, -, hpage⟩ := List.mem_map.1 hmem
    have := page.toNat_lt
    omega
  · intro hperm
    have := hperm.length_eq
    rw [hp.concat 1 _ (by omega), List.length_take, hlen, List.length_map, hn] at this
    simp at this

end Example

end AlbionApi
