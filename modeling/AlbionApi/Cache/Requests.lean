import AlbionApi.Orders.Listing

/-! # Cached listings

The four listings that are read through a cache. A key holds the parameters
with their defaults and the page size clamped, as the listing sets them again.
-/

namespace AlbionApi.Cached

variable {F : Type}

section Cached

abbrev OrdersByOwnerKey := Address × UInt16 × UInt16
abbrev OrdersByTokenKey := Address × Option OrderSide × UInt16 × UInt16
abbrev TradesByAddressKey := Address × UInt32 × UInt32 × Option UInt64 × Option UInt64

abbrev OrdersByOwnerCache := AppCache OrdersByOwnerKey OrdersListResponse
abbrev OrdersByTokenCache := AppCache OrdersByTokenKey OrdersListResponse
abbrev TradesByAddressCache := AppCache TradesByAddressKey TradesByAddressResponse

def getCachedOrdersByOwner [OrderAbi] (cache : OrdersByOwnerCache) (ds : OrdersListDataSource F)
    (address : Address) (page pageSize : Option UInt16) :
    Option (Except ApiError OrdersListResponse) × OrdersByOwnerCache :=
  let pageNum := page.getD 1
  let effectivePageSize := min (pageSize.getD ordersDefaultPageSize) ordersMaxPageSize
  cache.tryGetWith (address, pageNum, effectivePageSize)
    (processGetOrdersByOwner ds address (some pageNum) (some effectivePageSize))

def getCachedOrdersByToken [OrderAbi] (cache : OrdersByTokenCache) (ds : OrdersListDataSource F)
    (address : Address) (side : Option OrderSide) (page pageSize : Option UInt16) :
    Option (Except ApiError OrdersListResponse) × OrdersByTokenCache :=
  let pageNum := page.getD 1
  let effectivePageSize := min (pageSize.getD ordersDefaultPageSize) ordersMaxPageSize
  cache.tryGetWith (address, side, pageNum, effectivePageSize)
    (processGetOrdersByToken ds address side (some pageNum) (some effectivePageSize))

def getCachedTradesByAddress [HexText] (cache : TradesByAddressCache) (ds : TradesDataSource F)
    (owner : Address) (params : TradesPaginationParams) :
    Option (Except ApiError TradesByAddressResponse) × TradesByAddressCache :=
  cache.tryGetWith
    (owner, params.page.getD 1, params.pageSize.getD 20, params.startTime, params.endTime)
    (processGetTradesByAddress ds owner params)

end Cached

structure Sources (F : Type) where
  orders : OrdersListDataSource F
  trades : TradesDataSource F

structure ListingCaches where
  ordersByOwner : OrdersByOwnerCache
  ordersByToken : OrdersByTokenCache
  tradesByAddress : TradesByAddressCache
  tradesByTx : TradesByTxCache

def ListingCaches.new : ListingCaches := ⟨.new, .new, .new, .new⟩

inductive Request where
  | ordersByOwner (address : Address) (page pageSize : Option UInt16)
  | ordersByToken (address : Address) (side : Option OrderSide) (page pageSize : Option UInt16)
  | tradesByAddress (owner : Address) (params : TradesPaginationParams)
  | tradesByTx (txHash : B256)

/-- What a request is answered with; `none` is a panic. -/
inductive Answer where
  | orders (result : Option (Except ApiError OrdersListResponse))
  | tradesByAddress (result : Option (Except ApiError TradesByAddressResponse))
  | tradesByTx (result : Except ApiError TradesByTxResponse)

def Answer.Failed : Answer → Prop
  | orders result => ∀ response, result ≠ some (.ok response)
  | tradesByAddress result => ∀ response, result ≠ some (.ok response)
  | tradesByTx result => ∀ response, result ≠ .ok response

/-- The keys whose entries an eviction leaves in each cache. -/
structure Kept where
  ordersByOwner : OrdersByOwnerKey → Bool
  ordersByToken : OrdersByTokenKey → Bool
  tradesByAddress : TradesByAddressKey → Bool
  tradesByTx : B256 → Bool

def ListingCaches.evict (caches : ListingCaches) (kept : Kept) : ListingCaches where
  ordersByOwner := caches.ordersByOwner.retain kept.ordersByOwner
  ordersByToken := caches.ordersByToken.retain kept.ordersByToken
  tradesByAddress := caches.tradesByAddress.retain kept.tradesByAddress
  tradesByTx := caches.tradesByTx.retain kept.tradesByTx

inductive Event where
  | request (r : Request)
  | evict (kept : Kept)

section Serve

variable [OrderAbi] [FloatLib F] [HexText] (s : Sources F)

def uncached : Request → Answer
  | .ordersByOwner address page pageSize =>
    .orders (processGetOrdersByOwner s.orders address page pageSize)
  | .ordersByToken address side page pageSize =>
    .orders (processGetOrdersByToken s.orders address side page pageSize)
  | .tradesByAddress owner params =>
    .tradesByAddress (processGetTradesByAddress s.trades owner params)
  | .tradesByTx txHash => .tradesByTx (processGetTradesByTx s.trades txHash)

/-- The answer through the cache of the listing, and the caches it leaves. -/
def serve (caches : ListingCaches) : Request → Answer × ListingCaches
  | .ordersByOwner address page pageSize =>
    let read := getCachedOrdersByOwner caches.ordersByOwner s.orders address page pageSize
    (.orders read.1, { caches with ordersByOwner := read.2 })
  | .ordersByToken address side page pageSize =>
    let read := getCachedOrdersByToken caches.ordersByToken s.orders address side page pageSize
    (.orders read.1, { caches with ordersByToken := read.2 })
  | .tradesByAddress owner params =>
    let read := getCachedTradesByAddress caches.tradesByAddress s.trades owner params
    (.tradesByAddress read.1, { caches with tradesByAddress := read.2 })
  | .tradesByTx txHash =>
    let read := getCachedTradesByTx caches.tradesByTx s.trades txHash
    (.tradesByTx read.1, { caches with tradesByTx := read.2 })

def serveAll (caches : ListingCaches) : List Event → List Answer × ListingCaches
  | [] => ([], caches)
  | .evict kept :: events => serveAll (caches.evict kept) events
  | .request r :: events =>
    let served := serve s caches r
    let rest := serveAll served.2 events
    (served.1 :: rest.1, rest.2)

end Serve

def requests (events : List Event) : List Request :=
  events.filterMap fun
    | .request r => some r
    | .evict _ => none

def ListingCaches.Holds (caches : ListingCaches) : Request → Prop
  | .ordersByOwner address page pageSize =>
    ∃ response, caches.ordersByOwner.get (address, page.getD 1,
      min (pageSize.getD ordersDefaultPageSize) ordersMaxPageSize) = some response
  | .ordersByToken address side page pageSize =>
    ∃ response, caches.ordersByToken.get (address, side, page.getD 1,
      min (pageSize.getD ordersDefaultPageSize) ordersMaxPageSize) = some response
  | .tradesByAddress owner params =>
    ∃ response, caches.tradesByAddress.get (owner, params.page.getD 1, params.pageSize.getD 20,
      params.startTime, params.endTime) = some response
  | .tradesByTx txHash => ∃ response, caches.tradesByTx.get txHash = some response

section Keys

variable [OrderAbi] [FloatLib F] [HexText] (s : Sources F)

def ordersOfOwnerKey (key : OrdersByOwnerKey) : Option (Except ApiError OrdersListResponse) :=
  processGetOrdersByOwner s.orders key.1 (some key.2.1) (some key.2.2)

def ordersOfTokenKey (key : OrdersByTokenKey) : Option (Except ApiError OrdersListResponse) :=
  processGetOrdersByToken s.orders key.1 key.2.1 (some key.2.2.1) (some key.2.2.2)

def tradesOfAddressKey (key : TradesByAddressKey) :
    Option (Except ApiError TradesByAddressResponse) :=
  processGetTradesByAddress s.trades key.1 ⟨some key.2.1, some key.2.2.1, key.2.2.2.1, key.2.2.2.2⟩

def tradesOfTxKey (key : B256) : Option (Except ApiError TradesByTxResponse) :=
  some (processGetTradesByTx s.trades key)

omit [OrderAbi] [FloatLib F] [HexText] in
theorem min_min_right (size bound : UInt16) : min (min size bound) bound = min size bound := by
  by_cases h : size ≤ bound
  · have hmin : min size bound = size := if_pos h
    rw [hmin, hmin]
  · have hmin : min size bound = bound := if_neg h
    rw [hmin]
    exact if_pos (UInt16.le_refl bound)

omit [FloatLib F] [HexText] in
theorem listOrders_normalised (ds : OrdersListDataSource F) (filters : OrdersFilters)
    (page pageSize : Option UInt16) :
    listOrders ds filters (some (page.getD 1))
      (some (min (pageSize.getD ordersDefaultPageSize) ordersMaxPageSize)) =
        listOrders ds filters page pageSize := by
  simp only [listOrders, Option.getD_some, min_min_right]

omit [OrderAbi] [FloatLib F] in
theorem processGetTradesByAddress_normalised (ds : TradesDataSource F) (owner : Address)
    (params : TradesPaginationParams) :
    processGetTradesByAddress ds owner ⟨some (params.page.getD 1), some (params.pageSize.getD 20),
      params.startTime, params.endTime⟩ = processGetTradesByAddress ds owner params := by
  simp only [processGetTradesByAddress, Option.getD_some]

/-! ## Caches of a run -/

/-- Every entry of every cache is what its listing succeeds with. -/
structure ListingCaches.Recompute (caches : ListingCaches) : Prop where
  ordersByOwner : caches.ordersByOwner.Recomputes (ordersOfOwnerKey s)
  ordersByToken : caches.ordersByToken.Recomputes (ordersOfTokenKey s)
  tradesByAddress : caches.tradesByAddress.Recomputes (tradesOfAddressKey s)
  tradesByTx : caches.tradesByTx.Recomputes (tradesOfTxKey s)

theorem recompute_new : ListingCaches.new.Recompute s :=
  ⟨AppCache.recomputes_new, AppCache.recomputes_new, AppCache.recomputes_new,
    AppCache.recomputes_new⟩

variable {s} {caches : ListingCaches}

theorem ListingCaches.Recompute.evict (h : caches.Recompute s) (kept : Kept) :
    (caches.evict kept).Recompute s :=
  ⟨h.ordersByOwner.retain _, h.ordersByToken.retain _, h.tradesByAddress.retain _,
    h.tradesByTx.retain _⟩

theorem ListingCaches.Recompute.serve (h : caches.Recompute s) (r : Request) :
    (serve s caches r).1 = uncached s r ∧ (serve s caches r).2.Recompute s ∧
      ((uncached s r).Failed → (serve s caches r).2 = caches ∧ ¬ caches.Holds r) := by
  cases r with
  | ordersByOwner address page pageSize =>
    have hkey : ordersOfOwnerKey s (address, page.getD 1,
        min (pageSize.getD ordersDefaultPageSize) ordersMaxPageSize) =
          processGetOrdersByOwner s.orders address page pageSize :=
      listOrders_normalised s.orders (ownerFilters address) page pageSize
    obtain ⟨hanswer, hcache, hfailed⟩ := h.ordersByOwner.read hkey
    refine ⟨congrArg Answer.orders hanswer, { h with ordersByOwner := hcache }, fun hf => ?_⟩
    obtain ⟨hsame, hno⟩ := hfailed hf
    exact ⟨congrArg (fun cache => { caches with ordersByOwner := cache }) hsame, hno⟩
  | ordersByToken address side page pageSize =>
    have hkey : ordersOfTokenKey s (address, side, page.getD 1,
        min (pageSize.getD ordersDefaultPageSize) ordersMaxPageSize) =
          processGetOrdersByToken s.orders address side page pageSize :=
      listOrders_normalised s.orders (tokenFilters address side) page pageSize
    obtain ⟨hanswer, hcache, hfailed⟩ := h.ordersByToken.read hkey
    refine ⟨congrArg Answer.orders hanswer, { h with ordersByToken := hcache }, fun hf => ?_⟩
    obtain ⟨hsame, hno⟩ := hfailed hf
    exact ⟨congrArg (fun cache => { caches with ordersByToken := cache }) hsame, hno⟩
  | tradesByAddress owner params =>
    have hkey : tradesOfAddressKey s (owner, params.page.getD 1, params.pageSize.getD 20,
        params.startTime, params.endTime) = processGetTradesByAddress s.trades owner params :=
      processGetTradesByAddress_normalised s.trades owner params
    obtain ⟨hanswer, hcache, hfailed⟩ := h.tradesByAddress.read hkey
    simp only [hkey] at hanswer hcache hfailed
    refine ⟨congrArg Answer.tradesByAddress hanswer, { h with tradesByAddress := hcache },
      fun hf => ?_⟩
    obtain ⟨hsame, hno⟩ := hfailed hf
    exact ⟨congrArg (fun cache => { caches with tradesByAddress := cache }) hsame, hno⟩
  | tradesByTx txHash =>
    have hkey : tradesOfTxKey s txHash = some (processGetTradesByTx s.trades txHash) := rfl
    obtain ⟨hanswer, hcache, hfailed⟩ := h.tradesByTx.read hkey
    simp only [hkey, AppCache.tryGetWith_some] at hanswer hcache hfailed
    refine ⟨congrArg Answer.tradesByTx (Option.some.inj hanswer), { h with tradesByTx := hcache },
      fun hf => ?_⟩
    obtain ⟨hsame, hno⟩ := hfailed fun response hr => hf response (Option.some.inj hr)
    exact ⟨congrArg (fun cache => { caches with tradesByTx := cache }) hsame, hno⟩

theorem ListingCaches.Recompute.serveAll (h : caches.Recompute s) (events : List Event) :
    (serveAll s caches events).1 = (requests events).map (uncached s) ∧
      (serveAll s caches events).2.Recompute s := by
  induction events generalizing caches with
  | nil => exact ⟨rfl, h⟩
  | cons e events ih =>
    cases e with
    | evict kept => exact ih (h.evict kept)
    | request r =>
      obtain ⟨hanswer, hcaches, -⟩ := h.serve r
      obtain ⟨hanswers, hend⟩ := ih hcaches
      refine ⟨?_, hend⟩
      rw [Cached.serveAll, hanswer, hanswers]
      rfl

variable (s) in
/-- From empty caches, every request of a run with evictions in between is answered as its
listing does on its own, and a request that fails leaves no entry and no other trace. -/
theorem serveAll_new (events : List Event) :
    (serveAll s .new events).1 = (requests events).map (uncached s) ∧
      ∀ r, (uncached s r).Failed →
        ¬ (serveAll s .new events).2.Holds r ∧
        (serve s (serveAll s .new events).2 r).2 = (serveAll s .new events).2 := by
  obtain ⟨hanswers, hend⟩ := (recompute_new s).serveAll events
  refine ⟨hanswers, fun r hf => ?_⟩
  obtain ⟨hsame, hno⟩ := (hend.serve r).2.2 hf
  exact ⟨hno, hsame⟩

end Keys

end AlbionApi.Cached
