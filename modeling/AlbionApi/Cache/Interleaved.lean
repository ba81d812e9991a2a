import AlbionApi.Cache.Requests
import AlbionApi.DirectTrades.Takers
import AlbionApi.Foundations.Memo
import AlbionApi.Orders.Detail
import AlbionApi.Swap.Quote

/-! # Cached routes side by side

The eight cached routes as programs over their caches. Requests run side by
side, one cache operation at a time, and entries are evicted at any time. Over
sources that do not change every request is answered as by empty caches.
-/

namespace AlbionApi.Cached

open DirectTrades Memo

variable {F : Type}

abbrev OrderDetailCache := AppCache B256 OrderDetail
abbrev SwapQuoteKey := Address × Address × String
abbrev SwapQuoteCache := AppCache SwapQuoteKey SwapQuoteResponse

/-- `registry_caches`. -/
structure RegistryCaches where
  order : OrderDetailCache
  ordersByOwner : OrdersByOwnerCache
  ordersByToken : OrdersByTokenCache
  swapQuote : SwapQuoteCache
  tradesByAddress : TradesByAddressCache
  tradesByTx : TradesByTxCache
  tradesByOrderHash : TradesByOrderHashCache
  takerTx : TakerTradesTxHashCache

def RegistryCaches.new : RegistryCaches := ⟨.new, .new, .new, .new, .new, .new, .new, .new⟩

/-- The sources that the cached routes ask. -/
structure RouteSources (F : Type) where
  orders : OrdersListDataSource F
  order : OrderDataSource F
  trades : TradesDataSource F
  swap : SwapDataSource F
  directTrades : Option DirectTradesFetcher
  db : Option EventDb

/-- The taker lookup, if there is a fetcher. -/
def RouteSources.fetchTakerTxHashes [HexText] (s : RouteSources F) : Option FetchTakerTxHashes :=
  s.directTrades.map fun f => f.fetchTakerTxHashes s.db

inductive RouteRequest where
  | getOrder (hash : B256)
  | postSwapQuote (req : SwapQuoteRequest)
  | getOrdersByAddress (address : Address) (page pageSize : Option UInt16)
  | getOrdersByToken (address : Address) (side : Option OrderSide) (page pageSize : Option UInt16)
  | getTradesByAddress (owner : Address) (params : TradesPaginationParams)
  | getTradesByTx (txHash : B256)
  | getTakerTrades (sender : Address) (params : TradesPaginationParams)
  | postTradesBatch (hashes : List B256)

/-- What a route answers; `none` is a panic. -/
inductive RouteAnswer where
  | order (result : Option (Except ApiError OrderDetail))
  | swapQuote (result : Option (Except ApiError SwapQuoteResponse))
  | orders (result : Option (Except ApiError OrdersListResponse))
  | tradesByAddress (result : Option (Except ApiError TradesByAddressResponse))
  | tradesByTx (result : Option (Except ApiError TradesByTxResponse))
  | taker (result : Option (Except ApiError TakerTradesResponse))
  | batch (result : Except ApiError TradesBatchResponse)

section Routes

variable [OrderAbi] [FloatLib F] [HexText] (s : RouteSources F)

/-- The answer of a route that nothing comes in between of, and the caches it leaves. -/
def answer (c : RegistryCaches) : RouteRequest → RouteAnswer × RegistryCaches
  | .getOrder hash =>
    let read := c.order.tryGetWith hash (some (processGetOrder s.order hash))
    (.order read.1, { c with order := read.2 })
  | .postSwapQuote req =>
    let read := c.swapQuote.tryGetWith (req.inputToken, req.outputToken, req.outputAmount)
      (some (processSwapQuote s.swap req))
    (.swapQuote read.1, { c with swapQuote := read.2 })
  | .getOrdersByAddress address page pageSize =>
    let read := getCachedOrdersByOwner c.ordersByOwner s.orders address page pageSize
    (.orders read.1, { c with ordersByOwner := read.2 })
  | .getOrdersByToken address side page pageSize =>
    let read := getCachedOrdersByToken c.ordersByToken s.orders address side page pageSize
    (.orders read.1, { c with ordersByToken := read.2 })
  | .getTradesByAddress owner params =>
    let read := getCachedTradesByAddress c.tradesByAddress s.trades owner params
    (.tradesByAddress read.1, { c with tradesByAddress := read.2 })
  | .getTradesByTx txHash =>
    let read := getCachedTradesByTx c.tradesByTx s.trades txHash
    (.tradesByTx (some read.1), { c with tradesByTx := read.2 })
  | .getTakerTrades sender params =>
    match processGetTakerTrades s.trades s.fetchTakerTxHashes ⟨c.tradesByTx, c.takerTx⟩ sender
      params with
    | none => (.taker none, c)
    | some (result, caches) =>
      (.taker (some result), { c with tradesByTx := caches.tradesByTx, takerTx := caches.takerTx })
  | .postTradesBatch hashes =>
    let read := postTradesBatch s.trades c.tradesByOrderHash s.directTrades s.db hashes
    (.batch read.1, { c with tradesByOrderHash := read.2 })

/-- What a request is answered on its own, with empty caches. -/
def alone (r : RouteRequest) : RouteAnswer := (answer s .new r).1

end Routes

/-! ## The routes as programs -/

inductive CacheKey where
  | order (hash : B256)
  | ordersByOwner (key : OrdersByOwnerKey)
  | ordersByToken (key : OrdersByTokenKey)
  | swapQuote (key : SwapQuoteKey)
  | tradesByAddress (key : TradesByAddressKey)
  | tradesByTx (txHash : B256)
  | tradesByOrderHash (hash : B256)
  | takerTx (sender : Address)
  deriving DecidableEq

@[reducible]
def CacheKey.Value : CacheKey → Type
  | order _ => OrderDetail
  | ordersByOwner _ => OrdersListResponse
  | ordersByToken _ => OrdersListResponse
  | swapQuote _ => SwapQuoteResponse
  | tradesByAddress _ => TradesByAddressResponse
  | tradesByTx _ => TradesByTxResponse
  | tradesByOrderHash _ => List OrderTradeEntry
  | takerTx _ => List (B256 × UInt64)

abbrev RouteProg := Prog CacheKey CacheKey.Value RouteAnswer

def RegistryCaches.table (c : RegistryCaches) : ∀ key : CacheKey, Option key.Value
  | .order hash => c.order.get hash
  | .ordersByOwner key => c.ordersByOwner.get key
  | .ordersByToken key => c.ordersByToken.get key
  | .swapQuote key => c.swapQuote.get key
  | .tradesByAddress key => c.tradesByAddress.get key
  | .tradesByTx txHash => c.tradesByTx.get txHash
  | .tradesByOrderHash hash => c.tradesByOrderHash.get hash
  | .takerTx sender => c.takerTx.get sender

/-- `get_or_try_insert` as a lookup and an insertion. -/
def readThrough (key : CacheKey) (fetch : Option (Except ApiError key.Value))
    (next : Option (Except ApiError key.Value) → RouteProg) : RouteProg :=
  .get key fun
    | some value => next (some (.ok value))
    | none =>
      match fetch with
      | some (.ok value) => .insert key value (next (some (.ok value)))
      | some (.error e) => next (some (.error e))
      | none => next none

section Programs

variable [OrderAbi] [FloatLib F] [HexText] (s : RouteSources F)

/-- The loop of the taker route over the hashes of a page. -/
def resolveProg : List B256 → (List TradesByTxResponse → RouteProg) → RouteProg
  | [], next => next []
  | txHash :: hashes, next =>
    readThrough (.tradesByTx txHash) (some (processGetTradesByTx s.trades txHash)) fun
      | some (.ok txTrades) => resolveProg hashes fun rest => next (txTrades :: rest)
      | _ => resolveProg hashes next

def takerProg (fetchTakerTxHashes : FetchTakerTxHashes) (sender : Address)
    (params : TradesPaginationParams) : RouteProg :=
  readThrough (.takerTx sender) (some (fetchTakerTxHashes sender)) fun
    | some (.ok txHashes) =>
      let page := params.page.getD 1
      let pageSize := params.pageSize.getD 20
      match pageSlice txHashes page pageSize with
      | none => .done (.taker none)
      | some entries => resolveProg s (entries.map Prod.fst) fun marketOrders =>
        .done (.taker (some (.ok {
          marketOrders := marketOrders
          pagination := pagination (len txHashes) page pageSize })))
    | some (.error e) => .done (.taker (some (.error e)))
    | none => .done (.taker none)

/-- The lookups of a batch, with the map and the uncached hashes so far. -/
def checkProg : List B256 → TradesByHash → List B256 →
    (TradesByHash → List B256 → RouteProg) → RouteProg
  | [], cachedMap, uncached, next => next cachedMap uncached
  | hash :: hashes, cachedMap, uncached, next =>
    .get (.tradesByOrderHash hash) fun
      | some trades => checkProg hashes (Function.update cachedMap hash (some trades)) uncached next
      | none => checkProg hashes cachedMap (uncached ++ [hash]) next

def keepProg : List (B256 × Except ApiError (List OrderTradeEntry)) → TradesByHash →
    (TradesByHash → RouteProg) → RouteProg
  | [], cachedMap, next => next cachedMap
  | (hash, .ok trades) :: results, cachedMap, next =>
    .insert (.tradesByOrderHash hash) trades
      (keepProg results (Function.update cachedMap hash (some trades)) next)
  | (hash, .error _) :: results, cachedMap, next =>
    keepProg results (Function.update cachedMap hash (some [])) next

def batchProg (hashes : List B256) : RouteProg :=
  checkProg hashes (fun _ => none) [] fun cachedMap uncached =>
    keepProg (if uncached.isEmpty then [] else fetchUncached s.trades s.directTrades s.db uncached)
      cachedMap fun cachedMap => .done (.batch (.ok { orders := takeEntries cachedMap hashes }))

/-- A route as a program over the caches. -/
def handler : RouteRequest → RouteProg
  | .getOrder hash => readThrough (.order hash) (some (processGetOrder s.order hash)) fun result =>
    .done (.order result)
  | .postSwapQuote req =>
    readThrough (.swapQuote (req.inputToken, req.outputToken, req.outputAmount))
      (some (processSwapQuote s.swap req)) fun result => .done (.swapQuote result)
  | .getOrdersByAddress address page pageSize =>
    let pageNum := page.getD 1
    let effectivePageSize := min (pageSize.getD ordersDefaultPageSize) ordersMaxPageSize
    readThrough (.ordersByOwner (address, pageNum, effectivePageSize))
      (processGetOrdersByOwner s.orders address (some pageNum) (some effectivePageSize))
      fun result => .done (.orders result)
  | .getOrdersByToken address side page pageSize =>
    let pageNum := page.getD 1
    let effectivePageSize := min (pageSize.getD ordersDefaultPageSize) ordersMaxPageSize
    readThrough (.ordersByToken (address, side, pageNum, effectivePageSize))
      (processGetOrdersByToken s.orders address side (some pageNum) (some effectivePageSize))
      fun result => .done (.orders result)
  | .getTradesByAddress owner params =>
    readThrough (.tradesByAddress
      (owner, params.page.getD 1, params.pageSize.getD 20, params.startTime, params.endTime))
      (processGetTradesByAddress s.trades owner params) fun result =>
        .done (.tradesByAddress result)
  | .getTradesByTx txHash =>
    readThrough (.tradesByTx txHash) (some (processGetTradesByTx s.trades txHash)) fun result =>
      .done (.tradesByTx result)
  | .getTakerTrades sender params =>
    match s.fetchTakerTxHashes with
    | none => .done (.taker (some (.ok {
        marketOrders := []
        pagination := { page := 1, pageSize := params.pageSize.getD 20, totalTrades := 0,
                        totalPages := 0, hasMore := false } })))
    | some fetchTakerTxHashes => takerProg s fetchTakerTxHashes sender params
  | .postTradesBatch hashes =>
    if hashes.isEmpty then .done (.batch (.ok { orders := [] }))
    else if hashes.length > tradesBatchMaxHashes then
      .done (.batch (.error (.badRequest
        ("maximum " ++ toString tradesBatchMaxHashes ++ " order hashes per batch request"))))
    else batchProg s hashes

end Programs

section Alone

def RegistryCaches.insert (c : RegistryCaches) : (key : CacheKey) → key.Value → RegistryCaches
  | .order hash, value => { c with order := c.order.insert hash value }
  | .ordersByOwner key, value => { c with ordersByOwner := c.ordersByOwner.insert key value }
  | .ordersByToken key, value => { c with ordersByToken := c.ordersByToken.insert key value }
  | .swapQuote key, value => { c with swapQuote := c.swapQuote.insert key value }
  | .tradesByAddress key, value => { c with tradesByAddress := c.tradesByAddress.insert key value }
  | .tradesByTx txHash, value => { c with tradesByTx := c.tradesByTx.insert txHash value }
  | .tradesByOrderHash hash, value =>
    { c with tradesByOrderHash := c.tradesByOrderHash.insert hash value }
  | .takerTx sender, value => { c with takerTx := c.takerTx.insert sender value }

variable {c : RegistryCaches}

theorem table_insert_self (key : CacheKey) (value : key.Value) :
    (c.insert key value).table key = some value := by
  cases key <;> exact AppCache.get_insert_self ..

theorem table_insert_of_ne {key key' : CacheKey} (value : key.Value) (h : key' ≠ key) :
    (c.insert key value).table key' = c.table key' := by
  cases key <;> cases key' <;>
    first
    | rfl
    | exact AppCache.get_insert_of_ne _ _ fun he => h (congrArg _ he)

theorem table_insert (key : CacheKey) (value : key.Value) :
    (c.insert key value).table = Function.update c.table key (some value) := by
  funext key'
  by_cases h : key' = key
  · subst h
    rw [table_insert_self, Function.update_self]
  · rw [table_insert_of_ne value h, Function.update_of_ne h]

theorem run_readThrough {K : Type} [DecidableEq K] (key : CacheKey) (cache : AppCache K key.Value)
    (k : K) (put : AppCache K key.Value → RegistryCaches) (hget : c.table key = cache.get k)
    (hput : put cache = c) (hins : ∀ value, put (cache.insert k value) = c.insert key value)
    (fetch : Option (Except ApiError key.Value))
    (next : Option (Except ApiError key.Value) → RouteProg) :
    (readThrough key fetch next).run c.table =
      (next (cache.tryGetWith k fetch).1).run (put (cache.tryGetWith k fetch).2).table := by
  unfold readThrough AppCache.tryGetWith AppCache.getOrTryInsert
  rw [Prog.run, hget]
  cases cache.get k with
  | some value => rw [hput]
  | none =>
    match fetch with
    | none => rw [hput]
    | some (.error e) => simp only [hput]
    | some (.ok value) => simp only [Prog.run, hins, table_insert]

theorem run_readThrough_done {K : Type} [DecidableEq K] (key : CacheKey)
    (cache : AppCache K key.Value) (k : K) (hget : c.table key = cache.get k)
    (fetch : Option (Except ApiError key.Value))
    (f : Option (Except ApiError key.Value) → RouteAnswer) :
    ((readThrough key fetch fun result => .done (f result)).run c.table).1 =
      f (cache.tryGetWith k fetch).1 := by
  unfold readThrough AppCache.tryGetWith AppCache.getOrTryInsert
  rw [Prog.run, hget]
  cases cache.get k with
  | some value => rfl
  | none =>
    match fetch with
    | none => rfl
    | some (.error e) => rfl
    | some (.ok value) => rfl

variable [OrderAbi] [FloatLib F] [HexText] {s : RouteSources F}

omit [OrderAbi] in
theorem run_resolveProg (hashes : List B256) (next : List TradesByTxResponse → RouteProg) :
    (resolveProg s hashes next).run c.table =
      (next (resolveMarketOrders s.trades c.tradesByTx hashes).1).run
        { c with tradesByTx := (resolveMarketOrders s.trades c.tradesByTx hashes).2 }.table := by
  induction hashes generalizing c next with
  | nil => rfl
  | cons txHash hashes ih =>
    rw [resolveProg, run_readThrough (.tradesByTx txHash) c.tradesByTx txHash
      (fun cache => { c with tradesByTx := cache }) rfl rfl fun _ => rfl, AppCache.tryGetWith_some,
      resolveMarketOrders, getCachedTradesByTx]
    cases h : c.tradesByTx.getOrTryInsert txHash (processGetTradesByTx s.trades txHash) with
    | mk result cache =>
      cases result with
      | ok txTrades => exact ih ..
      | error e => exact ih ..

omit [OrderAbi] [HexText] in
theorem run_checkProg (hashes : List B256) (cachedMap : TradesByHash) (uncached : List B256)
    (next : TradesByHash → List B256 → RouteProg) :
    (checkProg hashes cachedMap uncached next).run c.table =
      (let checked := hashes.foldl (fun (cachedMap, uncached) hash =>
        match c.tradesByOrderHash.get hash with
        | some trades => (Function.update cachedMap hash (some trades), uncached)
        | none => (cachedMap, uncached ++ [hash])) (cachedMap, uncached)
      next checked.1 checked.2).run c.table := by
  induction hashes generalizing cachedMap uncached with
  | nil => rfl
  | cons hash hashes ih =>
    rw [checkProg, Prog.run, List.foldl_cons]
    have hget : c.table (.tradesByOrderHash hash) = c.tradesByOrderHash.get hash := rfl
    rw [hget]
    cases c.tradesByOrderHash.get hash with
    | some trades => exact ih ..
    | none => exact ih ..

omit [OrderAbi] [FloatLib F] [HexText] in
theorem run_keepProg (results : List (B256 × Except ApiError (List OrderTradeEntry)))
    (cachedMap : TradesByHash) (f : TradesByHash → RouteAnswer)
    (table : ∀ key : CacheKey, Option key.Value) (cache : TradesByOrderHashCache) :
    ((keepProg results cachedMap fun cachedMap => .done (f cachedMap)).run table).1 =
      f (results.foldl keepResult (cachedMap, cache)).1 := by
  induction results generalizing cachedMap table cache with
  | nil => rfl
  | cons x results ih =>
    obtain ⟨hash, result⟩ := x
    cases result with
    | ok trades => exact ih ..
    | error e => exact ih ..

omit [OrderAbi] in
theorem run_takerProg (fetchTakerTxHashes : FetchTakerTxHashes) (sender : Address)
    (params : TradesPaginationParams) :
    ((takerProg s fetchTakerTxHashes sender params).run c.table).1 =
      .taker ((processGetTakerTrades s.trades (some fetchTakerTxHashes) ⟨c.tradesByTx, c.takerTx⟩
        sender params).map Prod.fst) := by
  rw [takerProg, run_readThrough (.takerTx sender) c.takerTx sender
    (fun cache => { c with takerTx := cache }) rfl rfl fun _ => rfl, AppCache.tryGetWith_some,
    processGetTakerTrades]
  cases h : c.takerTx.getOrTryInsert sender (fetchTakerTxHashes sender) with
  | mk result cache =>
    cases result with
    | error e => rfl
    | ok txHashes =>
      dsimp only
      cases pageSlice txHashes (params.page.getD 1) (params.pageSize.getD 20) with
      | none => rfl
      | some entries =>
        dsimp only
        rw [run_resolveProg]
        rfl

omit [OrderAbi] in
theorem run_batchProg (hashes : List B256) :
    ((batchProg s hashes).run c.table).1 = .batch
      (processTradesBatch s.trades c.tradesByOrderHash s.directTrades s.db hashes).1 := by
  rw [batchProg, run_checkProg]
  exact run_keepProg ..

theorem run_handler (c : RegistryCaches) (r : RouteRequest) :
    ((handler s r).run c.table).1 = (answer s c r).1 := by
  cases r with
  | getOrder hash => exact run_readThrough_done (.order hash) c.order hash rfl _ _
  | postSwapQuote req => exact run_readThrough_done (.swapQuote _) c.swapQuote _ rfl _ _
  | getOrdersByAddress address page pageSize =>
    exact run_readThrough_done (.ordersByOwner _) c.ordersByOwner _ rfl _ _
  | getOrdersByToken address side page pageSize =>
    exact run_readThrough_done (.ordersByToken _) c.ordersByToken _ rfl _ _
  | getTradesByAddress owner params =>
    exact run_readThrough_done (.tradesByAddress _) c.tradesByAddress _ rfl _ _
  | getTradesByTx txHash =>
    rw [handler, run_readThrough_done (.tradesByTx txHash) c.tradesByTx txHash rfl _ _,
      AppCache.tryGetWith_some]
    rfl
  | getTakerTrades sender params =>
    rw [handler, answer]
    cases s.fetchTakerTxHashes with
    | none => rfl
    | some fetchTakerTxHashes =>
      dsimp only
      rw [run_takerProg]
      cases processGetTakerTrades s.trades (some fetchTakerTxHashes) ⟨c.tradesByTx, c.takerTx⟩
        sender params <;> rfl
  | postTradesBatch hashes =>
    rw [handler, answer, postTradesBatch]
    split_ifs with h0 hmax
    · rfl
    · rfl
    · exact run_batchProg hashes

end Alone

/-! ## What the caches may hold -/

section Settles

variable [OrderAbi] [FloatLib F] [HexText] (s : RouteSources F)

def RouteSources.listings : Sources F := ⟨s.orders, s.trades⟩

/-- What is kept under a key, unless its computation fails. -/
def computed : ∀ key : CacheKey, Option key.Value
  | .order hash => (processGetOrder s.order hash).toOption
  | .ordersByOwner key => (ordersOfOwnerKey s.listings key).bind Except.toOption
  | .ordersByToken key => (ordersOfTokenKey s.listings key).bind Except.toOption
  | .swapQuote key => (processSwapQuote s.swap ⟨key.1, key.2.1, key.2.2⟩).toOption
  | .tradesByAddress key => (tradesOfAddressKey s.listings key).bind Except.toOption
  | .tradesByTx txHash => (processGetTradesByTx s.trades txHash).toOption
  | .tradesByOrderHash hash => (fetchedFor s.trades s.directTrades s.db [hash] hash).toOption
  | .takerTx sender => s.fetchTakerTxHashes.bind fun fetch => (fetch sender).toOption

/-- What is fetched for a hash does not depend on the rest of its batch. -/
def RouteSources.BatchIndependent : Prop :=
  ∀ hashes : List B256, ∀ hash ∈ hashes, fetchedFor s.trades s.directTrades s.db hashes hash =
    fetchedFor s.trades s.directTrades s.db [hash] hash

variable {s} {a : RouteAnswer}

omit [OrderAbi] [FloatLib F] [HexText] in
theorem settles_readThrough {compute : ∀ key : CacheKey, Option key.Value} {key : CacheKey}
    {fetch : Option (Except ApiError key.Value)}
    {next : Option (Except ApiError key.Value) → RouteProg}
    (hk : compute key = fetch.bind Except.toOption) (h : (next fetch).Settles compute a) :
    (readThrough key fetch next).Settles compute a := by
  refine .get ?_ fun value hv => ?_
  · match fetch with
    | none => exact h
    | some (.error e) => exact h
    | some (.ok value) => exact .insert hk h
  · match fetch with
    | none => cases hk.symm.trans hv
    | some (.error e) => cases hk.symm.trans hv
    | some (.ok value') =>
      cases hk.symm.trans hv
      exact h

theorem settles_resolveProg {hashes : List B256} {next : List TradesByTxResponse → RouteProg}
    (h : (next (hashes.filterMap fun txHash =>
      (processGetTradesByTx s.trades txHash).toOption)).Settles (computed s) a) :
    (resolveProg s hashes next).Settles (computed s) a := by
  induction hashes generalizing next with
  | nil => exact h
  | cons txHash hashes ih =>
    refine settles_readThrough rfl ?_
    rw [List.filterMap_cons] at h
    cases hp : processGetTradesByTx s.trades txHash with
    | ok txTrades =>
      rw [hp] at h
      exact ih h
    | error e =>
      rw [hp] at h
      exact ih h

/-- The hashes of a batch that are looked up already are in the map with the computed value, or
among the uncached ones. -/
structure Checked (s : RouteSources F) (hashes rest : List B256) (cachedMap : TradesByHash)
    (uncached : List B256) : Prop where
  correct : ∀ hash trades, cachedMap hash = some trades →
    computed s (.tradesByOrderHash hash) = some trades
  covers : ∀ hash ∈ hashes, hash ∈ rest ∨ (∃ trades, cachedMap hash = some trades) ∨
    hash ∈ uncached

theorem Checked.start (hashes : List B256) : Checked s hashes hashes (fun _ => none) [] :=
  ⟨by simp, fun _ h => Or.inl h⟩

variable {hashes rest uncached : List B256} {hash : B256} {cachedMap : TradesByHash}
  {trades : List OrderTradeEntry}

theorem Checked.hit (h : Checked s hashes (hash :: rest) cachedMap uncached)
    (hc : computed s (.tradesByOrderHash hash) = some trades) :
    Checked s hashes rest (Function.update cachedMap hash (some trades)) uncached where
  correct x ts hx := by
    by_cases he : x = hash
    · subst he
      rw [Function.update_self] at hx
      exact hx ▸ hc
    · rw [Function.update_of_ne he] at hx
      exact h.correct x ts hx
  covers x hx := by
    by_cases he : x = hash
    · subst he
      exact Or.inr (Or.inl ⟨trades, Function.update_self ..⟩)
    · rw [Function.update_of_ne he]
      exact (h.covers x hx).imp_left fun hm => List.mem_of_ne_of_mem he hm

theorem Checked.miss (h : Checked s hashes (hash :: rest) cachedMap uncached) :
    Checked s hashes rest cachedMap (uncached ++ [hash]) where
  correct := h.correct
  covers x hx := by
    rcases h.covers x hx with hm | hm | hm
    · rcases List.mem_cons.1 hm with rfl | hm
      · exact Or.inr (Or.inr (List.mem_append_right _ (List.mem_singleton_self _)))
      · exact Or.inl hm
    · exact Or.inr (Or.inl hm)
    · exact Or.inr (Or.inr (List.mem_append_left _ hm))

theorem settles_checkProg {next : TradesByHash → List B256 → RouteProg}
    (h : Checked s hashes rest cachedMap uncached)
    (hnext : ∀ m u, Checked s hashes [] m u → (next m u).Settles (computed s) a) :
    (checkProg rest cachedMap uncached next).Settles (computed s) a := by
  induction rest generalizing cachedMap uncached with
  | nil => exact hnext _ _ h
  | cons hash rest ih => exact .get (ih h.miss) fun trades hc => ih (h.hit hc)

def settledTrades (s : RouteSources F) (hash : B256) : List OrderTradeEntry :=
  ((computed s (.tradesByOrderHash hash)).getD [])

theorem settles_keepProg {next : TradesByHash → RouteProg} (hashes : List B256)
    (h : (next fun hash => if hash ∈ hashes then some (settledTrades s hash)
      else cachedMap hash).Settles (computed s) a) :
    (keepProg (hashes.map fun hash => (hash, fetchedFor s.trades s.directTrades s.db [hash] hash))
      cachedMap next).Settles (computed s) a := by
  induction hashes generalizing cachedMap with
  | nil => simpa [keepProg] using h
  | cons hash hashes ih =>
    have hmap : (fun x => if x ∈ hashes then some (settledTrades s x) else
        Function.update cachedMap hash (some (settledTrades s hash)) x) =
          fun x => if x ∈ hash :: hashes then some (settledTrades s x) else cachedMap x := by
      funext x
      by_cases he : x = hash
      · subst he
        simp
      · simp [he]
    rw [← hmap] at h
    rw [List.map_cons]
    cases hf : fetchedFor s.trades s.directTrades s.db [hash] hash with
    | ok trades =>
      have hc : computed s (.tradesByOrderHash hash) = some trades := congrArg Except.toOption hf
      rw [settledTrades, hc] at h
      exact .insert hc (ih h)
    | error e =>
      have hc : computed s (.tradesByOrderHash hash) = none := congrArg Except.toOption hf
      rw [settledTrades, hc] at h
      exact ih h

omit [OrderAbi] [FloatLib F] [HexText] in
theorem takeEntries_congr {m m' : TradesByHash} {hashes : List B256}
    (h : ∀ hash ∈ hashes, (m hash).getD [] = (m' hash).getD []) :
    takeEntries m hashes = takeEntries m' hashes := by
  induction hashes generalizing m m' with
  | nil => rfl
  | cons hash hashes ih =>
    rw [takeEntries, takeEntries, h hash List.mem_cons_self, ih fun x hx => ?_]
    by_cases he : x = hash
    · subst he
      rw [Function.update_self, Function.update_self]
    · rw [Function.update_of_ne he, Function.update_of_ne he]
      exact h x (List.mem_cons_of_mem _ hx)

/-- No order of the event database replaced another one under its owner and nonce, and no two
trades of an order at one time and log index differ. -/
def RouteSources.Unambiguous (s : RouteSources F) : Prop :=
  ∀ f db, s.directTrades = some f → s.db = some db →
    (db.orderEvents.map fun e => (e.chainId, e.position)).Nodup ∧
    ∀ hash, StaysLatest db f (HexText.formatB256 hash) ∧ TieFree F db f (HexText.formatB256 hash)

omit [OrderAbi] in
theorem fetchedFor_fetcher {hashes : List B256} {hash : B256} (hm : hash ∈ hashes)
    (ds : TradesDataSource F) (f : DirectTradesFetcher) (db : EventDb) :
    fetchedFor ds (some f) (some db) hashes hash = .ok (fetchedTrades F f db hashes hash) := by
  have hne : hashes.isEmpty = false := by
    rw [List.isEmpty_eq_false_iff]
    exact List.ne_nil_of_mem hm
  simp only [fetchedFor, fetchedTrades, DirectTradesFetcher.batchFetch, hne, Bool.false_eq_true,
    if_false]

omit [OrderAbi] in
theorem RouteSources.Unambiguous.batchIndependent (h : s.Unambiguous) :
    s.BatchIndependent := by
  intro hashes hash hm
  cases hf : s.directTrades with
  | none => rfl
  | some f =>
    cases hd : s.db with
    | none =>
      have hne : hashes.isEmpty = false := by
        rw [List.isEmpty_eq_false_iff]
        exact List.ne_nil_of_mem hm
      simp only [fetchedFor, DirectTradesFetcher.batchFetch, hne, List.isEmpty_cons,
        Bool.false_eq_true, if_false]
    | some db =>
      obtain ⟨hu, hs⟩ := h f db hf hd
      rw [fetchedFor_fetcher hm, fetchedFor_fetcher (List.mem_singleton_self hash),
        (hs hash).1.fetchedTrades_only hm (hs hash).2 hu]

theorem settles_batchProg (hb : s.BatchIndependent) (hashes : List B256) :
    (batchProg s hashes).Settles (computed s) (.batch (.ok {
      orders := takeEntries (fun hash => some (settledTrades s hash)) hashes })) := by
  refine settles_checkProg (.start hashes) fun m u h => ?_
  have hresults : (if u.isEmpty then [] else fetchUncached s.trades s.directTrades s.db u) =
      u.map fun hash => (hash, fetchedFor s.trades s.directTrades s.db [hash] hash) := by
    rw [fetchUncached_eq, List.map_congr_left fun hash hm => by rw [hb u hash hm]]
    cases u <;> rfl
  rw [hresults]
  refine settles_keepProg u ?_
  have hentries : takeEntries (fun hash => if hash ∈ u then some (settledTrades s hash)
      else m hash) hashes = takeEntries (fun hash => some (settledTrades s hash)) hashes := by
    refine takeEntries_congr fun hash hm => ?_
    by_cases hu : hash ∈ u
    · rw [if_pos hu]
    · rw [if_neg hu]
      rcases h.covers hash hm with hx | ⟨trades, hx⟩ | hx
      · cases hx
      · rw [hx, settledTrades, h.correct hash trades hx]
        rfl
      · exact absurd hx hu
  rw [hentries]
  exact .done

theorem exists_settles (hb : s.BatchIndependent) (r : RouteRequest) :
    ∃ a, (handler s r).Settles (computed s) a := by
  cases r with
  | getOrder hash =>
    rw [handler]
    exact ⟨_, settles_readThrough rfl .done⟩
  | postSwapQuote req =>
    rw [handler]
    exact ⟨_, settles_readThrough rfl .done⟩
  | getOrdersByAddress address page pageSize =>
    rw [handler]
    exact ⟨_, settles_readThrough rfl .done⟩
  | getOrdersByToken address side page pageSize =>
    rw [handler]
    exact ⟨_, settles_readThrough rfl .done⟩
  | getTradesByAddress owner params =>
    rw [handler]
    refine ⟨_, settles_readThrough ?_ .done⟩
    exact congrArg (·.bind Except.toOption) (processGetTradesByAddress_normalised ..)
  | getTradesByTx txHash =>
    rw [handler]
    exact ⟨_, settles_readThrough rfl .done⟩
  | getTakerTrades sender params =>
    rw [handler]
    cases hf : s.fetchTakerTxHashes with
    | none => exact ⟨_, .done⟩
    | some fetchTakerTxHashes =>
      have hk : computed s (.takerTx sender) = (fetchTakerTxHashes sender).toOption := by
        rw [computed, hf]
        rfl
      refine Exists.imp (fun _ => settles_readThrough hk) ?_
      cases fetchTakerTxHashes sender with
      | error e => exact ⟨_, .done⟩
      | ok txHashes =>
        dsimp only
        cases pageSlice txHashes (params.page.getD 1) (params.pageSize.getD 20) with
        | none => exact ⟨_, .done⟩
        | some entries => exact ⟨_, settles_resolveProg .done⟩
  | postTradesBatch hashes =>
    rw [handler]
    split_ifs with h0 hmax
    · exact ⟨_, .done⟩
    · exact ⟨_, .done⟩
    · exact ⟨_, settles_batchProg hb hashes⟩

omit [OrderAbi] [FloatLib F] [HexText] in
theorem table_new : RegistryCaches.new.table = fun _ => none := by
  funext key
  cases key <;> rfl

/-- Whatever it finds in the caches, a route answers as with empty ones. -/
theorem handler_settles (hb : s.BatchIndependent) (r : RouteRequest) :
    (handler s r).Settles (computed s) (alone s r) := by
  obtain ⟨a, ha⟩ := exists_settles hb r
  have hrun := (ha.run correct_empty).1
  rw [← table_new, run_handler] at hrun
  rw [alone, hrun]
  exact ha

/-- A route that is interrupted by nothing answers and caches as before, and where requests run
side by side over sources that do not change, with evictions at any time, each is answered as
with empty caches, no failure is kept, and a request that is left to run is answered. -/
theorem answers_alone (hn : s.Unambiguous) :
    (∀ c r, ((handler s r).run c.table).1 = (answer s c r).1) ∧
    ∀ os (t : State ℕ RouteRequest CacheKey CacheKey.Value RouteAnswer),
      Runs.Traced (Memo.serve (handler s)) .initial os t →
        (∀ r a, some (r, a) ∈ os → a = alone s r) ∧
        (∀ key value, t.table key = some value → computed s key = some value) ∧
        ∀ i r p, t.running i = some (r, p) → ∃ n os' u,
          Runs.outputs (Memo.serve (handler s)) t (List.replicate n (.step i)) = some (os', u) ∧
            some (r, alone s r) ∈ os' := by
  have hh : ∀ r, (handler s r).Settles (computed s) (alone s r) :=
    handler_settles hn.batchIndependent
  refine ⟨run_handler, fun os t hr => ?_⟩
  obtain ⟨hos, ht⟩ := State.sound_initial.run hh hr
  exact ⟨hos, ht.table, fun i r p hi => ht.exists_answer hh hi⟩

end Settles

section Example

local instance interleavedBytecode : OrderAbi := ⟨fun _ => none⟩

local instance interleavedHexText : HexText := Hex.text

local instance interleavedFloats : FloatLib ℚ := Rational.floats

def takenDb : EventDb := { takerDb with orderEvents := [added 1 10] }

def takerSources : RouteSources ℚ where
  orders := raindexOrdersListDataSource detailClient
  order := raindexOrderDataSource detailClient
  trades := soleSource []
  swap := {
    Candidate := Unit
    getOrdersForPair _ _ := .ok []
    buildCandidatesForPair _ _ _ := .ok []
    maxPositiveValue := none
    simulateBuyOverCandidates _ _ _ := none }
  directTrades := some (fetcherFor ⟨8453, 1⟩)
  db := some takenDb

theorem eq_added {f : DirectTradesFetcher} {oe : OrderEvent}
    (h : oe ∈ addOrderV3Events takenDb f.chainId f.orderbookAddress) : oe = added 1 10 :=
  List.mem_singleton.1 (List.mem_of_mem_filter h)

theorem takenDb_staysLatest (f : DirectTradesFetcher) (hash : String) :
    StaysLatest takenDb f hash := by
  rintro t - - - ⟨oe, hoe, ha, he⟩
  refine ⟨oe, ⟨⟨hoe, ha⟩, fun oe' hoe' _ => ?_⟩, he⟩
  rw [eq_added hoe, eq_added hoe'.1]

theorem takenDb_tieFree (f : DirectTradesFetcher) (hash : String) :
    TieFree ℚ takenDb f hash := by
  have hrow {r : TradeRow} (hr : IsTradeRow takenDb f hash r) :
      ∃ t ∈ takerDb.takeOrders, r = takeRowFor t hash := by
    rcases hr with ⟨t, ht, rfl⟩ | ⟨c, hc, -⟩ | ⟨c, hc, -⟩
    · exact ⟨t, ht.1, rfl⟩
    · cases hc
    · cases hc
  have hties : ∀ t ∈ takerDb.takeOrders, ∀ t' ∈ takerDb.takeOrders,
      t.blockTimestamp = t'.blockTimestamp → t.logIndex = t'.logIndex → t = t' := by
    decide +kernel
  intro r r' hr hr' hts hlog
  obtain ⟨t, ht, rfl⟩ := hrow hr
  obtain ⟨t', ht', rfl⟩ := hrow hr'
  rw [hties t ht t' ht' hts hlog]

theorem takerSources_unambiguous : takerSources.Unambiguous := by
  intro f db hf hd
  cases hd
  exact ⟨List.nodup_singleton _, fun hash => ⟨takenDb_staysLatest f _, takenDb_tieFree f _⟩⟩

/-- Two batches with one order in common, at once. -/
theorem answers_alone_takerSources :
    ∃ os t, Runs.Traced (Memo.serve (ι := ℕ) (handler takerSources)) .initial os t ∧
      some (.postTradesBatch [10], alone takerSources (.postTradesBatch [10])) ∈ os := by
  have hrun : Runs.Traced (Memo.serve (ι := ℕ) (handler takerSources)) .initial [none, none] _ :=
    Runs.traced_of_outputs (show Runs.outputs _ _ [
      .start 0 (.postTradesBatch [10, 20]),
      .start 1 (.postTradesBatch [10])] = some (_, _) from rfl)
  obtain ⟨-, -, hanswer⟩ := (answers_alone takerSources_unambiguous).2 _ _ hrun
  obtain ⟨n, os, u, hout, hm⟩ := hanswer 1 (.postTradesBatch [10]) _ rfl
  exact ⟨_, u, hrun.append (Runs.traced_of_outputs hout), List.mem_append_right _ hm⟩

end Example

end AlbionApi.Cached
