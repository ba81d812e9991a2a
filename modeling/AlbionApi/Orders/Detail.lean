import AlbionApi.DirectTrades.Batch
import AlbionApi.Orders.Cancel
import AlbionApi.Orders.Pages

/-! # The detail of an order

An order is found by its hash, quoted on its own and shown with its trades. The
detail, the listings, the batches of trades and the cancellation of an order
are answered on different paths and have to agree on it.
-/

namespace AlbionApi

structure OrderDetailsInfo where
  type_ : OrderType
  ioRatio : String
  deriving DecidableEq, Repr

structure OrderDetail where
  orderHash : B256
  owner : Address
  orderBytes : Bytes
  orderDetails : OrderDetailsInfo
  inputToken : TokenRef
  outputToken : TokenRef
  inputVaultId : U256
  outputVaultId : U256
  inputVaultBalance : String
  outputVaultBalance : String
  ioRatio : String
  createdAt : UInt64
  orderbookId : Address
  trades : List OrderTradeEntry
  deriving DecidableEq, Repr

variable {F : Type}

def hashFilters (hash : B256) : OrdersFilters where
  orderHash := some hash

def raindexOrderDataSource (client : RaindexOrdersClient F) : OrderDataSource F where
  getOrdersByHash hash := do
    let result ← mapErr (client.getOrders (hashFilters hash) none none) "failed to query orders"
    return result.1
  getOrderQuotes order := mapErr (client.getQuotes order) "failed to query order quotes"
  getOrderTrades order := mapErr (client.getTradesList order) "failed to query order trades"
  getRemoveCalldata order :=
    mapErr (client.getRemoveCalldata order) "failed to get remove calldata"

def buildOrderDetail (order : OrderWithVaults F) (orderType : OrderType) (ioRatio : String)
    (trades : List (RaindexTrade F)) : Except ApiError OrderDetail := do
  let (input, output) ← resolveIoVaults order
  return {
    orderHash := order.orderHash
    owner := order.owner
    orderBytes := order.orderBytes
    orderDetails := { type_ := orderType, ioRatio := ioRatio }
    inputToken := tokenRef input.token
    outputToken := tokenRef output.token
    inputVaultId := input.vaultId
    outputVaultId := output.vaultId
    inputVaultBalance := input.formattedBalance
    outputVaultBalance := output.formattedBalance
    ioRatio := ioRatio
    createdAt := order.timestampAdded.tryIntoU64.getD 0
    orderbookId := order.orderbook
    trades := trades.map mapTrade }

def processGetOrder [OrderAbi] (ds : OrderDataSource F) (hash : B256) :
    Except ApiError OrderDetail := do
  match ← ds.getOrdersByHash hash with
  | [] => .error (.notFound "order not found")
  | order :: _ =>
    let quotes ← ds.getOrderQuotes order
    let ioRatio := ((quotes.head?.bind (·.data)).map (·.formattedRatio)).getD "-"
    let trades ← ds.getOrderTrades order
    buildOrderDetail order (determineOrderType order) ioRatio trades

/-- The part of a detail that a listing shows too. -/
def OrderDetail.summary (detail : OrderDetail) : OrderSummary where
  orderHash := detail.orderHash
  owner := detail.owner
  orderBytes := detail.orderBytes
  orderType := detail.orderDetails.type_
  inputToken := detail.inputToken
  outputToken := detail.outputToken
  outputVaultBalance := detail.outputVaultBalance
  ioRatio := detail.ioRatio
  createdAt := detail.createdAt
  orderbookId := detail.orderbookId

section Shared

variable [OrderAbi] {order : OrderWithVaults F} {ioRatio : String}

theorem buildOrderDetail_eq_ok_iff {trades : List (RaindexTrade F)} {detail : OrderDetail} :
    buildOrderDetail order (determineOrderType order) ioRatio trades = .ok detail ↔
      ∃ input output, resolveIoVaults order = .ok (input, output) ∧
        buildOrderSummary order ioRatio = .ok detail.summary ∧
        detail.orderDetails.ioRatio = ioRatio ∧
        detail.inputVaultId = input.vaultId ∧ detail.outputVaultId = output.vaultId ∧
        detail.inputVaultBalance = input.formattedBalance ∧
        detail.trades = trades.map mapTrade := by
  cases h : resolveIoVaults order with
  | error e => simp [buildOrderDetail, h, bind, Except.bind]
  | ok io =>
    obtain ⟨input, output⟩ := io
    simp only [buildOrderDetail, buildOrderSummary, h, bind, Except.bind, pure, Except.pure,
      Except.ok.injEq, Prod.mk.injEq]
    constructor
    · rintro rfl
      exact ⟨input, output, ⟨rfl, rfl⟩, rfl, rfl, rfl, rfl, rfl, rfl⟩
    · rintro ⟨_, _, ⟨rfl, rfl⟩, hs, hr, hi, ho, hb, ht⟩
      obtain ⟨orderHash, owner, orderBytes, ⟨type_, ratio⟩, inputToken, outputToken, inputVaultId,
        outputVaultId, inputVaultBalance, outputVaultBalance, ioRatio', createdAt, orderbookId,
        trades'⟩ := detail
      simp only [OrderDetail.summary, OrderSummary.mk.injEq] at hs hr hi ho hb ht
      obtain ⟨rfl, rfl, rfl, rfl, rfl, rfl, rfl, rfl, rfl, rfl⟩ := hs
      subst hr hi ho hb ht
      rfl

theorem orderbookId_of_summary {summary : OrderSummary}
    (h : buildOrderSummary order ioRatio = .ok summary) :
    summary.orderbookId = order.orderbook := by
  unfold buildOrderSummary at h
  cases hv : resolveIoVaults order with
  | error e =>
    rw [hv] at h
    cases h
  | ok io =>
    rw [hv] at h
    cases h
    rfl

end Shared

section Found

variable [OrderAbi] {client : RaindexOrdersClient F} {order : OrderWithVaults F}

/-- The lookup of an order's hash answers with the order first. -/
def FoundByHash (client : RaindexOrdersClient F) (order : OrderWithVaults F) : Prop :=
  ∃ rest totalCount,
    client.getOrders (hashFilters order.orderHash) none none = .ok (order :: rest, totalCount)

omit [OrderAbi] in
theorem FoundByHash.getOrdersByHash (h : FoundByHash client order) :
    ∃ rest, (raindexOrderDataSource client).getOrdersByHash order.orderHash =
      .ok (order :: rest) := by
  obtain ⟨rest, totalCount, h⟩ := h
  refine ⟨rest, ?_⟩
  simp only [raindexOrderDataSource, h, mapErr]
  rfl

theorem processGetOrder_eq_ok_iff (h : FoundByHash client order) {detail : OrderDetail} :
    processGetOrder (raindexOrderDataSource client) order.orderHash = .ok detail ↔
      ∃ quotes trades, client.getQuotes order = .ok quotes ∧
        client.getTradesList order = .ok trades ∧
        buildOrderDetail order (determineOrderType order) (ioRatioOf (.ok quotes)) trades =
          .ok detail := by
  obtain ⟨rest, hget⟩ := h.getOrdersByHash
  rw [processGetOrder, hget]
  simp only [raindexOrderDataSource, bind, Except.bind]
  cases client.getQuotes order with
  | error e => simp [mapErr]
  | ok quotes =>
    cases client.getTradesList order with
    | error e => simp [mapErr]
    | ok trades =>
      simp only [mapErr, Except.ok.injEq, exists_eq_left', exists_and_left]
      exact Iff.rfl

omit [OrderAbi] in
theorem cancel_transactions [FloatIsZero F] (h : FoundByHash client order)
    {cancel : CancelOrderResponse}
    (hc : processCancelOrder (raindexOrderDataSource client) order.orderHash = .ok cancel) :
    cancel.transactions.map (·.to) = [order.orderbook] := by
  obtain ⟨rest, hget⟩ := h.getOrdersByHash
  simp only [processCancelOrder, hget, bind, Except.bind] at hc
  cases hr : (raindexOrderDataSource client).getRemoveCalldata order with
  | error e => simp [hr] at hc
  | ok calldata =>
    cases hw : withdrawVaults { vaultsToWithdraw := 0, tokensReturned := [] }
        (order.inputsList ++ order.outputsList) with
    | error e => simp [hr, hw] at hc
    | ok summary =>
      simp only [hr, hw, pure, Except.pure, Except.ok.injEq] at hc
      rw [← hc]
      rfl

/-- A listing shows the summary of each order of its page, with the order's own ratio or a
dash. -/
theorem exists_summary (hown : QuotesOwn client fun o quotes => client.getQuotes o = .ok quotes)
    {filters : OrdersFilters} {page pageSize : Option UInt16} {response : OrdersListResponse}
    {orders : List (OrderWithVaults F)} {totalCount : UInt32}
    (hpage : client.getOrders filters (some (page.getD 1))
      (some (min (pageSize.getD ordersDefaultPageSize) ordersMaxPageSize)) =
        .ok (orders, totalCount))
    (hl : listOrders (raindexOrdersListDataSource client) filters page pageSize =
      some (.ok response)) {i : ℕ} (ho : orders[i]? = some order) :
    ∃ summary, response.orders[i]? = some summary ∧
      buildOrderSummary order summary.ioRatio = .ok summary ∧
      (summary.ioRatio = "-" ∨ ∃ quotes, client.getQuotes order = .ok quotes ∧
        summary.ioRatio = ioRatioOf (.ok quotes)) := by
  rw [listOrders_eq hpage] at hl
  cases hs : summaries client orders with
  | error e =>
    rw [hs] at hl
    cases hl
  | ok rows =>
    rw [hs] at hl
    cases hl
    have hz : (orders.zip (orders.mapIdx fun i order => shownRatio client orders i order))[i]? =
        some (order, shownRatio client orders i order) := by
      rw [List.getElem?_zip_eq_some, List.getElem?_mapIdx, ho]
      exact ⟨rfl, rfl⟩
    obtain ⟨summary, hrow, hb⟩ := Tables.getElem?_mapM_read hs hz
    have hratio : summary.ioRatio = shownRatio client orders i order := by
      cases hv : resolveIoVaults order with
      | error e => simp [buildOrderSummary, hv, bind, Except.bind] at hb
      | ok io =>
        obtain ⟨s, hs, hr⟩ := buildOrderSummary_isOk hv (shownRatio client orders i order)
        rw [Except.ok.inj (hb.symm.trans hs), hr]
    refine ⟨summary, hrow, by rw [hratio]; exact hb, ?_⟩
    rw [hratio, shownRatio]
    split
    · next hbal =>
      cases hq : orderResult client orders i order with
      | error e => exact Or.inl rfl
      | ok quotes => exact Or.inr ⟨quotes, hown.orderResult ho hbal hq, rfl⟩
    · exact Or.inl rfl

end Found

/-! ## The routes agree -/

/-- The client of the trade routes knows the order, on one orderbook and with the same trades. -/
structure SharesOrder (client : RaindexOrdersClient F) (tradesClient : RaindexClient F)
    (order : OrderWithVaults F) : Prop where
  found : ∃ orderbooks, tradesClient.getAllOrderbooks = .ok orderbooks ∧ ∃ ob ∈ orderbooks,
    tradesClient.getOrderByHash ob order.orderHash = .ok order.toRaindexOrder ∧
    ∀ ob' ∈ orderbooks, ob' ≠ ob →
      tradesClient.getOrderByHash ob' order.orderHash = .error .orderNotFound
  trades : tradesClient.getTradesList order.toRaindexOrder none none = client.getTradesList order

/-- The library path of a batch finds the trades of the order. -/
theorem SharesOrder.fetchTradesForHash {client : RaindexOrdersClient F}
    {tradesClient : RaindexClient F} {order : OrderWithVaults F}
    (h : SharesOrder client tradesClient order) {trades : List (RaindexTrade F)}
    (ht : client.getTradesList order = .ok trades) :
    AlbionApi.fetchTradesForHash (raindexTradesDataSource tradesClient) order.orderHash =
      .ok (trades.map mapTrade) := by
  obtain ⟨orderbooks, hobs, ob, hob, hok, hmiss⟩ := h.found
  have hf := firstOrder_eq_some hob hok hmiss
  simp only [AlbionApi.fetchTradesForHash, raindexTradesDataSource, hobs, mapErr, hf, h.trades, ht,
    bind, Except.bind, pure, Except.pure]

/-- An order that a listing shows has the detail of its hash if its quotes and its trades are
answered. The detail agrees with the listing in all that both show, up to a ratio that the listing
leaves out, the order is cancelled on the orderbook of the detail, and a batch answers the trades
of the detail. -/
theorem order_routes_agree [OrderAbi] [FloatIsZero F] [FloatLib F] [HexText]
    {client : RaindexOrdersClient F}
    (hown : QuotesOwn client fun o quotes => client.getQuotes o = .ok quotes)
    {filters : OrdersFilters} {page pageSize : Option UInt16} {response : OrdersListResponse}
    {orders : List (OrderWithVaults F)} {totalCount : UInt32}
    (hpage : client.getOrders filters (some (page.getD 1))
      (some (min (pageSize.getD 20) 50)) = .ok (orders, totalCount))
    (hl : listOrders (raindexOrdersListDataSource client) filters page pageSize =
      some (.ok response)) {i : ℕ} {order : OrderWithVaults F} (ho : orders[i]? = some order)
    (hf : FoundByHash client order) :
    ∃ summary, response.orders[i]? = some summary ∧
      ((∃ detail, processGetOrder (raindexOrderDataSource client) order.orderHash = .ok detail) ↔
        (∃ quotes, client.getQuotes order = .ok quotes) ∧
          ∃ trades, client.getTradesList order = .ok trades) ∧
      ∀ detail, processGetOrder (raindexOrderDataSource client) order.orderHash = .ok detail →
        detail.summary = { summary with ioRatio := detail.ioRatio } ∧
        (summary.ioRatio = "-" ∨ summary.ioRatio = detail.ioRatio) ∧
        detail.orderDetails.ioRatio = detail.ioRatio ∧
        (∀ cancel, processCancelOrder (raindexOrderDataSource client) order.orderHash =
          .ok cancel → cancel.transactions.map (·.to) = [detail.orderbookId]) ∧
        ∀ tradesClient, SharesOrder client tradesClient order →
          ∀ cache hashes db, order.orderHash ∈ hashes → cache.get order.orderHash = none →
            DirectTrades.batchAnswer (raindexTradesDataSource tradesClient) cache none db hashes
              order.orderHash = detail.trades := by
  obtain ⟨summary, hrow, hb, hratio⟩ := exists_summary hown hpage hl ho
  obtain ⟨⟨input, output⟩, hv⟩ : ∃ io, resolveIoVaults order = .ok io := by
    cases hv : resolveIoVaults order with
    | error e => simp [buildOrderSummary, hv, bind, Except.bind] at hb
    | ok io => exact ⟨io, rfl⟩
  refine ⟨summary, hrow, ?_, fun detail hd => ?_⟩
  · simp only [processGetOrder_eq_ok_iff hf]
    constructor
    · rintro ⟨detail, quotes, trades, hq, ht, -⟩
      exact ⟨⟨quotes, hq⟩, trades, ht⟩
    · rintro ⟨⟨quotes, hq⟩, trades, ht⟩
      have hd : ∃ detail, buildOrderDetail order (determineOrderType order)
          (ioRatioOf (.ok quotes)) trades = .ok detail := by
        rw [buildOrderDetail, hv]
        exact ⟨_, rfl⟩
      obtain ⟨detail, hd⟩ := hd
      exact ⟨detail, quotes, trades, hq, ht, hd⟩
  · obtain ⟨quotes, trades, hq, ht, hbuild⟩ := (processGetOrder_eq_ok_iff hf).1 hd
    obtain ⟨_, _, -, hsum, hinfo, -, -, -, htrades⟩ := buildOrderDetail_eq_ok_iff.1 hbuild
    have hshared := Except.ok.inj (hsum.symm.trans (buildOrderSummary_ratio hb _))
    have hdr : detail.ioRatio = ioRatioOf (.ok quotes) := congrArg OrderSummary.ioRatio hshared
    refine ⟨hdr ▸ hshared, ?_, hinfo.trans hdr.symm, ?_, ?_⟩
    · rw [hdr]
      refine hratio.imp_right ?_
      rintro ⟨quotes', hq', hr⟩
      rw [hr, Except.ok.inj (hq'.symm.trans hq)]
    · intro cancel hc
      rw [cancel_transactions hf hc, ← orderbookId_of_summary hsum]
      rfl
    · intro tradesClient hs cache hashes db hm hc
      rw [DirectTrades.batchAnswer_uncached (DirectTrades.mem_uncached.2 ⟨hm, hc⟩),
        DirectTrades.fetchedFor, hs.fetchTradesForHash ht, htrades]
      rfl

section Example

local instance detailBytecode : OrderAbi := ⟨fun _ => none⟩

local instance detailHexText : HexText := Hex.text

local instance detailFloats : FloatLib ℚ := Rational.floats

local instance detailZeros : FloatIsZero ℚ := ⟨fun balance => .ok (balance = 0)⟩

def detailVault (vaultType : RaindexVaultType) (vaultId : U256) : RaindexVault ℚ where
  id := [3]
  vaultType := some vaultType
  vaultId := vaultId
  balance := 1
  formattedBalance := "1"
  token := { address := 3, symbol := some "USDC", decimals := 6 }

def detailOrder : OrderWithVaults ℚ where
  id := [2]
  chainId := 8453
  orderbook := 1
  orderHash := 10
  owner := 7
  orderBytes := [1]
  timestampAdded := 1700000000
  rainlang := none
  vaultsList := [detailVault .input 1, detailVault .output 2]
  inputsList := [detailVault .input 1]
  outputsList := [detailVault .output 2]

def detailClient : RaindexOrdersClient ℚ where
  getOrders _ _ _ := .ok ([detailOrder], 1)
  getQuotes _ := .ok [⟨some ⟨"1.5"⟩⟩]
  getOrderQuotesBatch orders := .ok (orders.map fun _ => [⟨some ⟨"1.5"⟩⟩])
  getTradesList _ := .ok []
  getRemoveCalldata _ := .ok []

theorem detailClient_own :
    QuotesOwn detailClient fun o quotes => detailClient.getQuotes o = .ok quotes where
  single _ _ h := h
  batch orders groupQuotes h p hp := by
    obtain rfl := Except.ok.inj h
    obtain ⟨order, -, he⟩ := List.mem_map.1 (List.of_mem_zip hp).2
    rw [← he]
    rfl

theorem order_routes_agree_detailOrder :
    ∃ response summary detail,
      listOrders (raindexOrdersListDataSource detailClient) (ownerFilters 7) none none =
        some (.ok response) ∧
      response.orders[0]? = some summary ∧
      processGetOrder (raindexOrderDataSource detailClient) 10 = .ok detail ∧
      detail.summary = { summary with ioRatio := detail.ioRatio } := by
  have hv : ∀ order ∈ [detailOrder], ∃ input output,
      resolveIoVaults order = .ok (input, output) := by
    intro order ho
    rw [List.mem_singleton.1 ho]
    exact ⟨detailVault .input 1, detailVault .output 2, rfl⟩
  obtain ⟨rows, hrows, -, -⟩ := summaries_isOk detailClient hv
  have hl : listOrders (raindexOrdersListDataSource detailClient) (ownerFilters 7) none none =
      some ((summaries detailClient [detailOrder]).map fun summaries =>
        ⟨summaries, buildPagination 1 1 20⟩) := listOrders_eq rfl
  rw [hrows] at hl
  obtain ⟨summary, hrow, hiff, hdetail⟩ := order_routes_agree detailClient_own rfl hl
    (i := 0) rfl ⟨[], 1, rfl⟩
  obtain ⟨detail, hd⟩ := hiff.2 ⟨⟨_, rfl⟩, _, rfl⟩
  exact ⟨_, summary, detail, hl, hrow, hd, (hdetail detail hd).1⟩

end Example

end AlbionApi
