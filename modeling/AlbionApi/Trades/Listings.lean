import AlbionApi.Cache.AppCache
import AlbionApi.Trades.ByTx
import AlbionApi.Trades.Pagination
import Mathlib.Data.Prod.Lex

/-! # Paginated trade listings

The listing of an owner's trades, newest first, and the listing of a taker's
transactions, whose trades are resolved through a cache.
-/

namespace AlbionApi

variable {F : Type}

/-- The sort key `(Reverse(timestamp), Reverse(block_number))`. -/
def recency (t : TradeByAddress) : ℕᵒᵈ ×ₗ ℕᵒᵈ :=
  toLex (OrderDual.toDual t.timestamp.toNat, OrderDual.toDual t.blockNumber.toNat)

theorem recency_le_iff (a b : TradeByAddress) : recency a ≤ recency b ↔
    b.timestamp < a.timestamp ∨ (b.timestamp = a.timestamp ∧ b.blockNumber ≤ a.blockNumber) := by
  rw [recency, recency, Prod.Lex.toLex_le_toLex, OrderDual.toDual_lt_toDual,
    OrderDual.toDual_le_toDual, OrderDual.toDual_inj, UInt64.lt_iff_toNat_lt,
    UInt64.le_iff_toNat_le, ← UInt64.toNat_inj, eq_comm]

theorem recency_eq_iff (a b : TradeByAddress) : recency a = recency b ↔
    a.timestamp = b.timestamp ∧ a.blockNumber = b.blockNumber := by
  rw [recency, recency, toLex_inj, Prod.mk.injEq, OrderDual.toDual_inj, OrderDual.toDual_inj,
    UInt64.toNat_inj, UInt64.toNat_inj]

def tokenRef (token : RaindexVaultToken) : TokenRef where
  address := token.address
  symbol := token.symbol.getD ""
  decimals := token.decimals

/-- `sort_by_key`, which is stable. -/
def sortTrades (trades : List TradeByAddress) : List TradeByAddress :=
  Listing.sortByKey recency trades

section ByAddress

variable [HexText]

def tradeByAddress (trade : RaindexTrade F) : Except ApiError TradeByAddress := do
  let inputChange := trade.inputVaultBalanceChange
  let outputChange := trade.outputVaultBalanceChange
  let timestamp ← toU64 trade.timestamp "timestamp"
  let blockNumber ← toU64 trade.transaction.blockNumber "block number"
  return {
    txHash := trade.transaction.id
    inputAmount := inputChange.formattedAmount
    outputAmount := outputChange.formattedAmount
    inputToken := tokenRef inputChange.token
    outputToken := tokenRef outputChange.token
    orderHash := maybeParseTradeOrderHash trade.orderHash
    timestamp := timestamp
    blockNumber := blockNumber }

def collectTradesByAddress (ds : TradesDataSource F) (owner : Address)
    (startTime endTime : Option UInt64) : Except ApiError (List TradeByAddress) := do
  let allOrders ← fetchAllOrders ds { owners := [owner], active := none }
  let tradesWithOwner ← loadTradesWithOwners ds startTime endTime allOrders
  tradesWithOwner.mapM fun t => tradeByAddress t.trade

/-- `process_get_trades_by_address`; `none` is a panic. -/
def processGetTradesByAddress (ds : TradesDataSource F) (owner : Address)
    (params : TradesPaginationParams) : Option (Except ApiError TradesByAddressResponse) :=
  match collectTradesByAddress ds owner params.startTime params.endTime with
  | .error e => some (.error e)
  | .ok collected =>
    let trades := sortTrades collected
    let page := params.page.getD 1
    let pageSize := params.pageSize.getD 20
    let totalTrades := len trades
    (pageSlice trades page pageSize).map fun paginated =>
      .ok { trades := paginated, pagination := pagination totalTrades page pageSize }

end ByAddress

/-! ## Trades by taker -/

abbrev TradesByTxCache := AppCache B256 TradesByTxResponse
abbrev TakerTradesTxHashCache := AppCache Address (List (B256 × UInt64))

/-- The taker lookup of the direct fetcher. -/
abbrev FetchTakerTxHashes := Address → Except ApiError (List (B256 × UInt64))

variable [FloatLib F] [HexText]

def getCachedTradesByTx (cache : TradesByTxCache) (ds : TradesDataSource F) (txHash : B256) :
    Except ApiError TradesByTxResponse × TradesByTxCache :=
  cache.getOrTryInsert txHash (processGetTradesByTx ds txHash)

/-- The loop over the hashes of a page; a hash that fails to resolve is skipped. -/
def resolveMarketOrders (ds : TradesDataSource F) :
    TradesByTxCache → List B256 → List TradesByTxResponse × TradesByTxCache
  | cache, [] => ([], cache)
  | cache, txHash :: hashes =>
    match getCachedTradesByTx cache ds txHash with
    | (.ok txTrades, cache) =>
      let rest := resolveMarketOrders ds cache hashes
      (txTrades :: rest.1, rest.2)
    | (.error _, cache) => resolveMarketOrders ds cache hashes

structure TakerCaches where
  tradesByTx : TradesByTxCache
  takerTx : TakerTradesTxHashCache

/-- `process_get_taker_trades`; `none` is a panic. -/
def processGetTakerTrades (ds : TradesDataSource F) (directTrades : Option FetchTakerTxHashes)
    (caches : TakerCaches) (sender : Address) (params : TradesPaginationParams) :
    Option (Except ApiError TakerTradesResponse × TakerCaches) :=
  match directTrades with
  | none =>
    some (.ok { marketOrders := []
                pagination := { page := 1, pageSize := params.pageSize.getD 20, totalTrades := 0,
                                totalPages := 0, hasMore := false } }, caches)
  | some fetchTakerTxHashes =>
    match caches.takerTx.getOrTryInsert sender (fetchTakerTxHashes sender) with
    | (.error e, takerTx) => some (.error e, { caches with takerTx := takerTx })
    | (.ok txHashes, takerTx) =>
      let page := params.page.getD 1
      let pageSize := params.pageSize.getD 20
      let total := len txHashes
      (pageSlice txHashes page pageSize).map fun pageEntries =>
        let resolved := resolveMarketOrders ds caches.tradesByTx (pageEntries.map Prod.fst)
        (.ok { marketOrders := resolved.1, pagination := pagination total page pageSize },
          { tradesByTx := resolved.2, takerTx := takerTx })

end AlbionApi
