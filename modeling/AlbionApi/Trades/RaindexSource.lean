import AlbionApi.Trades.DataSource

/-! # The raindex trades data source

The data source that the trade handlers use, over the client of the registry
in force.
-/

namespace AlbionApi

variable {F : Type}

def mapErr {α : Type} (result : Except RaindexError α) (message : String) : Except ApiError α :=
  match result with
  | .ok a => .ok a
  | .error _ => .error (.internal message)

/-- The first orderbook that has the order; a failed lookup counts as a miss. -/
def firstOrder (client : RaindexClient F) (hash : B256) : List OrderbookCfg → Option RaindexOrder
  | [] => none
  | orderbook :: orderbooks =>
    match client.getOrderByHash orderbook hash with
    | .ok order => some order
    | .error .orderNotFound => firstOrder client hash orderbooks
    | .error _ => firstOrder client hash orderbooks

theorem firstOrder_eq_some {client : RaindexClient F} {h : B256} {orderbooks : List OrderbookCfg}
    {ob : OrderbookCfg} {order : RaindexOrder} (hob : ob ∈ orderbooks)
    (hok : client.getOrderByHash ob h = .ok order)
    (hmiss : ∀ ob' ∈ orderbooks, ob' ≠ ob → client.getOrderByHash ob' h = .error .orderNotFound) :
    firstOrder client h orderbooks = some order := by
  induction orderbooks with
  | nil => cases hob
  | cons ob' orderbooks ih =>
    rw [firstOrder]
    by_cases he : ob' = ob
    · rw [he, hok]
    · rw [hmiss ob' List.mem_cons_self he]
      exact ih (List.mem_of_ne_of_mem (Ne.symm he) hob)
        fun ob'' h'' => hmiss ob'' (List.mem_cons_of_mem _ h'')

theorem firstOrder_eq_none {client : RaindexClient F} {h : B256} {orderbooks : List OrderbookCfg}
    (hmiss : ∀ ob ∈ orderbooks, client.getOrderByHash ob h = .error .orderNotFound) :
    firstOrder client h orderbooks = none := by
  induction orderbooks with
  | nil => rfl
  | cons ob orderbooks ih =>
    rw [firstOrder, hmiss ob List.mem_cons_self]
    exact ih fun ob' h' => hmiss ob' (List.mem_cons_of_mem _ h')

def transactionTrades (client : RaindexClient F) (txHash : B256) :
    List OrderbookCfg → Except ApiError (List (TradeWithOwner F))
  | [] => .ok []
  | orderbook :: orderbooks => do
    let trades ← mapErr (client.getTransactionTrades orderbook txHash) "failed to query trades"
    let rest ← transactionTrades client txHash orderbooks
    return trades.map (fun t => ⟨t.1, t.2⟩) ++ rest

/-- The loop of `check_tx_index_state`, with whether a timeout was seen. -/
def txIndexState (client : RaindexClient F) (txHash : B256) :
    Bool → List OrderbookCfg → Except ApiError TxIndexState
  | sawTimeout, [] => if sawTimeout then .ok .notYetIndexed else .ok .indexed
  | _, orderbook :: orderbooks =>
    match client.getTransaction orderbook txHash with
    | .ok _ => .ok .indexed
    | .error .transactionIndexingTimeout => txIndexState client txHash true orderbooks
    | .error _ => .error (.internal "failed to query transaction")

def raindexTradesDataSource (client : RaindexClient F) : TradesDataSource F where
  getOrders filters page pageSize :=
    mapErr (client.getOrders filters page pageSize) "failed to query orders"
  getOrderTrades order startTime endTime :=
    mapErr (client.getTradesList order startTime endTime) "failed to query order trades"
  getTradesByTx txHash := do
    let orderbooks ← mapErr client.getAllOrderbooks "failed to query trades"
    transactionTrades client txHash orderbooks
  findOrderByHash hash := do
    let orderbooks ← mapErr client.getAllOrderbooks "failed to get orderbooks"
    return firstOrder client hash orderbooks
  checkTxIndexState txHash := do
    let orderbooks ← mapErr client.getAllOrderbooks "failed to get orderbooks"
    txIndexState client txHash false orderbooks

def mapTrade (trade : RaindexTrade F) : OrderTradeEntry where
  id := trade.id
  txHash := trade.transaction.id
  inputAmount := trade.inputVaultBalanceChange.formattedAmount
  outputAmount := trade.outputVaultBalanceChange.formattedAmount
  timestamp := (trade.timestamp.tryIntoU64).getD 0
  sender := trade.transaction.sender

/-- The library path of a batch for one hash. -/
def fetchTradesForHash (ds : TradesDataSource F) (hash : B256) :
    Except ApiError (List OrderTradeEntry) := do
  match ← ds.findOrderByHash hash with
  | none => return []
  | some order =>
    let trades ← ds.getOrderTrades order none none
    return trades.map mapTrade

end AlbionApi
