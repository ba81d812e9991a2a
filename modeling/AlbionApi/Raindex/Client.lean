import AlbionApi.Api.Error
import AlbionApi.Api.Primitives

/-! # The raindex client

What the handlers read of the client library's orders and trades, and the
calls they make to it.
-/

namespace AlbionApi

structure RaindexTransaction where
  id : B256
  sender : Address
  blockNumber : U256
  timestamp : U256
  deriving DecidableEq, Repr

structure RaindexVaultToken where
  address : Address
  symbol : Option String
  decimals : UInt8
  deriving DecidableEq, Repr

structure RaindexVaultBalanceChange (F : Type) where
  token : RaindexVaultToken
  amount : F
  formattedAmount : String
  deriving DecidableEq, Repr

structure RaindexTrade (F : Type) where
  id : String
  orderHash : Bytes
  transaction : RaindexTransaction
  inputVaultBalanceChange : RaindexVaultBalanceChange F
  outputVaultBalanceChange : RaindexVaultBalanceChange F
  timestamp : U256
  deriving DecidableEq, Repr

structure RaindexOrder where
  id : Bytes
  chainId : UInt32
  orderbook : Address
  orderHash : B256
  owner : Address
  deriving DecidableEq, Repr

/-- The filters that the handlers set; the rest is left at its default. -/
structure GetOrdersFilters where
  owners : List Address := []
  active : Option Bool := none
  deriving DecidableEq, Repr

/-- An orderbook of the registry, by its chain and address. -/
structure OrderbookCfg where
  chainId : UInt32
  address : Address
  deriving DecidableEq, Repr

inductive RaindexError where
  | orderNotFound
  | transactionIndexingTimeout
  | other (message : String)
  deriving DecidableEq, Repr

structure RaindexClient (F : Type) where
  /-- The configured orderbooks, in the order in which the map of them is enumerated. -/
  getAllOrderbooks : Except RaindexError (List OrderbookCfg)
  getOrders : GetOrdersFilters → Option UInt16 → Option UInt16 →
    Except RaindexError (List RaindexOrder × UInt32)
  getOrderByHash : OrderbookCfg → B256 → Except RaindexError RaindexOrder
  getTradesList : RaindexOrder → Option UInt64 → Option UInt64 →
    Except RaindexError (List (RaindexTrade F))
  getTransactionTrades : OrderbookCfg → B256 → Except RaindexError (List (Address × RaindexTrade F))
  getTransaction : OrderbookCfg → B256 → Except RaindexError Unit

end AlbionApi
