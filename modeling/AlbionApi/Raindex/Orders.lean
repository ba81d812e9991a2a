import AlbionApi.Raindex.Client

/-! # Orders of the raindex client

What the order routes read of the client library's orders, vaults and quotes,
and the calls they make to it.
-/

namespace AlbionApi

inductive RaindexVaultType where
  | input
  | output
  | inputOutput
  deriving DecidableEq, Repr

structure RaindexVault (F : Type) where
  id : Bytes
  vaultType : Option RaindexVaultType
  vaultId : U256
  balance : F
  formattedBalance : String
  token : RaindexVaultToken
  deriving DecidableEq, Repr

/-- An order with what the order routes read beyond the trade routes. -/
structure OrderWithVaults (F : Type) extends RaindexOrder where
  orderBytes : Bytes
  timestampAdded : U256
  rainlang : Option String
  vaultsList : List (RaindexVault F)
  inputsList : List (RaindexVault F)
  outputsList : List (RaindexVault F)
  deriving DecidableEq, Repr

structure RaindexOrderQuoteValue where
  formattedRatio : String
  deriving DecidableEq, Repr

structure RaindexOrderQuote where
  data : Option RaindexOrderQuoteValue
  deriving DecidableEq, Repr

structure GetOrdersTokenFilter where
  inputs : Option (List Address)
  outputs : Option (List Address)
  deriving DecidableEq, Repr

/-- The filters that the order routes set. -/
structure OrdersFilters extends GetOrdersFilters where
  orderHash : Option B256 := none
  tokens : Option GetOrdersTokenFilter := none
  deriving DecidableEq, Repr

structure RaindexOrdersClient (F : Type) where
  getOrders : OrdersFilters → Option UInt16 → Option UInt16 →
    Except RaindexError (List (OrderWithVaults F) × UInt32)
  getQuotes : OrderWithVaults F → Except RaindexError (List RaindexOrderQuote)
  /-- The quotes of several orders of one chain. -/
  getOrderQuotesBatch : List (OrderWithVaults F) →
    Except RaindexError (List (List RaindexOrderQuote))
  getTradesList : OrderWithVaults F → Except RaindexError (List (RaindexTrade F))
  getRemoveCalldata : OrderWithVaults F → Except RaindexError Bytes

/-- The zero check of decimal floats, with the text of its error. -/
class FloatIsZero (F : Type) where
  isZero : F → Except String Bool

end AlbionApi
