import AlbionApi.Api.Primitives

/-! # Trade responses

The request parameters and response bodies of the trade routes.
-/

namespace AlbionApi

structure TokenRef where
  address : Address
  symbol : String
  decimals : UInt8
  deriving DecidableEq, Repr

structure OrderTradeEntry where
  id : String
  txHash : B256
  inputAmount : String
  outputAmount : String
  timestamp : UInt64
  sender : Address
  deriving DecidableEq, Repr

structure TradesBatchEntry where
  orderHash : B256
  trades : List OrderTradeEntry
  deriving DecidableEq, Repr

structure TradesBatchResponse where
  orders : List TradesBatchEntry
  deriving DecidableEq, Repr

structure TradesPaginationParams where
  page : Option UInt32
  pageSize : Option UInt32
  startTime : Option UInt64
  endTime : Option UInt64
  deriving DecidableEq, Repr

structure TradeByAddress where
  txHash : B256
  inputAmount : String
  outputAmount : String
  inputToken : TokenRef
  outputToken : TokenRef
  orderHash : Option B256
  timestamp : UInt64
  blockNumber : UInt64
  deriving DecidableEq, Repr

structure TradesPagination where
  page : UInt32
  pageSize : UInt32
  totalTrades : UInt64
  totalPages : UInt64
  hasMore : Bool
  deriving DecidableEq, Repr

structure TradesByAddressResponse where
  trades : List TradeByAddress
  pagination : TradesPagination
  deriving DecidableEq, Repr

structure TradeRequest where
  inputToken : Address
  outputToken : Address
  maximumInput : String
  maximumIoRatio : String
  deriving DecidableEq, Repr

structure TradeResult where
  inputAmount : String
  outputAmount : String
  actualIoRatio : String
  deriving DecidableEq, Repr

structure TradeByTxEntry where
  orderHash : B256
  orderOwner : Address
  request : TradeRequest
  result : TradeResult
  deriving DecidableEq, Repr

structure TradesTotals where
  totalInputAmount : String
  totalOutputAmount : String
  averageIoRatio : String
  deriving DecidableEq, Repr

structure TradesByTxResponse where
  txHash : B256
  blockNumber : UInt64
  timestamp : UInt64
  sender : Address
  trades : List TradeByTxEntry
  totals : TradesTotals
  deriving DecidableEq, Repr

structure TakerTradesResponse where
  marketOrders : List TradesByTxResponse
  pagination : TradesPagination
  deriving DecidableEq, Repr

end AlbionApi
