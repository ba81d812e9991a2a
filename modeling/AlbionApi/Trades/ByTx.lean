import AlbionApi.Trades.DataSource

/-! # Trades of a transaction

The lookup of the trades of one transaction, with their ratios and totals.
-/

namespace AlbionApi

/-- A failed library call becomes an internal error of the caller's own. -/
def orInternal {α : Type} (result : Option α) (message : String) : Except ApiError α :=
  match result with
  | some a => .ok a
  | none => .error (.internal message)

def toU64 (value : U256) (field : String) : Except ApiError UInt64 :=
  orInternal value.tryIntoU64 (field ++ " overflow")

section Hex

variable [HexText]

def parseTradeOrderHash (orderHash : Bytes) : Except ApiError B256 :=
  orInternal (HexText.parseB256 (HexText.formatBytes orderHash)) "invalid trade order hash"

def maybeParseTradeOrderHash (orderHash : Bytes) : Option B256 :=
  HexText.parseB256 (HexText.formatBytes orderHash)

end Hex

variable {F : Type} [FloatLib F]

def formatFloat (value : F) (context : String) : Except ApiError String :=
  orInternal (FloatLib.format value) (context ++ " calculation failed")

def positiveOutput (outputAmount : F) : Except ApiError F := do
  let zero ← orInternal FloatLib.zero "io ratio calculation failed"
  orInternal (FloatLib.sub zero outputAmount) "io ratio calculation failed"

def computeIoRatio (inputAmount outputAmount : F) : Except ApiError String := do
  let output ← positiveOutput outputAmount
  let zero ← orInternal FloatLib.zero "io ratio calculation failed"
  if (FloatLib.eq output zero).getD true then return "0"
  else
    let ratio ← orInternal (FloatLib.div inputAmount output) "io ratio calculation failed"
    formatFloat ratio "io ratio"

structure TradesByTxState (F : Type) where
  totalInput : F
  totalOutput : F
  entries : List TradeByTxEntry

/-- One round of the loop over the trades. -/
def addTradeByTx [HexText] (s : TradesByTxState F) (tradeWithOwner : TradeWithOwner F) :
    Except ApiError (TradesByTxState F) := do
  let trade := tradeWithOwner.trade
  let inputChange := trade.inputVaultBalanceChange
  let outputChange := trade.outputVaultBalanceChange
  let ioRatio ← computeIoRatio inputChange.amount outputChange.amount
  let orderHash ← parseTradeOrderHash trade.orderHash
  let totalInput ← orInternal (FloatLib.add s.totalInput inputChange.amount)
    "trade totals calculation failed"
  let output ← positiveOutput outputChange.amount
  let totalOutput ← orInternal (FloatLib.add s.totalOutput output)
    "trade totals calculation failed"
  let entry : TradeByTxEntry := {
    orderHash := orderHash
    orderOwner := tradeWithOwner.owner
    request := {
      inputToken := inputChange.token.address
      outputToken := outputChange.token.address
      maximumInput := inputChange.formattedAmount
      maximumIoRatio := ioRatio }
    result := {
      inputAmount := inputChange.formattedAmount
      outputAmount := outputChange.formattedAmount
      actualIoRatio := ioRatio } }
  return { totalInput := totalInput, totalOutput := totalOutput, entries := s.entries ++ [entry] }

def noTradesByTx [HexText] (ds : TradesDataSource F) (txHash : B256) :
    Except ApiError TradesByTxResponse := do
  match ← ds.checkTxIndexState txHash with
  | .notYetIndexed =>
    .error (.notYetIndexed ("transaction " ++ HexText.formatB256 txHash ++ " not yet indexed"))
  | .indexed => .error (.notFound "transaction has no associated trades")

def processGetTradesByTx [HexText] (ds : TradesDataSource F) (txHash : B256) :
    Except ApiError TradesByTxResponse := do
  match ← ds.getTradesByTx txHash with
  | [] => noTradesByTx ds txHash
  | first :: rest =>
    let firstTx := first.trade.transaction
    let totalInput ← orInternal FloatLib.zero "trade totals calculation failed"
    let totalOutput ← orInternal FloatLib.zero "trade totals calculation failed"
    let start : TradesByTxState F :=
      { totalInput := totalInput, totalOutput := totalOutput, entries := [] }
    let s ← (first :: rest).foldlM addTradeByTx start
    let zero ← orInternal FloatLib.zero "trade totals calculation failed"
    let averageIoRatio ←
      if (FloatLib.eq s.totalOutput zero).getD true then pure zero
      else orInternal (FloatLib.div s.totalInput s.totalOutput) "trade totals calculation failed"
    let blockNumber ← toU64 firstTx.blockNumber "block number"
    let timestamp ← toU64 firstTx.timestamp "timestamp"
    let totalInputAmount ← formatFloat s.totalInput "trade totals"
    let totalOutputAmount ← formatFloat s.totalOutput "trade totals"
    let average ← formatFloat averageIoRatio "trade totals"
    return {
      txHash := txHash
      blockNumber := blockNumber
      timestamp := timestamp
      sender := firstTx.sender
      trades := s.entries
      totals := {
        totalInputAmount := totalInputAmount
        totalOutputAmount := totalOutputAmount
        averageIoRatio := average } }

end AlbionApi
