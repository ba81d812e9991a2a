import AlbionApi.Api.Error
import AlbionApi.Raindex.Orders

/-! # Swap quotes

A quote simulates a buy over the orders of a pair. The simulation belongs to
the library and is a parameter; its errors are replaced by the handler's own.
-/

namespace AlbionApi

structure SwapQuoteRequest where
  inputToken : Address
  outputToken : Address
  outputAmount : String
  deriving DecidableEq, Repr

structure SwapQuoteResponse where
  inputToken : Address
  outputToken : Address
  outputAmount : String
  estimatedOutput : String
  estimatedInput : String
  estimatedIoRatio : String
  deriving DecidableEq, Repr

/-- What the handler reads of a simulated buy. -/
structure SimulatedBuy (F : Type) where
  legs : ℕ
  totalInput : F
  totalOutput : F

structure SwapDataSource (F : Type) where
  Candidate : Type
  getOrdersForPair : Address → Address → Except ApiError (List (OrderWithVaults F))
  buildCandidatesForPair :
    List (OrderWithVaults F) → Address → Address → Except ApiError (List Candidate)
  /-- `Float::max_positive_value`. -/
  maxPositiveValue : Option F
  simulateBuyOverCandidates : List Candidate → F → F → Option (SimulatedBuy F)

variable {F : Type} [FloatLib F]

def processSwapQuote (ds : SwapDataSource F) (req : SwapQuoteRequest) :
    Except ApiError SwapQuoteResponse := do
  let orders ← ds.getOrdersForPair req.inputToken req.outputToken
  if orders.isEmpty then
    throw (.notFound "no liquidity found for this pair")
  let candidates ← ds.buildCandidatesForPair orders req.inputToken req.outputToken
  if candidates.isEmpty then
    throw (.notFound "no valid quotes available")
  let some buyTarget := FloatLib.parse (F := F) req.outputAmount
    | throw (.badRequest "invalid output_amount")
  let some priceCap := ds.maxPositiveValue
    | throw (.internal "failed to create price cap")
  let some sim := ds.simulateBuyOverCandidates candidates buyTarget priceCap
    | throw (.internal "failed to simulate swap")
  if sim.legs = 0 then
    throw (.notFound "no valid quotes available")
  let some blendedRatio := FloatLib.div sim.totalInput sim.totalOutput
    | throw (.internal "failed to compute ratio")
  let some formattedOutput := FloatLib.format sim.totalOutput
    | throw (.internal "failed to format estimated output")
  let some formattedInput := FloatLib.format sim.totalInput
    | throw (.internal "failed to format estimated input")
  let some formattedRatio := FloatLib.format blendedRatio
    | throw (.internal "failed to format ratio")
  return {
    inputToken := req.inputToken
    outputToken := req.outputToken
    outputAmount := req.outputAmount
    estimatedOutput := formattedOutput
    estimatedInput := formattedInput
    estimatedIoRatio := formattedRatio }

end AlbionApi
