import AlbionApi.Api.Float64
import AlbionApi.Orders.DataSource
import AlbionApi.Orders.Vaults
import AlbionApi.Trades.Listings

/-! # Order listings

The pages of an owner's orders and of a token's orders. Only orders with an
output balance are quoted, all of them in one batch whose results are mapped
back to the orders.
-/

namespace AlbionApi

inductive OrderType where
  | limit
  | strategy
  deriving DecidableEq, Repr

inductive OrderSide where
  | input
  | output
  deriving DecidableEq, Repr

structure OrderSummary where
  orderHash : B256
  owner : Address
  orderBytes : Bytes
  orderType : OrderType
  inputToken : TokenRef
  outputToken : TokenRef
  outputVaultBalance : String
  ioRatio : String
  createdAt : UInt64
  orderbookId : Address
  deriving DecidableEq, Repr

structure OrdersPagination where
  page : UInt32
  pageSize : UInt32
  totalOrders : UInt64
  totalPages : UInt64
  hasMore : Bool
  deriving DecidableEq, Repr

structure OrdersListResponse where
  orders : List OrderSummary
  pagination : OrdersPagination
  deriving DecidableEq, Repr

/-- The decoder of the orders of the contract. -/
class OrderAbi where
  /-- The bytecode that an encoded order evaluates. -/
  decodeBytecode : Bytes → Option Bytes

/-- The text from the first place on at which it has the given one. -/
def findText (needle s : List Char) : Option (List Char) :=
  s.tails.find? fun rest => needle.isPrefixOf rest

/-- The property `White_Space` of Unicode. -/
def isWhitespace (c : Char) : Bool :=
  let n := c.toNat
  (9 ≤ n && n ≤ 13) || n = 0x20 || n = 0x85 || n = 0xa0 || n = 0x1680 ||
    (0x2000 ≤ n && n ≤ 0x200a) || n = 0x2028 || n = 0x2029 || n = 0x202f || n = 0x205f ||
    n = 0x3000

def trim (s : List Char) : List Char :=
  ((s.dropWhile isWhitespace).reverse.dropWhile isWhitespace).reverse

def classifyFromRainlang (rainlang : List Char) : OrderType :=
  match findText "handle-io".toList rainlang with
  | some after =>
    let content := match findText ['*', '/'] after with
      | some rest => trim (rest.drop 2)
      | none => trim (after.dropWhile fun c => c ≠ ':' ∧ c ≠ '\n')
    if content = [':', ';'] ∨ content.isEmpty then .limit else .strategy
  | none => .strategy

variable {F : Type}

def classifyFromBytecode [OrderAbi] (order : OrderWithVaults F) : OrderType :=
  match OrderAbi.decodeBytecode order.orderBytes with
  | some bytecode => if bytecode.length < 500 then .limit else .strategy
  | none => .strategy

def determineOrderType [OrderAbi] (order : OrderWithVaults F) : OrderType :=
  match order.rainlang with
  | some rainlang => classifyFromRainlang rainlang.toList
  | none => classifyFromBytecode order

def buildOrderSummary [OrderAbi] (order : OrderWithVaults F) (ioRatio : String) :
    Except ApiError OrderSummary := do
  let (input, output) ← resolveIoVaults order
  return {
    orderHash := order.orderHash
    owner := order.owner
    orderBytes := order.orderBytes
    orderType := determineOrderType order
    inputToken := tokenRef input.token
    outputToken := tokenRef output.token
    outputVaultBalance := output.formattedBalance
    ioRatio := ioRatio
    createdAt := order.timestampAdded.tryIntoU64.getD 0
    orderbookId := order.orderbook }

def buildPagination (totalCount page pageSize : UInt32) : OrdersPagination :=
  let totalOrders := totalCount.toUInt64
  let totalPages := if pageSize = 0 then 0 else divCeil totalOrders pageSize.toUInt64
  { page := page
    pageSize := pageSize
    totalOrders := totalOrders
    totalPages := totalPages
    hasMore := page.toUInt64 < totalPages }

/-! ## The listings -/

/-- `DEFAULT_PAGE_SIZE as u16`. -/
def ordersDefaultPageSize : UInt16 := 20

/-- `MAX_PAGE_SIZE`. -/
def ordersMaxPageSize : UInt16 := 50

/-- The order has an output balance, by the text of it. -/
def hasBalance (order : OrderWithVaults F) : Bool :=
  match resolveIoVaults order with
  | .ok (_, output) =>
    ((Float64Text.parse output.formattedBalance.toList).map (·.isPositive)).getD false
  | .error _ => false

def ioRatioOf : Except ApiError (List RaindexOrderQuote) → String
  | .ok quotes => ((quotes.head?.bind (·.data)).map (·.formattedRatio)).getD "-"
  | .error _ => "-"

/-- The loop that maps the results back to the positions of their orders. -/
def fillIoRatios (quoteResults : List (Except ApiError (List RaindexOrderQuote)))
    (quotableIndices : List ℕ) (ioRatios : List String) : Option (List String) :=
  quotableIndices.zipIdx.foldlM (fun ioRatios x => do
    let result ← quoteResults[x.2]?
    Scatter.setSlot ioRatios x.1 (ioRatioOf result)) ioRatios

/-- What both listings do with their filters; `none` where an index is out of range. -/
def listOrders [OrderAbi] (ds : OrdersListDataSource F) (filters : OrdersFilters)
    (page pageSize : Option UInt16) : Option (Except ApiError OrdersListResponse) :=
  let pageNum := page.getD 1
  let effectivePageSize := min (pageSize.getD ordersDefaultPageSize) ordersMaxPageSize
  match ds.getOrdersList filters (some pageNum) (some effectivePageSize) with
  | .error e => some (.error e)
  | .ok (orders, totalCount) => do
    let quotable := orders.zipIdx.filter fun x => hasBalance x.1
    let quoteResults ← ds.getOrderQuotesBatch (quotable.map Prod.fst)
    let ioRatios ← fillIoRatios quoteResults (quotable.map Prod.snd)
      (List.replicate orders.length "-")
    return do
      let summaries ← (orders.zip ioRatios).mapM fun x => buildOrderSummary x.1 x.2
      return {
        orders := summaries
        pagination :=
          buildPagination totalCount pageNum.toUInt32 effectivePageSize.toUInt32 }

def ownerFilters (address : Address) : OrdersFilters where
  owners := [address]
  active := some true

def tokenFilters (address : Address) (side : Option OrderSide) : OrdersFilters where
  active := some true
  tokens := some <| match side with
    | some .input => { inputs := some [address], outputs := none }
    | some .output => { inputs := none, outputs := some [address] }
    | none => { inputs := some [address], outputs := some [address] }

def processGetOrdersByOwner [OrderAbi] (ds : OrdersListDataSource F) (address : Address)
    (page pageSize : Option UInt16) : Option (Except ApiError OrdersListResponse) :=
  listOrders ds (ownerFilters address) page pageSize

def processGetOrdersByToken [OrderAbi] (ds : OrdersListDataSource F) (address : Address)
    (side : Option OrderSide) (page pageSize : Option UInt16) :
    Option (Except ApiError OrdersListResponse) :=
  listOrders ds (tokenFilters address side) page pageSize

end AlbionApi
