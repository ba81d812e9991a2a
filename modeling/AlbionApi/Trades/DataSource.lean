import AlbionApi.Api.Trades
import AlbionApi.Foundations.Listing
import AlbionApi.Raindex.Client

/-! # The trades data source

The calls that the trade handlers make to their data source, with the scan of
all orders and the load of their trades.
-/

namespace AlbionApi

/-- `TxIndexState`. -/
inductive TxIndexState where
  | indexed
  | notYetIndexed
  deriving DecidableEq, Repr

structure TradeWithOwner (F : Type) where
  owner : Address
  trade : RaindexTrade F
  deriving DecidableEq, Repr

structure TradesDataSource (F : Type) where
  getOrders : GetOrdersFilters → Option UInt16 → Option UInt16 →
    Except ApiError (List RaindexOrder × UInt32)
  getOrderTrades : RaindexOrder → Option UInt64 → Option UInt64 →
    Except ApiError (List (RaindexTrade F))
  getTradesByTx : B256 → Except ApiError (List (TradeWithOwner F))
  findOrderByHash : B256 → Except ApiError (Option RaindexOrder)
  checkTxIndexState : B256 → Except ApiError TxIndexState

variable {F : Type}

/-- `ORDERS_SCAN_PAGE_SIZE`. -/
def ordersScanPageSize : UInt16 := 50

/-- `u16::saturating_add(1)`. -/
def nextPage (page : UInt16) : UInt16 := if page = 65535 then page else page + 1

theorem toNat_nextPage {page : UInt16} (h : nextPage page ≠ 65535) :
    page.toNat < 65534 ∧ (nextPage page).toNat = page.toNat + 1 := by
  unfold nextPage at *
  split_ifs at * with hp
  · exact absurd hp h
  · have h1 : page.toNat ≠ 65535 := fun e => hp (UInt16.toNat_inj.1 (by simpa using e))
    have h2 : (page + 1).toNat ≠ 65535 := fun e => h (UInt16.toNat_inj.1 (by simpa using e))
    have h3 := page.toNat_lt
    rw [UInt16.toNat_add] at *
    simp only [UInt16.toNat_one, Nat.reducePow] at *
    omega

theorem nextPage_of_lt {page : UInt16} (h : page.toNat < 65534) :
    nextPage page ≠ 65535 ∧ (nextPage page).toNat = page.toNat + 1 := by
  have hne : page ≠ 65535 := by
    rintro rfl
    simp at h
  have hnat : (nextPage page).toNat = page.toNat + 1 := by
    rw [nextPage, if_neg hne, UInt16.toNat_add]
    simp only [UInt16.toNat_one, Nat.reducePow]
    omega
  refine ⟨fun e => ?_, hnat⟩
  rw [e] at hnat
  simp at hnat
  omega

/-- The loop of `fetch_all_orders`, at some page with the orders read so far. -/
def fetchAllOrdersFrom (ds : TradesDataSource F) (filters : GetOrdersFilters) (page : UInt16)
    (allOrders : List RaindexOrder) : Except ApiError (List RaindexOrder) :=
  match ds.getOrders filters (some page) (some ordersScanPageSize) with
  | .error e => .error e
  | .ok (orders, totalCount) =>
    let allOrders := allOrders ++ orders
    if allOrders.length ≥ totalCount.toNat then .ok allOrders
    else if totalCount = 0 then .ok allOrders
    else if _h : nextPage page = 65535 then .ok allOrders
    else fetchAllOrdersFrom ds filters (nextPage page) allOrders
termination_by 65535 - page.toNat
decreasing_by
  have := toNat_nextPage _h
  omega

def fetchAllOrders (ds : TradesDataSource F) (filters : GetOrdersFilters) :
    Except ApiError (List RaindexOrder) :=
  fetchAllOrdersFrom ds filters 1 []

/-- The trades of the orders in their order, each with the owner of its order.
The calls run concurrently; the first failing one in the order of the orders decides. -/
def loadTradesWithOwners (ds : TradesDataSource F) (startTime endTime : Option UInt64) :
    List RaindexOrder → Except ApiError (List (TradeWithOwner F))
  | [] => .ok []
  | order :: orders => do
    let trades ← ds.getOrderTrades order startTime endTime
    let rest ← loadTradesWithOwners ds startTime endTime orders
    return trades.map (⟨order.owner, ·⟩) ++ rest

/-! ## Sources that page a fixed list -/

section Serves

variable {ds : TradesDataSource F} {filters : GetOrdersFilters} {orders : List RaindexOrder}

/-- A source serves a fixed list of orders for some filters page by page with its true total. -/
def ServesOrders (ds : TradesDataSource F) (filters : GetOrdersFilters)
    (orders : List RaindexOrder) : Prop :=
  ∀ page : UInt16, 0 < page.toNat →
    ds.getOrders filters (some page) (some ordersScanPageSize) =
      .ok (Listing.page orders ordersScanPageSize.toNat page.toNat, UInt32.ofNat orders.length)

variable {startTime endTime : Option UInt64} {trades : RaindexOrder → List (RaindexTrade F)}

theorem loadTradesWithOwners_eq
    (h : ∀ o ∈ orders, ds.getOrderTrades o startTime endTime = .ok (trades o)) :
    loadTradesWithOwners ds startTime endTime orders =
      .ok (orders.flatMap fun o => (trades o).map (⟨o.owner, ·⟩)) := by
  induction orders with
  | nil => rfl
  | cons o orders ih =>
    rw [loadTradesWithOwners, h o List.mem_cons_self,
      ih fun o' ho' => h o' (List.mem_cons_of_mem _ ho')]
    rfl

end Serves

end AlbionApi
