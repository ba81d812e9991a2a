import AlbionApi.Api.Error
import AlbionApi.Foundations.Scatter
import AlbionApi.Raindex.Orders

/-! # The orders data source

The calls that the order listings make to their data source, and the source
that asks the raindex client: it quotes the orders chain by chain, and one by
one where the call for a chain fails.
-/

namespace AlbionApi

variable {F : Type}

structure OrdersListDataSource (F : Type) where
  getOrdersList : OrdersFilters → Option UInt16 → Option UInt16 →
    Except ApiError (List (OrderWithVaults F) × UInt32)
  getOrderQuotes : OrderWithVaults F → Except ApiError (List RaindexOrderQuote)
  /-- The results for several orders; `none` where an index is out of range. -/
  getOrderQuotesBatch : List (OrderWithVaults F) →
    Option (List (Except ApiError (List RaindexOrderQuote)))

namespace RaindexOrdersListDataSource

variable (client : RaindexOrdersClient F)

def getOrdersList (filters : OrdersFilters) (page pageSize : Option UInt16) :
    Except ApiError (List (OrderWithVaults F) × UInt32) :=
  match client.getOrders filters page pageSize with
  | .ok result => .ok result
  | .error _ => .error (.internal "failed to query orders")

def getOrderQuotes (order : OrderWithVaults F) : Except ApiError (List RaindexOrderQuote) :=
  match client.getQuotes order with
  | .ok quotes => .ok quotes
  | .error _ => .error (.internal "failed to query order quotes")

/-- The results for the orders of one chain. -/
def groupResults (groupOrders : List (OrderWithVaults F)) :
    List (Except ApiError (List RaindexOrderQuote)) :=
  match client.getOrderQuotesBatch groupOrders with
  | .ok groupQuotes => groupQuotes.map .ok
  | .error _ => groupOrders.map (getOrderQuotes client)

def getOrderQuotesBatch (orders : List (OrderWithVaults F)) :
    Option (List (Except ApiError (List RaindexOrderQuote))) :=
  if orders.isEmpty then some []
  else do
    let orderedResults ← Scatter.scatterGroups (fun order => order.chainId)
      (fun _ groupOrders => groupResults client groupOrders) orders
    return orderedResults.map (·.getD (.error (.internal "failed to query order quotes")))

end RaindexOrdersListDataSource

open RaindexOrdersListDataSource

def raindexOrdersListDataSource (client : RaindexOrdersClient F) : OrdersListDataSource F where
  getOrdersList := RaindexOrdersListDataSource.getOrdersList client
  getOrderQuotes := RaindexOrdersListDataSource.getOrderQuotes client
  getOrderQuotesBatch := RaindexOrdersListDataSource.getOrderQuotesBatch client

variable {client : RaindexOrdersClient F}

/-- The result of an order that is the given one among those of its chain: its list of the
batch, or its own quotes where the batch fails. -/
def quoteResult (client : RaindexOrdersClient F) (group : List (OrderWithVaults F)) (rank : ℕ)
    (order : OrderWithVaults F) : Except ApiError (List RaindexOrderQuote) :=
  match client.getOrderQuotesBatch group with
  | .ok groupQuotes =>
    match groupQuotes[rank]? with
    | some quotes => .ok quotes
    | none => .error (.internal "failed to query order quotes")
  | .error _ => RaindexOrdersListDataSource.getOrderQuotes client order

theorem getElem?_groupResults {group : List (OrderWithVaults F)} {rank : ℕ}
    {order : OrderWithVaults F} (h : group[rank]? = some order) :
    ((groupResults client group)[rank]?).getD
      (.error (.internal "failed to query order quotes")) =
        quoteResult client group rank order := by
  unfold groupResults quoteResult
  cases client.getOrderQuotesBatch group with
  | error e => simp only [List.getElem?_map, h, Option.map_some, Option.getD_some]
  | ok groupQuotes =>
    cases hq : groupQuotes[rank]? with
    | none => simp only [List.getElem?_map, hq, Option.map_none, Option.getD_none]
    | some quotes => simp only [List.getElem?_map, hq, Option.map_some, Option.getD_some]

/-- Every order has the result of its chain's batch or its own, at its own position. -/
theorem getOrderQuotesBatch_eq (client : RaindexOrdersClient F)
    (orders : List (OrderWithVaults F)) :
    RaindexOrdersListDataSource.getOrderQuotesBatch client orders =
      some (orders.mapIdx fun i order =>
        quoteResult client (orders.filter fun o => o.chainId = order.chainId)
          ((orders.take i).countP fun o => o.chainId = order.chainId) order) := by
  cases orders with
  | nil => rfl
  | cons o orders =>
    rw [RaindexOrdersListDataSource.getOrderQuotesBatch, if_neg (by simp),
      Scatter.scatterGroups_eq]
    simp only [Option.bind_eq_bind, Option.bind_some, Option.pure_def, Option.some.injEq]
    apply List.ext_getElem?
    intro i
    simp only [List.getElem?_map, List.getElem?_mapIdx, Option.map_map]
    cases h : (o :: orders)[i]? with
    | none => rfl
    | some order =>
      exact congrArg some (getElem?_groupResults
        (Scatter.getElem?_filter_countP h (decide_eq_true rfl)))

/-- What the client promises of its quotes: those of a single order are its own, and a batch
answers the given orders in the given order, possibly not to their end. -/
structure QuotesOwn (client : RaindexOrdersClient F)
    (Own : OrderWithVaults F → List RaindexOrderQuote → Prop) : Prop where
  single : ∀ order quotes, client.getQuotes order = .ok quotes → Own order quotes
  batch : ∀ orders groupQuotes, client.getOrderQuotesBatch orders = .ok groupQuotes →
    ∀ p ∈ orders.zip groupQuotes, Own p.1 p.2

variable {Own : OrderWithVaults F → List RaindexOrderQuote → Prop}

theorem QuotesOwn.quoteResult (h : QuotesOwn client Own) {group : List (OrderWithVaults F)}
    {rank : ℕ} {order : OrderWithVaults F} (ho : group[rank]? = some order)
    {quotes : List RaindexOrderQuote}
    (hq : AlbionApi.quoteResult client group rank order = .ok quotes) : Own order quotes := by
  unfold AlbionApi.quoteResult at hq
  cases hb : client.getOrderQuotesBatch group with
  | error e =>
    rw [hb] at hq
    simp only [RaindexOrdersListDataSource.getOrderQuotes] at hq
    cases hs : client.getQuotes order with
    | error e => simp [hs] at hq
    | ok quotes' =>
      simp only [hs, Except.ok.injEq] at hq
      subst hq
      exact h.single order quotes' hs
  | ok groupQuotes =>
    rw [hb] at hq
    cases hr : groupQuotes[rank]? with
    | none => simp [hr] at hq
    | some quotes' =>
      simp only [hr, Except.ok.injEq] at hq
      subst hq
      apply h.batch group groupQuotes hb (order, quotes')
      exact List.mem_of_getElem? (List.getElem?_zip_eq_some.2 ⟨ho, hr⟩)

end AlbionApi
