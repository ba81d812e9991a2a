import AlbionApi.Orders.Listing

/-! # The ratios of a listing

Two indirections lie between an order and its quotes: the orders without a
balance are left out of the batch, and the batch is split by chain. Both lead
back to the order.
-/

namespace AlbionApi

section Listing

variable {F : Type} {client : RaindexOrdersClient F} {orders : List (OrderWithVaults F)}

theorem foldlM_zipIdx_eq_writeAll {quoteResults : List (Except ApiError (List RaindexOrderQuote))}
    {indices : List ℕ} {n : ℕ} (h : n + indices.length ≤ quoteResults.length)
    (ioRatios : List String) :
    (indices.zipIdx n).foldlM (fun ioRatios x => do
      let result ← quoteResults[x.2]?
      Scatter.setSlot ioRatios x.1 (ioRatioOf result)) ioRatios =
        Scatter.writeAll ioRatios (indices.zip ((quoteResults.drop n).map ioRatioOf)) := by
  induction indices generalizing n ioRatios with
  | nil => rfl
  | cons i indices ih =>
    rw [List.length_cons] at h
    have hn : n < quoteResults.length := by omega
    rw [List.drop_eq_getElem_cons hn, List.map_cons, List.zip_cons_cons, List.zipIdx_cons,
      List.foldlM_cons, Scatter.writeAll, List.foldlM_cons]
    simp only [List.getElem?_eq_getElem hn, Option.bind_eq_bind, Option.bind_some]
    cases Scatter.setSlot ioRatios i (ioRatioOf quoteResults[n]) with
    | none => rfl
    | some ioRatios => exact ih (by omega) ioRatios

theorem map_fst_quotable (orders : List (OrderWithVaults F)) :
    (orders.zipIdx.filter fun x => hasBalance x.1).map Prod.fst = orders.filter hasBalance := by
  have h := List.filter_map (f := Prod.fst) (p := hasBalance) (l := orders.zipIdx)
  rw [List.zipIdx_map_fst] at h
  exact h.symm

/-- An order with a balance stands in the batch after those before it that have one. -/
theorem getElem?_quotable {i : ℕ} {order : OrderWithVaults F} (h : orders[i]? = some order)
    (hb : hasBalance order = true) :
    (orders.zipIdx.filter fun x => hasBalance x.1)[(orders.take i).countP hasBalance]? =
      some (order, i) := by
  have hz : orders.zipIdx[i]? = some (order, i) := by
    rw [List.getElem?_zipIdx, h]
    simp
  have hc : (orders.zipIdx.take i).countP (fun x => hasBalance x.1) =
      (orders.take i).countP hasBalance := by
    have hm := List.countP_map (p := hasBalance) (f := Prod.fst) (l := orders.zipIdx.take i)
    rw [List.map_take, List.zipIdx_map_fst] at hm
    exact hm.symm
  rw [← hc]
  exact Scatter.getElem?_filter_countP hz hb

theorem mem_quotableIndices {i : ℕ} :
    i ∈ (orders.zipIdx.filter fun x => hasBalance x.1).map Prod.snd ↔
      ∃ order, orders[i]? = some order ∧ hasBalance order = true := by
  simp [List.mem_zipIdx_iff_getElem?]

theorem nodup_quotableIndices (orders : List (OrderWithVaults F)) :
    ((orders.zipIdx.filter fun x => hasBalance x.1).map Prod.snd).Nodup := by
  have hs := (List.filter_sublist (p := fun x => hasBalance x.1) (l := orders.zipIdx)).map Prod.snd
  rw [List.zipIdx_map_snd] at hs
  exact hs.nodup List.nodup_range'

theorem fillIoRatios_spec {quoteResults : List (Except ApiError (List RaindexOrderQuote))}
    (hlen : quoteResults.length = (orders.filter hasBalance).length) :
    ∃ ioRatios, fillIoRatios quoteResults
        ((orders.zipIdx.filter fun x => hasBalance x.1).map Prod.snd)
        (List.replicate orders.length "-") = some ioRatios ∧
      ioRatios.length = orders.length ∧
      ∀ i order, orders[i]? = some order → ioRatios[i]? = some
        (if hasBalance order then
          ((quoteResults[(orders.take i).countP hasBalance]?).map ioRatioOf).getD "-"
        else "-") := by
  set quotable := orders.zipIdx.filter fun x => hasBalance x.1 with hq
  have hquot : (quotable.map Prod.snd).length = quoteResults.length := by
    rw [hlen, ← map_fst_quotable, List.length_map, List.length_map]
  have hfst : ((quotable.map Prod.snd).zip (quoteResults.map ioRatioOf)).map Prod.fst =
      quotable.map Prod.snd := List.map_fst_zip (by rw [hquot, List.length_map])
  have hnodup := nodup_quotableIndices orders
  rw [← hq, ← hfst] at hnodup
  have hlt : ∀ w ∈ (quotable.map Prod.snd).zip (quoteResults.map ioRatioOf),
      w.1 < (List.replicate orders.length "-").length := by
    rintro ⟨i, ratio⟩ hi
    obtain ⟨order, ho, -⟩ := mem_quotableIndices.1 (List.of_mem_zip hi).1
    rw [List.length_replicate]
    exact (List.getElem?_eq_some_iff.1 ho).1
  obtain ⟨ioRatios, hw, hl, hin, hout⟩ := Scatter.writeAll_spec hnodup hlt
  refine ⟨ioRatios, ?_, by rw [hl, List.length_replicate], ?_⟩
  · rw [fillIoRatios, foldlM_zipIdx_eq_writeAll (by rw [Nat.zero_add, hquot])]
    exact hw
  · intro i order ho
    cases hb : hasBalance order with
    | true =>
      have hrank := getElem?_quotable ho hb
      rw [← hq] at hrank
      have hr : (orders.take i).countP hasBalance < quoteResults.length := by
        rw [← hquot, List.length_map]
        exact (List.getElem?_eq_some_iff.1 hrank).1
      rw [if_pos rfl, List.getElem?_eq_getElem hr, Option.map_some, Option.getD_some]
      apply hin (i, ioRatioOf quoteResults[(orders.take i).countP hasBalance])
      apply List.mem_of_getElem?
      rw [List.getElem?_zip_eq_some, List.getElem?_map, hrank, List.getElem?_map,
        List.getElem?_eq_getElem hr]
      exact ⟨rfl, rfl⟩
    | false =>
      have hno : i ∉ quotable.map Prod.snd := by
        intro hi
        obtain ⟨order', ho', hb'⟩ := mem_quotableIndices.1 hi
        obtain rfl : order = order' := Option.some.inj (ho.symm.trans ho')
        simp [hb] at hb'
      rw [hout i (by rwa [hfst]), List.getElem?_replicate,
        if_pos (List.getElem?_eq_some_iff.1 ho).1]
      simp

/-! ## The listing -/

def orderResult (client : RaindexOrdersClient F) (orders : List (OrderWithVaults F)) (i : ℕ)
    (order : OrderWithVaults F) : Except ApiError (List RaindexOrderQuote) :=
  quoteResult client (orders.filter fun o => o.chainId = order.chainId ∧ hasBalance o)
    ((orders.take i).countP fun o => o.chainId = order.chainId ∧ hasBalance o) order

def shownRatio (client : RaindexOrdersClient F) (orders : List (OrderWithVaults F)) (i : ℕ)
    (order : OrderWithVaults F) : String :=
  if hasBalance order then ioRatioOf (orderResult client orders i order) else "-"

theorem getElem?_getOrderQuotesBatch {i : ℕ} {order : OrderWithVaults F}
    (h : orders[i]? = some order) (hb : hasBalance order = true)
    {quoteResults : List (Except ApiError (List RaindexOrderQuote))}
    (hr : RaindexOrdersListDataSource.getOrderQuotesBatch client (orders.filter hasBalance) =
      some quoteResults) :
    quoteResults[(orders.take i).countP hasBalance]? =
      some (orderResult client orders i order) := by
  rw [getOrderQuotesBatch_eq, Option.some.injEq] at hr
  rw [← hr, List.getElem?_mapIdx, Scatter.getElem?_filter_countP h hb, Option.map_some,
    Scatter.countP_take_filter (List.getElem?_eq_some_iff.1 h).1.le, List.filter_filter,
    orderResult]
  have hp : (fun o : OrderWithVaults F => decide (o.chainId = order.chainId) && hasBalance o) =
      fun o => decide (o.chainId = order.chainId ∧ hasBalance o = true) := by
    funext o
    rw [Bool.decide_and, Bool.decide_eq_true]
  have hp' : (fun o : OrderWithVaults F => hasBalance o && decide (o.chainId = order.chainId)) =
      fun o => decide (o.chainId = order.chainId ∧ hasBalance o = true) := by
    rw [← hp]
    funext o
    exact Bool.and_comm _ _
  rw [hp, hp']

theorem QuotesOwn.orderResult {Own : OrderWithVaults F → List RaindexOrderQuote → Prop}
    (hown : QuotesOwn client Own) {i : ℕ} {order : OrderWithVaults F}
    (h : orders[i]? = some order) (hb : hasBalance order = true) {quotes : List RaindexOrderQuote}
    (hq : AlbionApi.orderResult client orders i order = .ok quotes) : Own order quotes :=
  hown.quoteResult (Scatter.getElem?_filter_countP h (decide_eq_true ⟨rfl, hb⟩)) hq

theorem exists_mapM_eq_ok {α β E : Type} {f : α → Except E β} {l : List α}
    (h : ∀ a ∈ l, ∃ b, f a = .ok b) :
    ∃ bs : List β, l.mapM f = .ok bs ∧ bs.length = l.length ∧
      ∀ (i : ℕ) (a : α), l[i]? = some a → ∃ b, bs[i]? = some b ∧ f a = .ok b := by
  induction l with
  | nil => exact ⟨[], rfl, rfl, by simp⟩
  | cons a l ih =>
    obtain ⟨b, hb⟩ := h a List.mem_cons_self
    obtain ⟨bs, hbs, hlen, hget⟩ := ih fun a ha => h a (List.mem_cons_of_mem _ ha)
    refine ⟨b :: bs, ?_, by rw [List.length_cons, List.length_cons, hlen], ?_⟩
    · rw [List.mapM_cons, hb, hbs]
      rfl
    · intro i a' ha'
      cases i with
      | zero =>
        obtain rfl : a = a' := Option.some.inj ha'
        exact ⟨b, rfl, hb⟩
      | succ i => exact hget i a' ha'

variable [OrderAbi]

theorem buildOrderSummary_isOk {order : OrderWithVaults F} {input output : RaindexVault F}
    (h : resolveIoVaults order = .ok (input, output)) (ioRatio : String) :
    ∃ summary, buildOrderSummary order ioRatio = .ok summary ∧ summary.ioRatio = ioRatio := by
  rw [buildOrderSummary, h]
  exact ⟨_, rfl, rfl⟩

def summaries (client : RaindexOrdersClient F) (orders : List (OrderWithVaults F)) :
    Except ApiError (List OrderSummary) :=
  (orders.zip (orders.mapIdx fun i order => shownRatio client orders i order)).mapM fun x =>
    buildOrderSummary x.1 x.2

theorem listOrders_eq {filters : OrdersFilters} {page pageSize : Option UInt16}
    {totalCount : UInt32} (hpage : client.getOrders filters (some (page.getD 1))
      (some (min (pageSize.getD ordersDefaultPageSize) ordersMaxPageSize)) =
        .ok (orders, totalCount)) :
    listOrders (raindexOrdersListDataSource client) filters page pageSize =
      some ((summaries client orders).map fun summaries =>
        ⟨summaries, buildPagination totalCount (page.getD 1).toUInt32
          (min (pageSize.getD ordersDefaultPageSize) ordersMaxPageSize).toUInt32⟩) := by
  obtain ⟨quoteResults, hr⟩ : ∃ quoteResults,
      RaindexOrdersListDataSource.getOrderQuotesBatch client (orders.filter hasBalance) =
        some quoteResults := ⟨_, getOrderQuotesBatch_eq client _⟩
  have hlen : quoteResults.length = (orders.filter hasBalance).length := by
    have h := hr
    rw [getOrderQuotesBatch_eq, Option.some.injEq] at h
    rw [← h, List.length_mapIdx]
  obtain ⟨ioRatios, hfill, hl, hget⟩ := fillIoRatios_spec hlen
  have he : ioRatios = orders.mapIdx fun i order => shownRatio client orders i order := by
    apply List.ext_getElem?
    intro i
    rw [List.getElem?_mapIdx]
    cases ho : orders[i]? with
    | none =>
      rw [Option.map_none, List.getElem?_eq_none_iff, hl]
      exact List.getElem?_eq_none_iff.1 ho
    | some order =>
      rw [hget i order ho, Option.map_some, shownRatio]
      cases hb : hasBalance order with
      | false => rfl
      | true =>
        rw [getElem?_getOrderQuotesBatch ho hb hr]
        rfl
  rw [he] at hfill
  simp only [listOrders, raindexOrdersListDataSource, RaindexOrdersListDataSource.getOrdersList,
    hpage, map_fst_quotable, hr, hfill, Option.bind_eq_bind, Option.bind_some, Option.pure_def]
  rw [summaries]
  cases (orders.zip (orders.mapIdx fun i order => shownRatio client orders i order)).mapM
      fun x => buildOrderSummary x.1 x.2 with
  | error e => rfl
  | ok summaries => rfl

variable (client) in
theorem summaries_isOk
    (hvaults : ∀ order ∈ orders, ∃ input output, resolveIoVaults order = .ok (input, output)) :
    ∃ rows, summaries client orders = .ok rows ∧ rows.length = orders.length ∧
      ∀ i order, orders[i]? = some order → ∃ summary, rows[i]? = some summary ∧
        buildOrderSummary order (shownRatio client orders i order) = .ok summary := by
  have hlen : (orders.zip (orders.mapIdx fun i order => shownRatio client orders i order)).length =
      orders.length := by
    rw [List.length_zip, List.length_mapIdx, min_self]
  obtain ⟨rows, hrows, hl, hget⟩ := exists_mapM_eq_ok
    (l := orders.zip (orders.mapIdx fun i order => shownRatio client orders i order))
    (f := fun x => buildOrderSummary x.1 x.2) (by
      rintro ⟨order, ratio⟩ hx
      obtain ⟨input, output, h⟩ := hvaults order (List.of_mem_zip hx).1
      obtain ⟨summary, hs, -⟩ := buildOrderSummary_isOk h ratio
      exact ⟨summary, hs⟩)
  refine ⟨rows, hrows, hl.trans hlen, ?_⟩
  intro i order ho
  apply hget i (order, shownRatio client orders i order)
  rw [List.getElem?_zip_eq_some, List.getElem?_mapIdx, ho]
  exact ⟨rfl, rfl⟩

/-- Every order of a batch has one result, at its own position, and every order of a page has
one summary, in the page's order and alike from both listings, with the ratio of its own first
quote or a dash. -/
theorem processGetOrders_ratios {Own : OrderWithVaults F → List RaindexOrderQuote → Prop}
    (hown : QuotesOwn client Own)
    (hvaults : ∀ order ∈ orders,
      (∃ v ∈ order.vaultsList, v.IsInput) ∧ ∃ v ∈ order.vaultsList, v.IsOutput)
    (owner token : Address) (side : Option OrderSide)
    (page pageSize page' pageSize' : Option UInt16) {totalCount totalCount' : UInt32}
    (howner : client.getOrders (ownerFilters owner) (some (page.getD 1))
      (some (min (pageSize.getD 20) 50)) = .ok (orders, totalCount))
    (htoken : client.getOrders (tokenFilters token side) (some (page'.getD 1))
      (some (min (pageSize'.getD 20) 50)) = .ok (orders, totalCount')) :
    (∀ batch, ∃ results,
      (raindexOrdersListDataSource client).getOrderQuotesBatch batch = some results ∧
      results.length = batch.length ∧
      ∀ (i : ℕ) (order : OrderWithVaults F), batch[i]? = some order → ∃ result,
        results[i]? = some result ∧
        result = quoteResult client (batch.filter fun o => o.chainId = order.chainId)
          ((batch.take i).countP fun o => o.chainId = order.chainId) order ∧
        ∀ quotes, result = .ok quotes → Own order quotes) ∧
    ∃ rows : List OrderSummary,
      processGetOrdersByOwner (raindexOrdersListDataSource client) owner page pageSize =
        some (.ok ⟨rows, buildPagination totalCount (page.getD 1).toUInt32
          (min (pageSize.getD 20) 50).toUInt32⟩) ∧
      processGetOrdersByToken (raindexOrdersListDataSource client) token side page' pageSize' =
        some (.ok ⟨rows, buildPagination totalCount' (page'.getD 1).toUInt32
          (min (pageSize'.getD 20) 50).toUInt32⟩) ∧
      rows.length = orders.length ∧
      ∀ (i : ℕ) (order : OrderWithVaults F), orders[i]? = some order → ∃ summary,
        rows[i]? = some summary ∧
        buildOrderSummary order summary.ioRatio = .ok summary ∧
        (hasBalance order = false → summary.ioRatio = "-") ∧
        (hasBalance order = true →
          summary.ioRatio = ioRatioOf (orderResult client orders i order) ∧
          ∀ quotes, orderResult client orders i order = .ok quotes → Own order quotes) := by
  constructor
  · intro batch
    refine ⟨_, getOrderQuotesBatch_eq client batch, List.length_mapIdx, ?_⟩
    intro i order ho
    refine ⟨_, by rw [List.getElem?_mapIdx, ho, Option.map_some], rfl, ?_⟩
    intro quotes hq
    exact hown.quoteResult (Scatter.getElem?_filter_countP ho (decide_eq_true rfl)) hq
  · have hio : ∀ order ∈ orders, ∃ input output, resolveIoVaults order = .ok (input, output) :=
      fun order ho => resolveIoVaults_isOk (hvaults order ho).1 (hvaults order ho).2
    obtain ⟨rows, hrows, hlen, hget⟩ := summaries_isOk client hio
    refine ⟨rows, ?_, ?_, hlen, ?_⟩
    · rw [processGetOrdersByOwner, listOrders_eq howner, hrows]
      rfl
    · rw [processGetOrdersByToken, listOrders_eq htoken, hrows]
      rfl
    · intro i order ho
      obtain ⟨summary, hs, hb⟩ := hget i order ho
      obtain ⟨input, output, h⟩ := hio order (List.mem_of_getElem? ho)
      obtain ⟨summary', hb', hr⟩ := buildOrderSummary_isOk h (shownRatio client orders i order)
      obtain rfl : summary = summary' := Except.ok.inj (hb.symm.trans hb')
      refine ⟨summary, hs, by rw [hr]; exact hb, ?_, ?_⟩
      · intro hbal
        rw [hr, shownRatio, hbal]
        rfl
      · intro hbal
        rw [hr, shownRatio, if_pos hbal]
        exact ⟨rfl, fun quotes hq => hown.orderResult ho hbal hq⟩

end Listing

section Example

local instance noBytecode : OrderAbi := ⟨fun _ => none⟩

def quotedVault (vaultType : RaindexVaultType) (formattedBalance : String) :
    RaindexVault Unit where
  id := [3]
  vaultType := some vaultType
  vaultId := 1
  balance := ()
  formattedBalance := formattedBalance
  token := { address := 3, symbol := some "USDC", decimals := 6 }

def quotedOrder (chainId : UInt32) (orderHash : B256) (formattedBalance : String) :
    OrderWithVaults Unit where
  id := [2]
  chainId := chainId
  orderbook := 1
  orderHash := orderHash
  owner := 1
  orderBytes := [1]
  timestampAdded := 1700000000
  rainlang := none
  vaultsList := [quotedVault .input "0", quotedVault .output formattedBalance]
  inputsList := [quotedVault .input "0"]
  outputsList := [quotedVault .output formattedBalance]

def ownQuotes (order : OrderWithVaults Unit) : List RaindexOrderQuote :=
  [⟨some ⟨if order.orderHash = 10 then "1.5" else "2"⟩⟩]

def quotingClient : RaindexOrdersClient Unit where
  getOrders _ _ _ := .ok ([quotedOrder 8453 10 "1", quotedOrder 1 11 "0", quotedOrder 1 12 "0.5",
    quotedOrder 8453 13 "3"], 4)
  getQuotes order := .ok (ownQuotes order)
  getOrderQuotesBatch orders :=
    if orders.all fun o => o.chainId = 8453 then .ok ((orders.take 1).map ownQuotes)
    else .error (.other "rpc")
  getTradesList _ := .ok []
  getRemoveCalldata _ := .ok []

theorem quotingClient_own :
    QuotesOwn quotingClient fun order quotes => quotes = ownQuotes order where
  single := by
    intro order quotes h
    exact (Except.ok.inj h).symm
  batch := by
    intro orders groupQuotes h p hp
    simp only [quotingClient] at h
    split_ifs at h
    obtain rfl := Except.ok.inj h
    cases orders with
    | nil => cases hp
    | cons order orders =>
      obtain rfl : p = (order, ownQuotes order) := by simpa using hp
      rfl

theorem listed_quotingClient :
    (processGetOrdersByOwner (raindexOrdersListDataSource quotingClient) 1 none none).map
      (fun r => r.map fun response => response.orders.map (·.ioRatio)) =
        some (.ok ["1.5", "-", "2", "-"]) := by
  decide +kernel

theorem processGetOrders_ratios_chains :
    ∃ rows : List OrderSummary,
      processGetOrdersByOwner (raindexOrdersListDataSource quotingClient) 1 none none =
        some (.ok ⟨rows, buildPagination 4 1 20⟩) ∧
      processGetOrdersByToken (raindexOrdersListDataSource quotingClient) 3 (some .input)
        (some 2) (some 60) = some (.ok ⟨rows, buildPagination 4 2 50⟩) ∧
      rows.map (·.ioRatio) = ["1.5", "-", "2", "-"] := by
  obtain ⟨-, rows, howner, htoken, -, -⟩ := processGetOrders_ratios quotingClient_own
    (by decide) 1 3 (some .input) none none (some 2) (some 60) rfl rfl
  refine ⟨rows, howner, htoken, ?_⟩
  have h := listed_quotingClient
  rw [howner, Option.map_some, Option.some.injEq] at h
  exact Except.ok.inj h

end Example

end AlbionApi
