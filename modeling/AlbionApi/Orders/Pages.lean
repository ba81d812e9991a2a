import AlbionApi.Foundations.Tables
import AlbionApi.Orders.Ratios

/-! # Pages of orders

A listing of orders asks the library for one page of at most 50 orders and
shows what it gets. Over a library that pages a fixed list the pages add up to
the list, as far as 16 bits number them.
-/

namespace AlbionApi

variable {F : Type}

/-- The library pages a fixed list of orders for some filters, with its true total. -/
def PagesOrders (client : RaindexOrdersClient F) (filters : OrdersFilters)
    (orders : List (OrderWithVaults F)) : Prop :=
  ∀ page size : UInt16, 0 < page → client.getOrders filters (some page) (some size) =
    .ok (Listing.page orders size.toNat page.toNat, UInt32.ofNat orders.length)

/-- A summary without the ratio, which depends on the other orders of the page. -/
def OrderSummary.unquoted (summary : OrderSummary) : OrderSummary :=
  { summary with ioRatio := "-" }

def effectivePageSize (pageSize : Option UInt16) : ℕ :=
  (min (pageSize.getD ordersDefaultPageSize) ordersMaxPageSize).toNat

/-- The rows that the first pages of a listing show, but for their ratios. -/
def shownOn (responses : UInt16 → OrdersListResponse) (n : ℕ) :
    List (Except ApiError OrderSummary) :=
  (List.range' 1 n).flatMap fun p =>
    (responses (UInt16.ofNat p)).orders.map fun s => .ok s.unquoted

/-- The law of pages of a listing of orders. -/
structure ListsOrders [OrderAbi] (orders : List (OrderWithVaults F)) (size : ℕ)
    (responses : UInt16 → OrdersListResponse) : Prop where
  concat : ∀ n < 2 ^ 16, shownOn responses n =
    (orders.take (n * size)).map fun order => buildOrderSummary order "-"
  complete : 0 < size → Listing.pageCount orders.length size < 2 ^ 16 →
    shownOn responses (Listing.pageCount orders.length size) =
      orders.map fun order => buildOrderSummary order "-"
  pagination : ∀ page, 0 < page →
    (responses page).pagination.totalOrders.toNat = orders.length ∧
    (responses page).pagination.totalPages.toNat = Listing.pageCount orders.length size ∧
    (responses page).pagination.page = page.toUInt32 ∧
    (responses page).pagination.pageSize.toNat = size
  hasMore : ∀ page, 0 < page → page < 65535 →
    ((responses page).pagination.hasMore = true ↔ (responses (page + 1)).orders ≠ [])

section Pages

variable [OrderAbi] {client : RaindexOrdersClient F} {filters : OrdersFilters}
  {orders : List (OrderWithVaults F)}

theorem buildOrderSummary_ratio {order : OrderWithVaults F} {ioRatio : String}
    {summary : OrderSummary} (h : buildOrderSummary order ioRatio = .ok summary)
    (ioRatio' : String) : buildOrderSummary order ioRatio' = .ok { summary with ioRatio := ioRatio' } := by
  unfold buildOrderSummary at h ⊢
  cases hv : resolveIoVaults order with
  | error e =>
    rw [hv] at h
    cases h
  | ok io =>
    rw [hv] at h
    cases h
    rfl

theorem map_unquoted (order : OrderWithVaults F) (ioRatio : String) :
    (buildOrderSummary order ioRatio).map OrderSummary.unquoted = buildOrderSummary order "-" := by
  unfold buildOrderSummary
  cases resolveIoVaults order <;> rfl

theorem unquoted_summaries {rows : List OrderSummary} (h : summaries client orders = .ok rows) :
    (rows.map fun s => (.ok s.unquoted : Except ApiError _)) =
      orders.map fun order => buildOrderSummary order "-" := by
  have hrows := congrArg (List.map (Except.map OrderSummary.unquoted))
    (Tables.map_ok_of_mapM_read h)
  rw [List.map_map, List.map_map] at hrows
  have hfst : (orders.zip (orders.mapIdx fun i order => shownRatio client orders i order)).map
      Prod.fst = orders := List.map_fst_zip (by rw [List.length_mapIdx])
  calc _ = _ := hrows
    _ = (orders.zip (orders.mapIdx fun i order => shownRatio client orders i order)).map
        fun x => buildOrderSummary x.1 "-" := List.map_congr_left fun x _ => map_unquoted x.1 x.2
    _ = _ := by
      conv_rhs => rw [← hfst]
      rw [List.map_map]
      rfl

omit [OrderAbi] in
theorem buildPagination_hasMore (total page size : UInt32) :
    (buildPagination total page size).hasMore = true ↔
      page.toNat < Listing.pageCount total.toNat size.toNat := by
  have ht := toNat_totalPages total.toUInt64 size
  rw [UInt32.toNat_toUInt64] at ht
  rw [← ht, buildPagination, decide_eq_true_iff, UInt64.lt_iff_toNat_lt, UInt32.toNat_toUInt64]
  rfl

theorem exists_page (hp : PagesOrders client filters orders)
    (hvaults : ∀ order ∈ orders, ∃ input output, resolveIoVaults order = .ok (input, output))
    (pageSize : Option UInt16) (page : UInt16) (h0 : 0 < page) :
    ∃ response, listOrders (raindexOrdersListDataSource client) filters (some page) pageSize =
        some (.ok response) ∧
      ((response.orders.map fun s => (.ok s.unquoted : Except ApiError _)) =
        (Listing.page orders (effectivePageSize pageSize) page.toNat).map fun order =>
          buildOrderSummary order "-") ∧
      response.pagination = buildPagination (UInt32.ofNat orders.length) page.toUInt32
        (min (pageSize.getD ordersDefaultPageSize) ordersMaxPageSize).toUInt32 := by
  have hpage := hp page (min (pageSize.getD ordersDefaultPageSize) ordersMaxPageSize) h0
  have hv : ∀ order ∈ Listing.page orders (effectivePageSize pageSize) page.toNat,
      ∃ input output, resolveIoVaults order = .ok (input, output) :=
    fun order ho => hvaults order (Listing.mem_of_mem_page ho)
  obtain ⟨rows, hrows, -, -⟩ := summaries_isOk client hv
  refine ⟨⟨rows, buildPagination (UInt32.ofNat orders.length) page.toUInt32
    (min (pageSize.getD ordersDefaultPageSize) ordersMaxPageSize).toUInt32⟩, ?_,
    unquoted_summaries hrows, rfl⟩
  have hl : listOrders (raindexOrdersListDataSource client) filters (some page) pageSize = _ :=
    listOrders_eq hpage
  rw [hl, ← effectivePageSize, hrows]
  rfl

theorem shownOn_eq {size : ℕ} {responses : UInt16 → OrdersListResponse}
    (hrows : ∀ page, 0 < page →
      ((responses page).orders.map fun s => (.ok s.unquoted : Except ApiError _)) =
        (Listing.page orders size page.toNat).map fun order => buildOrderSummary order "-")
    {n : ℕ} (hn : n < 2 ^ 16) :
    shownOn responses n = (orders.take (n * size)).map fun order => buildOrderSummary order "-" := by
  rw [← Listing.flatMap_page, List.map_flatMap]
  apply List.flatMap_congr
  intro p hp
  have hp := List.mem_range'_1.1 hp
  have hnat : (UInt16.ofNat p).toNat = p := UInt16.toNat_ofNat_of_lt' (by
    change p < 2 ^ 16
    omega)
  have h0 : 0 < UInt16.ofNat p := by
    rw [UInt16.lt_iff_toNat_lt, hnat]
    exact hp.1
  rw [hrows _ h0, hnat]

omit [OrderAbi] in
theorem toNat_next {page : UInt16} (hlt : page < 65535) : (page + 1).toNat = page.toNat + 1 := by
  have : page.toNat < 65535 := UInt16.lt_iff_toNat_lt.1 hlt
  rw [UInt16.toNat_add, UInt16.toNat_one, Nat.mod_eq_of_lt (by omega)]

theorem hasMore_iff_next (hlen : orders.length < 2 ^ 32) {page : UInt16} (hlt : page < 65535)
    (size : UInt16) {next : OrdersListResponse}
    (hrows : (next.orders.map fun s => (.ok s.unquoted : Except ApiError _)) =
      (Listing.page orders size.toNat (page + 1).toNat).map fun order =>
        buildOrderSummary order "-") :
    (buildPagination (UInt32.ofNat orders.length) page.toUInt32 size.toUInt32).hasMore = true ↔
      next.orders ≠ [] := by
  have hlength := congrArg List.length hrows
  rw [List.length_map, List.length_map, toNat_next hlt] at hlength
  rw [buildPagination_hasMore, UInt32.toNat_ofNat_of_lt' hlen, UInt16.toNat_toUInt32,
    UInt16.toNat_toUInt32, ← List.length_pos_iff, hlength, List.length_pos_iff]
  rcases Nat.eq_zero_or_pos size.toNat with hz | hz
  · simp [hz, Listing.page_size_zero, Listing.pageCount]
  · exact (Listing.page_succ_ne_nil_iff orders hz _).symm

theorem exists_listsOrders (hp : PagesOrders client filters orders)
    (hvaults : ∀ order ∈ orders, ∃ input output, resolveIoVaults order = .ok (input, output))
    (hlen : orders.length < 2 ^ 32) (pageSize : Option UInt16) :
    ∃ responses : UInt16 → OrdersListResponse,
      (∀ page, 0 < page → listOrders (raindexOrdersListDataSource client) filters (some page)
        pageSize = some (.ok (responses page))) ∧
      ListsOrders orders (effectivePageSize pageSize) responses := by
  have hex : ∀ page : UInt16, ∃ response : OrdersListResponse, 0 < page → _ := fun page => by
    by_cases h0 : 0 < page
    · exact (exists_page hp hvaults pageSize page h0).imp fun _ h _ => h
    · exact ⟨⟨[], buildPagination 0 0 0⟩, fun h => absurd h h0⟩
  choose responses hresponses using hex
  have hconcat : ∀ n < 2 ^ 16, shownOn responses n =
      (orders.take (n * effectivePageSize pageSize)).map fun order =>
        buildOrderSummary order "-" :=
    fun n hn => shownOn_eq (fun page h0 => (hresponses page h0).2.1) hn
  refine ⟨responses, fun page h0 => (hresponses page h0).1, hconcat, ?_, ?_, ?_⟩
  · intro h0 hcount
    rw [hconcat _ hcount, List.take_of_length_le ((Listing.pageCount_le_iff h0).1 le_rfl)]
  · intro page h0
    have hofNat : (UInt32.ofNat orders.length).toNat = orders.length :=
      UInt32.toNat_ofNat_of_lt' hlen
    rw [(hresponses page h0).2.2]
    refine ⟨?_, ?_, rfl, UInt16.toNat_toUInt32 _⟩
    · rw [buildPagination, UInt32.toNat_toUInt64, hofNat]
    · refine (toNat_totalPages ..).trans ?_
      rw [UInt32.toNat_toUInt64, hofNat, UInt16.toNat_toUInt32, effectivePageSize]
  · intro page h0 hlt
    have hnext : 0 < page + 1 := by
      rw [UInt16.lt_iff_toNat_lt, toNat_next hlt]
      exact Nat.succ_pos _
    rw [(hresponses page h0).2.2]
    exact hasMore_iff_next hlen hlt _ (hresponses (page + 1) hnext).2.1

end Pages

/-- Over a library that pages a fixed list, the pages of either listing show each order once, in
the library's order and however large a page is asked for, as far as 16 bits number them. -/
theorem orders_paged [OrderAbi] {client : RaindexOrdersClient F}
    {orders : List (OrderWithVaults F)}
    (hvaults : ∀ order ∈ orders,
      (∃ v ∈ order.vaultsList, v.IsInput) ∧ ∃ v ∈ order.vaultsList, v.IsOutput)
    (hlen : orders.length < 2 ^ 32) :
    (∀ owner, PagesOrders client (ownerFilters owner) orders → ∀ pageSize, ∃ responses,
      (∀ page, 0 < page → processGetOrdersByOwner (raindexOrdersListDataSource client) owner
        (some page) pageSize = some (.ok (responses page))) ∧
      ListsOrders orders (effectivePageSize pageSize) responses) ∧
    ∀ token side, PagesOrders client (tokenFilters token side) orders → ∀ pageSize,
      ∃ responses, (∀ page, 0 < page →
        processGetOrdersByToken (raindexOrdersListDataSource client) token side (some page)
          pageSize = some (.ok (responses page))) ∧
        ListsOrders orders (effectivePageSize pageSize) responses := by
  have hio : ∀ order ∈ orders, ∃ input output, resolveIoVaults order = .ok (input, output) :=
    fun order ho => resolveIoVaults_isOk (hvaults order ho).1 (hvaults order ho).2
  exact ⟨fun owner hp => exists_listsOrders hp hio hlen,
    fun token side hp => exists_listsOrders hp hio hlen⟩

section Example

local instance pagedBytecode : OrderAbi := ⟨fun _ => none⟩

def pagedOrder (orderHash : B256) : OrderWithVaults Unit where
  id := [2]
  chainId := 8453
  orderbook := 1
  orderHash := orderHash
  owner := 7
  orderBytes := [1]
  timestampAdded := 1700000000
  rainlang := none
  vaultsList := [{
    id := [3]
    vaultType := some .inputOutput
    vaultId := 1
    balance := ()
    formattedBalance := "0"
    token := { address := 3, symbol := some "USDC", decimals := 6 } }]
  inputsList := []
  outputsList := []

def pagedOrders : List (OrderWithVaults Unit) := [pagedOrder 10, pagedOrder 11, pagedOrder 12]

def pagingClient : RaindexOrdersClient Unit where
  getOrders _ page pageSize :=
    .ok (Listing.page pagedOrders (pageSize.getD 0).toNat (page.getD 1).toNat, 3)
  getQuotes _ := .ok []
  getOrderQuotesBatch orders := .ok (orders.map fun _ => [])
  getTradesList _ := .ok []
  getRemoveCalldata _ := .ok []

theorem orders_paged_three : ∃ responses,
    (∀ page, 0 < page → processGetOrdersByOwner (raindexOrdersListDataSource pagingClient) 7
      (some page) (some 2) = some (.ok (responses page))) ∧
    ListsOrders pagedOrders 2 responses :=
  (orders_paged (by decide) (by decide)).1 7 (fun _ _ _ => rfl) (some 2)

end Example

end AlbionApi
