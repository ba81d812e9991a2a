import AlbionApi.Trades.DataSource

/-! # The scan of all orders

The scan as a run of calls to a source whose answers may depend on everything
that it was asked before. The page counter bounds the calls of any run, and a
source that pages a fixed list is asked for each of its pages once.
-/

namespace AlbionApi

/-- A source of orders with a state that each call may change. -/
structure OrdersSource (σ : Type) where
  getOrders : σ → GetOrdersFilters → Option UInt16 → Option UInt16 →
    Except ApiError (List RaindexOrder × UInt32) × σ

/-- A call of the scan: the page it asks for and the answer. -/
structure OrdersCall where
  page : UInt16
  answer : Except ApiError (List RaindexOrder × UInt32)

structure OrdersScan where
  result : Except ApiError (List RaindexOrder)
  calls : List OrdersCall

variable {σ : Type}

/-- The loop of `fetch_all_orders` with its calls. -/
def scanOrdersFrom (src : OrdersSource σ) (filters : GetOrdersFilters) (state : σ) (page : UInt16)
    (allOrders : List RaindexOrder) : OrdersScan :=
  match src.getOrders state filters (some page) (some ordersScanPageSize) with
  | (.error e, _) => ⟨.error e, [⟨page, .error e⟩]⟩
  | (.ok (orders, totalCount), state) =>
    let call : OrdersCall := ⟨page, .ok (orders, totalCount)⟩
    let allOrders := allOrders ++ orders
    if allOrders.length ≥ totalCount.toNat then ⟨.ok allOrders, [call]⟩
    else if totalCount = 0 then ⟨.ok allOrders, [call]⟩
    else if _h : nextPage page = 65535 then ⟨.ok allOrders, [call]⟩
    else
      let rest := scanOrdersFrom src filters state (nextPage page) allOrders
      ⟨rest.result, call :: rest.calls⟩
termination_by 65535 - page.toNat
decreasing_by
  have := toNat_nextPage _h
  omega

def scanOrders (src : OrdersSource σ) (filters : GetOrdersFilters) (state : σ) : OrdersScan :=
  scanOrdersFrom src filters state 1 []

/-- What a source answers when it is asked for some pages, one after the other. -/
def OrdersSource.ask (src : OrdersSource σ) (filters : GetOrdersFilters) :
    σ → List UInt16 → List OrdersCall
  | _, [] => []
  | state, page :: pages =>
    let (answer, state) := src.getOrders state filters (some page) (some ordersScanPageSize)
    ⟨page, answer⟩ :: src.ask filters state pages

/-- A data source answers without a state. -/
def TradesDataSource.ordersSource {F : Type} (ds : TradesDataSource F) : OrdersSource Unit where
  getOrders _ filters page pageSize := (ds.getOrders filters page pageSize, ())

section Scan

variable {src : OrdersSource σ} {filters : GetOrdersFilters}

/-- A scan ends with its first call, or goes on with the next page after the orders of the
first. -/
theorem scanOrdersFrom_cases (src : OrdersSource σ) (filters : GetOrdersFilters) (state : σ)
    (page : UInt16) (allOrders : List RaindexOrder) :
    ∃ answer state',
      src.getOrders state filters (some page) (some ordersScanPageSize) = (answer, state') ∧
      ((∃ e, answer = .error e ∧
        scanOrdersFrom src filters state page allOrders = ⟨.error e, [⟨page, answer⟩]⟩) ∨
      ∃ orders totalCount, answer = .ok (orders, totalCount) ∧
        (scanOrdersFrom src filters state page allOrders =
          ⟨.ok (allOrders ++ orders), [⟨page, answer⟩]⟩ ∨
        nextPage page ≠ 65535 ∧
          scanOrdersFrom src filters state page allOrders =
            ⟨(scanOrdersFrom src filters state' (nextPage page) (allOrders ++ orders)).result,
              ⟨page, answer⟩ ::
                (scanOrdersFrom src filters state' (nextPage page)
                  (allOrders ++ orders)).calls⟩)) := by
  rw [scanOrdersFrom]
  obtain ⟨answer, state'⟩ :=
    src.getOrders state filters (some page) (some ordersScanPageSize)
  refine ⟨answer, state', rfl, ?_⟩
  cases answer with
  | error e => exact Or.inl ⟨e, rfl, rfl⟩
  | ok answer =>
    obtain ⟨orders, totalCount⟩ := answer
    refine Or.inr ⟨orders, totalCount, rfl, ?_⟩
    dsimp only
    split_ifs with hd hz hn
    · exact Or.inl rfl
    · exact Or.inl rfl
    · exact Or.inl rfl
    · exact Or.inr ⟨hn, rfl⟩

/-- What holds of a scan from some page on, with some orders read before. -/
structure OrdersScan.Reads (src : OrdersSource σ) (filters : GetOrdersFilters) (state : σ)
    (page : UInt16) (allOrders : List RaindexOrder) (scan : OrdersScan) : Prop where
  asked : scan.calls = src.ask filters state (scan.calls.map (·.page))
  pages : scan.calls.map (·.page.toNat) = List.range' page.toNat scan.calls.length
  bound : page.toNat + scan.calls.length ≤ 65535
  concat : ∀ orders, scan.result = .ok orders →
    ∃ answers : List (List RaindexOrder × UInt32),
      scan.calls.map (·.answer) = answers.map .ok ∧
        orders = allOrders ++ answers.flatMap Prod.fst

/-- The calls ask for consecutive pages, the counter ends them, and what the scan returns is
what they read, in order. -/
theorem scanOrdersFrom_reads (src : OrdersSource σ) (filters : GetOrdersFilters) (state : σ)
    (page : UInt16) (allOrders : List RaindexOrder) (hp : page.toNat ≤ 65534) :
    OrdersScan.Reads src filters state page allOrders
      (scanOrdersFrom src filters state page allOrders) := by
  obtain ⟨answer, state', ha, ⟨e, rfl, he⟩ | ⟨orders, totalCount, rfl, he | ⟨hn, he⟩⟩⟩ :=
    scanOrdersFrom_cases src filters state page allOrders
  · rw [he]
    refine ⟨?_, rfl, Nat.add_le_add_right hp 1, nofun⟩
    simp [OrdersSource.ask, ha]
  · rw [he]
    refine ⟨?_, rfl, Nat.add_le_add_right hp 1, ?_⟩
    · simp [OrdersSource.ask, ha]
    · rintro _ ⟨rfl⟩
      exact ⟨[(orders, totalCount)], rfl, by simp⟩
  · obtain ⟨hlt, hnext⟩ := toNat_nextPage hn
    have rest := scanOrdersFrom_reads src filters state' (nextPage page) (allOrders ++ orders)
      (by omega)
    have hpages := rest.pages
    have hbound := rest.bound
    rw [hnext] at hpages hbound
    rw [he]
    refine ⟨?_, ?_, ?_, fun all hall => ?_⟩
    · rw [List.map_cons, OrdersSource.ask, ha]
      exact congrArg _ rest.asked
    · rw [List.map_cons, hpages, List.length_cons, List.range'_succ]
    · rw [List.length_cons]
      omega
    · obtain ⟨answers, hanswers, rfl⟩ := rest.concat all hall
      refine ⟨(orders, totalCount) :: answers, ?_, ?_⟩
      · rw [List.map_cons, hanswers, List.map_cons]
      · rw [List.flatMap_cons, List.append_assoc]
termination_by 65535 - page.toNat

end Scan

section Serves

variable {src : OrdersSource σ} {filters : GetOrdersFilters} {orders : List RaindexOrder}

/-- Whatever it was asked before, a source answers with the pages of one list and its length. -/
def OrdersSource.Serves (src : OrdersSource σ) (filters : GetOrdersFilters)
    (orders : List RaindexOrder) : Prop :=
  ∀ (state : σ) (page : UInt16), 0 < page.toNat →
    (src.getOrders state filters (some page) (some ordersScanPageSize)).1 =
      .ok (Listing.page orders ordersScanPageSize.toNat page.toNat, UInt32.ofNat orders.length)

theorem take_append_page {page : UInt16} (hp : 0 < page.toNat) :
    orders.take ((page.toNat - 1) * 50) ++ Listing.page orders 50 page.toNat =
      orders.take (page.toNat * 50) := by
  obtain ⟨k, hk⟩ := Nat.exists_eq_add_of_lt hp
  rw [hk, Listing.page, Nat.zero_add, Nat.add_sub_cancel, Nat.add_mul, ← List.take_add]

/-- While orders are left, none of the tests that end the loop holds. -/
theorem scan_continues {page : UInt16} (hn : orders.length ≤ 50 * 65534)
    (h : page.toNat * 50 < orders.length) :
    ¬ (orders.take (page.toNat * 50)).length ≥ (UInt32.ofNat orders.length).toNat ∧
      UInt32.ofNat orders.length ≠ 0 ∧ nextPage page ≠ 65535 ∧
      (nextPage page).toNat = page.toNat + 1 := by
  have hl : (UInt32.ofNat orders.length).toNat = orders.length := by
    rw [UInt32.toNat_ofNat']
    omega
  refine ⟨?_, ?_, nextPage_of_lt (by omega)⟩
  · rw [List.length_take, hl]
    omega
  · intro e
    rw [e] at hl
    simp at hl
    omega

theorem OrdersSource.Serves.scanOrdersFrom_eq (hs : src.Serves filters orders)
    (hn : orders.length ≤ 50 * 65534) (state : σ) (page : UInt16) (hp : 0 < page.toNat) :
    (scanOrdersFrom src filters state page (orders.take ((page.toNat - 1) * 50))).result =
        .ok orders ∧
      (scanOrdersFrom src filters state page
          (orders.take ((page.toNat - 1) * 50))).calls.length + (page.toNat - 1) =
        max page.toNat (Listing.pageCount orders.length 50) := by
  have ha := hs state page hp
  rcases hg : src.getOrders state filters (some page) (some ordersScanPageSize)
    with ⟨answer, state'⟩
  rw [hg] at ha
  obtain rfl : answer = _ := ha
  rw [scanOrdersFrom, hg]
  simp only [show ordersScanPageSize.toNat = 50 from rfl, take_append_page hp]
  by_cases hd : orders.length ≤ page.toNat * 50
  · have hcount : Listing.pageCount orders.length 50 ≤ page.toNat :=
      (Listing.pageCount_le_iff (by decide)).mpr hd
    rw [List.take_of_length_le hd, if_pos]
    · refine ⟨rfl, ?_⟩
      rw [max_eq_left hcount, List.length_singleton]
      omega
    · rw [UInt32.toNat_ofNat']
      exact Nat.mod_le _ _
  · have hlt : page.toNat * 50 < orders.length := by omega
    obtain ⟨hshort, h0, hlast, hnat⟩ := scan_continues hn hlt
    have hcount : page.toNat < Listing.pageCount orders.length 50 :=
      (Listing.lt_pageCount_iff (by decide)).mpr hlt
    obtain ⟨hresult, hlength⟩ := hs.scanOrdersFrom_eq hn state' (nextPage page) (by omega)
    rw [hnat, Nat.add_sub_cancel] at hresult hlength
    rw [if_neg hshort, if_neg h0, dif_neg hlast]
    refine ⟨hresult, ?_⟩
    rw [max_eq_right hcount] at hlength
    rw [max_eq_right hcount.le, List.length_cons, ← hlength]
    omega
termination_by 65535 - page.toNat
decreasing_by
  have := page.toNat_lt
  omega

/-- Of any source the scan reads consecutive pages and returns what they hold, and of a source
that pages a fixed list it returns the list after one call for each page. -/
theorem scanOrders_reads (src : OrdersSource σ) (filters : GetOrdersFilters) (state : σ) :
    (scanOrders src filters state).calls.length ≤ 65534 ∧
      (scanOrders src filters state).calls.map (·.page.toNat) =
        List.range' 1 (scanOrders src filters state).calls.length ∧
      (scanOrders src filters state).calls =
        src.ask filters state ((scanOrders src filters state).calls.map (·.page)) ∧
      (∀ orders, (scanOrders src filters state).result = .ok orders →
        ∃ answers : List (List RaindexOrder × UInt32),
          (scanOrders src filters state).calls.map (·.answer) = answers.map .ok ∧
            orders = answers.flatMap Prod.fst) ∧
      ∀ orders, src.Serves filters orders → orders.length ≤ 50 * 65534 →
        (scanOrders src filters state).result = .ok orders ∧
          (scanOrders src filters state).calls.length =
            max 1 (Listing.pageCount orders.length 50) := by
  have h : OrdersScan.Reads src filters state 1 [] (scanOrders src filters state) :=
    scanOrdersFrom_reads src filters state 1 [] (by decide)
  refine ⟨?_, h.pages, h.asked, h.concat, fun orders hs hn => ?_⟩
  · exact Nat.le_of_add_le_add_left (h.bound : 1 + _ ≤ 1 + 65534)
  · exact hs.scanOrdersFrom_eq hn state 1 (by decide)

def countingSource (orders : List RaindexOrder) : OrdersSource ℕ where
  getOrders calls _ page pageSize :=
    (.ok (Listing.page orders (pageSize.getD 100).toNat (page.getD 1).toNat,
      UInt32.ofNat orders.length), calls + 1)

theorem scanOrders_reads_counting :
    (scanOrders (countingSource (List.replicate 51 ⟨[1], 8453, 2, 3, 4⟩)) {} 0).result =
        .ok (List.replicate 51 ⟨[1], 8453, 2, 3, 4⟩) ∧
      (scanOrders (countingSource (List.replicate 51 ⟨[1], 8453, 2, 3, 4⟩)) {} 0).calls.length =
        2 := by
  have h := scanOrders_reads (countingSource (List.replicate 51 ⟨[1], 8453, 2, 3, 4⟩)) {} 0
  obtain ⟨hresult, hlength⟩ := h.2.2.2.2 _ (fun _ _ _ => rfl) (by simp)
  exact ⟨hresult, hlength⟩

end Serves

/-! ## Data sources -/

section DataSource

variable {F : Type} {ds : TradesDataSource F} {filters : GetOrdersFilters}
  {orders : List RaindexOrder}

theorem scanOrdersFrom_result (ds : TradesDataSource F) (filters : GetOrdersFilters)
    (page : UInt16) (allOrders : List RaindexOrder) :
    (scanOrdersFrom ds.ordersSource filters () page allOrders).result =
      fetchAllOrdersFrom ds filters page allOrders := by
  rw [scanOrdersFrom, fetchAllOrdersFrom, TradesDataSource.ordersSource]
  dsimp only
  cases ds.getOrders filters (some page) (some ordersScanPageSize) with
  | error e => rfl
  | ok answer =>
    obtain ⟨orders, totalCount⟩ := answer
    dsimp only
    split_ifs with hd hz hn
    · rfl
    · rfl
    · rfl
    · have := toNat_nextPage hn
      exact scanOrdersFrom_result ds filters (nextPage page) (allOrders ++ orders)
termination_by 65535 - page.toNat

theorem scanOrders_result (ds : TradesDataSource F) (filters : GetOrdersFilters) :
    (scanOrders ds.ordersSource filters ()).result = fetchAllOrders ds filters :=
  scanOrdersFrom_result ds filters 1 []

theorem ServesOrders.fetchAllOrders_eq (hs : ServesOrders ds filters orders)
    (hn : orders.length ≤ 50 * 65534) : fetchAllOrders ds filters = .ok orders := by
  have hserves : ds.ordersSource.Serves filters orders := fun _ page hp => hs page hp
  rw [← scanOrders_result]
  exact (hserves.scanOrdersFrom_eq hn () 1 (by decide)).1

end DataSource

end AlbionApi
