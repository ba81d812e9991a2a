import AlbionApi.DirectTrades.Trades
import AlbionApi.Foundations.Tables
import AlbionApi.Trades.Pages

/-! # The transactions of a taker

The taker listing starts from the transactions in which the taker took orders
of the fetcher's orderbook. Every one of them is listed once, the newest first,
and walking through the pages resolves each of them once.
-/

namespace AlbionApi.DirectTrades

def takesBy (db : EventDb) (f : DirectTradesFetcher) (sender : String) : List TakeOrder :=
  db.takeOrders.filter fun t =>
    t.sender = sender ∧ t.chainId = f.chainId ∧ t.orderbookAddress = f.orderbookAddress

/-- `SELECT DISTINCT transaction_hash, MAX(block_timestamp) AS ts ... GROUP BY transaction_hash
ORDER BY ts DESC`. -/
def takerQuery (db : EventDb) (f : DirectTradesFetcher) (sender : String) : List (String × ℤ) :=
  (db.takerOrder sender f.chainId f.orderbookAddress).sort
    (Tables.groupMax TakeOrder.transactionHash TakeOrder.blockTimestamp
      (takesBy db f sender)).dedup

section Taker

variable [HexText]

def readTakerRow (row : String × ℤ) : Except ApiError (B256 × UInt64) :=
  match HexText.parseB256 row.1 with
  | none => .error (.internal "taker trades query failed")
  | some hash => .ok (hash, UInt64.ofInt row.2)

/-- Unlike a batch, which leaves a malformed row out, the listing fails with it. -/
def DirectTradesFetcher.fetchTakerTxHashes (f : DirectTradesFetcher) (db : Option EventDb) :
    FetchTakerTxHashes := fun sender =>
  match db with
  | none => .error (.internal "taker trades query failed")
  | some db => (takerQuery db f (HexText.formatAddress sender)).mapM readTakerRow

/-- A sender took orders in the transaction, for the last time at the timestamp. -/
structure LastTaken (db : EventDb) (f : DirectTradesFetcher) (sender : Address) (txHash : B256)
    (timestamp : UInt64) : Prop where
  taken : ∃ t ∈ takesBy db f (HexText.formatAddress sender),
    t.transactionHash = HexText.formatB256 txHash ∧ t.blockTimestamp = timestamp.toNat
  last : ∀ t ∈ takesBy db f (HexText.formatAddress sender),
    t.transactionHash = HexText.formatB256 txHash → t.blockTimestamp ≤ timestamp.toNat

/-- The takes of a sender have a hash and a time. -/
def TakesReadable (db : EventDb) (f : DirectTradesFetcher) (sender : Address) : Prop :=
  ∀ t ∈ takesBy db f (HexText.formatAddress sender), IsHash t.transactionHash ∧
    0 ≤ t.blockTimestamp ∧ t.blockTimestamp < 2 ^ 63

/-- The list has every transaction of the taker once, the newest first. -/
structure ListsTaker (db : EventDb) (f : DirectTradesFetcher) (sender : Address)
    (txHashes : List (B256 × UInt64)) : Prop where
  nodup : (txHashes.map Prod.fst).Nodup
  mem_iff : ∀ txHash timestamp,
    (txHash, timestamp) ∈ txHashes ↔ LastTaken db f sender txHash timestamp
  newest_first : txHashes.Pairwise fun a b => b.2 ≤ a.2

section Query

variable {db : EventDb} {f : DirectTradesFetcher} {sender : Address} {hash : String} {ts : ℤ}

omit [HexText] in
theorem mem_takerQuery {s : String} : (hash, ts) ∈ takerQuery db f s ↔
    (∃ t ∈ takesBy db f s, t.transactionHash = hash ∧ t.blockTimestamp = ts) ∧
      ∀ t ∈ takesBy db f s, t.transactionHash = hash → t.blockTimestamp ≤ ts := by
  rw [takerQuery, Listing.Sorting.mem_sort, List.mem_dedup, Tables.mem_groupMax]

omit [HexText] in
theorem nodup_takerQuery (db : EventDb) (f : DirectTradesFetcher) (s : String) :
    ((takerQuery db f s).map Prod.fst).Nodup := by
  rw [takerQuery, (((db.takerOrder ..).perm _).map Prod.fst).nodup_iff]
  exact Tables.nodup_keys_groupMax.sublist ((List.dedup_sublist _).map Prod.fst)

omit [HexText] in
theorem takerQuery_ordered (db : EventDb) (f : DirectTradesFetcher) (s : String) :
    (takerQuery db f s).Pairwise fun a b => b.2 ≤ a.2 :=
  (db.takerOrder ..).ordered _

def takerRow (entry : B256 × UInt64) : String × ℤ :=
  (HexText.formatB256 entry.1, entry.2.toNat)

theorem takerRow_injective : Function.Injective takerRow := by
  rintro ⟨h, ts⟩ ⟨h', ts'⟩ he
  rw [takerRow, takerRow, Prod.mk.injEq, Nat.cast_inj, UInt64.toNat_inj] at he
  exact Prod.ext (HexText.formatB256_injective he.1) he.2

omit [HexText] in
theorem toNat_ofInt {i : ℤ} (h0 : 0 ≤ i) (hlt : i < 2 ^ 63) :
    ((UInt64.ofInt i).toNat : ℤ) = i := by
  rw [UInt64.ofInt, UInt64.toNat_ofNat']
  omega

theorem exists_readTakerRow (h : TakesReadable db f sender) {row : String × ℤ}
    (hm : row ∈ takerQuery db f (HexText.formatAddress sender)) :
    ∃ entry, readTakerRow row = .ok entry ∧ takerRow entry = row := by
  obtain ⟨hash, ts⟩ := row
  obtain ⟨⟨t, ht, rfl, rfl⟩, -⟩ := mem_takerQuery.1 hm
  obtain ⟨⟨txHash, hx⟩, h0, hlt⟩ := h t ht
  refine ⟨(txHash, UInt64.ofInt t.blockTimestamp), ?_, ?_⟩
  · rw [hx, readTakerRow, HexText.parseB256_format]
  · rw [takerRow, toNat_ofInt h0 hlt, hx]

omit [HexText] in
theorem length_takerQuery_le (db : EventDb) (f : DirectTradesFetcher) (s : String) :
    (takerQuery db f s).length ≤ db.takeOrders.length := by
  rw [takerQuery, ((db.takerOrder ..).perm _).length_eq]
  calc _ ≤ (Tables.groupMax TakeOrder.transactionHash TakeOrder.blockTimestamp
        (takesBy db f s)).length := (List.dedup_sublist _).length_le
    _ ≤ (takesBy db f s).length := Tables.length_groupMax_le _
    _ ≤ db.takeOrders.length := List.length_filter_le ..

/-- The lookup lists the transactions of the taker. -/
theorem exists_fetchTakerTxHashes (h : TakesReadable db f sender) :
    ∃ txHashes, f.fetchTakerTxHashes (some db) sender = .ok txHashes ∧
      ListsTaker db f sender txHashes ∧ txHashes.length ≤ db.takeOrders.length := by
  obtain ⟨txHashes, hf, hrows⟩ := Tables.exists_mapM_read takerRow
    fun row hm => exists_readTakerRow h hm
  refine ⟨txHashes, hf, ⟨?_, ?_, ?_⟩, ?_⟩
  · have hn := nodup_takerQuery db f (HexText.formatAddress sender)
    rw [← hrows, List.map_map] at hn
    exact List.Nodup.of_map HexText.formatB256 (by rwa [List.map_map])
  · intro txHash timestamp
    rw [← List.mem_map_of_injective takerRow_injective, hrows, takerRow, mem_takerQuery]
    exact ⟨fun h => ⟨h.1, h.2⟩, fun h => ⟨h.1, h.2⟩⟩
  · have ho := takerQuery_ordered db f (HexText.formatAddress sender)
    rw [← hrows, List.pairwise_map] at ho
    exact ho.imp fun hle => UInt64.le_iff_toNat_le.2 (Int.ofNat_le.1 hle)
  · rw [← List.length_map takerRow, hrows]
    exact length_takerQuery_le db f _

theorem fetchTakerTxHashes_unreadable {t : TakeOrder}
    (ht : t ∈ takesBy db f (HexText.formatAddress sender))
    (hn : HexText.parseB256 t.transactionHash = none) :
    f.fetchTakerTxHashes (some db) sender = .error (.internal "taker trades query failed") := by
  obtain ⟨ts, hts⟩ : ∃ ts, (t.transactionHash, ts) ∈ Tables.groupMax TakeOrder.transactionHash
      TakeOrder.blockTimestamp (takesBy db f (HexText.formatAddress sender)) :=
    Tables.exists_mem_groupMax ht TakeOrder.blockTimestamp
  have hm : (t.transactionHash, ts) ∈ takerQuery db f (HexText.formatAddress sender) :=
    mem_takerQuery.2 (Tables.mem_groupMax.1 hts)
  refine Tables.mapM_read_error hm ?_ fun row _ => ?_
  · rw [readTakerRow, hn]
  · rw [readTakerRow]
    cases HexText.parseB256 row.1 with
    | none => exact Or.inr rfl
    | some hash => exact Or.inl ⟨_, rfl⟩

end Query

/-! ## The pages -/

section Pages

variable {F : Type} [FloatLib F]

def takerTrades (ds : TradesDataSource F) (directTrades : Option FetchTakerTxHashes)
    (sender : Address) (params : TradesPaginationParams) :
    Option (Except ApiError TakerTradesResponse) :=
  (processGetTakerTrades ds directTrades ⟨.new, .new⟩ sender params).map Prod.fst

theorem resolvedTx_new (ds : TradesDataSource F) (txHash : B256) :
    resolvedTx ds .new txHash = (processGetTradesByTx ds txHash).toOption := by
  rw [resolvedTx, getCachedTradesByTx, AppCache.fst_getOrTryInsert]
  rfl

/-- Every transaction in which a sender took orders of the fetcher's orderbook is listed once,
the newest first, and a walk through the pages of any size meets the trades of each of them once,
less those that fail to resolve. A take without a readable hash fails every page instead. -/
theorem taker_trades_listed (ds : TradesDataSource F) (f : DirectTradesFetcher) (db : EventDb)
    (sender : Address) (hl : db.takeOrders.length ≤ isizeMax) :
    (TakesReadable db f sender → ∃ txHashes, ListsTaker db f sender txHashes ∧
      ∀ (pageSize : UInt32) (startTime endTime : Option UInt64), 0 < pageSize →
        Listing.pageCount txHashes.length pageSize.toNat < 2 ^ 32 →
        ∃ pages : UInt32 → TakerTradesResponse,
          (∀ page, takerTrades ds (some (f.fetchTakerTxHashes (some db))) sender
            ⟨some page, some pageSize, startTime, endTime⟩ = some (.ok (pages page))) ∧
          (∀ page, (pages page).pagination.totalTrades.toNat = txHashes.length ∧
            (pages page).pagination.totalPages.toNat =
              Listing.pageCount txHashes.length pageSize.toNat) ∧
          ((List.range' 1 (Listing.pageCount txHashes.length pageSize.toNat)).flatMap
            fun p => (pages (UInt32.ofNat p)).marketOrders) =
              txHashes.filterMap fun entry => (processGetTradesByTx ds entry.1).toOption) ∧
    ((∃ t ∈ takesBy db f (HexText.formatAddress sender),
        HexText.parseB256 t.transactionHash = none) →
      ∀ params, takerTrades ds (some (f.fetchTakerTxHashes (some db))) sender params =
        some (.error (.internal "taker trades query failed"))) := by
  constructor
  · intro h
    obtain ⟨txHashes, hf, hlist, hlen⟩ := exists_fetchTakerTxHashes h
    refine ⟨txHashes, hlist, fun pageSize startTime endTime h0 hcount => ?_⟩
    have hfetch : ((⟨.new, .new⟩ : TakerCaches).takerTx.getOrTryInsert sender
        (f.fetchTakerTxHashes (some db) sender)).1 = .ok txHashes :=
      (AppCache.fst_getOrTryInsert ..).trans hf
    have hlen' := hlen.trans hl
    refine ⟨fun page => {
      marketOrders := (Listing.page txHashes pageSize.toNat page.toNat).filterMap fun entry =>
        resolvedTx ds .new entry.1
      pagination := pagination (len txHashes) page pageSize }, fun page => ?_, fun page => ?_, ?_⟩
    · obtain ⟨caches', hpage⟩ := processGetTakerTrades_eq ds hfetch hlen' (some page)
        (some pageSize) startTime endTime
      rw [takerTrades, hpage]
      rfl
    · exact ⟨toNat_len hlen', (toNat_totalPages ..).trans (by rw [toNat_len hlen'])⟩
    · have hpages : ∀ p ∈ List.range' 1 (Listing.pageCount txHashes.length pageSize.toNat),
          (UInt32.ofNat p).toNat = p := by
        intro p hp
        have := (List.mem_range'_1.1 hp).2
        exact UInt32.toNat_ofNat_of_lt' (by change p < 2 ^ 32; omega)
      calc _ = (List.range' 1 (Listing.pageCount txHashes.length pageSize.toNat)).flatMap
              fun p => (Listing.page txHashes pageSize.toNat p).filterMap fun entry =>
                (processGetTradesByTx ds entry.1).toOption := by
            apply List.flatMap_congr
            intro p hp
            simp only [hpages p hp, resolvedTx_new]
        _ = _ := by
            rw [← List.filterMap_flatMap, Listing.flatMap_page, List.take_of_length_le]
            exact (Listing.pageCount_le_iff (UInt32.lt_iff_toNat_lt.1 h0)).1 le_rfl
  · rintro ⟨t, ht, hn⟩ params
    have hf := fetchTakerTxHashes_unreadable ht hn
    simp only [takerTrades, processGetTakerTrades, hf]
    rfl

end Pages

end Taker

section Example

local instance takerHexText : HexText := Hex.text

local instance takerFloats : FloatLib ℚ := Rational.floats

def takerTake (txHash : B256) (logIndex blockTimestamp : ℤ) : TakeOrder where
  chainId := 8453
  orderbookAddress := HexText.formatAddress 1
  transactionHash := HexText.formatB256 txHash
  logIndex := logIndex
  blockNumber := blockTimestamp
  blockTimestamp := blockTimestamp
  sender := HexText.formatAddress 2
  orderOwner := HexText.formatAddress 7
  orderNonce := HexText.formatB256 1
  takerInput := HexText.formatB256 3
  takerOutput := HexText.formatB256 4

def takerDb : EventDb where
  orderEvents := []
  takeOrders := [takerTake 5 0 3, takerTake 5 1 3, takerTake 6 0 9]
  clearV3Events := []
  afterClearV2Events := []

theorem takerDb_readable (f : DirectTradesFetcher) : TakesReadable takerDb f 2 := by
  intro t ht
  have hm : t ∈ takerDb.takeOrders := (List.mem_filter.1 ht).1
  simp only [takerDb, List.mem_cons, List.not_mem_nil, or_false] at hm
  rcases hm with rfl | rfl | rfl
  · exact ⟨⟨5, rfl⟩, by decide, by decide⟩
  · exact ⟨⟨5, rfl⟩, by decide, by decide⟩
  · exact ⟨⟨6, rfl⟩, by decide, by decide⟩

theorem mem_takesBy_takerDb {t : TakeOrder}
    (h : t ∈ takesBy takerDb (fetcherFor ⟨8453, 1⟩) (HexText.formatAddress 2)) :
    t = takerTake 5 0 3 ∨ t = takerTake 5 1 3 ∨ t = takerTake 6 0 9 := by
  have hm : t ∈ takerDb.takeOrders := (List.mem_filter.1 h).1
  simpa only [takerDb, List.mem_cons, List.not_mem_nil, or_false] using hm

theorem lastTaken_takerDb : LastTaken takerDb (fetcherFor ⟨8453, 1⟩) 2 5 3 ∧
    LastTaken takerDb (fetcherFor ⟨8453, 1⟩) 2 6 9 := by
  refine ⟨⟨⟨takerTake 5 0 3, by decide +kernel, rfl, rfl⟩, fun t ht hx => ?_⟩,
    ⟨⟨takerTake 6 0 9, by decide +kernel, rfl, rfl⟩, fun t ht hx => ?_⟩⟩
  · rcases mem_takesBy_takerDb ht with rfl | rfl | rfl
    · decide
    · decide
    · exact absurd (HexText.formatB256_injective hx) (by decide)
  · rcases mem_takesBy_takerDb ht with rfl | rfl | rfl <;> decide

theorem ListsTaker.length_takerDb {txHashes : List (B256 × UInt64)}
    (h : ListsTaker takerDb (fetcherFor ⟨8453, 1⟩) 2 txHashes) : txHashes.length = 2 := by
  have hp : (txHashes.map Prod.fst).Perm [5, 6] := by
    refine (List.perm_ext_iff_of_nodup h.nodup (by decide)).2 fun x => ⟨fun hx => ?_, fun hx => ?_⟩
    · obtain ⟨⟨x, ts⟩, hm, rfl⟩ := List.mem_map.1 hx
      obtain ⟨t, ht, hx, -⟩ := ((h.mem_iff x ts).1 hm).taken
      rcases mem_takesBy_takerDb ht with rfl | rfl | rfl <;>
        simp [← HexText.formatB256_injective hx]
    · simp only [List.mem_cons, List.not_mem_nil, or_false] at hx
      rcases hx with rfl | rfl
      · exact List.mem_map.2 ⟨_, (h.mem_iff 5 3).2 lastTaken_takerDb.1, rfl⟩
      · exact List.mem_map.2 ⟨_, (h.mem_iff 6 9).2 lastTaken_takerDb.2, rfl⟩
  rw [← List.length_map Prod.fst, hp.length_eq]
  rfl

theorem taker_trades_listed_takerDb : ∃ pages : UInt32 → TakerTradesResponse,
    (∀ page, takerTrades (soleSource [])
      (some ((fetcherFor ⟨8453, 1⟩).fetchTakerTxHashes (some takerDb))) 2
      ⟨some page, some 1, none, none⟩ = some (.ok (pages page))) ∧
    ∀ page, (pages page).pagination.totalTrades.toNat = 2 := by
  obtain ⟨txHashes, hl, hpages⟩ := (taker_trades_listed (soleSource []) (fetcherFor ⟨8453, 1⟩)
    takerDb 2 (by decide)).1 (takerDb_readable _)
  have hcount : Listing.pageCount txHashes.length (1 : UInt32).toNat < 2 ^ 32 := by
    rw [hl.length_takerDb]
    decide
  obtain ⟨pages, hanswers, htotals, -⟩ := hpages 1 none none (by decide) hcount
  refine ⟨pages, hanswers, fun page => ?_⟩
  rw [(htotals page).1, hl.length_takerDb]

end Example

end AlbionApi.DirectTrades
