import AlbionApi.DirectTrades.Takers

/-! # The taker listing and the batch

Two queries read the takes of the event tables: the taker listing by sender,
the batch by order hash. On a database whose rows convert, they tell of the
same takes.
-/

namespace AlbionApi.DirectTrades

/-- No trade event has a negative time. -/
structure EventDb.Timed (db : EventDb) : Prop where
  takeOrders : ∀ t ∈ db.takeOrders, 0 ≤ t.blockTimestamp ∧ t.blockTimestamp < 2 ^ 63
  clearV3Events : ∀ c ∈ db.clearV3Events, 0 ≤ c.blockTimestamp ∧ c.blockTimestamp < 2 ^ 63

section Agreement

variable [HexText] {F : Type} [FloatLib F] {db : EventDb} {f : DirectTradesFetcher}
  {hashes : List B256} {h : B256}

structure Shows (e : OrderTradeEntry) (r : TradeRow) : Prop where
  txHash : r.transactionHash = HexText.formatB256 e.txHash
  sender : r.transactionSender = HexText.formatAddress e.sender
  timestamp : r.blockTimestamp = e.timestamp.toNat
  id : e.id = tradeId r.transactionHash r.logIndex

theorem identified_of_mem (hw : db.HexFields F) (hd : db.Timed) {hash : String}
    {r : TradeRow} (hr : r ∈ hashRows db (f.params hashes) hash) :
    IsHash r.transactionHash ∧ IsAddress r.transactionSender ∧
      0 ≤ r.blockTimestamp ∧ r.blockTimestamp < 2 ^ 63 := by
  rcases mem_hashRows.1 hr with ⟨t, ht, -, rfl⟩ | ⟨c, hc, -, -, -, -, a, -, rfl⟩ |
    ⟨c, hc, -, -, -, -, a, -, rfl⟩
  · have htm := (mem_takesOf.1 ht).1
    obtain ⟨hash, sender, -⟩ := hw.takeOrders t htm
    exact ⟨hash, sender, hd.takeOrders t htm⟩
  · obtain ⟨hash, sender⟩ := hw.clearV3Events c hc
    exact ⟨hash, sender, hd.clearV3Events c hc⟩
  · obtain ⟨hash, sender⟩ := hw.clearV3Events c hc
    exact ⟨hash, sender, hd.clearV3Events c hc⟩

theorem shows_of_entryFor (hw : db.HexFields F) (hd : db.Timed) {hash : String} {r : TradeRow}
    (hr : r ∈ hashRows db (f.params hashes) hash) {e : OrderTradeEntry}
    (he : entryFor F h r.select = some e) : Shows e r := by
  obtain ⟨⟨txHash, ht⟩, ⟨sender, hs⟩, h0, hlt⟩ := identified_of_mem hw hd hr
  obtain ⟨-, htx, hsender, -, -, hid, hts⟩ := convertRawTrade_eq_ok.1 (entryFor_eq_some.1 he)
  simp only [TradeRow.select] at htx hsender hid hts
  rw [ht, HexText.parseB256_format, Option.some.injEq] at htx
  rw [hs, HexText.parseAddress_format, Option.some.injEq] at hsender
  exact ⟨htx ▸ ht, hsender ▸ hs, by rw [hts, toNat_ofInt h0 hlt], hid⟩

theorem exists_shown (hw : db.HexFields F) (hd : db.Timed) (hm : h ∈ hashes)
    {e : OrderTradeEntry} (he : e ∈ fetchedTrades F f db hashes h) :
    ∃ r ∈ hashRows db (f.params hashes) (HexText.formatB256 h), Shows e r := by
  rw [fetchedTrades_eq_filterMap hm, List.mem_filterMap] at he
  obtain ⟨raw, hraw, he⟩ := he
  obtain ⟨r, hr, rfl⟩ := (mem_batchQuery_filter (mem_params hm)).1 hraw
  exact ⟨r, hr, shows_of_entryFor hw hd hr he⟩

theorem exists_shows (hw : db.HexFields F) (hd : db.Timed) (hm : h ∈ hashes) {r : TradeRow}
    (hr : r ∈ hashRows db (f.params hashes) (HexText.formatB256 h)) :
    ∃ e ∈ fetchedTrades F f db hashes h, Shows e r := by
  obtain ⟨e, he⟩ := hw.exists_entryFor hr
  refine ⟨e, ?_, shows_of_entryFor hw hd hr he⟩
  rw [fetchedTrades_eq_filterMap hm, List.mem_filterMap]
  exact ⟨r.select, (mem_batchQuery_filter (mem_params hm)).2 ⟨r, hr, rfl⟩, he⟩

omit [HexText] in
theorem TradeRow.blockTimestamp_le {r r' : TradeRow} (ho : r.orderHash = r'.orderHash)
    (hk : r.key ≤ r'.key) : r'.blockTimestamp ≤ r.blockTimestamp := by
  rw [TradeRow.key, TradeRow.key, ho, Prod.Lex.toLex_le_toLex] at hk
  rcases hk with hlt | ⟨-, hle⟩
  · exact absurd hlt (lt_irrefl _)
  · rcases Prod.Lex.toLex_le_toLex.1 hle with hlt | ⟨heq, -⟩
    · exact (OrderDual.toDual_lt_toDual.1 hlt).le
    · exact (OrderDual.toDual_inj.1 heq).ge

theorem fetchedTrades_newest_first (hw : db.HexFields F) (hd : db.Timed) (hm : h ∈ hashes) :
    (fetchedTrades F f db hashes h).Pairwise fun a b => b.timestamp ≤ a.timestamp := by
  rw [fetchedTrades_eq hm, List.pairwise_filterMap, List.pairwise_map]
  refine (listedRows_ordered ..).imp_of_mem ?_
  intro r r' hr hr' hk e he e' he'
  rw [mem_listedRows (mem_params hm)] at hr hr'
  have hle := TradeRow.blockTimestamp_le
    ((orderHash_of_mem_hashRows hr).trans (orderHash_of_mem_hashRows hr').symm) hk
  rw [(shows_of_entryFor hw hd hr he).timestamp, (shows_of_entryFor hw hd hr' he').timestamp] at hle
  change e'.timestamp ≤ e.timestamp
  exact UInt64.le_iff_toNat_le.2 (Int.ofNat_le.1 hle)

/-! ## The two readings -/

/-- An entry of a clear in which the order was on one of the sides. -/
def IsClearEntry (db : EventDb) (f : DirectTradesFetcher) (h : B256) (e : OrderTradeEntry) :
    Prop :=
  ∃ r, Shows e r ∧
    (IsClearRow db f (HexText.formatB256 h) alice r ∨ IsClearRow db f (HexText.formatB256 h) bob r)

/-- A listing of the transactions by taker and the batch trades by order hash tell of the same
takes. -/
structure ReadingsAgree (db : EventDb) (f : DirectTradesFetcher)
    (listing : Address → List (B256 × UInt64)) (batch : List B256 → B256 → List OrderTradeEntry) :
    Prop where
  /-- The taker of every entry has its transaction listed, under a time no earlier. -/
  listed : ∀ hashes, ∀ h ∈ hashes, ∀ e ∈ batch hashes h, ¬ IsClearEntry db f h e →
    ∃ timestamp, (e.txHash, timestamp) ∈ listing e.sender ∧ e.timestamp ≤ timestamp
  /-- Every take of a listed transaction has an entry in every batch with its order. -/
  reported : ∀ sender txHash timestamp, (txHash, timestamp) ∈ listing sender →
    ∀ t ∈ takesBy db f (HexText.formatAddress sender),
      t.transactionHash = HexText.formatB256 txHash →
      ∀ h, IsTakeOf db f (HexText.formatB256 h) t → ∀ hashes, h ∈ hashes →
        ∃ e ∈ batch hashes h, Shows e (takeRowFor t (HexText.formatB256 h)) ∧
          e.txHash = txHash ∧ e.sender = sender ∧ e.timestamp ≤ timestamp
  newest_first : ∀ hashes, ∀ h ∈ hashes,
    (batch hashes h).Pairwise fun a b => b.timestamp ≤ a.timestamp

omit [HexText] in
theorem mem_takesBy {s : String} {t : TakeOrder} : t ∈ takesBy db f s ↔
    t ∈ db.takeOrders ∧ t.sender = s ∧ t.chainId = f.chainId ∧
      t.orderbookAddress = f.orderbookAddress := by
  rw [takesBy, List.mem_filter, decide_eq_true_iff]

theorem takesReadable (hw : db.HexFields F) (hd : db.Timed) (sender : Address) :
    TakesReadable db f sender := by
  intro t ht
  have htm := (mem_takesBy.1 ht).1
  exact ⟨(hw.takeOrders t htm).1, hd.takeOrders t htm⟩

theorem ListsTaker.exists_mem {sender : Address} {txHashes : List (B256 × UInt64)}
    (hl : ListsTaker db f sender txHashes) (hd : db.Timed) {t : TakeOrder}
    (ht : t ∈ takesBy db f (HexText.formatAddress sender)) {txHash : B256}
    (hx : t.transactionHash = HexText.formatB256 txHash) :
    ∃ timestamp, (txHash, timestamp) ∈ txHashes ∧ t.blockTimestamp ≤ timestamp.toNat := by
  obtain ⟨ts, hts⟩ : ∃ ts, (t.transactionHash, ts) ∈ Tables.groupMax TakeOrder.transactionHash
      TakeOrder.blockTimestamp (takesBy db f (HexText.formatAddress sender)) :=
    Tables.exists_mem_groupMax ht TakeOrder.blockTimestamp
  rw [hx] at hts
  obtain ⟨⟨t', ht', hx', rfl⟩, hlast⟩ := Tables.mem_groupMax.1 hts
  obtain ⟨h0, hlt⟩ := hd.takeOrders t' (mem_takesBy.1 ht').1
  refine ⟨UInt64.ofInt t'.blockTimestamp, (hl.mem_iff ..).2 ⟨⟨t', ht', hx', ?_⟩, ?_⟩, ?_⟩
  · rw [toNat_ofInt h0 hlt]
  · rw [toNat_ofInt h0 hlt]
    exact hlast
  · rw [toNat_ofInt h0 hlt]
    exact hlast t ht hx

/-- On a database whose rows convert, the taker listing and the batch fetch of a fetcher tell of
the same takes, and a batch lists the trades of an order from the newest on. -/
theorem readings_agree (hw : db.HexFields F) (hd : db.Timed) :
    ∃ listing : Address → List (B256 × UInt64),
      (∀ sender, f.fetchTakerTxHashes (some db) sender = .ok (listing sender)) ∧
        ReadingsAgree db f listing fun hashes h => fetchedTrades F f db hashes h := by
  have hlist (sender : Address) := exists_fetchTakerTxHashes (takesReadable (f := f) hw hd sender)
  choose listing hfetch hlists _ using hlist
  refine ⟨listing, hfetch, ?_, ?_, fun hashes h hm => fetchedTrades_newest_first hw hd hm⟩
  · intro hashes h hm e he hclear
    obtain ⟨r, hr, hshow⟩ := exists_shown hw hd hm he
    rcases mem_hashRows.1 hr with ⟨t, ht, -, rfl⟩ | hrow | hrow
    · obtain ⟨htm, htc, hto⟩ := mem_takesOf.1 ht
      obtain ⟨timestamp, hts, hle⟩ := (hlists e.sender).exists_mem hd
        (mem_takesBy.2 ⟨htm, hshow.sender, htc, hto⟩) hshow.txHash
      refine ⟨timestamp, hts, UInt64.le_iff_toNat_le.2 (Int.ofNat_le.1 ?_)⟩
      rw [← hshow.timestamp]
      exact hle
    · exact absurd ⟨r, hshow, Or.inl hrow⟩ hclear
    · exact absurd ⟨r, hshow, Or.inr hrow⟩ hclear
  · intro sender txHash timestamp hmem t ht hx h htake hashes hm
    have hlast := (((hlists sender).mem_iff txHash timestamp).1 hmem).last t ht hx
    obtain ⟨htm, htc, hto, hlatest⟩ := htake
    have hrow : takeRowFor t (HexText.formatB256 h) ∈
        hashRows db (f.params hashes) (HexText.formatB256 h) :=
      mem_hashRows.2 (Or.inl ⟨t, mem_takesOf.2 ⟨htm, htc, hto⟩,
        hlatest.reported (mem_params hm), rfl⟩)
    obtain ⟨e, he, hshow⟩ := exists_shows hw hd hm hrow
    refine ⟨e, he, hshow, ?_, ?_, UInt64.le_iff_toNat_le.2 (Int.ofNat_le.1 ?_)⟩
    · exact HexText.formatB256_injective (hshow.txHash.symm.trans hx)
    · exact HexText.formatAddress_injective
        (hshow.sender.symm.trans (mem_takesBy.1 ht).2.1)
    · rw [← hshow.timestamp]
      exact hlast

end Agreement

section Example

local instance agreementHexText : HexText := Hex.text

local instance agreementFloats : FloatLib ℚ := Rational.floats

theorem replaced_timed : replaced.Timed where
  takeOrders := by decide
  clearV3Events := by decide

theorem readings_agree_replaced : ∃ listing : Address → List (B256 × UInt64),
    (∀ sender, baseFetcher.fetchTakerTxHashes (some replaced) sender = .ok (listing sender)) ∧
      ReadingsAgree replaced baseFetcher listing fun hashes h =>
        fetchedTrades ℚ baseFetcher replaced hashes h :=
  readings_agree replaced_wellFormed.toHexFields replaced_timed

end Example

end AlbionApi.DirectTrades
