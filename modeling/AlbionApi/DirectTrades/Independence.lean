import AlbionApi.Api.Rational
import AlbionApi.DirectTrades.Attribution

/-! # What a batch fetch reports for a hash

The trades of a hash in a batch are those of a batch of that hash alone, and
the takes among them its own, exactly when no take of the orderbook follows an
add event of the hash that another hash replaced.
-/

namespace AlbionApi.DirectTrades

open Tables

section Rows

variable {db : EventDb} {q : QueryParams} {hash : String}

def hashRows (db : EventDb) (q : QueryParams) (hash : String) : List TradeRow :=
  ((takesOf db q).filter fun t => Reported db q t hash).map (takeRowFor · hash) ++
    clearAlice db (q.only hash) ++ clearBob db (q.only hash)

/-- The rows of the query under a hash, as the engine lists them. -/
def listedRows (db : EventDb) (q : QueryParams) (hash : String) : List TradeRow :=
  ((db.tradeOrder q).sort (unionTrades db q)).filter fun r => r.orderHash = hash

theorem batchQuery_filter (db : EventDb) (q : QueryParams) (hash : String) :
    ((batchQuery db q).filter fun raw => raw.orderHash = hash) =
      (listedRows db q hash).map TradeRow.select := by
  rw [batchQuery, List.filter_map]
  rfl

theorem unionTrades_filter (hu : (db.orderEvents.map fun e => (e.chainId, e.position)).Nodup)
    (hh : hash ∈ q.orderHashes) :
    ((unionTrades db q).filter fun r => r.orderHash = hash) = hashRows db q hash := by
  rw [unionTrades, List.filter_append, List.filter_append, takeTrades_filter hu, clearAlice,
    clearTrades_filter hh, clearBob, clearTrades_filter hh]
  rfl

theorem listedRows_perm (hu : (db.orderEvents.map fun e => (e.chainId, e.position)).Nodup)
    (hh : hash ∈ q.orderHashes) : (listedRows db q hash).Perm (hashRows db q hash) := by
  rw [← unionTrades_filter hu hh]
  exact ((db.tradeOrder q).perm _).filter _

theorem listedRows_ordered (db : EventDb) (q : QueryParams) (hash : String) :
    (listedRows db q hash).Pairwise fun r r' => r.key ≤ r'.key :=
  ((db.tradeOrder q).ordered _).filter _

theorem listedRows_refined (db : EventDb)
    (hu : (db.orderEvents.map fun e => (e.chainId, e.position)).Nodup)
    (hh : hash ∈ q.orderHashes) {tie : TradeRow → Bool} (ho : db.tradeOrder q = .refined _ tie) :
    listedRows db q hash = (Listing.Sorting.refined TradeRow.key tie).sort
      (hashRows db q hash) := by
  rw [listedRows, ho, ← unionTrades_filter hu hh]
  exact Listing.sortByKey_filter ..

theorem orderHash_of_mem_clearTrades {side : ClearSide} {r : TradeRow}
    (hr : r ∈ clearTrades side db q) : r.orderHash ∈ q.orderHashes := by
  rw [clearTrades, List.mem_dedup, List.mem_flatMap] at hr
  obtain ⟨c, -, hr⟩ := hr
  obtain ⟨oe, hoe, hr⟩ := List.mem_flatMap.1 hr
  obtain ⟨a, -, rfl⟩ := List.mem_map.1 hr
  exact (mem_orderAddEvents.1 (List.mem_of_mem_filter hoe)).2

theorem orderHash_of_mem_batchQuery {raw : RawTradeRow} (hr : raw ∈ batchQuery db q) :
    raw.orderHash ∈ q.orderHashes := by
  obtain ⟨r, hs, rfl⟩ := List.mem_map.1 hr
  rw [(db.tradeOrder q).mem_sort, unionTrades, List.mem_append, List.mem_append] at hs
  rcases hs with (hr | hr) | hr
  · obtain ⟨t, -, hr⟩ := List.mem_flatMap.1 hr
    obtain ⟨oe, hoe, rfl⟩ := List.mem_map.1 hr
    exact (mem_orderAddEvents.1 (List.mem_of_mem_filter hoe)).2
  · exact orderHash_of_mem_clearTrades hr
  · exact orderHash_of_mem_clearTrades hr

/-- Without an assumption on positions, a row may occur more than once, but the rows under a
hash are the same. -/
theorem mem_listedRows (hh : hash ∈ q.orderHashes) {r : TradeRow} :
    r ∈ listedRows db q hash ↔ r ∈ hashRows db q hash := by
  have htakes : r ∈ takeTrades db q ∧ r.orderHash = hash ↔
      ∃ t, (t ∈ takesOf db q ∧ Reported db q t hash) ∧ takeRowFor t hash = r := by
    constructor
    · rintro ⟨hr, rfl⟩
      obtain ⟨t, ht, hr⟩ := List.mem_flatMap.1 hr
      obtain ⟨oe, hoe, rfl⟩ := List.mem_map.1 hr
      obtain ⟨hoe, hj⟩ := List.mem_filter.1 hoe
      exact ⟨t, ⟨ht, oe, hoe, of_decide_eq_true hj, rfl⟩, rfl⟩
    · rintro ⟨t, ⟨ht, oe, hoe, hj, rfl⟩, rfl⟩
      refine ⟨List.mem_flatMap.2 ⟨t, ht, List.mem_map.2 ⟨oe, ?_, rfl⟩⟩, rfl⟩
      exact List.mem_filter.2 ⟨hoe, decide_eq_true hj⟩
  have hclears (side : ClearSide) : r ∈ clearTrades side db q ∧ r.orderHash = hash ↔
      r ∈ clearTrades side db (q.only hash) := by
    rw [← clearTrades_filter hh, List.mem_filter, decide_eq_true_iff]
  rw [listedRows, List.mem_filter, (db.tradeOrder q).mem_sort, decide_eq_true_iff]
  simp only [unionTrades, hashRows, List.mem_append, List.mem_map, List.mem_filter,
    decide_eq_true_iff, ← htakes, clearAlice, clearBob, ← hclears]
  tauto

theorem mem_batchQuery_filter (hh : hash ∈ q.orderHashes) {raw : RawTradeRow} :
    raw ∈ (batchQuery db q).filter (fun raw => raw.orderHash = hash) ↔
      ∃ r ∈ hashRows db q hash, r.select = raw := by
  rw [batchQuery_filter, List.mem_map]
  simp only [mem_listedRows hh]

end Rows

section TradeRows

variable {db : EventDb} {f : DirectTradesFetcher} {hash : String}

/-- A take of an orderbook whose latest add event is one of the hash. -/
def IsTakeOf (db : EventDb) (f : DirectTradesFetcher) (hash : String) (t : TakeOrder) : Prop :=
  t ∈ db.takeOrders ∧ t.chainId = f.chainId ∧ t.orderbookAddress = f.orderbookAddress ∧
    LatestHash (addOrderV3Events db f.chainId f.orderbookAddress) t hash

def clearRowFor (side : ClearSide) (c : ClearV3) (a : AfterClearV2) (hash : String) : TradeRow where
  orderHash := hash
  transactionHash := c.transactionHash
  logIndex := c.logIndex
  blockTimestamp := c.blockTimestamp
  transactionSender := c.sender
  inputDelta := side.input a
  outputDeltaRaw := side.output a

/-- A row of a side of a clear of the hash, which was added on the orderbook at or before it. -/
def IsClearRow (db : EventDb) (f : DirectTradesFetcher) (hash : String) (side : ClearSide)
    (r : TradeRow) : Prop :=
  ∃ c ∈ db.clearV3Events, c.chainId = f.chainId ∧ c.orderbookAddress = f.orderbookAddress ∧
    side.orderHash c = hash ∧
    (∃ oe ∈ addOrderV3Events db f.chainId f.orderbookAddress,
      oe.orderHash = hash ∧ oe.position ≤ c.position) ∧
    ∃ a ∈ afterClears db c, r = clearRowFor side c a hash

def IsTradeRow (db : EventDb) (f : DirectTradesFetcher) (hash : String) (r : TradeRow) : Prop :=
  (∃ t, IsTakeOf db f hash t ∧ r = takeRowFor t hash) ∨
    IsClearRow db f hash alice r ∨ IsClearRow db f hash bob r

theorem mem_clearTrades_only {hashes : List B256} [HexText] {side : ClearSide} {r : TradeRow} :
    r ∈ clearTrades side db ((f.params hashes).only hash) ↔ IsClearRow db f hash side r := by
  constructor
  · intro hr
    rw [clearTrades, List.mem_dedup, List.mem_flatMap] at hr
    obtain ⟨c, hc, hr⟩ := hr
    obtain ⟨oe, hoe, hr⟩ := List.mem_flatMap.1 hr
    obtain ⟨a, ha, rfl⟩ := List.mem_map.1 hr
    obtain ⟨hc, hch⟩ := List.mem_filter.1 hc
    obtain ⟨hcc, hco, hcs⟩ := of_decide_eq_true hch
    obtain ⟨hoe, hj⟩ := List.mem_filter.1 hoe
    obtain ⟨-, -, -, hp, -⟩ := of_decide_eq_true hj
    obtain ⟨hoe, hoh⟩ := mem_orderAddEvents.1 hoe
    have hoh := List.mem_singleton.1 hoh
    exact ⟨c, hc, hcc, hco, List.mem_singleton.1 hcs, ⟨oe, hoe, hoh, hp⟩, a, ha, by
      rw [clearRow, clearRowFor, hoh]⟩
  · rintro ⟨c, hc, hcc, hco, hcs, ⟨oe, hoe, hoh, hp⟩, a, ha, rfl⟩
    obtain ⟨-, hoc, hoo, -⟩ := mem_addOrderV3Events.1 hoe
    have hbefore : ∃ e ∈ orderAddEvents db ((f.params hashes).only hash),
        e.AddedBefore (side.orderHash c) c :=
      ⟨oe, mem_orderAddEvents.2 ⟨hoe, List.mem_singleton.2 hoh⟩, hoc.trans hcc.symm,
        hoo.trans hco.symm, hoh.trans hcs.symm, hp⟩
    obtain ⟨m, hm⟩ := exists_latest OrderEvent.position hbefore
    obtain ⟨hmem, -, -, hmh, -⟩ := hm.prop
    have hj := (joinsClear_iff hmem).2 hm
    have hrow : clearRow side c m a = clearRowFor side c a hash := by
      rw [clearRow, clearRowFor, hmh, hcs]
    rw [clearTrades, List.mem_dedup, List.mem_flatMap]
    refine ⟨c, List.mem_filter.2 ⟨hc, decide_eq_true ⟨hcc, hco, List.mem_singleton.2 hcs⟩⟩, ?_⟩
    exact List.mem_flatMap.2 ⟨m, List.mem_filter.2 ⟨hmem, decide_eq_true hj⟩,
      List.mem_map.2 ⟨a, ha, hrow⟩⟩

theorem mem_hashRows {hashes : List B256} [HexText] {r : TradeRow} :
    r ∈ hashRows db (f.params hashes) hash ↔
      (∃ t ∈ takesOf db (f.params hashes), Reported db (f.params hashes) t hash ∧
        r = takeRowFor t hash) ∨
      IsClearRow db f hash alice r ∨ IsClearRow db f hash bob r := by
  rw [hashRows, List.mem_append, List.mem_append, clearAlice, mem_clearTrades_only, clearBob,
    mem_clearTrades_only, or_assoc, List.mem_map]
  apply or_congr_left
  constructor
  · rintro ⟨t, ht, rfl⟩
    obtain ⟨ht, hr⟩ := List.mem_filter.1 ht
    exact ⟨t, ht, of_decide_eq_true hr, rfl⟩
  · rintro ⟨t, ht, hr, rfl⟩
    exact ⟨t, List.mem_filter.2 ⟨ht, decide_eq_true hr⟩, rfl⟩

theorem orderHash_of_mem_hashRows {hashes : List B256} [HexText] {r : TradeRow}
    (hr : r ∈ hashRows db (f.params hashes) hash) : r.orderHash = hash := by
  rcases mem_hashRows.1 hr with ⟨t, -, -, rfl⟩ | ⟨c, -, -, -, -, -, a, -, rfl⟩ |
    ⟨c, -, -, -, -, -, a, -, rfl⟩
  · rfl
  · rfl
  · rfl

end TradeRows

section Convert

variable {F : Type} [FloatLib F] [HexText] {h : B256}

theorem convertRawTrade_eq_ok {raw : RawTradeRow} {e : OrderTradeEntry} :
    convertRawTrade F raw = .ok (h, e) ↔
      HexText.parseB256 raw.orderHash = some h ∧
      HexText.parseB256 raw.transactionHash = some e.txHash ∧
      HexText.parseAddress raw.transactionSender = some e.sender ∧
      formatFloatHex F raw.inputDelta = .ok e.inputAmount ∧
      negateAndFormatFloatHex F raw.outputDeltaRaw = .ok e.outputAmount ∧
      e.id = raw.tradeId ∧ e.timestamp = UInt64.ofInt raw.blockTimestamp := by
  obtain ⟨id, txHash, inputAmount, outputAmount, timestamp, sender⟩ := e
  unfold convertRawTrade
  cases HexText.parseB256 raw.orderHash with
  | none => simp
  | some orderHash =>
    cases HexText.parseB256 raw.transactionHash with
    | none => simp
    | some txHash' =>
      cases HexText.parseAddress raw.transactionSender with
      | none => simp
      | some sender' =>
        cases formatFloatHex F raw.inputDelta with
        | error e => simp [bind, Except.bind]
        | ok input =>
          cases negateAndFormatFloatHex F raw.outputDeltaRaw with
          | error e => simp [bind, Except.bind]
          | ok output =>
            simp only [bind, Except.bind, pure, Except.pure, Except.ok.injEq, Prod.mk.injEq,
              OrderTradeEntry.mk.injEq, Option.some.injEq]
            tauto

def entryFor (F : Type) [FloatLib F] (h : B256) (raw : RawTradeRow) : Option OrderTradeEntry :=
  match convertRawTrade F raw with
  | .ok (h', e) => if h' = h then some e else none
  | .error _ => none

theorem entryFor_eq_some {raw : RawTradeRow} {e : OrderTradeEntry} :
    entryFor F h raw = some e ↔ convertRawTrade F raw = .ok (h, e) := by
  rw [entryFor]
  cases convertRawTrade F raw with
  | error e' => simp
  | ok r =>
    obtain ⟨h', e'⟩ := r
    by_cases he : h' = h
    · simp [he]
    · simp [he]

theorem foldl_pushRow (rows : List RawTradeRow) (m : TradesByHash) :
    ((rows.foldl (pushRow F) m) h).getD [] = (m h).getD [] ++ rows.filterMap (entryFor F h) := by
  induction rows generalizing m with
  | nil => simp
  | cons raw rows ih =>
    rw [List.foldl_cons, ih, pushRow, List.filterMap_cons, entryFor]
    cases convertRawTrade F raw with
    | error e => rfl
    | ok r =>
      obtain ⟨h', e⟩ := r
      by_cases he : h' = h
      · subst he
        simp
      · simp [he, Function.update_of_ne (Ne.symm he)]

theorem entryFor_eq_none {raw : RawTradeRow} (hr : IsHash raw.orderHash)
    (hne : raw.orderHash ≠ HexText.formatB256 h) : entryFor F h raw = none := by
  obtain ⟨h', hh⟩ := hr
  rw [Option.eq_none_iff_forall_ne_some]
  intro e he
  have hp := (convertRawTrade_eq_ok.1 (entryFor_eq_some.1 he)).1
  rw [hh, HexText.parseB256_format, Option.some.injEq] at hp
  exact hne (hp ▸ hh)

theorem filterMap_entryFor {rows : List RawTradeRow} (hr : ∀ raw ∈ rows, IsHash raw.orderHash) :
    rows.filterMap (entryFor F h) =
      (rows.filter fun raw => raw.orderHash = HexText.formatB256 h).filterMap (entryFor F h) := by
  rw [List.filterMap_filter]
  apply List.filterMap_congr
  intro raw hraw
  split_ifs with he
  · rfl
  · exact entryFor_eq_none (hr raw hraw) (by simpa using he)

/-- The trades that a batch fetch returns for a hash. -/
def fetchedTrades (F : Type) [FloatLib F] (f : DirectTradesFetcher) (db : EventDb)
    (hashes : List B256) (h : B256) : List OrderTradeEntry :=
  match f.batchFetch F (some db) hashes with
  | .ok trades => (trades h).getD []
  | .error _ => []

variable {db : EventDb} {f : DirectTradesFetcher} {hashes : List B256}

theorem mem_params (hm : h ∈ hashes) :
    HexText.formatB256 h ∈ (f.params hashes).orderHashes :=
  List.mem_map_of_mem hm

theorem fetchedTrades_eq_filterMap (hm : h ∈ hashes) : fetchedTrades F f db hashes h =
    ((batchQuery db (f.params hashes)).filter fun raw =>
      raw.orderHash = HexText.formatB256 h).filterMap (entryFor F h) := by
  have hne : hashes.isEmpty = false := by
    cases hashes with
    | nil => cases hm
    | cons a l => rfl
  have hr : ∀ raw ∈ batchQuery db (f.params hashes), IsHash raw.orderHash := by
    intro raw hraw
    obtain ⟨h', -, he⟩ := List.mem_map.1 (orderHash_of_mem_batchQuery hraw)
    exact ⟨h', he.symm⟩
  rw [fetchedTrades, DirectTradesFetcher.batchFetch, hne]
  simp only [Bool.false_eq_true, if_false]
  rw [foldl_pushRow, filterMap_entryFor hr]
  rfl

theorem fetchedTrades_eq (hm : h ∈ hashes) : fetchedTrades F f db hashes h =
    ((listedRows db (f.params hashes) (HexText.formatB256 h)).map TradeRow.select).filterMap
      (entryFor F h) := by
  rw [fetchedTrades_eq_filterMap hm, batchQuery_filter]

structure TradeRow.Readable (F : Type) [FloatLib F] (r : TradeRow) : Prop where
  sender : ∃ a, HexText.parseAddress r.transactionSender = some a
  input : ∃ text, formatFloatHex F r.inputDelta = .ok text
  output : ∃ text, negateAndFormatFloatHex F r.outputDeltaRaw = .ok text

theorem entryFor_select {r : TradeRow} {txHash : B256} (ho : r.orderHash = HexText.formatB256 h)
    (ht : r.transactionHash = HexText.formatB256 txHash) {txHash' : B256} {id : String} :
    (∃ e, entryFor F h r.select = some e ∧ e.txHash = txHash' ∧ e.id = id) ↔
      r.Readable F ∧ txHash' = txHash ∧ id = tradeId r.transactionHash r.logIndex := by
  simp only [entryFor_eq_some, convertRawTrade_eq_ok, TradeRow.select, ho, ht,
    HexText.parseB256_format, Option.some.injEq, true_and]
  constructor
  · rintro ⟨e, ⟨rfl, hs, hi, hn, hid, -⟩, rfl, rfl⟩
    exact ⟨⟨⟨_, hs⟩, ⟨_, hi⟩, _, hn⟩, rfl, hid⟩
  · rintro ⟨⟨⟨sender, hs⟩, ⟨input, hi⟩, output, hn⟩, rfl, rfl⟩
    exact ⟨⟨_, _, input, output, UInt64.ofInt r.blockTimestamp, sender⟩,
      ⟨rfl, hs, hi, hn, rfl, rfl⟩, rfl, rfl⟩

theorem EventDb.HexFields.takeRowFor (hw : db.HexFields F) {q : QueryParams} {t : TakeOrder}
    (ht : t ∈ takesOf db q) (hash : String) : (takeRowFor t hash).Readable F := by
  obtain ⟨-, h2, h3, h4⟩ := hw.takeOrders t (List.mem_of_mem_filter ht)
  exact ⟨h2.parseAddress, h4.1, h3.2⟩

def ClearSide.Reads (F : Type) [FloatLib F] (side : ClearSide) (db : EventDb) : Prop :=
  ∀ a ∈ db.afterClearV2Events, IsFloat F (side.input a) ∧ IsFloat F (side.output a)

theorem EventDb.HexFields.alice (hw : db.HexFields F) : alice.Reads F db := by
  intro a ha
  obtain ⟨h1, h2, -, -⟩ := hw.afterClearV2Events a ha
  exact ⟨h1, h2⟩

theorem EventDb.HexFields.bob (hw : db.HexFields F) : bob.Reads F db := by
  intro a ha
  obtain ⟨-, -, h3, h4⟩ := hw.afterClearV2Events a ha
  exact ⟨h3, h4⟩

theorem EventDb.HexFields.clearTrades (hw : db.HexFields F) {q : QueryParams}
    {side : ClearSide} (hs : side.Reads F db) {r : TradeRow} (hr : r ∈ clearTrades side db q) :
    IsHash r.transactionHash ∧ r.Readable F := by
  rw [DirectTrades.clearTrades, List.mem_dedup, List.mem_flatMap] at hr
  obtain ⟨c, hc, hr⟩ := hr
  obtain ⟨oe, -, hr⟩ := List.mem_flatMap.1 hr
  obtain ⟨a, ha, rfl⟩ := List.mem_map.1 hr
  obtain ⟨h1, h2⟩ := hw.clearV3Events c (List.mem_of_mem_filter hc)
  obtain ⟨h3, h4⟩ := hs a (List.mem_of_mem_filter ha)
  exact ⟨h1, h2.parseAddress, h3.1, h4.2⟩

theorem EventDb.HexFields.hashRows (hw : db.HexFields F) {q : QueryParams} {r : TradeRow}
    {hash : String} (hr : r ∈ hashRows db q hash) :
    IsHash r.transactionHash ∧ r.Readable F ∧ r.orderHash = hash := by
  rw [DirectTrades.hashRows, List.mem_append, List.mem_append] at hr
  rcases hr with (hr | hr) | hr
  · obtain ⟨t, ht, rfl⟩ := List.mem_map.1 hr
    have ht := List.mem_of_mem_filter ht
    exact ⟨(hw.takeOrders t (List.mem_of_mem_filter ht)).1, hw.takeRowFor ht hash, rfl⟩
  · obtain ⟨h1, h2⟩ := hw.clearTrades hw.alice hr
    exact ⟨h1, h2, List.mem_singleton.1 (orderHash_of_mem_clearTrades hr)⟩
  · obtain ⟨h1, h2⟩ := hw.clearTrades hw.bob hr
    exact ⟨h1, h2, List.mem_singleton.1 (orderHash_of_mem_clearTrades hr)⟩

theorem EventDb.HexFields.exists_entryFor (hw : db.HexFields F) {q : QueryParams} {r : TradeRow}
    (hr : r ∈ DirectTrades.hashRows db q (HexText.formatB256 h)) :
    ∃ e, entryFor F h r.select = some e := by
  obtain ⟨⟨txHash, ht⟩, hread, ho⟩ := hw.hashRows hr
  obtain ⟨e, he, -⟩ := (entryFor_select ho ht).2 ⟨hread, rfl, rfl⟩
  exact ⟨e, he⟩

theorem EventDb.HexFields.map_fetchedTrades (hw : db.HexFields F) (hm : h ∈ hashes) :
    (fetchedTrades F f db hashes h).map some =
      (listedRows db (f.params hashes) (HexText.formatB256 h)).map fun r =>
        entryFor F h r.select := by
  rw [fetchedTrades_eq hm, List.map_filterMap_some_eq_filter_map_isSome, List.map_map]
  refine List.filter_eq_self.2 fun o ho => ?_
  obtain ⟨r, hr, rfl⟩ := List.mem_map.1 ho
  obtain ⟨e, he⟩ := hw.exists_entryFor ((mem_listedRows (mem_params hm)).1 hr)
  rw [Function.comp_apply, he]
  rfl

theorem length_fetchedTrades (hw : db.WellFormed F) (hm : h ∈ hashes) :
    (fetchedTrades F f db hashes h).length =
      (hashRows db (f.params hashes) (HexText.formatB256 h)).length := by
  rw [← (listedRows_perm hw.nodup_orderEvents (mem_params hm)).length_eq,
    ← List.length_map (some : OrderTradeEntry → _), hw.map_fetchedTrades hm, List.length_map]

/-! ## Independence of the batch -/

/-- Every take that follows an add event of a hash with its owner and nonce belongs to the
hash: the latest such event is one of the hash. -/
def StaysLatest (db : EventDb) (f : DirectTradesFetcher) (hash : String) : Prop :=
  ∀ t ∈ db.takeOrders, t.chainId = f.chainId → t.orderbookAddress = f.orderbookAddress →
    (∃ oe ∈ addOrderV3Events db f.chainId f.orderbookAddress,
      oe.AddedFor t ∧ oe.orderHash = hash) →
    LatestHash (addOrderV3Events db f.chainId f.orderbookAddress) t hash

/-- Trades of the hash that the query does not put in an order convert to the same entry. -/
def TieFree (F : Type) [FloatLib F] (db : EventDb) (f : DirectTradesFetcher) (hash : String) :
    Prop :=
  ∀ r r', IsTradeRow db f hash r → IsTradeRow db f hash r' →
    r.blockTimestamp = r'.blockTimestamp → r.logIndex = r'.logIndex →
    convertRawTrade F r.select = convertRawTrade F r'.select

section StaysLatest

variable (hs : StaysLatest db f (HexText.formatB256 h)) (hm : h ∈ hashes)

include hs hm

theorem StaysLatest.reported_iff {t : TakeOrder} (ht : t ∈ takesOf db (f.params hashes)) :
    Reported db (f.params hashes) t (HexText.formatB256 h) ↔
      LatestHash (addOrderV3Events db f.chainId f.orderbookAddress) t
        (HexText.formatB256 h) := by
  obtain ⟨ht, hc, ho⟩ := mem_takesOf.1 ht
  exact ⟨fun hr => hs t ht hc ho (reported_only_iff.1 (hr.only (mem_params hm))),
    LatestHash.reported (q := f.params hashes) (mem_params hm)⟩

theorem StaysLatest.hashRows_only : hashRows db (f.params hashes) (HexText.formatB256 h) =
    hashRows db (f.params [h]) (HexText.formatB256 h) := by
  have honly : ∀ t ∈ takesOf db (f.params hashes),
      (Reported db (f.params hashes) t (HexText.formatB256 h) ↔
        Reported db (f.params [h]) t (HexText.formatB256 h)) := fun t ht =>
    (hs.reported_iff hm ht).trans (hs.reported_iff (List.mem_singleton_self h) ht).symm
  rw [hashRows, List.filter_congr fun t ht => decide_eq_decide.2 (honly t ht)]
  rfl

theorem StaysLatest.mem_hashRows {r : TradeRow} :
    r ∈ hashRows db (f.params hashes) (HexText.formatB256 h) ↔
      IsTradeRow db f (HexText.formatB256 h) r := by
  rw [DirectTrades.mem_hashRows]
  apply or_congr_left
  constructor
  · rintro ⟨t, ht, hr, rfl⟩
    obtain ⟨htm, hc, ho⟩ := mem_takesOf.1 ht
    exact ⟨t, ⟨htm, hc, ho, (hs.reported_iff hm ht).1 hr⟩, rfl⟩
  · rintro ⟨t, ⟨htm, hc, ho, hl⟩, rfl⟩
    have ht : t ∈ takesOf db (f.params hashes) := mem_takesOf.2 ⟨htm, hc, ho⟩
    exact ⟨t, ht, (hs.reported_iff hm ht).2 hl, rfl⟩

/-- The trades of a hash that stays latest are the same in every batch, up to ties. -/
theorem StaysLatest.listedRows_perm
    (hu : (db.orderEvents.map fun e => (e.chainId, e.position)).Nodup) :
    (listedRows db (f.params hashes) (HexText.formatB256 h)).Perm
      (listedRows db (f.params [h]) (HexText.formatB256 h)) := by
  have hone := DirectTrades.listedRows_perm hu (mem_params (f := f) (List.mem_singleton_self h))
  refine (DirectTrades.listedRows_perm hu (mem_params hm)).trans ?_
  rw [hs.hashRows_only hm]
  exact hone.symm

theorem StaysLatest.fetchedTrades_only (htie : TieFree F db f (HexText.formatB256 h))
    (hu : (db.orderEvents.map fun e => (e.chainId, e.position)).Nodup) :
    fetchedTrades F f db hashes h = fetchedTrades F f db [h] h := by
  have hmap := Listing.map_eq_of_ties (g := fun r => entryFor F h r.select)
    (hs.listedRows_perm hm hu) (listedRows_ordered ..) (listedRows_ordered ..)
    fun r hr r' hr' hk => by
      rw [mem_listedRows (mem_params hm), hs.mem_hashRows hm] at hr hr'
      obtain ⟨-, hts, hlog⟩ := TradeRow.key_inj.1 hk
      rw [entryFor, entryFor, htie r r' hr hr' hts hlog]
  have hone := congrArg (List.filterMap id) hmap
  rw [List.filterMap_map, List.filterMap_map] at hone
  rw [fetchedTrades_eq hm, fetchedTrades_eq (List.mem_singleton_self h), List.filterMap_map,
    List.filterMap_map]
  exact hone

end StaysLatest

theorem EventDb.HexFields.tradeOrder (hw : db.HexFields F)
    (order : QueryParams → Listing.Sorting TradeRow.key) :
    { db with tradeOrder := order }.HexFields F :=
  ⟨hw.orderEvents, hw.takeOrders, hw.clearV3Events, hw.afterClearV2Events⟩

theorem staysLatest_of_fetchedTrades (hw : db.WellFormed F) (hm : h ∈ hashes)
    (heq : fetchedTrades F f db hashes h = fetchedTrades F f db [h] h)
    (hlatest : ∀ t ∈ takesOf db (f.params hashes),
      Reported db (f.params hashes) t (HexText.formatB256 h) ↔
        LatestHash (addOrderV3Events db f.chainId f.orderbookAddress) t (HexText.formatB256 h)) :
    StaysLatest db f (HexText.formatB256 h) := by
  intro t ht hc ho hadded
  have htq : t ∈ takesOf db (f.params hashes) := mem_takesOf.2 ⟨ht, hc, ho⟩
  -- equal lists have equally many takes, and the batch reports no take which the hash alone
  -- does not
  have hlen := congrArg List.length heq
  rw [length_fetchedTrades hw hm, length_fetchedTrades hw (List.mem_singleton_self h)] at hlen
  simp only [hashRows, List.length_append, List.length_map] at hlen
  have hback := filter_congr_of_length (l := takesOf db (f.params hashes))
    (p := fun t => Reported db (f.params hashes) t (HexText.formatB256 h))
    (q := fun t => Reported db ((f.params hashes).only (HexText.formatB256 h)) t
      (HexText.formatB256 h)) (fun t _ => Reported.only (mem_params hm))
    (Nat.add_right_cancel (Nat.add_right_cancel hlen))
  exact (hlatest t htq).1 (hback t htq (reported_only_iff.2 hadded))

/-- The engine lists the ties of two batches the opposite ways, so that their trades of a hash
are the same only if no tie matters. -/
theorem StaysLatest.tieFree (hs : StaysLatest db f (HexText.formatB256 h))
    (hw : db.WellFormed F) (hm : h ∈ hashes) (hne : hashes ≠ [h])
    (hall : ∀ order : QueryParams → Listing.Sorting TradeRow.key,
      fetchedTrades F f { db with tradeOrder := order } hashes h =
        fetchedTrades F f { db with tradeOrder := order } [h] h) :
    TieFree F db f (HexText.formatB256 h) := by
  classical
  intro r r' hr hr' hts hlog
  have hparams : (f.params [h]).orderHashes ≠ (f.params hashes).orderHashes := fun he =>
    hne (List.map_injective_iff.2 (fun _ _ => HexText.formatB256_injective) he).symm
  let tie (o : Option OrderTradeEntry) : Bool := decide (o = entryFor F h r'.select)
  let order (q : QueryParams) : Listing.Sorting TradeRow.key :=
    if q.orderHashes = (f.params hashes).orderHashes
    then .refined _ fun r => tie (entryFor F h r.select)
    else .refined _ fun r => !tie (entryFor F h r.select)
  have hbatch : listedRows { db with tradeOrder := order } (f.params hashes)
      (HexText.formatB256 h) = (Listing.Sorting.refined TradeRow.key fun r =>
        tie (entryFor F h r.select)).sort
          (hashRows db (f.params hashes) (HexText.formatB256 h)) :=
    listedRows_refined { db with tradeOrder := order } hw.nodup_orderEvents (mem_params hm)
      (if_pos rfl)
  have hone : listedRows { db with tradeOrder := order } (f.params [h])
      (HexText.formatB256 h) = (Listing.Sorting.refined TradeRow.key fun r =>
        !tie (entryFor F h r.select)).sort
          (hashRows db (f.params hashes) (HexText.formatB256 h)) := by
    rw [hs.hashRows_only hm]
    exact listedRows_refined { db with tradeOrder := order } hw.nodup_orderEvents
      (mem_params (List.mem_singleton_self h)) (if_neg hparams)
  have hw' := hw.toHexFields.tradeOrder order
  have hmap := congrArg (List.map some) (hall order)
  rw [hw'.map_fetchedTrades hm, hw'.map_fetchedTrades (List.mem_singleton_self h), hbatch,
    hone] at hmap
  have hr := (hs.mem_hashRows hm).2 hr
  have hr' := (hs.mem_hashRows hm).2 hr'
  have hk : r.key = r'.key := TradeRow.key_inj.2
    ⟨(orderHash_of_mem_hashRows hr).trans (orderHash_of_mem_hashRows hr').symm, hts, hlog⟩
  have htie := Listing.ties_of_map_refined_eq (g := fun r => entryFor F h r.select) tie hmap hr hr'
    hk
  have he : entryFor F h r.select = entryFor F h r'.select := by
    rw [decide_eq_decide] at htie
    exact htie.2 rfl
  obtain ⟨e, hre⟩ := hw.toHexFields.exists_entryFor hr
  have hre' := he ▸ hre
  rw [entryFor_eq_some] at hre hre'
  exact hre.trans hre'.symm

/-- In whatever order the engine lists ties, the trades of a hash do not depend on the rest of the
batch and its takes are those whose latest add event is one of the hash, if and only if the hash
stays latest and the batch is the hash itself or no tie of its trades matters. -/
theorem fetchedTrades_only_iff (hw : db.WellFormed F) (hm : h ∈ hashes) :
    ((∀ order : QueryParams → Listing.Sorting TradeRow.key,
        fetchedTrades F f { db with tradeOrder := order } hashes h =
          fetchedTrades F f { db with tradeOrder := order } [h] h) ∧
      ∀ t ∈ takesOf db (f.params hashes),
        (Reported db (f.params hashes) t (HexText.formatB256 h) ↔
          LatestHash (addOrderV3Events db f.chainId f.orderbookAddress) t
            (HexText.formatB256 h))) ↔
      StaysLatest db f (HexText.formatB256 h) ∧
        (hashes = [h] ∨ TieFree F db f (HexText.formatB256 h)) := by
  constructor
  · rintro ⟨hall, hlatest⟩
    have hs := staysLatest_of_fetchedTrades hw hm (hall db.tradeOrder) hlatest
    refine ⟨hs, ?_⟩
    by_cases hne : hashes = [h]
    · exact Or.inl hne
    · exact Or.inr (hs.tieFree hw hm hne hall)
  · rintro ⟨hs, htie⟩
    refine ⟨fun order => ?_, fun t ht => hs.reported_iff hm ht⟩
    rcases htie with rfl | htie
    · rfl
    · have hs' : StaysLatest { db with tradeOrder := order } f (HexText.formatB256 h) := hs
      exact hs'.fetchedTrades_only hm htie hw.nodup_orderEvents

end Convert

section Replaced

local instance replacedHexText : HexText := Hex.text

local instance replacedFloats : FloatLib ℚ := Rational.floats

def baseFetcher : DirectTradesFetcher where
  chainId := 8453
  orderbookAddress := HexText.formatAddress 1

def added (blockNumber : ℤ) (orderHash : B256) : OrderEvent where
  chainId := 8453
  orderbookAddress := HexText.formatAddress 1
  transactionHash := HexText.formatB256 9
  logIndex := 0
  blockNumber := blockNumber
  blockTimestamp := blockNumber
  orderOwner := HexText.formatAddress 7
  orderNonce := HexText.formatB256 1
  orderHash := HexText.formatB256 orderHash
  eventType := "AddOrderV3"

def taken (blockNumber : ℤ) : TakeOrder where
  chainId := 8453
  orderbookAddress := HexText.formatAddress 1
  transactionHash := HexText.formatB256 5
  logIndex := 0
  blockNumber := blockNumber
  blockTimestamp := blockNumber
  sender := HexText.formatAddress 2
  orderOwner := HexText.formatAddress 7
  orderNonce := HexText.formatB256 1
  takerInput := HexText.formatB256 3
  takerOutput := HexText.formatB256 4

/-- Two orders of one owner and nonce, then a take. -/
def replaced : EventDb where
  orderEvents := [added 1 10, added 2 11]
  takeOrders := [taken 3]
  clearV3Events := []
  afterClearV2Events := []

theorem isFloat_three : IsFloat ℚ (HexText.formatB256 3) :=
  ⟨⟨"3", by decide +kernel⟩, "-3", by decide +kernel⟩

theorem isFloat_four : IsFloat ℚ (HexText.formatB256 4) :=
  ⟨⟨"4", by decide +kernel⟩, "-4", by decide +kernel⟩

theorem replaced_wellFormed : replaced.WellFormed ℚ where
  unique := by decide +kernel
  orderEvents := by
    simp only [replaced, List.mem_cons, List.not_mem_nil, or_false]
    rintro e (rfl | rfl)
    · exact ⟨10, rfl⟩
    · exact ⟨11, rfl⟩
  takeOrders := by
    simp only [replaced, List.mem_singleton]
    rintro t rfl
    exact ⟨⟨5, rfl⟩, ⟨2, rfl⟩, isFloat_three, isFloat_four⟩
  clearV3Events := by simp [replaced]
  afterClearV2Events := by simp [replaced]

theorem fetchedTrades_only_iff_replaced :
    ((∀ order : QueryParams → Listing.Sorting TradeRow.key,
        fetchedTrades ℚ baseFetcher { replaced with tradeOrder := order } [10, 11] 11 =
          fetchedTrades ℚ baseFetcher { replaced with tradeOrder := order } [11] 11) ∧
      ∀ t ∈ takesOf replaced (baseFetcher.params [10, 11]),
        (Reported replaced (baseFetcher.params [10, 11]) t (HexText.formatB256 11) ↔
          LatestHash (addOrderV3Events replaced baseFetcher.chainId baseFetcher.orderbookAddress) t
            (HexText.formatB256 11))) ↔
      StaysLatest replaced baseFetcher (HexText.formatB256 11) ∧
        ([10, 11] = [(11 : B256)] ∨ TieFree ℚ replaced baseFetcher (HexText.formatB256 11)) :=
  fetchedTrades_only_iff replaced_wellFormed (by decide)

/-- The take is in the trades of the replaced order when that is fetched alone, and in none
of its trades when the order that replaced it is fetched along. -/
theorem replaced_depends :
    replaced.WellFormed ℚ ∧
      (fetchedTrades ℚ baseFetcher replaced [10] 10).length = 1 ∧
      (fetchedTrades ℚ baseFetcher replaced [10, 11] 10).length = 0 ∧
      fetchedTrades ℚ baseFetcher replaced [10, 11] 10 ≠
        fetchedTrades ℚ baseFetcher replaced [10] 10 := by
  have h1 : (fetchedTrades ℚ baseFetcher replaced [10] 10).length = 1 := by
    rw [length_fetchedTrades replaced_wellFormed (by decide)]
    decide +kernel
  have h0 : (fetchedTrades ℚ baseFetcher replaced [10, 11] 10).length = 0 := by
    rw [length_fetchedTrades replaced_wellFormed (by decide)]
    decide +kernel
  refine ⟨replaced_wellFormed, h1, h0, fun he => ?_⟩
  rw [he, h1] at h0
  exact absurd h0 (by decide)

end Replaced

end AlbionApi.DirectTrades
