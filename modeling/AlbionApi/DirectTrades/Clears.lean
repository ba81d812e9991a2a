import AlbionApi.DirectTrades.Trades

/-! # Clears and their amounts

A clear names its two orders, and its amounts are in a later event of the same
transaction. As long as every clear is followed by its own, the query finds
that one, and one add event of each order.
-/

namespace AlbionApi.DirectTrades

open Tables

def ClearV3.transaction (c : ClearV3) : ℤ × String × String :=
  (c.chainId, c.orderbookAddress, c.transactionHash)

def AfterClearV2.transaction (a : AfterClearV2) : ℤ × String × String :=
  (a.chainId, a.orderbookAddress, a.transactionHash)

/-- Inside each transaction, which lies in one block, every clear is followed by its own
after-clear before the next clear. -/
structure EventDb.PairsClears (db : EventDb) (own : ClearV3 → AfterClearV2) : Prop where
  mem : ∀ c ∈ db.clearV3Events, own c ∈ db.afterClearV2Events
  transaction : ∀ c ∈ db.clearV3Events, (own c).transaction = c.transaction
  block : ∀ c ∈ db.clearV3Events, ∀ a ∈ db.afterClearV2Events,
    a.transaction = c.transaction → a.blockNumber = c.blockNumber
  follows : ∀ c ∈ db.clearV3Events, c.position < (own c).position
  first : ∀ c ∈ db.clearV3Events, ∀ a ∈ db.afterClearV2Events,
    a.transaction = c.transaction → c.position < a.position → (own c).position ≤ a.position
  before : ∀ c ∈ db.clearV3Events, ∀ c' ∈ db.clearV3Events,
    c'.transaction = c.transaction → c.position < c'.position → (own c).position < c'.position

variable {db : EventDb} {own : ClearV3 → AfterClearV2} {q : QueryParams} {c c' : ClearV3}

theorem EventDb.PairsClears.block_eq (h : db.PairsClears own) (hc : c ∈ db.clearV3Events)
    (hc' : c' ∈ db.clearV3Events) (ht : c'.transaction = c.transaction) :
    c'.blockNumber = c.blockNumber := by
  have hown := h.transaction c' hc'
  rw [← h.block c' hc' (own c') (h.mem c' hc') hown]
  exact h.block c hc (own c') (h.mem c' hc') (hown.trans ht)

theorem eq_of_position (hu : (db.clearV3Events.map fun c => (c.chainId, c.position)).Nodup)
    (hc : c ∈ db.clearV3Events) (hc' : c' ∈ db.clearV3Events)
    (ht : c.transaction = c'.transaction) (hp : c.position = c'.position) : c = c' := by
  have hchain : c.chainId = c'.chainId := congrArg Prod.fst ht
  exact List.inj_on_of_nodup_map hu hc hc' (by rw [hchain, hp])

theorem EventDb.PairsClears.own_injOn (h : db.PairsClears own)
    (hu : (db.clearV3Events.map fun c => (c.chainId, c.position)).Nodup)
    (hc : c ∈ db.clearV3Events) (hc' : c' ∈ db.clearV3Events) (he : own c = own c') : c = c' := by
  have ht : c.transaction = c'.transaction := by
    rw [← h.transaction c hc, he, h.transaction c' hc']
  rcases lt_trichotomy c.position c'.position with hlt | heq | hlt
  · have hbefore := h.before c hc c' hc' ht.symm hlt
    rw [he] at hbefore
    exact absurd (h.follows c' hc') hbefore.asymm
  · exact eq_of_position hu hc hc' ht heq
  · have hbefore := h.before c' hc' c hc ht hlt
    rw [← he] at hbefore
    exact absurd (h.follows c hc) hbefore.asymm

/-- If every after-clear is some clear's own, the first after a clear is its own. -/
theorem first_of_forall_own (hmem : ∀ a ∈ db.afterClearV2Events, ∃ c ∈ db.clearV3Events, own c = a)
    (htransaction : ∀ c ∈ db.clearV3Events, (own c).transaction = c.transaction)
    (hfollows : ∀ c ∈ db.clearV3Events, c.position < (own c).position)
    (hbefore : ∀ c ∈ db.clearV3Events, ∀ c' ∈ db.clearV3Events,
      c'.transaction = c.transaction → c.position < c'.position → (own c).position < c'.position)
    (hu : (db.clearV3Events.map fun c => (c.chainId, c.position)).Nodup)
    (hc : c ∈ db.clearV3Events) {a : AfterClearV2} (ha : a ∈ db.afterClearV2Events)
    (ht : a.transaction = c.transaction) (hlt : c.position < a.position) :
    (own c).position ≤ a.position := by
  obtain ⟨c', hc', rfl⟩ := hmem a ha
  rw [htransaction c' hc'] at ht
  rcases lt_trichotomy c.position c'.position with hcc | heq | hcc
  · exact ((hbefore c hc c' hc' ht hcc).trans (hfollows c' hc')).le
  · rw [eq_of_position hu hc hc' ht.symm heq]
  · exact absurd (hbefore c' hc' c hc ht.symm hcc) hlt.asymm

theorem EventDb.PairsClears.logIndex_lt_iff (h : db.PairsClears own) (hc : c ∈ db.clearV3Events)
    {a : AfterClearV2} (ha : a ∈ db.afterClearV2Events) (ht : a.transaction = c.transaction) :
    c.logIndex < a.logIndex ↔ c.position < a.position := by
  rw [ClearV3.position, AfterClearV2.position, position_lt_iff, h.block c hc a ha ht]
  simp

theorem firstAfterClear_eq (h : db.PairsClears own) (hc : c ∈ db.clearV3Events) :
    firstAfterClear db c = some (own c).logIndex := by
  have hown := h.mem c hc
  have ht := h.transaction c hc
  rw [firstAfterClear, List.min?_eq_some_iff]
  constructor
  · refine List.mem_map.2 ⟨own c, List.mem_filter.2 ⟨hown, decide_eq_true ?_⟩, rfl⟩
    have hlt := (h.logIndex_lt_iff hc hown ht).2 (h.follows c hc)
    simp only [AfterClearV2.transaction, ClearV3.transaction, Prod.mk.injEq] at ht
    exact ⟨ht.1, ht.2.1, ht.2.2, hlt⟩
  · intro i hi
    obtain ⟨a, ha, rfl⟩ := List.mem_map.1 hi
    obtain ⟨ha, hp⟩ := List.mem_filter.1 ha
    obtain ⟨hchain, horderbook, htx, hlt⟩ := of_decide_eq_true hp
    have hta : a.transaction = c.transaction := by
      rw [AfterClearV2.transaction, hchain, horderbook, htx]
      rfl
    have hle := h.first c hc a ha hta ((h.logIndex_lt_iff hc ha hta).1 hlt)
    rw [AfterClearV2.position, AfterClearV2.position, position_le_iff, h.block c hc a ha hta,
      h.block c hc (own c) hown ht] at hle
    simpa using hle

/-- The after-clear that the query joins to a clear is its own. -/
theorem afterClears_eq (h : db.PairsClears own)
    (hu : (db.afterClearV2Events.map fun a => (a.chainId, a.position)).Nodup)
    (hc : c ∈ db.clearV3Events) : afterClears db c = [own c] := by
  have hown := h.mem c hc
  have ht := h.transaction c hc
  have hcols : ∀ a : AfterClearV2, a.transaction = c.transaction ↔ a.chainId = c.chainId ∧
      a.orderbookAddress = c.orderbookAddress ∧ a.transactionHash = c.transactionHash := by
    intro a
    rw [AfterClearV2.transaction, ClearV3.transaction, Prod.mk.injEq, Prod.mk.injEq]
  rw [afterClears, firstAfterClear_eq h hc]
  refine filter_of_unique hu.of_map ?_ hown ?_
  · rintro a ha a' ha' ⟨h₁, h₂, h₃, hi⟩ ⟨h₁', h₂', h₃', hi'⟩
    have hb := h.block c hc a ha ((hcols a).2 ⟨h₁, h₂, h₃⟩)
    have hb' := h.block c hc a' ha' ((hcols a').2 ⟨h₁', h₂', h₃'⟩)
    apply List.inj_on_of_nodup_map hu ha ha'
    rw [h₁, h₁', AfterClearV2.position, AfterClearV2.position, hb, hb',
      Option.some.inj (hi.trans hi'.symm)]
  · obtain ⟨h₁, h₂, h₃⟩ := (hcols (own c)).1 ht
    exact ⟨h₁, h₂, h₃, rfl⟩

/-- The order of a side was added at or before the clear. -/
def ClearSide.Added (side : ClearSide) (db : EventDb) (c : ClearV3) : Prop :=
  ∃ oe ∈ db.orderEvents, oe.eventType = "AddOrderV3" ∧ oe.AddedBefore (side.orderHash c) c

instance (side : ClearSide) (db : EventDb) (c : ClearV3) : Decidable (side.Added db c) :=
  inferInstanceAs (Decidable (∃ oe ∈ db.orderEvents, _ ∧ _))

variable {side : ClearSide}

theorem mem_clearsOf : c ∈ clearsOf db q side ↔ c ∈ db.clearV3Events ∧ c.chainId = q.chainId ∧
    c.orderbookAddress = q.orderbookAddress ∧ side.orderHash c ∈ q.orderHashes := by
  rw [clearsOf, List.mem_filter, decide_eq_true_iff]

theorem flatMap_joinsClear (hu : (db.orderEvents.map fun e => (e.chainId, e.position)).Nodup)
    (hc : c ∈ clearsOf db q side) (rows : List AfterClearV2) :
    (((orderAddEvents db q).filter fun oe =>
        joinsClear (orderAddEvents db q) side.orderHash c oe).flatMap fun oe =>
          rows.map (clearRow side c oe)) =
      if side.Added db c then rows.map (clearRowFor side c · (side.orderHash c)) else [] := by
  obtain ⟨-, hchain, hob, hhash⟩ := mem_clearsOf.1 hc
  have hadds : ∀ oe : OrderEvent, oe.AddedBefore (side.orderHash c) c →
      (oe ∈ orderAddEvents db q ↔ oe ∈ db.orderEvents ∧ oe.eventType = "AddOrderV3") := by
    rintro oe ⟨hc', ho', hh', -⟩
    rw [mem_orderAddEvents, mem_addOrderV3Events, hc', ho', hh', hchain, hob]
    simp [hhash]
  split_ifs with hadded
  · obtain ⟨oe, hoe, htype, hb⟩ := hadded
    have hex : ∃ e ∈ orderAddEvents db q, e.AddedBefore (side.orderHash c) c :=
      ⟨oe, (hadds oe hb).2 ⟨hoe, htype⟩, hb⟩
    obtain ⟨m, hm⟩ := exists_latest OrderEvent.position hex
    have hn : (orderAddEvents db q).Nodup := (hu.of_map.filter _).filter _
    have hone : ∀ x ∈ orderAddEvents db q, ∀ y ∈ orderAddEvents db q,
        joinsClear (orderAddEvents db q) side.orderHash c x →
        joinsClear (orderAddEvents db q) side.orderHash c y → x = y := by
      intro x hx y hy hjx hjy
      refine latest_unique ?_ ((joinsClear_iff hx).1 hjx) ((joinsClear_iff hy).1 hjy)
      rintro x y ⟨hx, hbx⟩ ⟨hy, hby⟩ hp
      apply List.inj_on_of_nodup_map hu ((hadds x hbx).1 hx).1 ((hadds y hby).1 hy).1
      rw [hbx.1, hby.1, hp]
    rw [filter_of_unique hn hone hm.prop.1 ((joinsClear_iff hm.prop.1).2 hm)]
    have hrow : clearRow side c m = (clearRowFor side c · (side.orderHash c)) := by
      funext a
      rw [clearRow, clearRowFor, hm.prop.2.2.2.1]
    rw [List.flatMap_cons, List.flatMap_nil, List.append_nil, hrow]
  · rw [List.filter_eq_nil_iff.2, List.flatMap_nil]
    intro oe hoe hj
    obtain ⟨h₁, h₂, h₃, h₄, -⟩ := of_decide_eq_true hj
    have hb : oe.AddedBefore (side.orderHash c) c := ⟨h₁, h₂, h₃, h₄⟩
    obtain ⟨hmem, htype⟩ := (hadds oe hb).1 hoe
    exact hadded ⟨oe, hmem, htype, hb⟩

/-! ## The rows of the clears -/

/-- The clears of the fetcher's orderbook whose order on a side is requested and was added. -/
def ClearSide.traded (side : ClearSide) (db : EventDb) (q : QueryParams) : List ClearV3 :=
  db.clearV3Events.filter fun c =>
    c.chainId = q.chainId ∧ c.orderbookAddress = q.orderbookAddress ∧
      side.orderHash c ∈ q.orderHashes ∧ side.Added db c

/-- The row of a side of a clear with the clear's own amounts. -/
def ownRow (own : ClearV3 → AfterClearV2) (side : ClearSide) (c : ClearV3) : TradeRow :=
  clearRowFor side c (own c) (side.orderHash c)

theorem mem_traded : c ∈ side.traded db q ↔ c ∈ db.clearV3Events ∧ c.chainId = q.chainId ∧
    c.orderbookAddress = q.orderbookAddress ∧ side.orderHash c ∈ q.orderHashes ∧
    side.Added db c := by
  rw [ClearSide.traded, List.mem_filter, decide_eq_true_iff]

theorem traded_eq (side : ClearSide) :
    side.traded db q = (clearsOf db q side).filter fun c => side.Added db c := by
  rw [ClearSide.traded, clearsOf, List.filter_filter]
  apply List.filter_congr
  intro c _
  rw [← Bool.decide_and, decide_eq_decide]
  tauto

theorem nodup_ownRow (hu : (db.clearV3Events.map fun c => (c.chainId, c.position)).Nodup)
    (h : db.PairsClears own) (side : ClearSide) :
    ((side.traded db q).map (ownRow own side)).Nodup := by
  apply (hu.of_map.filter _).map_on
  intro c hc c' hc' he
  obtain ⟨hc, hchain, hob, -⟩ := mem_traded.1 hc
  obtain ⟨hc', hchain', hob', -⟩ := mem_traded.1 hc'
  have htx : c.transactionHash = c'.transactionHash := congrArg TradeRow.transactionHash he
  have hlog : c.logIndex = c'.logIndex := congrArg TradeRow.logIndex he
  have ht : c.transaction = c'.transaction := by
    rw [ClearV3.transaction, hchain, hob, htx, ClearV3.transaction, hchain', hob']
  apply eq_of_position hu hc hc' ht
  rw [ClearV3.position, ClearV3.position, hlog, h.block_eq hc' hc ht]

/-- Each clear of a side has exactly one row, with its own amounts. -/
theorem clearTrades_eq (hu : db.positions.Nodup) (h : db.PairsClears own) (side : ClearSide) :
    clearTrades side db q = (side.traded db q).map (ownRow own side) := by
  have hrows : ∀ c ∈ clearsOf db q side,
      (((orderAddEvents db q).filter fun oe =>
        joinsClear (orderAddEvents db q) side.orderHash c oe).flatMap fun oe =>
          (afterClears db c).map (clearRow side c oe)) =
        if side.Added db c then [ownRow own side c] else [] := by
    intro c hc
    rw [flatMap_joinsClear hu.of_append_left.of_append_left.of_append_left hc,
      afterClears_eq h hu.of_append_right (mem_clearsOf.1 hc).1]
    rfl
  rw [clearTrades, List.flatMap_congr hrows, flatMap_ite, ← traded_eq]
  exact (nodup_ownRow hu.of_append_left.of_append_right h side).dedup

/-- The rows of the takes, and one row for each side of a clear that is traded. -/
def ownRows (own : ClearV3 → AfterClearV2) (db : EventDb) (q : QueryParams) : List RawTradeRow :=
  (takeTrades db q ++ (alice.traded db q).map (ownRow own alice) ++
    (bob.traded db q).map (ownRow own bob)).map TradeRow.select

theorem batchQuery_perm (hu : db.positions.Nodup) (h : db.PairsClears own) :
    (batchQuery db q).Perm (ownRows own db q) := by
  have hunion : unionTrades db q = takeTrades db q ++ (alice.traded db q).map (ownRow own alice) ++
      (bob.traded db q).map (ownRow own bob) := by
    rw [unionTrades, clearAlice, clearBob, clearTrades_eq hu h, clearTrades_eq hu h]
  rw [batchQuery, ownRows, ← hunion]
  exact ((db.tradeOrder q).perm _).map _

/-- Besides the takes, the query yields exactly one row for each side of a clear whose order is
requested and was added at or before it, with the amounts of that side in the clear's own
after-clear. No two clears have the same one, and the fetch groups the rows by their hashes. -/
theorem batchQuery_clears (F : Type) [FloatLib F] [HexText] (hu : db.positions.Nodup)
    (h : db.PairsClears own) (q : QueryParams) :
    (batchQuery db q).Perm (ownRows own db q) ∧
    db.clearV3Events.Nodup ∧
    (∀ c ∈ db.clearV3Events, ∀ c' ∈ db.clearV3Events, own c = own c' → c = c') ∧
    ∀ (f : DirectTradesFetcher) (hashes : List B256), q = f.params hashes → ∀ hash ∈ hashes,
      (fetchedTrades F f db hashes hash).Perm (((ownRows own db q).filter fun raw =>
        raw.orderHash = HexText.formatB256 hash).filterMap (entryFor F hash)) := by
  have hclears := hu.of_append_left.of_append_right
  refine ⟨batchQuery_perm hu h, hclears.of_map,
    fun c hc c' hc' => h.own_injOn hclears hc hc', ?_⟩
  rintro f hashes rfl hash hm
  rw [fetchedTrades_eq_filterMap hm]
  exact ((batchQuery_perm hu h).filter _).filterMap _

section Example

local instance clearedHexText : HexText := Hex.text

local instance clearedFloats : FloatLib ℚ := Rational.floats

def cleared (logIndex : ℤ) : ClearV3 where
  chainId := 8453
  orderbookAddress := HexText.formatAddress 1
  transactionHash := HexText.formatB256 5
  logIndex := logIndex
  blockNumber := 4
  blockTimestamp := 4
  sender := HexText.formatAddress 2
  aliceOrderHash := HexText.formatB256 10
  bobOrderHash := HexText.formatB256 11

def clearedAmounts (logIndex : ℤ) (amount : B256) : AfterClearV2 where
  chainId := 8453
  orderbookAddress := HexText.formatAddress 1
  transactionHash := HexText.formatB256 5
  logIndex := logIndex
  blockNumber := 4
  aliceInput := HexText.formatB256 amount
  aliceOutput := HexText.formatB256 amount
  bobInput := HexText.formatB256 (amount + 2)
  bobOutput := HexText.formatB256 (amount + 2)

def clearedTwice : EventDb where
  orderEvents := [added 1 10, added 2 11, added 3 10]
  takeOrders := []
  clearV3Events := [cleared 0, cleared 2]
  afterClearV2Events := [clearedAmounts 1 3, clearedAmounts 3 4]

def clearedOwn (c : ClearV3) : AfterClearV2 :=
  clearedAmounts (c.logIndex + 1) (if c.logIndex = 0 then 3 else 4)

theorem clearedOwn_cleared :
    clearedOwn (cleared 0) = clearedAmounts 1 3 ∧ clearedOwn (cleared 2) = clearedAmounts 3 4 :=
  ⟨rfl, rfl⟩

theorem clearedTwice_pairsClears : clearedTwice.PairsClears clearedOwn := by
  have hown : clearedTwice.afterClearV2Events = clearedTwice.clearV3Events.map clearedOwn := by
    simp [clearedTwice, clearedOwn_cleared]
  have hmem : ∀ a ∈ clearedTwice.afterClearV2Events, ∃ c ∈ clearedTwice.clearV3Events,
      clearedOwn c = a := by
    rw [hown]
    exact fun a ha => List.mem_map.mp ha
  have htransaction : ∀ c ∈ clearedTwice.clearV3Events,
      (clearedOwn c).transaction = c.transaction := by
    decide +kernel
  have hfollows : ∀ c ∈ clearedTwice.clearV3Events, c.position < (clearedOwn c).position := by
    decide +kernel
  have hbefore : ∀ c ∈ clearedTwice.clearV3Events, ∀ c' ∈ clearedTwice.clearV3Events,
      c'.transaction = c.transaction → c.position < c'.position →
        (clearedOwn c).position < c'.position := by
    decide +kernel
  refine ⟨fun c hc => ?_, htransaction, by decide +kernel, hfollows,
    fun c hc a ha => first_of_forall_own hmem htransaction hfollows hbefore (by decide +kernel)
      hc ha, hbefore⟩
  rw [hown]
  exact List.mem_map_of_mem hc

theorem batchQuery_clears_twice :
    (batchQuery clearedTwice (baseFetcher.params [10, 11])).Perm
        (ownRows clearedOwn clearedTwice (baseFetcher.params [10, 11])) ∧
      (ownRows clearedOwn clearedTwice (baseFetcher.params [10, 11])).length = 4 := by
  refine ⟨(batchQuery_clears ℚ (by decide +kernel) clearedTwice_pairsClears _).1, ?_⟩
  decide +kernel

end Example

end AlbionApi.DirectTrades
