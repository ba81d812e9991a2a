import AlbionApi.DirectTrades.Independence

/-! # The trades of an order

What the trades of an order on an orderbook are, with their rows, and which of
them a batch fetch reports.
-/

namespace AlbionApi.DirectTrades

open Tables

section Trades

variable {db : EventDb} {f : DirectTradesFetcher} {hash : String}

def AddedOn (db : EventDb) (f : DirectTradesFetcher) (hash : String) : Prop :=
  ∃ oe ∈ addOrderV3Events db f.chainId f.orderbookAddress, oe.orderHash = hash

/-- A trade of the hash on an orderbook, by its transaction hash and log index. -/
def IsTrade (db : EventDb) (f : DirectTradesFetcher) (hash transactionHash : String)
    (logIndex : ℤ) : Prop :=
  ∃ r, IsTradeRow db f hash r ∧ r.transactionHash = transactionHash ∧ r.logIndex = logIndex

theorem IsClearRow.addedOn {side : ClearSide} {r : TradeRow} (h : IsClearRow db f hash side r) :
    AddedOn db f hash := by
  obtain ⟨c, -, -, -, -, ⟨oe, hoe, he, -⟩, -⟩ := h
  exact ⟨oe, hoe, he⟩

theorem IsTradeRow.addedOn {r : TradeRow} (h : IsTradeRow db f hash r) : AddedOn db f hash := by
  rcases h with ⟨t, ⟨-, -, -, oe, hl, he⟩, -⟩ | h | h
  · exact ⟨oe, hl.prop.1, he⟩
  · exact h.addedOn
  · exact h.addedOn

end Trades

/-- A trade is identified by its transaction hash and, through its id, its log index. -/
def tradeKey (e : OrderTradeEntry) : B256 × String := (e.txHash, e.id)

/-- Trade events are identified by transaction hash and log index, a 64-bit integer. -/
structure EventDb.Identified [HexText] (db : EventDb) : Prop where
  takes : ∀ t ∈ db.takeOrders, ∀ t' ∈ db.takeOrders, t.chainId = t'.chainId →
    t.orderbookAddress = t'.orderbookAddress → t.transactionHash = t'.transactionHash →
    t.logIndex = t'.logIndex → t = t'
  clears : ∀ t ∈ db.takeOrders, ∀ c ∈ db.clearV3Events, t.chainId = c.chainId →
    t.orderbookAddress = c.orderbookAddress → t.transactionHash = c.transactionHash →
    t.logIndex ≠ c.logIndex
  takeHashes : ∀ t ∈ db.takeOrders, IsHash t.transactionHash
  clearHashes : ∀ c ∈ db.clearV3Events, IsHash c.transactionHash
  takeLogs : ∀ t ∈ db.takeOrders, -2 ^ 63 ≤ t.logIndex ∧ t.logIndex < 2 ^ 63
  clearLogs : ∀ c ∈ db.clearV3Events, -2 ^ 63 ≤ c.logIndex ∧ c.logIndex < 2 ^ 63

theorem EventDb.Identified.hashRows [HexText] {db : EventDb} (hid : db.Identified)
    {f : DirectTradesFetcher} {hashes : List B256} {hash : String} {r : TradeRow}
    (hr : r ∈ hashRows db (f.params hashes) hash) :
    IsHash r.transactionHash ∧ -2 ^ 63 ≤ r.logIndex ∧ r.logIndex < 2 ^ 63 := by
  rcases mem_hashRows.1 hr with ⟨t, ht, -, rfl⟩ | ⟨c, hc, -, -, -, -, a, -, rfl⟩ |
    ⟨c, hc, -, -, -, -, a, -, rfl⟩
  · have htm := (mem_takesOf.1 ht).1
    exact ⟨hid.takeHashes t htm, hid.takeLogs t htm⟩
  · exact ⟨hid.clearHashes c hc, hid.clearLogs c hc⟩
  · exact ⟨hid.clearHashes c hc, hid.clearLogs c hc⟩

theorem tradeId_injective {transactionHash : String} {i j : ℤ} (hi : -2 ^ 63 ≤ i ∧ i < 2 ^ 63)
    (hj : -2 ^ 63 ≤ j ∧ j < 2 ^ 63) (h : tradeId transactionHash i = tradeId transactionHash j) :
    i = j := by
  have hd := congrArg String.toList h
  simp only [tradeId, hex16, String.toList_append, String.toList_ofList,
    List.append_cancel_left_eq] at hd
  have hr := congrArg Hex.readDigits hd
  rw [Hex.readDigits_digits, Hex.readDigits_digits, Option.some.injEq] at hr
  have hlt (k : ℤ) : (k % 2 ^ 64).toNat < 16 ^ 16 := by
    have := Int.emod_lt_of_pos k (show (0 : ℤ) < 2 ^ 64 by decide)
    have := Int.emod_nonneg k (show (2 : ℤ) ^ 64 ≠ 0 by decide)
    omega
  rw [Nat.mod_eq_of_lt (hlt i), Nat.mod_eq_of_lt (hlt j)] at hr
  omega

section Direct

variable {F : Type} [FloatLib F] [HexText] {db : EventDb} {f : DirectTradesFetcher}
  {hashes : List B256} {h : B256}

theorem mem_direct_iff (hid : db.Identified) (hm : h ∈ hashes) {txHash : B256} {id : String} :
    (txHash, id) ∈ (fetchedTrades F f db hashes h).map tradeKey ↔
      ∃ r ∈ hashRows db (f.params hashes) (HexText.formatB256 h), r.Readable F ∧
        r.transactionHash = HexText.formatB256 txHash ∧
        id = tradeId (HexText.formatB256 txHash) r.logIndex := by
  rw [fetchedTrades_eq_filterMap hm]
  simp only [List.mem_map, List.mem_filterMap, mem_batchQuery_filter (mem_params hm), tradeKey,
    Prod.mk.injEq]
  constructor
  · rintro ⟨e, ⟨raw, ⟨r, hr, rfl⟩, he⟩, hk⟩
    obtain ⟨⟨txHash', ht⟩, -⟩ := hid.hashRows hr
    obtain ⟨hread, rfl, rfl⟩ :=
      (entryFor_select (orderHash_of_mem_hashRows hr) ht).1 ⟨e, he, hk⟩
    exact ⟨r, hr, hread, ht, by rw [ht]⟩
  · rintro ⟨r, hr, hread, ht, rfl⟩
    obtain ⟨e, he, hk⟩ :=
      (entryFor_select (orderHash_of_mem_hashRows hr) ht).2 ⟨hread, rfl, rfl⟩
    exact ⟨e, ⟨r.select, ⟨r, hr, rfl⟩, he⟩, by rw [hk.1, hk.2, ht]; exact ⟨rfl, rfl⟩⟩

end Direct

end AlbionApi.DirectTrades
