import AlbionApi.Api.Rational
import AlbionApi.DirectTrades.Batch
import Mathlib.Data.List.Duplicate

/-! # The entries of a batch

Which list every position of a batch answer carries, and which hashes the
library path leaves in the cache.
-/

namespace AlbionApi

section Lookup

variable {F : Type} {client : RaindexClient F} {hash : B256}

/-- What the lookups of a hash determine its trades to be: those of an order that an
orderbook has, or none where every orderbook says that it has no such order. -/
inductive Determined (client : RaindexClient F) (hash : B256) : List OrderTradeEntry → Prop where
  | found {orderbooks orderbook order trades} (all : client.getAllOrderbooks = .ok orderbooks)
      (mem : orderbook ∈ orderbooks) (lookup : client.getOrderByHash orderbook hash = .ok order)
      (query : client.getTradesList order none none = .ok trades) :
      Determined client hash (trades.map mapTrade)
  | missing {orderbooks} (all : client.getAllOrderbooks = .ok orderbooks)
      (lookup : ∀ orderbook ∈ orderbooks,
        client.getOrderByHash orderbook hash = .error .orderNotFound) :
      Determined client hash []

/-- No orderbook returns the order and some lookup fails otherwise than with a miss. -/
def Blind (client : RaindexClient F) (hash : B256) : Prop :=
  ∃ orderbooks, client.getAllOrderbooks = .ok orderbooks ∧
    (∀ orderbook ∈ orderbooks, ∀ order, client.getOrderByHash orderbook hash ≠ .ok order) ∧
    ∃ orderbook ∈ orderbooks, client.getOrderByHash orderbook hash ≠ .error .orderNotFound

theorem firstOrder_cases (client : RaindexClient F) (hash : B256)
    (orderbooks : List OrderbookCfg) :
    (∃ orderbook ∈ orderbooks, ∃ order, client.getOrderByHash orderbook hash = .ok order ∧
      firstOrder client hash orderbooks = some order) ∨
    ((∀ orderbook ∈ orderbooks, ∀ order, client.getOrderByHash orderbook hash ≠ .ok order) ∧
      firstOrder client hash orderbooks = none) := by
  induction orderbooks with
  | nil => exact Or.inr ⟨by simp, rfl⟩
  | cons orderbook orderbooks ih =>
    have hrest : ∀ e, client.getOrderByHash orderbook hash = .error e →
        firstOrder client hash (orderbook :: orderbooks) = firstOrder client hash orderbooks := by
      intro e he
      rw [firstOrder, he]
      cases e <;> rfl
    cases hl : client.getOrderByHash orderbook hash with
    | ok order =>
      refine Or.inl ⟨orderbook, List.mem_cons_self, order, hl, ?_⟩
      rw [firstOrder, hl]
    | error e =>
      rw [hrest e hl]
      rcases ih with ⟨orderbook', hm, h⟩ | ⟨hno, h⟩
      · exact Or.inl ⟨orderbook', List.mem_cons_of_mem _ hm, h⟩
      · refine Or.inr ⟨?_, h⟩
        intro orderbook' hm order ho
        rcases List.mem_cons.1 hm with rfl | hm
        · rw [hl] at ho
          cases ho
        · exact hno orderbook' hm order ho

theorem Blind.not_determined (hb : Blind client hash) (entries : List OrderTradeEntry) :
    ¬ Determined client hash entries := by
  obtain ⟨orderbooks, hall, hno, orderbook, hm, hfail⟩ := hb
  rintro (⟨hall', hm', hl, -⟩ | ⟨hall', hmiss⟩)
  · obtain rfl : orderbooks = _ := Except.ok.inj (hall.symm.trans hall')
    exact hno _ hm' _ hl
  · obtain rfl : orderbooks = _ := Except.ok.inj (hall.symm.trans hall')
    exact hfail (hmiss orderbook hm)

theorem Blind.fetchTradesForHash_eq (hb : Blind client hash) :
    fetchTradesForHash (raindexTradesDataSource client) hash = .ok [] := by
  obtain ⟨orderbooks, hall, hno, -⟩ := hb
  rcases firstOrder_cases client hash orderbooks with ⟨orderbook, hm, order, hl, -⟩ | ⟨-, hf⟩
  · exact absurd hl (hno orderbook hm order)
  · simp only [fetchTradesForHash, raindexTradesDataSource, hall, mapErr, hf, bind, Except.bind,
      pure, Except.pure]

theorem determined_of_fetch {entries : List OrderTradeEntry}
    (h : fetchTradesForHash (raindexTradesDataSource client) hash = .ok entries)
    (hb : ¬ Blind client hash) : Determined client hash entries := by
  simp only [fetchTradesForHash, raindexTradesDataSource, bind, Except.bind, pure,
    Except.pure] at h
  cases hall : client.getAllOrderbooks with
  | error e =>
    rw [hall] at h
    cases h
  | ok orderbooks =>
    simp only [hall, mapErr] at h
    rcases firstOrder_cases client hash orderbooks with ⟨ob, hm, order, hl, hf⟩ | ⟨hno, hf⟩
    · simp only [hf] at h
      cases hq : client.getTradesList order none none with
      | error e =>
        rw [hq] at h
        cases h
      | ok trades =>
        simp only [hq, Except.ok.injEq] at h
        subst h
        exact .found hall hm hl hq
    · simp only [hf, Except.ok.injEq] at h
      subst h
      refine .missing hall fun ob hm => ?_
      by_contra hfail
      exact hb ⟨orderbooks, hall, hno, ob, hm, hfail⟩

end Lookup

namespace DirectTrades

/-- Only the first position of a repeated hash gets its list. -/
theorem takeEntries_eq_map_iff (m : TradesByHash) (resolved : B256 → List OrderTradeEntry)
    (hashes : List B256) :
    takeEntries m hashes = hashes.map (fun hash => ⟨hash, resolved hash⟩) ↔
      (∀ hash ∈ hashes, (m hash).getD [] = resolved hash) ∧
      ∀ hash, hashes.Duplicate hash → resolved hash = [] := by
  induction hashes generalizing m with
  | nil => simp [takeEntries]
  | cons hash hashes ih =>
    rw [takeEntries, List.map_cons, List.cons.injEq, TradesBatchEntry.mk.injEq, ih]
    constructor
    · rintro ⟨⟨-, hfirst⟩, hrest, hdup⟩
      -- a hash that comes again finds the map without it
      have hagain : hash ∈ hashes → resolved hash = [] := by
        intro hm
        rw [← hrest hash hm, Function.update_self, Option.getD_none]
      refine ⟨?_, ?_⟩
      · intro hash' hm
        by_cases he : hash' = hash
        · rw [he, hfirst]
        · rw [← hrest hash' (List.mem_of_ne_of_mem he hm), Function.update_of_ne he]
      · intro hash' hd
        rcases List.duplicate_cons_iff.1 hd with ⟨rfl, hm⟩ | hd
        · exact hagain hm
        · exact hdup hash' hd
    · rintro ⟨hall, hdup⟩
      refine ⟨⟨rfl, hall hash List.mem_cons_self⟩, ?_, ?_⟩
      · intro hash' hm
        by_cases he : hash' = hash
        · subst he
          rw [Function.update_self, Option.getD_none,
            hdup hash' (List.duplicate_cons_iff.2 (Or.inl ⟨rfl, hm⟩))]
        · rw [Function.update_of_ne he, hall hash' (List.mem_cons_of_mem _ hm)]
      · intro hash' hd
        exact hdup hash' (hd.duplicate_cons hash)

theorem get_foldl_keepResult (g : B256 → Except ApiError (List OrderTradeEntry))
    (hashes : List B256) (m : TradesByHash) (cache : TradesByOrderHashCache) (h : B256) :
    ((hashes.map fun hash => (hash, g hash)).foldl keepResult (m, cache)).2.get h =
      if h ∈ hashes then (g h).toOption.or (cache.get h) else cache.get h := by
  induction hashes generalizing m cache with
  | nil => simp
  | cons hash hashes ih =>
    rw [List.map_cons, List.foldl_cons]
    cases hg : g hash with
    | error e =>
      rw [keepResult, ih]
      by_cases he : h = hash
      · subst he
        simp [hg, Except.toOption]
      · simp [he]
    | ok trades =>
      rw [keepResult, ih]
      by_cases he : h = hash
      · subst he
        simp [hg, Except.toOption]
      · rw [AppCache.get_insert_of_ne cache trades he]
        simp [he]

section Entries

variable {F : Type} [FloatLib F] [HexText]

/-- The list resolved for a hash: the cached one, otherwise the fetched one, or the empty
list when the fetch failed. -/
def resolvedList (ds : TradesDataSource F) (cache : TradesByOrderHashCache)
    (directTrades : Option DirectTradesFetcher) (db : Option EventDb) (hashes : List B256)
    (hash : B256) : List OrderTradeEntry :=
  (cache.get hash).getD
    ((fetchedFor ds directTrades db (checkCache cache hashes).2 hash).toOption.getD [])

def afterResults (ds : TradesDataSource F) (cache : TradesByOrderHashCache)
    (directTrades : Option DirectTradesFetcher) (db : Option EventDb) (hashes : List B256) :
    TradesByHash × TradesByOrderHashCache :=
  (((checkCache cache hashes).2.map fun hash =>
    (hash, fetchedFor ds directTrades db (checkCache cache hashes).2 hash)).foldl keepResult
      ((checkCache cache hashes).1, cache))

theorem processTradesBatch_eq (ds : TradesDataSource F) (cache : TradesByOrderHashCache)
    (directTrades : Option DirectTradesFetcher) (db : Option EventDb) (hashes : List B256) :
    processTradesBatch ds cache directTrades db hashes =
      (.ok { orders := takeEntries (afterResults ds cache directTrades db hashes).1 hashes },
        (afterResults ds cache directTrades db hashes).2) := by
  have hr : (if (checkCache cache hashes).2.isEmpty then []
      else fetchUncached ds directTrades db (checkCache cache hashes).2) =
      (checkCache cache hashes).2.map fun hash =>
        (hash, fetchedFor ds directTrades db (checkCache cache hashes).2 hash) := by
    rw [← fetchUncached_eq]
    split
    · next he => rw [fetchUncached_eq, List.isEmpty_iff.1 he, List.map_nil]
    · rfl
  simp only [processTradesBatch, hr]
  rfl

theorem afterResults_getD (ds : TradesDataSource F) {cache : TradesByOrderHashCache}
    (directTrades : Option DirectTradesFetcher) (db : Option EventDb) {hashes : List B256}
    {hash : B256} (hm : hash ∈ hashes) :
    ((afterResults ds cache directTrades db hashes).1 hash).getD [] =
      resolvedList ds cache directTrades db hashes hash := by
  rw [afterResults, foldl_keepResult, resolvedList]
  cases hc : cache.get hash with
  | none => rw [if_pos (mem_uncached.2 ⟨hm, hc⟩), Option.getD_some, Option.getD_none]
  | some trades =>
    have hn : hash ∉ (checkCache cache hashes).2 := by
      rw [mem_uncached, hc]
      simp
    rw [if_neg hn, checkCache_eq]
    simp only [if_pos hm, hc, Option.getD_some]

/-- Every position of the answer carries the list of its hash just when no repeated hash has
trades: the later positions of a repeated hash come out empty. -/
theorem processTradesBatch_resolved_iff (ds : TradesDataSource F) (cache : TradesByOrderHashCache)
    (directTrades : Option DirectTradesFetcher) (db : Option EventDb) (hashes : List B256) :
    (processTradesBatch ds cache directTrades db hashes).1 = .ok {
        orders := hashes.map fun hash =>
          ⟨hash, resolvedList ds cache directTrades db hashes hash⟩ } ↔
      ∀ hash, hashes.Duplicate hash →
        resolvedList ds cache directTrades db hashes hash = [] := by
  rw [processTradesBatch_eq, Except.ok.injEq, TradesBatchResponse.mk.injEq,
    takeEntries_eq_map_iff]
  constructor
  · rintro ⟨-, hdup⟩
    exact hdup
  · intro hdup
    exact ⟨fun hash hm => afterResults_getD ds directTrades db hm, hdup⟩

theorem postTradesBatch_eq (ds : TradesDataSource F) (cache : TradesByOrderHashCache)
    (directTrades : Option DirectTradesFetcher) (db : Option EventDb) {hashes : List B256}
    (hl : hashes.length ≤ tradesBatchMaxHashes) :
    postTradesBatch ds cache directTrades db hashes =
      processTradesBatch ds cache directTrades db hashes := by
  unfold postTradesBatch
  split_ifs with he hlong
  · rw [List.isEmpty_iff.1 he]
    rfl
  · omega
  · rfl

/-! ## What the library path caches -/

/-- The batch takes the library path: there is no fetcher, or its query fails. -/
def LibraryPath (F : Type) [FloatLib F] (directTrades : Option DirectTradesFetcher)
    (db : Option EventDb) (uncached : List B256) : Prop :=
  ∀ fetcher ∈ directTrades, ∀ batchResult, fetcher.batchFetch F db uncached ≠ .ok batchResult

theorem LibraryPath.fetchedFor_eq {directTrades : Option DirectTradesFetcher}
    {db : Option EventDb} {uncached : List B256} (hlib : LibraryPath F directTrades db uncached)
    (ds : TradesDataSource F) (hash : B256) :
    fetchedFor ds directTrades db uncached hash = fetchTradesForHash ds hash := by
  cases directTrades with
  | none => rfl
  | some fetcher =>
    rw [fetchedFor]
    cases hb : fetcher.batchFetch F db uncached with
    | ok batchResult => exact absurd hb (hlib fetcher rfl batchResult)
    | error e => rfl

theorem get_processTradesBatch {directTrades : Option DirectTradesFetcher}
    {db : Option EventDb} {cache : TradesByOrderHashCache} {hashes : List B256}
    (hlib : LibraryPath F directTrades db (checkCache cache hashes).2)
    (ds : TradesDataSource F) (hash : B256) :
    (processTradesBatch ds cache directTrades db hashes).2.get hash =
      if hash ∈ (checkCache cache hashes).2 then (fetchTradesForHash ds hash).toOption
      else cache.get hash := by
  rw [processTradesBatch_eq, afterResults, get_foldl_keepResult, hlib.fetchedFor_eq]
  split_ifs with hm
  · rw [(mem_uncached.1 hm).2, Option.or_none]
  · rfl

/-- What a batch on the library path leaves in the cache is determined by the lookups just when
no lookup was blind: a blind one leaves an empty list. -/
theorem processTradesBatch_caches_iff (client : RaindexClient F) (cache : TradesByOrderHashCache)
    {directTrades : Option DirectTradesFetcher} {db : Option EventDb} {hashes : List B256}
    (hlib : LibraryPath F directTrades db (checkCache cache hashes).2) :
    (∀ hash, if hash ∈ (checkCache cache hashes).2 then
      ∀ trades, (processTradesBatch (raindexTradesDataSource client) cache directTrades db
        hashes).2.get hash = some trades → Determined client hash trades
      else (processTradesBatch (raindexTradesDataSource client) cache directTrades db
        hashes).2.get hash = cache.get hash) ↔
      ∀ hash ∈ (checkCache cache hashes).2, ¬ Blind client hash := by
  constructor
  · intro hdet hash hm hb
    have hget := get_processTradesBatch hlib (raindexTradesDataSource client) hash
    rw [if_pos hm, hb.fetchTradesForHash_eq] at hget
    have := hdet hash
    rw [if_pos hm] at this
    exact hb.not_determined [] (this [] hget)
  · intro hno hash
    rw [get_processTradesBatch hlib]
    split_ifs with hm
    · intro entries hget
      cases hf : fetchTradesForHash (raindexTradesDataSource client) hash with
      | error e =>
        rw [hf] at hget
        cases hget
      | ok trades =>
        rw [hf] at hget
        obtain rfl : trades = entries := Option.some.inj hget
        exact determined_of_fetch hf (hno hash hm)
    · rfl

end Entries

section Example

local instance lookupHexText : HexText := Hex.text

local instance lookupFloats : FloatLib ℚ := Rational.floats

def lookupClient (lookup : Except RaindexError RaindexOrder) : RaindexClient ℚ where
  getAllOrderbooks := .ok [⟨8453, 1⟩]
  getOrders _ _ _ := .ok ([], 0)
  getOrderByHash _ _ := lookup
  getTradesList _ _ _ := .ok [{
    id := "trade"
    orderHash := [1]
    transaction := { id := 5, sender := 2, blockNumber := 10, timestamp := 9 }
    inputVaultBalanceChange := { token := ⟨3, none, 6⟩, amount := 1, formattedAmount := "1" }
    outputVaultBalanceChange := { token := ⟨4, none, 6⟩, amount := -1, formattedAmount := "-1" }
    timestamp := 9 }]
  getTransactionTrades _ _ := .ok []
  getTransaction _ _ := .ok ()

def lookupOrder : RaindexOrder where
  id := [1]
  chainId := 8453
  orderbook := 1
  orderHash := 43981
  owner := 7

/-- A hash asked for twice has its trade at the first position only. -/
theorem processTradesBatch_twice :
    (processTradesBatch (raindexTradesDataSource (lookupClient (.ok lookupOrder))) .new none none
        [43981, 43981]).1 ≠ .ok {
      orders := [43981, 43981].map fun hash =>
        ⟨hash, resolvedList (raindexTradesDataSource (lookupClient (.ok lookupOrder))) .new none
          none [43981, 43981] hash⟩ } := by
  decide +kernel

/-- A lookup that fails leaves the empty list as the hash's trades. -/
theorem processTradesBatch_caches_blind :
    (processTradesBatch (raindexTradesDataSource (lookupClient (.error (.other "timeout")))) .new
        none none [43981]).2.get 43981 = some [] ∧
      ¬ Determined (lookupClient (.error (.other "timeout"))) 43981 [] := by
  constructor
  · decide +kernel
  · apply Blind.not_determined
    refine ⟨[⟨8453, 1⟩], rfl, ?_, ⟨8453, 1⟩, by simp, ?_⟩
    · intro orderbook _ order h
      cases h
    · intro h
      cases h

theorem processTradesBatch_caches_found :
    ∃ trades, (processTradesBatch (raindexTradesDataSource (lookupClient (.ok lookupOrder)))
        .new (some ⟨8453, "0x01"⟩) none [43981]).2.get 43981 = some trades ∧
      Determined (lookupClient (.ok lookupOrder)) 43981 trades := by
  -- the query of the fetcher fails
  have hlib : LibraryPath ℚ (some ⟨8453, "0x01"⟩) none (checkCache .new [43981]).2 := by
    rintro fetcher hf batchResult hb
    obtain rfl : _ = fetcher := Option.some.inj hf
    cases hb
  have hall := (processTradesBatch_caches_iff (lookupClient (.ok lookupOrder)) .new hlib).2 ?_ 43981
  · rw [if_pos (by decide)] at hall
    have hsome : ((processTradesBatch (raindexTradesDataSource (lookupClient (.ok lookupOrder)))
        .new (some ⟨8453, "0x01"⟩) none [43981]).2.get 43981).isSome = true := by
      decide +kernel
    obtain ⟨trades, ht⟩ := Option.isSome_iff_exists.1 hsome
    exact ⟨trades, ht, hall trades ht⟩
  · rintro hash - ⟨orderbooks, hall, hno, orderbook, hm, -⟩
    exact hno orderbook hm lookupOrder rfl

end Example

end DirectTrades

end AlbionApi
