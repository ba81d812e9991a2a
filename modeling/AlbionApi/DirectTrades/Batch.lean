import AlbionApi.Cache.AppCache
import AlbionApi.DirectTrades.Fetcher
import AlbionApi.Trades.RaindexSource

/-! # Batches of trades

The trades of several order hashes. What the cache does not have is fetched by
one query of the direct fetcher, or by one library lookup for each hash where
there is no fetcher or its query fails.
-/

namespace AlbionApi

/-- The trades in the first entry of an order hash. -/
def TradesBatchResponse.tradesOf (response : TradesBatchResponse) (hash : B256) :
    List OrderTradeEntry :=
  ((response.orders.find? fun entry => entry.orderHash = hash).map (·.trades)).getD []

namespace DirectTrades

abbrev TradesByOrderHashCache := AppCache B256 (List OrderTradeEntry)

/-- `cached_map`, and the hashes that the cache does not have. -/
def checkCache (cache : TradesByOrderHashCache) (hashes : List B256) : TradesByHash × List B256 :=
  hashes.foldl (fun (cachedMap, uncached) hash =>
    match cache.get hash with
    | some trades => (Function.update cachedMap hash (some trades), uncached)
    | none => (cachedMap, uncached ++ [hash])) (fun _ => none, [])

/-- A fetched list enters cache and map; an error only leaves the empty list in the map. -/
def keepResult : TradesByHash × TradesByOrderHashCache →
    B256 × Except ApiError (List OrderTradeEntry) → TradesByHash × TradesByOrderHashCache
  | (cachedMap, cache), (hash, .ok trades) =>
    (Function.update cachedMap hash (some trades), cache.insert hash trades)
  | (cachedMap, cache), (hash, .error _) => (Function.update cachedMap hash (some []), cache)

/-- The entries of the response, for each of which the map gives up its trades. -/
def takeEntries : TradesByHash → List B256 → List TradesBatchEntry
  | _, [] => []
  | cachedMap, hash :: hashes =>
    { orderHash := hash, trades := (cachedMap hash).getD [] } ::
      takeEntries (Function.update cachedMap hash none) hashes

section Process

variable {F : Type} [FloatLib F] [HexText]

def fetchUncached (ds : TradesDataSource F) (directTrades : Option DirectTradesFetcher)
    (db : Option EventDb) (uncached : List B256) :
    List (B256 × Except ApiError (List OrderTradeEntry)) :=
  match directTrades with
  | some fetcher =>
    match fetcher.batchFetch F db uncached with
    | .ok batchResult => uncached.map fun hash => (hash, .ok ((batchResult hash).getD []))
    | .error _ => uncached.map fun hash => (hash, fetchTradesForHash ds hash)
  | none => uncached.map fun hash => (hash, fetchTradesForHash ds hash)

def processTradesBatch (ds : TradesDataSource F) (cache : TradesByOrderHashCache)
    (directTrades : Option DirectTradesFetcher) (db : Option EventDb) (hashes : List B256) :
    Except ApiError TradesBatchResponse × TradesByOrderHashCache :=
  let (cachedMap, uncached) := checkCache cache hashes
  let results := if uncached.isEmpty then [] else fetchUncached ds directTrades db uncached
  let (cachedMap, cache) := results.foldl keepResult (cachedMap, cache)
  (.ok { orders := takeEntries cachedMap hashes }, cache)

/-- `TRADES_BATCH_MAX_HASHES`. -/
def tradesBatchMaxHashes : ℕ := 50

def postTradesBatch (ds : TradesDataSource F) (cache : TradesByOrderHashCache)
    (directTrades : Option DirectTradesFetcher) (db : Option EventDb) (hashes : List B256) :
    Except ApiError TradesBatchResponse × TradesByOrderHashCache :=
  if hashes.isEmpty then (.ok { orders := [] }, cache)
  else if hashes.length > tradesBatchMaxHashes then
    (.error (.badRequest
      ("maximum " ++ toString tradesBatchMaxHashes ++ " order hashes per batch request")), cache)
  else processTradesBatch ds cache directTrades db hashes

end Process

/-! ## What a batch answers -/

theorem foldl_checkCache (cache : TradesByOrderHashCache) (hashes : List B256) (m : TradesByHash)
    (us : List B256) :
    (hashes.foldl (fun (cachedMap, uncached) hash =>
      match cache.get hash with
      | some trades => (Function.update cachedMap hash (some trades), uncached)
      | none => (cachedMap, uncached ++ [hash])) (m, us)) =
      (fun h => if h ∈ hashes ∧ (cache.get h).isSome then cache.get h else m h,
        us ++ hashes.filter fun h => cache.get h = none) := by
  induction hashes generalizing m us with
  | nil => simp
  | cons hash hashes ih =>
    rw [List.foldl_cons]
    cases hc : cache.get hash with
    | none =>
      rw [ih, List.filter_cons_of_pos (by simp [hc]), List.append_assoc, List.singleton_append]
      congr 1
      ext1 h
      by_cases he : h = hash
      · subst he
        simp [hc]
      · simp [he]
    | some trades =>
      rw [ih, List.filter_cons_of_neg (by simp [hc])]
      congr 1
      ext1 h
      by_cases he : h = hash
      · subst he
        simp [hc]
      · simp [he]

theorem checkCache_eq (cache : TradesByOrderHashCache) (hashes : List B256) :
    checkCache cache hashes = (fun h => if h ∈ hashes then cache.get h else none,
      hashes.filter fun h => cache.get h = none) := by
  rw [checkCache, foldl_checkCache, List.nil_append]
  congr 1
  ext1 h
  by_cases hm : h ∈ hashes
  · cases hc : cache.get h <;> simp [hm]
  · simp [hm]

theorem mem_uncached {cache : TradesByOrderHashCache} {hashes : List B256} {h : B256} :
    h ∈ (checkCache cache hashes).2 ↔ h ∈ hashes ∧ cache.get h = none := by
  rw [checkCache_eq, List.mem_filter, decide_eq_true_iff]

theorem foldl_keepResult (g : B256 → Except ApiError (List OrderTradeEntry)) (hashes : List B256)
    (m : TradesByHash) (cache : TradesByOrderHashCache) (h : B256) :
    ((hashes.map fun hash => (hash, g hash)).foldl keepResult (m, cache)).1 h =
      if h ∈ hashes then some ((g h).toOption.getD []) else m h := by
  induction hashes generalizing m cache with
  | nil => simp
  | cons hash hashes ih =>
    rw [List.map_cons, List.foldl_cons]
    by_cases hm : h ∈ hashes
    · rw [ih, if_pos hm, if_pos (List.mem_cons_of_mem _ hm)]
    · rw [ih, if_neg hm]
      by_cases he : h = hash
      · subst he
        cases g h <;> simp [keepResult, Except.toOption]
      · cases hg : g hash <;> simp [keepResult, he, hm]

theorem find_takeEntries (m : TradesByHash) {hashes : List B256} {h : B256} (hm : h ∈ hashes) :
    ((takeEntries m hashes).find? fun entry => entry.orderHash = h) =
      some { orderHash := h, trades := (m h).getD [] } := by
  induction hashes generalizing m with
  | nil => cases hm
  | cons hash hashes ih =>
    rw [takeEntries]
    by_cases he : hash = h
    · rw [List.find?_cons_of_pos (by simpa using he), he]
    · rw [List.find?_cons_of_neg (by simpa using he),
        ih _ (List.mem_of_ne_of_mem (Ne.symm he) hm), Function.update_of_ne (Ne.symm he)]

section Answers

variable {F : Type} [FloatLib F] [HexText]

def fetchedFor (ds : TradesDataSource F) (directTrades : Option DirectTradesFetcher)
    (db : Option EventDb) (uncached : List B256) (hash : B256) :
    Except ApiError (List OrderTradeEntry) :=
  match directTrades with
  | some fetcher =>
    match fetcher.batchFetch F db uncached with
    | .ok batchResult => .ok ((batchResult hash).getD [])
    | .error _ => fetchTradesForHash ds hash
  | none => fetchTradesForHash ds hash

theorem fetchUncached_eq (ds : TradesDataSource F) (directTrades : Option DirectTradesFetcher)
    (db : Option EventDb) (uncached : List B256) : fetchUncached ds directTrades db uncached =
      uncached.map fun hash => (hash, fetchedFor ds directTrades db uncached hash) := by
  cases directTrades with
  | none => rfl
  | some fetcher =>
    simp only [fetchUncached, fetchedFor]
    cases fetcher.batchFetch F db uncached <;> rfl

def batchAnswer (ds : TradesDataSource F) (cache : TradesByOrderHashCache)
    (directTrades : Option DirectTradesFetcher) (db : Option EventDb) (hashes : List B256)
    (hash : B256) : List OrderTradeEntry :=
  match (processTradesBatch ds cache directTrades db hashes).1 with
  | .ok response => response.tradesOf hash
  | .error _ => []

theorem batchAnswer_uncached {cache : TradesByOrderHashCache} {hashes : List B256} {h : B256}
    (hu : h ∈ (checkCache cache hashes).2) (ds : TradesDataSource F)
    (directTrades : Option DirectTradesFetcher) (db : Option EventDb) :
    batchAnswer ds cache directTrades db hashes h =
      (fetchedFor ds directTrades db (checkCache cache hashes).2 h).toOption.getD [] := by
  have hne : (checkCache cache hashes).2.isEmpty = false := by
    rw [List.isEmpty_eq_false_iff]
    exact List.ne_nil_of_mem hu
  simp only [batchAnswer, processTradesBatch, hne, Bool.false_eq_true, if_false,
    TradesBatchResponse.tradesOf, find_takeEntries _ (mem_uncached.1 hu).1, fetchUncached_eq]
  rw [Option.map_some, Option.getD_some, foldl_keepResult, if_pos hu, Option.getD_some]

end Answers

end DirectTrades

end AlbionApi
