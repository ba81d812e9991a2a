import AlbionApi.Trades.Pages

/-! # The time window of a taker's trades

The taker listing takes the same time bounds as the listing of an owner's
trades and answers as if they were not there.
-/

namespace AlbionApi

/-- A timestamp within the bounds that are set. -/
def InWindow (startTime endTime : Option UInt64) (timestamp : UInt64) : Prop :=
  (∀ s ∈ startTime, s ≤ timestamp) ∧ ∀ e ∈ endTime, timestamp ≤ e

instance (startTime endTime : Option UInt64) (timestamp : UInt64) :
    Decidable (InWindow startTime endTime timestamp) :=
  decidable_of_iff (startTime.all (· ≤ timestamp) = true ∧ endTime.all (timestamp ≤ ·) = true) <| by
    simp [InWindow, Option.all_eq_true]

section Window

variable {F : Type} [FloatLib F] [HexText] {ds : TradesDataSource F}
  {fetchTakerTxHashes : FetchTakerTxHashes} {caches : TakerCaches} {sender : Address}
  {txHashes : List (B256 × UInt64)}

/-- Every page of the taker's trades stays within the bounds and counts the transactions of the
list that are within them. -/
def RespectsWindow (ds : TradesDataSource F) (fetchTakerTxHashes : FetchTakerTxHashes)
    (caches : TakerCaches) (sender : Address) (txHashes : List (B256 × UInt64))
    (startTime endTime : Option UInt64) : Prop :=
  ∀ page pageSize : Option UInt32, ∃ response caches',
    processGetTakerTrades ds (some fetchTakerTxHashes) caches sender
      ⟨page, pageSize, startTime, endTime⟩ = some (.ok response, caches') ∧
    (∀ marketOrder ∈ response.marketOrders, InWindow startTime endTime marketOrder.timestamp) ∧
    response.pagination =
      pagination (len (txHashes.filter fun entry => InWindow startTime endTime entry.2))
        (page.getD 1) (pageSize.getD 20)

/-- The window is respected just when there is nothing to leave out: every transaction of the
taker is within the bounds, by the list's timestamp and by that of its trades. -/
theorem processGetTakerTrades_window_iff
    (h : (caches.takerTx.getOrTryInsert sender (fetchTakerTxHashes sender)).1 = .ok txHashes)
    (hl : txHashes.length ≤ isizeMax) (startTime endTime : Option UInt64) :
    RespectsWindow ds fetchTakerTxHashes caches sender txHashes startTime endTime ↔
      ∀ entry ∈ txHashes, InWindow startTime endTime entry.2 ∧
        ∀ txTrades, resolvedTx ds caches.tradesByTx entry.1 = some txTrades →
          InWindow startTime endTime txTrades.timestamp := by
  have hpage := processGetTakerTrades_eq ds h hl
  constructor
  · intro hw entry hm
    constructor
    · -- the total alone tells whether a transaction is left out
      obtain ⟨response, caches', hr, -, hinfo⟩ := hw none none
      obtain ⟨caches'', hr'⟩ := hpage none none startTime endTime
      rw [hr, Option.some.injEq, Prod.mk.injEq, Except.ok.injEq] at hr'
      rw [hr'.1] at hinfo
      have hlen := congrArg (fun info => info.totalTrades.toNat) hinfo
      simp only [pagination] at hlen
      rw [toNat_len hl, toNat_len ((List.length_filter_le _ _).trans hl), eq_comm,
        List.length_filter_eq_length_iff] at hlen
      exact of_decide_eq_true (hlen entry hm)
    · intro txTrades htx
      -- pages of the largest size reach every transaction
      have hcover : txHashes.length ≤ 4294967295 * 4294967295 := hl.trans (by decide)
      obtain ⟨i, -, hi, hm⟩ := Listing.exists_mem_page hcover hm
      obtain ⟨response, caches', hr, hin, -⟩ := hw (some (UInt32.ofNat i)) (some 4294967295)
      obtain ⟨caches'', hr'⟩ := hpage (some (UInt32.ofNat i)) (some 4294967295) startTime endTime
      rw [hr, Option.some.injEq, Prod.mk.injEq, Except.ok.injEq] at hr'
      apply hin
      rw [hr'.1]
      have hni : (UInt32.ofNat i).toNat = i :=
        UInt32.toNat_ofNat_of_lt' (lt_of_le_of_lt hi (by decide))
      simp only [Option.getD_some, hni]
      exact List.mem_filterMap.2 ⟨entry, hm, htx⟩
  · intro hin page pageSize
    obtain ⟨caches', hr⟩ := hpage page pageSize startTime endTime
    refine ⟨_, caches', hr, ?_, ?_⟩
    · intro marketOrder hm
      obtain ⟨entry, hm, htx⟩ := List.mem_filterMap.1 hm
      exact (hin entry (Listing.mem_of_mem_page hm)).2 marketOrder htx
    · have hfilter : txHashes.filter (fun entry => InWindow startTime endTime entry.2) =
          txHashes := by
        rw [List.filter_eq_self]
        intro entry hm
        exact decide_eq_true (hin entry hm).1
      rw [hfilter]

end Window

section Example

local instance lateHexText : HexText := Hex.text

local instance lateFloats : FloatLib ℚ := Rational.floats

def lateSource : TradesDataSource ℚ :=
  { soleSource [] with
    getTradesByTx := fun _ =>
      .ok [⟨7, { soleTrade 100 with orderHash := List.replicate 32 1 }⟩] }

def lateTaker : FetchTakerTxHashes := fun _ => .ok [(5, 100)]

theorem lateTaker_eq :
    ((⟨.new, .new⟩ : TakerCaches).takerTx.getOrTryInsert 2 (lateTaker 2)).1 = .ok [(5, 100)] :=
  rfl

theorem resolvedTx_late :
    (resolvedTx lateSource .new 5).map (·.timestamp) = some 100 := by
  decide +kernel

theorem processGetTakerTrades_late :
    (∃ response caches', processGetTakerTrades lateSource (some lateTaker) ⟨.new, .new⟩ 2
        ⟨none, none, some 200, none⟩ = some (.ok response, caches') ∧
      response.pagination.totalTrades = 1 ∧
      ∃ marketOrder ∈ response.marketOrders, marketOrder.timestamp = 100) ∧
    ¬ RespectsWindow lateSource lateTaker ⟨.new, .new⟩ 2 [(5, 100)] (some 200) none := by
  obtain ⟨txTrades, htx, ht⟩ := Option.map_eq_some_iff.1 resolvedTx_late
  obtain ⟨caches', hr⟩ := processGetTakerTrades_eq lateSource lateTaker_eq (by decide) none none
    (some 200) none
  have hm : txTrades ∈ (Listing.page [((5 : B256), (100 : UInt64))] 20 1).filterMap fun entry =>
      resolvedTx lateSource .new entry.1 :=
    List.mem_filterMap.2 ⟨(5, 100), List.mem_singleton.2 rfl, htx⟩
  refine ⟨⟨_, caches', hr, rfl, txTrades, hm, ht⟩, ?_⟩
  intro hw
  obtain ⟨response, caches'', hr', hin, -⟩ := hw none none
  rw [hr, Option.some.injEq, Prod.mk.injEq, Except.ok.injEq] at hr'
  have := hin txTrades (hr'.1 ▸ hm)
  rw [ht] at this
  exact absurd this (by decide)

theorem processGetTakerTrades_in_time :
    RespectsWindow lateSource lateTaker ⟨.new, .new⟩ 2 [(5, 100)] (some 50) (some 100) := by
  refine (processGetTakerTrades_window_iff lateTaker_eq (by decide) _ _).2 ?_
  intro entry hm
  obtain rfl := List.mem_singleton.1 hm
  refine ⟨by decide, ?_⟩
  intro txTrades htx
  have ht : txTrades.timestamp = 100 := by
    have := resolvedTx_late
    rw [htx] at this
    exact Option.some.inj this
  rw [ht]
  decide

end Example

end AlbionApi
