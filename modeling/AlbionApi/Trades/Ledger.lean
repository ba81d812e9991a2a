import AlbionApi.DirectTrades.Batch
import AlbionApi.Foundations.Tables
import AlbionApi.Trades.Pages
import AlbionApi.Trades.Resolved

/-! # One ledger of trades

Trades are read by the owner of their order, by their transaction and by their
order. Over a library that reports one ledger, the three readings tell of the
same trades.
-/

namespace AlbionApi

variable {F : Type}

/-- Orders on the configured orderbooks, and the trades of each. -/
structure Ledger (F : Type) where
  orderbooks : List OrderbookCfg
  orders : List RaindexOrder
  trades : RaindexOrder → List (RaindexTrade F)

/-- A trade of the ledger, with its order. -/
structure LedgerTrade (F : Type) where
  order : RaindexOrder
  trade : RaindexTrade F

def RaindexOrder.placedOn (order : RaindexOrder) : OrderbookCfg := ⟨order.chainId, order.orderbook⟩

namespace Ledger

def entries (L : Ledger F) : List (LedgerTrade F) :=
  L.orders.flatMap fun order => (L.trades order).map (LedgerTrade.mk order)

def ordersOf (L : Ledger F) (owner : Address) : List RaindexOrder :=
  L.orders.filter fun order => order.owner = owner

def inTransaction (L : Ledger F) (txHash : B256) : List (LedgerTrade F) :=
  L.entries.filter fun e => e.trade.transaction.id = txHash

theorem mem_entries {L : Ledger F} {e : LedgerTrade F} :
    e ∈ L.entries ↔ e.order ∈ L.orders ∧ e.trade ∈ L.trades e.order := by
  obtain ⟨order, trade⟩ := e
  simp only [entries, List.mem_flatMap, List.mem_map, LedgerTrade.mk.injEq]
  constructor
  · rintro ⟨order', ho, trade', ht, rfl, rfl⟩
    exact ⟨ho, ht⟩
  · rintro ⟨ho, ht⟩
    exact ⟨order, ho, trade, ht, rfl, rfl⟩

theorem mem_inTransaction {L : Ledger F} {txHash : B256} {e : LedgerTrade F} :
    e ∈ L.inTransaction txHash ↔ e ∈ L.entries ∧ e.trade.transaction.id = txHash := by
  rw [inTransaction, List.mem_filter, decide_eq_true_iff]

/-- The trades carry the hash of their order, which names one order, and the time of their
transaction, of which there is one for each id. -/
structure Consistent [HexText] (L : Ledger F) : Prop where
  orderbooks : L.orderbooks.Nodup
  placed : ∀ order ∈ L.orders, order.placedOn ∈ L.orderbooks
  orderHashes : (L.orders.map RaindexOrder.orderHash).Nodup
  orderHash : ∀ e ∈ L.entries, maybeParseTradeOrderHash e.trade.orderHash = some e.order.orderHash
  transaction : ∀ e ∈ L.entries, ∀ e' ∈ L.entries,
    e.trade.transaction.id = e'.trade.transaction.id → e.trade.transaction = e'.trade.transaction
  timestamp : ∀ e ∈ L.entries, e.trade.timestamp = e.trade.transaction.timestamp

/-- The numbers of the ledger fit the fields of the responses. -/
structure Fits (L : Ledger F) : Prop where
  scannable : ∀ owner, (L.ordersOf owner).length ≤ 50 * 65534
  timestamp : ∀ e ∈ L.entries, e.trade.timestamp.toNat < 2 ^ 64
  blockNumber : ∀ e ∈ L.entries, e.trade.transaction.blockNumber.toNat < 2 ^ 64
  allocatable : L.entries.length ≤ isizeMax

/-- A client reports the ledger. -/
structure ReportedBy (L : Ledger F) (client : RaindexClient F) : Prop where
  orderbooks : client.getAllOrderbooks = .ok L.orderbooks
  orders : ∀ owner, ∀ page : UInt16, 0 < page.toNat →
    client.getOrders { owners := [owner], active := none } (some page) (some ordersScanPageSize) =
      .ok (Listing.page (L.ordersOf owner) ordersScanPageSize.toNat page.toNat,
        UInt32.ofNat (L.ordersOf owner).length)
  trades : ∀ order ∈ L.orders, client.getTradesList order none none = .ok (L.trades order)
  transactionTrades : ∀ orderbook ∈ L.orderbooks, ∀ txHash, ∃ trades,
    client.getTransactionTrades orderbook txHash = .ok trades ∧
      trades.Perm (((L.inTransaction txHash).filter fun e => e.order.placedOn = orderbook).map
        fun e => (e.order.owner, e.trade))
  found : ∀ order ∈ L.orders,
    client.getOrderByHash order.placedOn order.orderHash = .ok order
  missing : ∀ order ∈ L.orders, ∀ orderbook ∈ L.orderbooks, orderbook ≠ order.placedOn →
    client.getOrderByHash orderbook order.orderHash = .error .orderNotFound

end Ledger

variable {L : Ledger F} {client : RaindexClient F} {txHash : B256}

def LedgerTrade.owned (e : LedgerTrade F) : TradeWithOwner F := ⟨e.order.owner, e.trade⟩

theorem exists_transactionTrades {orderbooks : List OrderbookCfg}
    {rows : OrderbookCfg → List (TradeWithOwner F)}
    (h : ∀ orderbook ∈ orderbooks, ∃ trades,
      client.getTransactionTrades orderbook txHash = .ok trades ∧
        (trades.map fun t => (⟨t.1, t.2⟩ : TradeWithOwner F)).Perm (rows orderbook)) :
    ∃ trades, transactionTrades client txHash orderbooks = .ok trades ∧
      trades.Perm (orderbooks.flatMap rows) := by
  induction orderbooks with
  | nil => exact ⟨[], rfl, .nil⟩
  | cons orderbook orderbooks ih =>
    obtain ⟨trades, ht, hp⟩ := h orderbook List.mem_cons_self
    obtain ⟨rest, hr, hps⟩ := ih fun ob hob => h ob (List.mem_cons_of_mem _ hob)
    refine ⟨_, ?_, hp.append hps⟩
    rw [transactionTrades, ht, hr]
    rfl

/-- The lookup of a transaction gets its trades, each with the owner of its order. -/
theorem Ledger.ReportedBy.exists_getTradesByTx [HexText] (hR : L.ReportedBy client)
    (hL : L.Consistent) (txHash : B256) :
    ∃ trades, (raindexTradesDataSource client).getTradesByTx txHash = .ok trades ∧
      trades.Perm ((L.inTransaction txHash).map LedgerTrade.owned) := by
  have hrows : ∀ orderbook ∈ L.orderbooks, ∃ trades,
      client.getTransactionTrades orderbook txHash = .ok trades ∧
        (trades.map fun t => (⟨t.1, t.2⟩ : TradeWithOwner F)).Perm
          (((L.inTransaction txHash).filter fun e => e.order.placedOn = orderbook).map
            LedgerTrade.owned) := by
    intro orderbook hob
    obtain ⟨trades, ht, hp⟩ := hR.transactionTrades orderbook hob txHash
    refine ⟨trades, ht, ?_⟩
    have := hp.map fun t => (⟨t.1, t.2⟩ : TradeWithOwner F)
    rwa [List.map_map] at this
  obtain ⟨trades, ht, hp⟩ := exists_transactionTrades hrows
  refine ⟨trades, ?_, hp.trans ?_⟩
  · simp only [raindexTradesDataSource, hR.orderbooks, mapErr, bind, Except.bind]
    exact ht
  · rw [← List.map_flatMap]
    refine List.Perm.map _ (Tables.flatMap_filter_perm hL.orderbooks ?_)
    intro e he
    exact hL.placed _ (Ledger.mem_entries.1 (List.mem_of_mem_filter he)).1

def TradeByAddress.shown (t : TradeByAddress) : ShownTrade where
  orderHash := t.orderHash
  inputToken := t.inputToken.address
  outputToken := t.outputToken.address
  inputAmount := t.inputAmount
  outputAmount := t.outputAmount

/-- The part that the trades of an order show as well. -/
def ShownTrade.amounts (t : ShownTrade) : String × String := (t.inputAmount, t.outputAmount)

def OrderTradeEntry.amounts (entry : OrderTradeEntry) : String × String :=
  (entry.inputAmount, entry.outputAmount)

theorem Ledger.filter_entries (L : Ledger F) (p : RaindexOrder → Prop) [DecidablePred p] :
    (L.entries.filter fun e => p e.order) =
      (L.orders.filter fun order => p order).flatMap fun order =>
        (L.trades order).map (LedgerTrade.mk order) := by
  have hkeep (order : RaindexOrder) :
      ((L.trades order).map (LedgerTrade.mk order)).filter (fun e => p e.order) =
        if p order then (L.trades order).map (LedgerTrade.mk order) else [] := by
    rw [List.filter_map]
    split_ifs with hp
    · rw [List.filter_eq_self.2]
      intro trade _
      exact decide_eq_true hp
    · rw [List.filter_eq_nil_iff.2, List.map_nil]
      intro trade _
      simpa using hp
  rw [entries, List.filter_flatMap]
  simp only [hkeep]
  rw [← Tables.flatMap_filter fun order _ hn => if_neg hn]
  apply List.flatMap_congr
  intro order ho
  rw [if_pos (of_decide_eq_true (List.mem_filter.1 ho).2)]

theorem Ledger.flatMap_trades (L : Ledger F) (owner : Address) :
    (L.ordersOf owner).flatMap L.trades =
      (L.entries.filter fun e => e.order.owner = owner).map LedgerTrade.trade := by
  rw [L.filter_entries fun order => order.owner = owner, List.map_flatMap, ordersOf]
  simp only [List.map_map, Function.comp_def, List.map_id']

theorem Ledger.ReportedBy.servesTrades (hR : L.ReportedBy client) (hF : L.Fits)
    (owner : Address) :
    ServesTrades (raindexTradesDataSource client) owner none none (L.ordersOf owner) L.trades := by
  have hmem : ∀ order ∈ L.ordersOf owner, order ∈ L.orders := fun _ ho => List.mem_of_mem_filter ho
  have hentry : ∀ order ∈ L.ordersOf owner, ∀ trade ∈ L.trades order,
      (⟨order, trade⟩ : LedgerTrade F) ∈ L.entries :=
    fun order ho trade ht => Ledger.mem_entries.2 ⟨hmem order ho, ht⟩
  constructor
  · intro page hp
    simp only [raindexTradesDataSource, hR.orders owner page hp, mapErr]
  · exact hF.scannable owner
  · intro order ho
    simp only [raindexTradesDataSource, hR.trades order (hmem order ho), mapErr]
  · exact fun order ho trade ht => hF.timestamp _ (hentry order ho trade ht)
  · exact fun order ho trade ht => hF.blockNumber _ (hentry order ho trade ht)
  · rw [L.flatMap_trades, List.length_map]
    exact (List.length_filter_le ..).trans hF.allocatable

section Readings

variable [HexText]

/-- The rows of the first pages of an owner's trades. -/
def walk (ds : TradesDataSource F) (owner : Address) (pageSize : UInt32) (n : ℕ) :
    List TradeByAddress :=
  (List.range' 1 n).flatMap fun p => tradesOn ds owner none none pageSize (UInt32.ofNat p)

/-- A walk through enough pages meets the trades of the owner. -/
theorem Ledger.ReportedBy.walk_perm (hR : L.ReportedBy client) (hF : L.Fits) {owner : Address}
    {pageSize : UInt32} {n : ℕ} (hn : n < 2 ^ 32)
    (hl : (L.entries.filter fun e => e.order.owner = owner).length ≤ n * pageSize.toNat) :
    (walk (raindexTradesDataSource client) owner pageSize n).Perm
      ((L.entries.filter fun e => e.order.owner = owner).map fun e => listed e.trade) := by
  obtain ⟨sorted, hsorted, -, hpages⟩ := (hR.servesTrades hF owner).pagesOf
  have hperm := hsorted.perm
  rw [L.flatMap_trades, List.map_map] at hperm
  rw [walk, hpages.concat pageSize n hn, List.take_of_length_le]
  · exact hperm
  · rw [hperm.length_eq, List.length_map]
    exact hl

theorem Ledger.Consistent.filter_orderHash (hL : L.Consistent) {order : RaindexOrder}
    (ho : order ∈ L.orders) :
    (L.entries.filter fun e => e.order.orderHash = order.orderHash) =
      (L.trades order).map (LedgerTrade.mk order) := by
  have hone : ∀ x ∈ L.orders, ∀ y ∈ L.orders, x.orderHash = order.orderHash →
      y.orderHash = order.orderHash → x = y :=
    fun x hx y hy ex ey => List.inj_on_of_nodup_map hL.orderHashes hx hy (ex.trans ey.symm)
  rw [L.filter_entries fun o => o.orderHash = order.orderHash,
    Tables.filter_of_unique (List.Nodup.of_map _ hL.orderHashes) hone ho rfl,
    List.flatMap_singleton]

theorem Ledger.ReportedBy.fetchTradesForHash_eq (hR : L.ReportedBy client) (hL : L.Consistent)
    {order : RaindexOrder} (ho : order ∈ L.orders) :
    fetchTradesForHash (raindexTradesDataSource client) order.orderHash =
      .ok ((L.trades order).map mapTrade) := by
  have hf := firstOrder_eq_some (hL.placed order ho) (hR.found order ho)
    fun ob hob hne => hR.missing order ho ob hob hne
  simp only [fetchTradesForHash, raindexTradesDataSource, hR.orderbooks, mapErr, hf,
    hR.trades order ho, bind, Except.bind, pure, Except.pure]

/-- What the lookup of a transaction answers, in terms of the ledger. -/
structure Ledger.Resolves (L : Ledger F) (txHash : B256) (response : TradesByTxResponse) :
    Prop where
  trades : (response.trades.map fun entry => (entry.orderOwner, entry.shown)).Perm
    ((L.inTransaction txHash).map fun e => (e.order.owner, e.trade.shown))
  sender : ∀ e ∈ L.inTransaction txHash, e.trade.transaction.sender = response.sender
  timestamp : ∀ e ∈ L.inTransaction txHash,
    UInt64.ofNat e.trade.timestamp.toNat = response.timestamp
  blockNumber : ∀ e ∈ L.inTransaction txHash,
    UInt64.ofNat e.trade.transaction.blockNumber.toNat = response.blockNumber

theorem Ledger.Resolves.filter_trades {response : TradesByTxResponse}
    (h : L.Resolves txHash response) (p : Address × ShownTrade → Prop) [DecidablePred p] :
    ((response.trades.filter fun entry => p (entry.orderOwner, entry.shown)).map
      TradeByTxEntry.shown).Perm
        (((L.inTransaction txHash).filter fun e => p (e.order.owner, e.trade.shown)).map
          fun e => e.trade.shown) := by
  have hp := (h.trades.filter fun x => p x).map Prod.snd
  rwa [List.filter_map, List.filter_map, List.map_map, List.map_map] at hp

theorem Ledger.Resolves.byOwner {response : TradesByTxResponse} (h : L.Resolves txHash response)
    {owner : Address} {rows : List TradeByAddress}
    (hrows : rows.Perm
      ((L.entries.filter fun e => e.order.owner = owner).map fun e => listed e.trade)) :
    ((rows.filter fun row => row.txHash = txHash).map TradeByAddress.shown).Perm
      ((response.trades.filter fun entry => entry.orderOwner = owner).map TradeByTxEntry.shown) ∧
    ∀ row ∈ rows, row.txHash = txHash →
      row.timestamp = response.timestamp ∧ row.blockNumber = response.blockNumber := by
  constructor
  · have hp := (hrows.filter fun row => row.txHash = txHash).map TradeByAddress.shown
    rw [List.filter_map, List.map_map] at hp
    refine hp.trans (List.Perm.trans ?_ (h.filter_trades fun x => x.1 = owner).symm)
    rw [inTransaction, List.filter_comm]
    rfl
  · intro row hrow htx
    obtain ⟨e, he, rfl⟩ := List.mem_map.1 (hrows.mem_iff.1 hrow)
    have hm := mem_inTransaction.2 ⟨List.mem_of_mem_filter he, htx⟩
    exact ⟨h.timestamp e hm, h.blockNumber e hm⟩

theorem Ledger.Resolves.byOrder {response : TradesByTxResponse} (h : L.Resolves txHash response)
    (hL : L.Consistent) (hF : L.Fits) {order : RaindexOrder} (ho : order ∈ L.orders) :
    ((((L.trades order).map mapTrade).filter fun entry => entry.txHash = txHash).map
      OrderTradeEntry.amounts).Perm
        ((response.trades.filter fun entry => entry.orderHash = order.orderHash).map
          fun entry => entry.shown.amounts) ∧
    ∀ entry ∈ (L.trades order).map mapTrade, entry.txHash = txHash →
      entry.sender = response.sender ∧ entry.timestamp = response.timestamp := by
  constructor
  · have hp := (h.filter_trades fun x => x.2.orderHash = some order.orderHash).map
      ShownTrade.amounts
    have hhash : ((L.inTransaction txHash).filter fun e =>
        e.trade.shown.orderHash = some order.orderHash) =
          ((L.trades order).map (LedgerTrade.mk order)).filter fun e =>
            e.trade.transaction.id = txHash := by
      rw [← hL.filter_orderHash ho, inTransaction, List.filter_comm]
      congr 1
      apply List.filter_congr
      intro e he
      rw [RaindexTrade.shown, hL.orderHash e he, decide_eq_decide, Option.some.injEq]
    rw [hhash, List.map_map, List.map_map, List.filter_map, List.map_map] at hp
    rw [List.filter_map, List.map_map]
    refine List.Perm.trans (.of_eq rfl) (hp.symm.trans (.of_eq ?_))
    congr 1
    apply List.filter_congr
    intro entry _
    rw [TradeByTxEntry.shown, decide_eq_decide, Option.some.injEq]
  · intro entry he htx
    obtain ⟨trade, ht, rfl⟩ := List.mem_map.1 he
    have hm : (⟨order, trade⟩ : LedgerTrade F) ∈ L.entries := mem_entries.2 ⟨ho, ht⟩
    have hin := mem_inTransaction.2 ⟨hm, htx⟩
    refine ⟨h.sender _ hin, ?_⟩
    rw [← h.timestamp _ hin, mapTrade, U256.tryIntoU64, if_pos (hF.timestamp _ hm)]
    rfl

theorem Ledger.Resolves.ordered {response : TradesByTxResponse} (h : L.Resolves txHash response)
    (hL : L.Consistent) {entry : TradeByTxEntry} (he : entry ∈ response.trades) :
    ∃ order ∈ L.orders, order.orderHash = entry.orderHash ∧ order.owner = entry.orderOwner := by
  have hmem := h.trades.mem_iff.1
    (List.mem_map_of_mem (f := fun entry => (entry.orderOwner, entry.shown)) he)
  obtain ⟨e, hin, hs⟩ := List.mem_map.1 hmem
  obtain ⟨howner, hshown⟩ := Prod.mk.inj hs
  have hm := (mem_inTransaction.1 hin).1
  have hhash := congrArg ShownTrade.orderHash hshown
  rw [RaindexTrade.shown, hL.orderHash e hm] at hhash
  exact ⟨e.order, (mem_entries.1 hm).1, Option.some.inj hhash, howner⟩

end Readings

/-! ## The readings agree -/

section Agreement

variable [FloatLib F] [HexText]

/-- The other readings of the ledger tell of a transaction what its lookup does. -/
structure Ledger.AgreesOn (L : Ledger F) (client : RaindexClient F) (txHash : B256)
    (response : TradesByTxResponse) : Prop where
  /-- A walk through the trades of an owner meets those of the transaction. -/
  byOwner : ∀ (owner : Address) (pageSize : UInt32) (n : ℕ), n < 2 ^ 32 →
    (L.entries.filter fun e => e.order.owner = owner).length ≤ n * pageSize.toNat →
    (((walk (raindexTradesDataSource client) owner pageSize n).filter fun row =>
      row.txHash = txHash).map TradeByAddress.shown).Perm
        ((response.trades.filter fun entry => entry.orderOwner = owner).map
          TradeByTxEntry.shown) ∧
    ∀ row ∈ walk (raindexTradesDataSource client) owner pageSize n, row.txHash = txHash →
      row.timestamp = response.timestamp ∧ row.blockNumber = response.blockNumber
  /-- The trades of an order that a batch answers without a fetcher have those of the
  transaction among them. -/
  byOrder : ∀ order ∈ L.orders, ∀ cache hashes db, order.orderHash ∈ hashes →
    cache.get order.orderHash = none →
    (((DirectTrades.batchAnswer (raindexTradesDataSource client) cache none db hashes
      order.orderHash).filter fun entry => entry.txHash = txHash).map OrderTradeEntry.amounts).Perm
        ((response.trades.filter fun entry => entry.orderHash = order.orderHash).map
          fun entry => entry.shown.amounts) ∧
    ∀ entry ∈ DirectTrades.batchAnswer (raindexTradesDataSource client) cache none db hashes
      order.orderHash, entry.txHash = txHash →
        entry.sender = response.sender ∧ entry.timestamp = response.timestamp
  /-- Every trade of the transaction is one of an order, with its owner. -/
  ordered : ∀ entry ∈ response.trades, ∃ order ∈ L.orders,
    order.orderHash = entry.orderHash ∧ order.owner = entry.orderOwner

theorem Ledger.ReportedBy.resolves (hR : L.ReportedBy client) (hL : L.Consistent) (hF : L.Fits)
    {response : TradesByTxResponse}
    (h : processGetTradesByTx (raindexTradesDataSource client) txHash = .ok response) :
    L.Resolves txHash response := by
  obtain ⟨first, rest, hget, hsender, hblock, htime, htrades⟩ := processGetTradesByTx_eq_ok h
  obtain ⟨trades, hget', hperm⟩ := hR.exists_getTradesByTx hL txHash
  obtain rfl := Except.ok.inj (hget'.symm.trans hget)
  obtain ⟨e₀, he₀, hfirst⟩ := List.mem_map.1 (hperm.mem_iff.1 List.mem_cons_self)
  obtain ⟨hm₀, htx₀⟩ := mem_inTransaction.1 he₀
  have hsame : ∀ e ∈ L.inTransaction txHash, e.trade.transaction = first.trade.transaction := by
    intro e he
    obtain ⟨hm, htx⟩ := mem_inTransaction.1 he
    rw [← hfirst]
    exact hL.transaction e hm e₀ hm₀ (htx.trans htx₀.symm)
  refine ⟨?_, ?_, ?_, ?_⟩
  · rw [htrades]
    have := hperm.map fun t => (t.owner, t.trade.shown)
    rwa [List.map_map] at this
  · intro e he
    rw [hsender, hsame e he]
  · intro e he
    have hm := (mem_inTransaction.1 he).1
    rw [← hsame e he, ← hL.timestamp e hm, toU64_eq (hF.timestamp e hm)] at htime
    exact Except.ok.inj htime
  · intro e he
    have hm := (mem_inTransaction.1 he).1
    rw [← hsame e he, toU64_eq (hF.blockNumber e hm)] at hblock
    exact Except.ok.inj hblock

/-- Over a library that reports one ledger, a transaction resolves to its trades just as the
listings of the owners and the trades of the orders show them. It resolves to nothing if the ledger
has no trade of it; if the ledger has one, the lookup may fail but does not deny it. -/
theorem trade_routes_agree (hL : L.Consistent) (hF : L.Fits) (hR : L.ReportedBy client)
    (txHash : B256) :
    (∀ response, processGetTradesByTx (raindexTradesDataSource client) txHash = .ok response →
      L.inTransaction txHash ≠ [] ∧ L.AgreesOn client txHash response) ∧
    ∀ e, processGetTradesByTx (raindexTradesDataSource client) txHash = .error e →
      L.inTransaction txHash ≠ [] → ∃ message, e = .internal message := by
  constructor
  · intro response h
    have hres := hR.resolves hL hF h
    refine ⟨?_, ?_, ?_, fun entry he => hres.ordered hL he⟩
    · obtain ⟨first, rest, hget, -⟩ := processGetTradesByTx_eq_ok h
      obtain ⟨trades, hget', hperm⟩ := hR.exists_getTradesByTx hL txHash
      obtain rfl := Except.ok.inj (hget'.symm.trans hget)
      intro hnil
      rw [hnil] at hperm
      exact List.cons_ne_nil _ _ hperm.eq_nil
    · intro owner pageSize n hn hl
      exact hres.byOwner (hR.walk_perm hF hn hl)
    · intro order ho cache hashes db hm hc
      rw [DirectTrades.batchAnswer_uncached (DirectTrades.mem_uncached.2 ⟨hm, hc⟩),
        DirectTrades.fetchedFor, hR.fetchTradesForHash_eq hL ho]
      exact hres.byOrder hL hF ho
  · intro e h hne
    obtain ⟨trades, hget, hperm⟩ := hR.exists_getTradesByTx hL txHash
    cases trades with
    | nil => exact absurd (List.map_eq_nil_iff.1 hperm.symm.eq_nil) hne
    | cons first rest => exact onlyInternal_processGetTradesByTx hget e h

end Agreement

/-! ## A client of a ledger -/

def Ledger.reportingClient (L : Ledger F) : RaindexClient F where
  getAllOrderbooks := .ok L.orderbooks
  getOrders filters page pageSize :=
    let orders := L.orders.filter fun order => order.owner ∈ filters.owners
    .ok (Listing.page orders (pageSize.getD ordersScanPageSize).toNat (page.getD 1).toNat,
      UInt32.ofNat orders.length)
  getOrderByHash orderbook hash :=
    match L.orders.find? fun order => order.placedOn = orderbook ∧ order.orderHash = hash with
    | some order => .ok order
    | none => .error .orderNotFound
  getTradesList order _ _ := .ok (L.trades order)
  getTransactionTrades orderbook txHash :=
    .ok (((L.inTransaction txHash).filter fun e => e.order.placedOn = orderbook).map
      fun e => (e.order.owner, e.trade))
  getTransaction _ _ := .ok ()

theorem Ledger.Consistent.reportedBy_reportingClient [HexText] (hL : L.Consistent) :
    L.ReportedBy L.reportingClient := by
  have hone : ∀ order ∈ L.orders, ∀ order' ∈ L.orders, order'.orderHash = order.orderHash →
      order' = order :=
    fun order ho order' ho' he => List.inj_on_of_nodup_map hL.orderHashes ho' ho he
  refine ⟨rfl, ?_, fun _ _ => rfl, fun _ _ _ => ⟨_, rfl, .refl _⟩, ?_, ?_⟩
  · intro owner page hp
    simp only [Ledger.reportingClient, Ledger.ordersOf, List.mem_singleton, Option.getD_some]
  · intro order ho
    have hfind : (L.orders.find? fun o => o.placedOn = order.placedOn ∧
        o.orderHash = order.orderHash) = some order := by
      cases hf : L.orders.find? fun o => o.placedOn = order.placedOn ∧
        o.orderHash = order.orderHash with
      | none => exact absurd (List.find?_eq_none.1 hf order ho) (by simp)
      | some order' =>
        have hp := List.find?_some hf
        rw [decide_eq_true_iff] at hp
        rw [hone order ho order' (List.mem_of_find?_eq_some hf) hp.2]
    simp only [Ledger.reportingClient, hfind]
  · intro order ho orderbook _ hne
    have hfind : (L.orders.find? fun o => o.placedOn = orderbook ∧
        o.orderHash = order.orderHash) = none := by
      rw [List.find?_eq_none]
      intro order' ho' hp
      obtain ⟨hplaced, hhash⟩ := of_decide_eq_true hp
      rw [hone order ho order' ho' hhash] at hplaced
      exact hne hplaced.symm
    simp only [Ledger.reportingClient, hfind]

section Example

local instance ledgerHexText : HexText := Hex.text

local instance ledgerFloats : FloatLib ℚ := Rational.floats

def ledgerTrade : RaindexTrade ℚ :=
  { soleTrade 9 with orderHash := List.replicate 30 0 ++ [171, 205] }

def twoTrades : Ledger ℚ where
  orderbooks := [⟨8453, 1⟩]
  orders := [soleOrder]
  trades _ := [ledgerTrade, ledgerTrade]

theorem twoTrades_entry {e : LedgerTrade ℚ} (he : e ∈ twoTrades.entries) :
    e = ⟨soleOrder, ledgerTrade⟩ := by
  simpa [Ledger.entries, twoTrades] using he

theorem twoTrades_consistent : twoTrades.Consistent where
  orderbooks := by decide
  placed := by decide
  orderHashes := by decide
  orderHash e he := by
    rw [twoTrades_entry he]
    decide +kernel
  transaction e he e' he' _ := by rw [twoTrades_entry he, twoTrades_entry he']
  timestamp e he := by
    rw [twoTrades_entry he]
    rfl

theorem twoTrades_fits : twoTrades.Fits where
  scannable owner := (List.length_filter_le ..).trans (by decide)
  timestamp e he := by
    rw [twoTrades_entry he]
    decide
  blockNumber e he := by
    rw [twoTrades_entry he]
    decide
  allocatable := by decide

theorem trade_routes_agree_twoTrades : ∃ response,
    processGetTradesByTx (raindexTradesDataSource twoTrades.reportingClient) 5 = .ok response ∧
      twoTrades.AgreesOn twoTrades.reportingClient 5 response := by
  have hagree := (trade_routes_agree twoTrades_consistent twoTrades_fits
    twoTrades_consistent.reportedBy_reportingClient 5).1
  have hsome : (processGetTradesByTx (raindexTradesDataSource twoTrades.reportingClient)
      5).toOption.isSome = true := by
    decide +kernel
  cases h : processGetTradesByTx (raindexTradesDataSource twoTrades.reportingClient) 5 with
  | error e =>
    rw [h] at hsome
    cases hsome
  | ok response => exact ⟨response, rfl, (hagree response h).2⟩

end Example

end AlbionApi
