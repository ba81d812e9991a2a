import AlbionApi.Api.Hex
import AlbionApi.Foundations.Listing
import Mathlib.Data.Finset.Sort
import Mathlib.Data.Prod.Lex
import Mathlib.Data.String.Basic

/-! # The batch trade query

The event tables and the batch query over them. A common table expression is
the list of its rows, a join a nested loop. Rows that an `ORDER BY` does not
separate come in an order of the engine's, which depends on the statement.
-/

namespace AlbionApi.DirectTrades

structure OrderEvent where
  chainId : ℤ
  orderbookAddress : String
  transactionHash : String
  logIndex : ℤ
  blockNumber : ℤ
  blockTimestamp : ℤ
  orderOwner : String
  orderNonce : String
  orderHash : String
  eventType : String
  deriving DecidableEq, Repr

structure TakeOrder where
  chainId : ℤ
  orderbookAddress : String
  transactionHash : String
  logIndex : ℤ
  blockNumber : ℤ
  blockTimestamp : ℤ
  sender : String
  orderOwner : String
  orderNonce : String
  takerInput : String
  takerOutput : String
  deriving DecidableEq, Repr

structure ClearV3 where
  chainId : ℤ
  orderbookAddress : String
  transactionHash : String
  logIndex : ℤ
  blockNumber : ℤ
  blockTimestamp : ℤ
  sender : String
  aliceOrderHash : String
  bobOrderHash : String
  deriving DecidableEq, Repr

structure AfterClearV2 where
  chainId : ℤ
  orderbookAddress : String
  transactionHash : String
  logIndex : ℤ
  blockNumber : ℤ
  aliceInput : String
  aliceOutput : String
  bobInput : String
  bobOutput : String
  deriving DecidableEq, Repr

/-- The bound parameters `?1`, `?2` and `?3..`. -/
structure QueryParams where
  chainId : ℤ
  orderbookAddress : String
  orderHashes : List String

/-- The columns that the trade expressions share. -/
structure TradeRow where
  orderHash : String
  transactionHash : String
  logIndex : ℤ
  blockTimestamp : ℤ
  transactionSender : String
  inputDelta : String
  outputDeltaRaw : String
  deriving DecidableEq, Repr

structure RawTradeRow where
  orderHash : String
  transactionHash : String
  blockTimestamp : ℤ
  transactionSender : String
  inputDelta : String
  outputDeltaRaw : String
  tradeId : String
  deriving DecidableEq, Repr

/-- `ORDER BY order_hash, block_timestamp DESC, log_index DESC`. -/
def TradeRow.key (r : TradeRow) : String ×ₗ ℤᵒᵈ ×ₗ ℤᵒᵈ :=
  toLex (r.orderHash, toLex (OrderDual.toDual r.blockTimestamp, OrderDual.toDual r.logIndex))

theorem TradeRow.key_inj {r r' : TradeRow} : r.key = r'.key ↔
    r.orderHash = r'.orderHash ∧ r.blockTimestamp = r'.blockTimestamp ∧
      r.logIndex = r'.logIndex := by
  simp only [key, toLex_inj, Prod.mk.injEq, OrderDual.toDual_inj]

/-- `ORDER BY ts DESC`. -/
def takerKey (row : String × ℤ) : ℤᵒᵈ := OrderDual.toDual row.2

/-- The event tables, and the orders in which the engine lists the ties of the two queries. -/
structure EventDb where
  orderEvents : List OrderEvent
  takeOrders : List TakeOrder
  clearV3Events : List ClearV3
  afterClearV2Events : List AfterClearV2
  /-- For the parameters of a batch query. -/
  tradeOrder : QueryParams → Listing.Sorting TradeRow.key := fun _ => .stable _
  /-- For the sender, the chain and the orderbook of a taker query. -/
  takerOrder : String → ℤ → String → Listing.Sorting takerKey := fun _ _ _ => .stable _

/-- The position of an event in its chain. -/
abbrev Position := ℤ ×ₗ ℤ

def position (blockNumber logIndex : ℤ) : Position := toLex (blockNumber, logIndex)

/-- `b < b' OR (b = b' AND i <= i')`, as the query compares positions. -/
theorem position_le_iff (b i b' i' : ℤ) :
    position b i ≤ position b' i' ↔ b < b' ∨ b = b' ∧ i ≤ i' :=
  Prod.Lex.toLex_le_toLex

theorem position_lt_iff (b i b' i' : ℤ) :
    position b i < position b' i' ↔ b < b' ∨ b = b' ∧ i < i' :=
  Prod.Lex.toLex_lt_toLex

def OrderEvent.position (e : OrderEvent) : Position :=
  DirectTrades.position e.blockNumber e.logIndex

def TakeOrder.position (t : TakeOrder) : Position := DirectTrades.position t.blockNumber t.logIndex

def ClearV3.position (c : ClearV3) : Position := DirectTrades.position c.blockNumber c.logIndex

/-- `order_events` restricted to one orderbook and to `AddOrderV3`. -/
def addOrderV3Events (db : EventDb) (chainId : ℤ) (orderbookAddress : String) : List OrderEvent :=
  db.orderEvents.filter fun oe =>
    oe.chainId = chainId ∧ oe.orderbookAddress = orderbookAddress ∧ oe.eventType = "AddOrderV3"

def orderAddEvents (db : EventDb) (q : QueryParams) : List OrderEvent :=
  (addOrderV3Events db q.chainId q.orderbookAddress).filter fun oe => oe.orderHash ∈ q.orderHashes

/-- The order of an add event is that of a take, by owner and nonce. -/
def OrderEvent.AddedFor (oe : OrderEvent) (t : TakeOrder) : Prop :=
  oe.chainId = t.chainId ∧ oe.orderbookAddress = t.orderbookAddress ∧
    oe.orderOwner = t.orderOwner ∧ oe.orderNonce = t.orderNonce ∧ oe.position ≤ t.position

instance (oe : OrderEvent) (t : TakeOrder) : Decidable (oe.AddedFor t) :=
  inferInstanceAs (Decidable (_ ∧ _))

/-- The condition on which `take_trades` joins a take to an add event. -/
def joinsTake (adds : List OrderEvent) (t : TakeOrder) (oe : OrderEvent) : Prop :=
  oe.AddedFor t ∧
    ¬ ∃ newer ∈ adds, newer.chainId = oe.chainId ∧
      newer.orderbookAddress = oe.orderbookAddress ∧ newer.orderOwner = oe.orderOwner ∧
      newer.orderNonce = oe.orderNonce ∧ newer.position ≤ t.position ∧
      oe.position < newer.position

instance (adds : List OrderEvent) (t : TakeOrder) (oe : OrderEvent) :
    Decidable (joinsTake adds t oe) :=
  inferInstanceAs (Decidable (_ ∧ _))

def takeRow (t : TakeOrder) (oe : OrderEvent) : TradeRow where
  orderHash := oe.orderHash
  transactionHash := t.transactionHash
  logIndex := t.logIndex
  blockTimestamp := t.blockTimestamp
  transactionSender := t.sender
  inputDelta := t.takerOutput
  outputDeltaRaw := t.takerInput

def takesOf (db : EventDb) (q : QueryParams) : List TakeOrder :=
  db.takeOrders.filter fun t =>
    t.chainId = q.chainId ∧ t.orderbookAddress = q.orderbookAddress

def takeTrades (db : EventDb) (q : QueryParams) : List TradeRow :=
  (takesOf db q).flatMap fun t =>
    ((orderAddEvents db q).filter fun oe => joinsTake (orderAddEvents db q) t oe).map (takeRow t)

/-- The condition on which a clear is joined to an add event of one of its orders. -/
def joinsClear (adds : List OrderEvent) (orderHash : ClearV3 → String) (c : ClearV3)
    (oe : OrderEvent) : Prop :=
  oe.chainId = c.chainId ∧ oe.orderbookAddress = c.orderbookAddress ∧
    oe.orderHash = orderHash c ∧ oe.position ≤ c.position ∧
    ¬ ∃ newer ∈ adds, newer.chainId = oe.chainId ∧
      newer.orderbookAddress = oe.orderbookAddress ∧ newer.orderHash = oe.orderHash ∧
      newer.position ≤ c.position ∧ oe.position < newer.position

instance (adds : List OrderEvent) (orderHash : ClearV3 → String) (c : ClearV3)
    (oe : OrderEvent) : Decidable (joinsClear adds orderHash c oe) :=
  inferInstanceAs (Decidable (_ ∧ _))

/-- `SELECT MIN(ac.log_index)` over the later after-clears of the transaction. -/
def firstAfterClear (db : EventDb) (c : ClearV3) : Option ℤ :=
  ((db.afterClearV2Events.filter fun ac =>
    ac.chainId = c.chainId ∧ ac.orderbookAddress = c.orderbookAddress ∧
      ac.transactionHash = c.transactionHash ∧ c.logIndex < ac.logIndex).map (·.logIndex)).min?

def afterClears (db : EventDb) (c : ClearV3) : List AfterClearV2 :=
  db.afterClearV2Events.filter fun a =>
    a.chainId = c.chainId ∧ a.orderbookAddress = c.orderbookAddress ∧
      a.transactionHash = c.transactionHash ∧ some a.logIndex = firstAfterClear db c

/-- A side of a clear: its order and the amounts of it in the after-clear. -/
structure ClearSide where
  orderHash : ClearV3 → String
  input : AfterClearV2 → String
  output : AfterClearV2 → String

def clearRow (side : ClearSide) (c : ClearV3) (oe : OrderEvent) (a : AfterClearV2) : TradeRow where
  orderHash := oe.orderHash
  transactionHash := c.transactionHash
  logIndex := c.logIndex
  blockTimestamp := c.blockTimestamp
  transactionSender := c.sender
  inputDelta := side.input a
  outputDeltaRaw := side.output a

def clearsOf (db : EventDb) (q : QueryParams) (side : ClearSide) : List ClearV3 :=
  db.clearV3Events.filter fun c =>
    c.chainId = q.chainId ∧ c.orderbookAddress = q.orderbookAddress ∧
      side.orderHash c ∈ q.orderHashes

/-- The common shape of `clear_alice` and `clear_bob`. -/
def clearTrades (side : ClearSide) (db : EventDb) (q : QueryParams) : List TradeRow :=
  ((clearsOf db q side).flatMap fun c =>
    ((orderAddEvents db q).filter fun oe =>
      joinsClear (orderAddEvents db q) side.orderHash c oe).flatMap fun oe =>
        (afterClears db c).map (clearRow side c oe)).dedup

def alice : ClearSide where
  orderHash := ClearV3.aliceOrderHash
  input := AfterClearV2.aliceInput
  output := AfterClearV2.aliceOutput

def bob : ClearSide where
  orderHash := ClearV3.bobOrderHash
  input := AfterClearV2.bobInput
  output := AfterClearV2.bobOutput

def clearAlice (db : EventDb) (q : QueryParams) : List TradeRow := clearTrades alice db q

def clearBob (db : EventDb) (q : QueryParams) : List TradeRow := clearTrades bob db q

/-! ## The selection -/

/-- `printf('%016x', i)` of a 64-bit integer. -/
def hex16 (i : ℤ) : String := String.ofList (Hex.digits 16 (i % 2 ^ 64).toNat)

def tradeId (transactionHash : String) (logIndex : ℤ) : String :=
  "0x" ++ (transactionHash.replace "0x" "").toLower ++ hex16 logIndex

def TradeRow.select (r : TradeRow) : RawTradeRow where
  orderHash := r.orderHash
  transactionHash := r.transactionHash
  blockTimestamp := r.blockTimestamp
  transactionSender := r.transactionSender
  inputDelta := r.inputDelta
  outputDeltaRaw := r.outputDeltaRaw
  tradeId := tradeId r.transactionHash r.logIndex

/-- `take_trades UNION ALL clear_alice UNION ALL clear_bob`. -/
def unionTrades (db : EventDb) (q : QueryParams) : List TradeRow :=
  takeTrades db q ++ clearAlice db q ++ clearBob db q

/-- `SELECT ... FROM (...) ORDER BY order_hash, block_timestamp DESC, log_index DESC`. -/
def batchQuery (db : EventDb) (q : QueryParams) : List RawTradeRow :=
  ((db.tradeOrder q).sort (unionTrades db q)).map TradeRow.select

end AlbionApi.DirectTrades
