import AlbionApi.DirectTrades.Fetcher
import AlbionApi.Foundations.Tables

/-! # Attribution of trades to orders

A take names its order by owner and nonce only. The batch query looks for the
latest add event of that owner and nonce among the requested hashes, so that a
take goes to the order it belongs to as long as no other hash was added with
the same owner and nonce in between.
-/

namespace AlbionApi.DirectTrades

open Tables

def AfterClearV2.position (a : AfterClearV2) : Position :=
  DirectTrades.position a.blockNumber a.logIndex

def EventDb.positions (db : EventDb) : List (ℤ × Position) :=
  db.orderEvents.map (fun e => (e.chainId, e.position)) ++
    db.takeOrders.map (fun t => (t.chainId, t.position)) ++
    db.clearV3Events.map (fun c => (c.chainId, c.position)) ++
    db.afterClearV2Events.map fun a => (a.chainId, a.position)

def IsHash [HexText] (s : String) : Prop := ∃ h, s = HexText.formatB256 h

def IsAddress [HexText] (s : String) : Prop := ∃ a, s = HexText.formatAddress a

theorem IsAddress.parseAddress [HexText] {s : String} (h : IsAddress s) :
    ∃ a, HexText.parseAddress s = some a := by
  obtain ⟨a, rfl⟩ := h
  exact ⟨a, HexText.parseAddress_format a⟩

/-- A float in hexadecimal, which the conversions of both amounts accept. -/
def IsFloat (F : Type) [FloatLib F] (s : String) : Prop :=
  (∃ text, formatFloatHex F s = .ok text) ∧ ∃ text, negateAndFormatFloatHex F s = .ok text

/-- Every hexadecimal field is well formed. -/
structure EventDb.HexFields (F : Type) [FloatLib F] [HexText] (db : EventDb) : Prop where
  orderEvents : ∀ e ∈ db.orderEvents, IsHash e.orderHash
  takeOrders : ∀ t ∈ db.takeOrders, IsHash t.transactionHash ∧ IsAddress t.sender ∧
    IsFloat F t.takerInput ∧ IsFloat F t.takerOutput
  clearV3Events : ∀ c ∈ db.clearV3Events, IsHash c.transactionHash ∧ IsAddress c.sender
  afterClearV2Events : ∀ a ∈ db.afterClearV2Events, IsFloat F a.aliceInput ∧
    IsFloat F a.aliceOutput ∧ IsFloat F a.bobInput ∧ IsFloat F a.bobOutput

/-- Besides, positions are unique in their chain. -/
structure EventDb.WellFormed (F : Type) [FloatLib F] [HexText] (db : EventDb) : Prop
    extends EventDb.HexFields F db where
  unique : db.positions.Nodup

section Latest

variable {adds adds' : List OrderEvent} {t : TakeOrder} {oe : OrderEvent} {hash : String}

/-- The latest of some add events for the order of a take, at or before the take. -/
def LatestAdd (adds : List OrderEvent) (t : TakeOrder) (oe : OrderEvent) : Prop :=
  MaximalFor (fun e => e ∈ adds ∧ e.AddedFor t) OrderEvent.position oe

theorem joinsTake_iff (h : oe ∈ adds) : joinsTake adds t oe ↔ LatestAdd adds t oe := by
  rw [LatestAdd, maximalFor_iff_not_lt, joinsTake]
  have hn (ha : oe.AddedFor t) (e : OrderEvent) : e.AddedFor t ↔ e.chainId = oe.chainId ∧
      e.orderbookAddress = oe.orderbookAddress ∧ e.orderOwner = oe.orderOwner ∧
      e.orderNonce = oe.orderNonce ∧ e.position ≤ t.position := by
    obtain ⟨hc, ho, hw, hx, -⟩ := ha
    rw [OrderEvent.AddedFor, hc, ho, hw, hx]
  constructor
  · rintro ⟨ha, hnot⟩
    refine ⟨⟨h, ha⟩, ?_⟩
    rintro ⟨e, ⟨he, hea⟩, hlt⟩
    obtain ⟨hc, ho, hw, hx, hp⟩ := (hn ha e).1 hea
    exact hnot ⟨e, he, hc, ho, hw, hx, hp, hlt⟩
  · rintro ⟨⟨-, ha⟩, hnot⟩
    refine ⟨ha, ?_⟩
    rintro ⟨e, he, hc, ho, hw, hx, hp, hlt⟩
    exact hnot ⟨e, ⟨he, (hn ha e).2 ⟨hc, ho, hw, hx, hp⟩⟩, hlt⟩

def LatestHash (adds : List OrderEvent) (t : TakeOrder) (hash : String) : Prop :=
  ∃ oe, LatestAdd adds t oe ∧ oe.orderHash = hash

/-- Fewer events, as long as those of the hash stay, leave the latest hash as it is. -/
theorem LatestHash.anti (h : LatestHash adds t hash) (hs : ∀ e ∈ adds', e ∈ adds)
    (hk : ∀ e ∈ adds, e.orderHash = hash → e ∈ adds') : LatestHash adds' t hash := by
  obtain ⟨oe, hl, rfl⟩ := h
  refine ⟨oe, ?_, rfl⟩
  exact hl.anti (fun e he => ⟨hs e he.1, he.2⟩) ⟨hk oe hl.prop.1 rfl, hl.prop.2⟩

/-- An add event of a hash, at or before a clear. -/
def OrderEvent.AddedBefore (oe : OrderEvent) (hash : String) (c : ClearV3) : Prop :=
  oe.chainId = c.chainId ∧ oe.orderbookAddress = c.orderbookAddress ∧ oe.orderHash = hash ∧
    oe.position ≤ c.position

instance (oe : OrderEvent) (hash : String) (c : ClearV3) : Decidable (oe.AddedBefore hash c) :=
  inferInstanceAs (Decidable (_ ∧ _))

theorem joinsClear_iff {side : ClearSide} {c : ClearV3} (h : oe ∈ adds) :
    joinsClear adds side.orderHash c oe ↔
      MaximalFor (fun e => e ∈ adds ∧ e.AddedBefore (side.orderHash c) c)
        OrderEvent.position oe := by
  rw [maximalFor_iff_not_lt, joinsClear]
  constructor
  · rintro ⟨hchain, hob, hhash, hp, hnot⟩
    refine ⟨⟨h, hchain, hob, hhash, hp⟩, ?_⟩
    rintro ⟨e, ⟨he, hc', ho', hh', hp'⟩, hlt⟩
    exact hnot ⟨e, he, hc'.trans hchain.symm, ho'.trans hob.symm, hh'.trans hhash.symm, hp', hlt⟩
  · rintro ⟨⟨-, hchain, hob, hhash, hp⟩, hnot⟩
    refine ⟨hchain, hob, hhash, hp, ?_⟩
    rintro ⟨e, he, hc', ho', hh', hp', hlt⟩
    exact hnot ⟨e, ⟨he, hc'.trans hchain, ho'.trans hob, hh'.trans hhash, hp'⟩, hlt⟩

end Latest

section Batch

variable {db : EventDb} {q : QueryParams} {hash : String}

theorem mem_orderAddEvents {oe : OrderEvent} : oe ∈ orderAddEvents db q ↔
    oe ∈ addOrderV3Events db q.chainId q.orderbookAddress ∧ oe.orderHash ∈ q.orderHashes := by
  rw [orderAddEvents, List.mem_filter, decide_eq_true_iff]

theorem mem_addOrderV3Events {oe : OrderEvent} {chainId : ℤ} {orderbookAddress : String} :
    oe ∈ addOrderV3Events db chainId orderbookAddress ↔ oe ∈ db.orderEvents ∧
      oe.chainId = chainId ∧ oe.orderbookAddress = orderbookAddress ∧
      oe.eventType = "AddOrderV3" := by
  rw [addOrderV3Events, List.mem_filter, decide_eq_true_iff]

/-- A take is reported under a hash by the query. -/
def Reported (db : EventDb) (q : QueryParams) (t : TakeOrder) (hash : String) : Prop :=
  ∃ oe ∈ orderAddEvents db q, joinsTake (orderAddEvents db q) t oe ∧ oe.orderHash = hash

instance (t : TakeOrder) (hash : String) : Decidable (Reported db q t hash) :=
  inferInstanceAs (Decidable (∃ oe ∈ orderAddEvents db q, _ ∧ _))

theorem reported_iff {t : TakeOrder} :
    Reported db q t hash ↔ LatestHash (orderAddEvents db q) t hash := by
  constructor
  · rintro ⟨oe, hoe, hj, he⟩
    exact ⟨oe, (joinsTake_iff hoe).1 hj, he⟩
  · rintro ⟨oe, hl, he⟩
    exact ⟨oe, hl.prop.1, (joinsTake_iff hl.prop.1).2 hl, he⟩

def QueryParams.only (q : QueryParams) (hash : String) : QueryParams :=
  { q with orderHashes := [hash] }

theorem orderAddEvents_only (h : hash ∈ q.orderHashes) : orderAddEvents db (q.only hash) =
    (orderAddEvents db q).filter fun oe => oe.orderHash = hash := by
  rw [orderAddEvents, orderAddEvents, List.filter_filter]
  apply List.filter_congr
  intro oe _
  simp only [QueryParams.only, List.mem_singleton, ← Bool.decide_and, decide_eq_decide]
  constructor
  · rintro rfl
    exact ⟨rfl, h⟩
  · exact And.left

theorem Reported.only {t : TakeOrder} (h : hash ∈ q.orderHashes) (hr : Reported db q t hash) :
    Reported db (q.only hash) t hash := by
  rw [reported_iff] at hr ⊢
  refine hr.anti (fun e he => ?_) fun e he hh => ?_
  · rw [orderAddEvents_only h] at he
    exact List.mem_of_mem_filter he
  · rw [orderAddEvents_only h, List.mem_filter, decide_eq_true_iff]
    exact ⟨he, hh⟩

theorem reported_only_iff {t : TakeOrder} :
    Reported db (q.only hash) t hash ↔
      ∃ oe ∈ addOrderV3Events db q.chainId q.orderbookAddress,
        oe.AddedFor t ∧ oe.orderHash = hash := by
  rw [reported_iff]
  constructor
  · rintro ⟨oe, hl, he⟩
    exact ⟨oe, (mem_orderAddEvents.1 hl.prop.1).1, hl.prop.2, he⟩
  · rintro ⟨oe, hoe, ha, he⟩
    have hadded : ∃ e ∈ orderAddEvents db (q.only hash), e.AddedFor t :=
      ⟨oe, mem_orderAddEvents.2 ⟨hoe, List.mem_singleton.2 he⟩, ha⟩
    obtain ⟨m, hm⟩ := exists_latest OrderEvent.position hadded
    exact ⟨m, hm, List.mem_singleton.1 (mem_orderAddEvents.1 hm.prop.1).2⟩

theorem LatestHash.reported {t : TakeOrder}
    (hh : hash ∈ q.orderHashes)
    (hl : LatestHash (addOrderV3Events db q.chainId q.orderbookAddress) t hash) :
    Reported db q t hash := by
  rw [reported_iff]
  apply hl.anti (fun e he => (mem_orderAddEvents.1 he).1)
  intro e he hhe
  exact mem_orderAddEvents.2 ⟨he, hhe ▸ hh⟩

theorem mem_takesOf {t : TakeOrder} : t ∈ takesOf db q ↔
    t ∈ db.takeOrders ∧ t.chainId = q.chainId ∧ t.orderbookAddress = q.orderbookAddress := by
  rw [takesOf, List.mem_filter, decide_eq_true_iff]

/-! ## The rows of a hash -/

def takeRowFor (t : TakeOrder) (hash : String) : TradeRow where
  orderHash := hash
  transactionHash := t.transactionHash
  logIndex := t.logIndex
  blockTimestamp := t.blockTimestamp
  transactionSender := t.sender
  inputDelta := t.takerOutput
  outputDeltaRaw := t.takerInput

theorem EventDb.WellFormed.nodup_orderEvents {F : Type} [FloatLib F] [HexText]
    (h : db.WellFormed F) : (db.orderEvents.map fun e => (e.chainId, e.position)).Nodup := by
  have hu := h.unique
  rw [EventDb.positions, List.append_assoc, List.append_assoc] at hu
  exact hu.of_append_left

variable (hu : (db.orderEvents.map fun e => (e.chainId, e.position)).Nodup)

include hu

theorem latestAdd_unique {t : TakeOrder} {oe oe' : OrderEvent}
    (h : LatestAdd (orderAddEvents db q) t oe) (h' : LatestAdd (orderAddEvents db q) t oe') :
    oe = oe' := by
  refine latest_unique (fun x y hx hy hp => ?_) h h'
  obtain ⟨hx, hxc, -⟩ := mem_addOrderV3Events.1 (mem_orderAddEvents.1 hx.1).1
  obtain ⟨hy, hyc, -⟩ := mem_addOrderV3Events.1 (mem_orderAddEvents.1 hy.1).1
  exact List.inj_on_of_nodup_map hu hx hy (by rw [hxc, hyc, hp])

/-- A take joins to at most one requested add event. -/
theorem filter_joinsTake (t : TakeOrder) (hash : String) :
    ((orderAddEvents db q).filter fun oe =>
        joinsTake (orderAddEvents db q) t oe ∧ oe.orderHash = hash).map (takeRow t) =
      if Reported db q t hash then [takeRowFor t hash] else [] := by
  have hn : (orderAddEvents db q).Nodup := (hu.of_map.filter _).filter _
  split_ifs with hr
  · obtain ⟨oe, hoe, hj, rfl⟩ := hr
    have hone : ∀ x ∈ orderAddEvents db q, ∀ y ∈ orderAddEvents db q,
        (joinsTake (orderAddEvents db q) t x ∧ x.orderHash = oe.orderHash) →
        (joinsTake (orderAddEvents db q) t y ∧ y.orderHash = oe.orderHash) → x = y := by
      intro x hx y hy hjx hjy
      exact latestAdd_unique hu ((joinsTake_iff hx).1 hjx.1) ((joinsTake_iff hy).1 hjy.1)
    rw [filter_of_unique hn hone hoe ⟨hj, rfl⟩]
    rfl
  · rw [List.map_eq_nil_iff, List.filter_eq_nil_iff]
    intro oe hoe hj
    obtain ⟨hj, he⟩ := of_decide_eq_true hj
    exact hr ⟨oe, hoe, hj, he⟩

theorem takeTrades_filter (hash : String) :
    ((takeTrades db q).filter fun r => r.orderHash = hash) =
      ((takesOf db q).filter fun t => Reported db q t hash).map (takeRowFor · hash) := by
  rw [takeTrades, List.filter_flatMap, ← flatMap_ite]
  apply List.flatMap_congr
  intro t _
  rw [← filter_joinsTake hu, List.filter_map, List.filter_filter]
  congr 1
  apply List.filter_congr
  intro oe _
  rw [Function.comp_apply, ← Bool.decide_and, decide_eq_decide]
  exact and_comm

omit hu

theorem joinsClear_only (h : hash ∈ q.orderHashes) (side : ClearSide) {c : ClearV3}
    (hc : side.orderHash c = hash) :
    ((orderAddEvents db q).filter fun oe =>
        joinsClear (orderAddEvents db q) side.orderHash c oe) =
      (orderAddEvents db (q.only hash)).filter fun oe =>
        joinsClear (orderAddEvents db (q.only hash)) side.orderHash c oe := by
  have hm (e : OrderEvent) : e ∈ orderAddEvents db (q.only hash) ↔
      e ∈ orderAddEvents db q ∧ e.orderHash = hash := by
    rw [orderAddEvents_only h, List.mem_filter, decide_eq_true_iff]
  conv_rhs => rw [orderAddEvents_only h, List.filter_filter]
  apply List.filter_congr
  intro oe _
  rw [← Bool.decide_and, decide_eq_decide]
  simp only [joinsClear, ← orderAddEvents_only h, hm]
  constructor
  · rintro ⟨h1, h2, h3, h4, h5⟩
    refine ⟨⟨h1, h2, h3, h4, ?_⟩, h3.trans hc⟩
    rintro ⟨e, ⟨he, -⟩, hn⟩
    exact h5 ⟨e, he, hn⟩
  · rintro ⟨⟨h1, h2, h3, h4, h5⟩, h6⟩
    refine ⟨h1, h2, h3, h4, ?_⟩
    rintro ⟨e, he, hn⟩
    exact h5 ⟨e, ⟨he, hn.2.2.1.trans h6⟩, hn⟩

theorem clearTrades_filter (h : hash ∈ q.orderHashes) (side : ClearSide) :
    ((clearTrades side db q).filter fun r => r.orderHash = hash) =
      clearTrades side db (q.only hash) := by
  have hrow (c : ClearV3) (r : TradeRow)
      (hr : r ∈ ((orderAddEvents db q).filter fun oe =>
        joinsClear (orderAddEvents db q) side.orderHash c oe).flatMap fun oe =>
          (afterClears db c).map (clearRow side c oe)) : r.orderHash = side.orderHash c := by
    obtain ⟨oe, hoe, hr⟩ := List.mem_flatMap.1 hr
    obtain ⟨a, -, rfl⟩ := List.mem_map.1 hr
    exact (of_decide_eq_true (List.mem_filter.1 hoe).2).2.2.1
  have hclears : clearsOf db (q.only hash) side =
      (clearsOf db q side).filter fun c => side.orderHash c = hash := by
    rw [clearsOf, clearsOf, List.filter_filter]
    apply List.filter_congr
    intro c _
    simp only [QueryParams.only, List.mem_singleton, ← Bool.decide_and, decide_eq_decide]
    constructor
    · rintro ⟨h1, h2, rfl⟩
      exact ⟨rfl, h1, h2, h⟩
    · rintro ⟨h1, h2, h3, -⟩
      exact ⟨h2, h3, h1⟩
  rw [clearTrades, clearTrades, filter_dedup, List.filter_flatMap, hclears]
  rw [← flatMap_filter (p := fun c => side.orderHash c = hash) fun c _ hc => ?_]
  · congr 1
    apply List.flatMap_congr
    intro c hc
    have hc := of_decide_eq_true (List.mem_filter.1 hc).2
    rw [← joinsClear_only h side hc, List.filter_eq_self]
    intro r hr
    exact decide_eq_true ((hrow c r hr).trans hc)
  · rw [List.filter_eq_nil_iff]
    intro r hr he
    exact hc ((hrow c r hr).symm.trans (of_decide_eq_true he))

end Batch

end AlbionApi.DirectTrades
