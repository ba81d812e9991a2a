import AlbionApi.Api.Error
import AlbionApi.Api.Trades
import AlbionApi.DirectTrades.Query
import AlbionApi.Raindex.Client
import Mathlib.Logic.Function.Basic

/-! # The direct trades fetcher

The batch query run for one orderbook, its rows converted and grouped by order
hash. A database of `none` is one on which a statement fails. The fetcher is
set up at the start, for the first configured orderbook.
-/

namespace AlbionApi.DirectTrades

/-- The chain and orderbook that a fetcher is bound to. -/
structure DirectTradesFetcher where
  chainId : ℤ
  orderbookAddress : String
  deriving DecidableEq, Repr

abbrev TradesByHash := B256 → Option (List OrderTradeEntry)

section Convert

variable (F : Type) [FloatLib F]

def formatFloatHex (hex : String) : Except ApiError String :=
  match FloatLib.fromHex (F := F) hex with
  | none => .error (.internal "float conversion failed")
  | some float =>
    match FloatLib.format float with
    | none => .error (.internal "float formatting failed")
    | some text => .ok text

def negateAndFormatFloatHex (hex : String) : Except ApiError String :=
  match FloatLib.parse (F := F) "-1", FloatLib.fromHex (F := F) hex with
  | some negOne, some float =>
    match FloatLib.mul negOne float with
    | none => .error (.internal "float conversion failed")
    | some negated =>
      match FloatLib.format negated with
      | none => .error (.internal "float formatting failed")
      | some text => .ok text
  | _, _ => .error (.internal "float conversion failed")

variable [HexText]

def convertRawTrade (raw : RawTradeRow) : Except ApiError (B256 × OrderTradeEntry) :=
  match HexText.parseB256 raw.orderHash with
  | none => .error (.internal ("invalid order hash: " ++ HexText.parseError raw.orderHash))
  | some orderHash =>
    match HexText.parseB256 raw.transactionHash with
    | none => .error (.internal ("invalid tx hash: " ++ HexText.parseError raw.transactionHash))
    | some txHash =>
      match HexText.parseAddress raw.transactionSender with
      | none =>
        .error (.internal ("invalid sender address: " ++ HexText.parseError raw.transactionSender))
      | some sender => do
        let inputAmount ← formatFloatHex F raw.inputDelta
        let outputAmount ← negateAndFormatFloatHex F raw.outputDeltaRaw
        return (orderHash, {
          id := raw.tradeId
          txHash := txHash
          inputAmount := inputAmount
          outputAmount := outputAmount
          timestamp := UInt64.ofInt raw.blockTimestamp
          sender := sender })

/-- `result.entry(hash).or_default().push(entry)`, or nothing for a malformed row. -/
def pushRow (result : TradesByHash) (raw : RawTradeRow) : TradesByHash :=
  match convertRawTrade F raw with
  | .ok (hash, entry) => Function.update result hash (some ((result hash).getD [] ++ [entry]))
  | .error _ => result

end Convert

namespace DirectTradesFetcher

variable [HexText]

/-- `DirectTradesFetcher::new`; opening the database or setting it up may fail. -/
def new (opened : Except String Unit) (chainId : UInt32) (orderbookAddress : Address) :
    Except String DirectTradesFetcher := do
  opened
  return { chainId := chainId.toNat, orderbookAddress := HexText.formatAddress orderbookAddress }

def params (f : DirectTradesFetcher) (hashes : List B256) : QueryParams where
  chainId := f.chainId
  orderbookAddress := f.orderbookAddress
  orderHashes := hashes.map HexText.formatB256

def batchFetch (F : Type) [FloatLib F] (f : DirectTradesFetcher) (db : Option EventDb)
    (hashes : List B256) : Except ApiError TradesByHash :=
  if hashes.isEmpty then .ok fun _ => none
  else
    match db with
    | none => .error (.internal "trade query failed")
    | some db => .ok ((batchQuery db (f.params hashes)).foldl (pushRow F) fun _ => none)

end DirectTradesFetcher

/-! ## Set-up of the fetcher -/

/-- The local database file: whether it exists and whether it can be opened. -/
structure DbFile where
  present : Bool
  opened : Except String Unit

def setupDirectTrades {F : Type} [HexText] (dbPath : Option DbFile) (client : RaindexClient F) :
    Option DirectTradesFetcher :=
  match dbPath with
  | none => none
  | some file =>
    if file.present then
      match client.getAllOrderbooks with
      | .error _ => none
      | .ok orderbooks =>
        match orderbooks.head? with
        | none => none
        | some ob => (DirectTradesFetcher.new file.opened ob.chainId ob.address).toOption
    else none

def fetcherFor [HexText] (ob : OrderbookCfg) : DirectTradesFetcher where
  chainId := ob.chainId.toNat
  orderbookAddress := HexText.formatAddress ob.address

theorem fetcherFor_injective [HexText] {ob ob' : OrderbookCfg}
    (h : fetcherFor ob = fetcherFor ob') : ob = ob' := by
  obtain ⟨chainId, address⟩ := ob
  obtain ⟨chainId', address'⟩ := ob'
  simp only [fetcherFor, DirectTradesFetcher.mk.injEq, Nat.cast_inj, UInt32.toNat_inj] at h
  have ha := congrArg HexText.parseAddress h.2
  rw [HexText.parseAddress_format, HexText.parseAddress_format, Option.some.injEq] at ha
  rw [h.1, ha]

theorem setupDirectTrades_eq_some {F : Type} [HexText] {dbPath : Option DbFile}
    {client : RaindexClient F} {f : DirectTradesFetcher}
    (h : setupDirectTrades dbPath client = some f) :
    ∃ ob obs, client.getAllOrderbooks = .ok (ob :: obs) ∧ f = fetcherFor ob := by
  unfold setupDirectTrades at h
  cases dbPath with
  | none => cases h
  | some file =>
    simp only at h
    split_ifs at h with he
    cases hc : client.getAllOrderbooks with
    | error e => simp [hc] at h
    | ok orderbooks =>
      cases orderbooks with
      | nil => simp [hc] at h
      | cons ob obs =>
        simp only [hc, List.head?_cons] at h
        refine ⟨ob, obs, rfl, ?_⟩
        unfold DirectTradesFetcher.new at h
        cases ho : file.opened with
        | error e => simp [ho, bind, Except.bind, Except.toOption] at h
        | ok u =>
          simp only [ho, bind, Except.bind, pure, Except.pure, Except.toOption,
            Option.some.injEq] at h
          exact h.symm

end AlbionApi.DirectTrades
