import AlbionApi.Trades.ByTx

/-! # Resolved transactions

What the lookup of a transaction shows of its trades, whatever the floats make
of the amounts, and how it fails.
-/

namespace AlbionApi

variable {F : Type} {txHash : B256}

/-- What the lookup of a transaction shows of a trade, but for its ratio. -/
structure ShownTrade where
  orderHash : Option B256
  inputToken : Address
  outputToken : Address
  inputAmount : String
  outputAmount : String
  deriving DecidableEq, Repr

def TradeByTxEntry.shown (entry : TradeByTxEntry) : ShownTrade where
  orderHash := some entry.orderHash
  inputToken := entry.request.inputToken
  outputToken := entry.request.outputToken
  inputAmount := entry.result.inputAmount
  outputAmount := entry.result.outputAmount

def RaindexTrade.shown [HexText] (trade : RaindexTrade F) : ShownTrade where
  orderHash := maybeParseTradeOrderHash trade.orderHash
  inputToken := trade.inputVaultBalanceChange.token.address
  outputToken := trade.outputVaultBalanceChange.token.address
  inputAmount := trade.inputVaultBalanceChange.formattedAmount
  outputAmount := trade.outputVaultBalanceChange.formattedAmount

theorem bind_eq_ok {ε α β : Type} {x : Except ε α} {f : α → Except ε β} {b : β} :
    (x >>= f) = .ok b ↔ ∃ a, x = .ok a ∧ f a = .ok b := by
  cases x with
  | error e => simp [bind, Except.bind]
  | ok a => simp [bind, Except.bind]

theorem bind_eq_error {ε α β : Type} {x : Except ε α} {f : α → Except ε β} {e : ε} :
    (x >>= f) = .error e ↔ x = .error e ∨ ∃ a, x = .ok a ∧ f a = .error e := by
  cases x with
  | error e' => simp [bind, Except.bind]
  | ok a => simp [bind, Except.bind]

/-- A result fails with an internal error only. -/
def OnlyInternal {α : Type} (result : Except ApiError α) : Prop :=
  ∀ e, result = .error e → ∃ message, e = .internal message

theorem OnlyInternal.bind {α β : Type} {x : Except ApiError α} {f : α → Except ApiError β}
    (hx : OnlyInternal x) (hf : ∀ a, x = .ok a → OnlyInternal (f a)) : OnlyInternal (x >>= f) := by
  intro e h
  rcases bind_eq_error.1 h with he | ⟨a, ha, he⟩
  · exact hx e he
  · exact hf a ha e he

theorem onlyInternal_ok {α : Type} (a : α) : OnlyInternal (.ok a) := fun _ h => nomatch h

theorem onlyInternal_orInternal {α : Type} (result : Option α) (message : String) :
    OnlyInternal (orInternal result message) := by
  intro e h
  unfold orInternal at h
  split at h
  · cases h
  · cases h
    exact ⟨message, rfl⟩

section Transaction

variable [FloatLib F] [HexText]

theorem addTradeByTx_eq_ok {s s' : TradesByTxState F} {t : TradeWithOwner F}
    (h : addTradeByTx s t = .ok s') : ∃ entry, s'.entries = s.entries ++ [entry] ∧
      entry.orderOwner = t.owner ∧ entry.shown = t.trade.shown := by
  simp only [addTradeByTx, bind_eq_ok] at h
  obtain ⟨ioRatio, -, orderHash, hh, totalInput, -, output, -, totalOutput, -, h⟩ := h
  cases h
  refine ⟨_, rfl, rfl, ?_⟩
  have hparse : maybeParseTradeOrderHash t.trade.orderHash = some orderHash := by
    unfold parseTradeOrderHash orInternal at hh
    unfold maybeParseTradeOrderHash
    split at hh
    · next heq => rw [heq, Except.ok.inj hh]
    · cases hh
  rw [RaindexTrade.shown, hparse]
  rfl

theorem foldlM_addTradeByTx {s s' : TradesByTxState F} {trades : List (TradeWithOwner F)}
    (h : trades.foldlM addTradeByTx s = .ok s') :
    s'.entries.map (fun entry => (entry.orderOwner, entry.shown)) =
      s.entries.map (fun entry => (entry.orderOwner, entry.shown)) ++
        trades.map fun t => (t.owner, t.trade.shown) := by
  induction trades generalizing s with
  | nil =>
    cases h
    rw [List.map_nil, List.append_nil]
  | cons t trades ih =>
    rw [List.foldlM_cons, bind_eq_ok] at h
    obtain ⟨u, hu, h⟩ := h
    obtain ⟨entry, he, howner, hshown⟩ := addTradeByTx_eq_ok hu
    rw [ih h, he, List.map_append, List.append_assoc, List.map_cons, List.map_cons, howner, hshown]
    rfl

theorem processGetTradesByTx_eq_ok {ds : TradesDataSource F} {response : TradesByTxResponse}
    (h : processGetTradesByTx ds txHash = .ok response) :
    ∃ first rest, ds.getTradesByTx txHash = .ok (first :: rest) ∧
      response.sender = first.trade.transaction.sender ∧
      toU64 first.trade.transaction.blockNumber "block number" = .ok response.blockNumber ∧
      toU64 first.trade.transaction.timestamp "timestamp" = .ok response.timestamp ∧
      response.trades.map (fun entry => (entry.orderOwner, entry.shown)) =
        (first :: rest).map fun t => (t.owner, t.trade.shown) := by
  rw [processGetTradesByTx, bind_eq_ok] at h
  obtain ⟨trades, hget, h⟩ := h
  cases trades with
  | nil =>
    simp only [noTradesByTx, bind_eq_ok] at h
    obtain ⟨state, -, h⟩ := h
    cases state <;> cases h
  | cons first rest =>
    simp only [bind_eq_ok] at h
    obtain ⟨totalInput, -, totalOutput, -, s, hs, zero, -, h⟩ := h
    -- the average is computed or zero
    split at h
    all_goals
      simp only [bind_eq_ok] at h
      obtain ⟨average, -, blockNumber, hb, timestamp, ht, inputText, -, outputText, -,
        averageText, -, h⟩ := h
      cases h
      exact ⟨first, rest, hget, rfl, hb, ht, foldlM_addTradeByTx hs⟩

omit [HexText] in
theorem onlyInternal_positiveOutput (amount : F) : OnlyInternal (positiveOutput amount) :=
  (onlyInternal_orInternal _ _).bind fun _ _ => onlyInternal_orInternal _ _

theorem onlyInternal_addTradeByTx (s : TradesByTxState F) (t : TradeWithOwner F) :
    OnlyInternal (addTradeByTx s t) := by
  have hratio : OnlyInternal (computeIoRatio t.trade.inputVaultBalanceChange.amount
      t.trade.outputVaultBalanceChange.amount) := by
    refine (onlyInternal_positiveOutput _).bind fun output _ => ?_
    refine (onlyInternal_orInternal _ _).bind fun zero _ => ?_
    split
    · exact onlyInternal_ok _
    · exact (onlyInternal_orInternal _ _).bind fun _ _ => onlyInternal_orInternal _ _
  refine hratio.bind fun _ _ => ?_
  refine (onlyInternal_orInternal _ _).bind fun _ _ => ?_
  refine (onlyInternal_orInternal _ _).bind fun _ _ => ?_
  refine (onlyInternal_positiveOutput _).bind fun _ _ => ?_
  exact (onlyInternal_orInternal _ _).bind fun _ _ => onlyInternal_ok _

theorem onlyInternal_foldlM (trades : List (TradeWithOwner F)) (s : TradesByTxState F) :
    OnlyInternal (trades.foldlM addTradeByTx s) := by
  induction trades generalizing s with
  | nil => exact onlyInternal_ok s
  | cons t trades ih =>
    rw [List.foldlM_cons]
    exact (onlyInternal_addTradeByTx s t).bind fun s' _ => ih s'

/-- A transaction with trades is not answered as missing. -/
theorem onlyInternal_processGetTradesByTx {ds : TradesDataSource F} {first : TradeWithOwner F}
    {rest : List (TradeWithOwner F)} (h : ds.getTradesByTx txHash = .ok (first :: rest)) :
    OnlyInternal (processGetTradesByTx ds txHash) := by
  rw [processGetTradesByTx, h]
  refine (onlyInternal_orInternal _ _).bind fun _ _ => ?_
  refine (onlyInternal_orInternal _ _).bind fun _ _ => ?_
  refine (onlyInternal_foldlM _ _).bind fun s _ => ?_
  refine (onlyInternal_orInternal _ _).bind fun zero _ => ?_
  split
  · refine (onlyInternal_ok zero).bind fun _ _ => ?_
    iterate 5 refine (onlyInternal_orInternal _ _).bind fun _ _ => ?_
    exact onlyInternal_ok _
  · iterate 6 refine (onlyInternal_orInternal _ _).bind fun _ _ => ?_
    exact onlyInternal_ok _

end Transaction

end AlbionApi
