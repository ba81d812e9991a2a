import AlbionApi.Api.Rational
import AlbionApi.Trades.ByTx
import AlbionApi.Trades.RaindexSource

/-! # The index state of a transaction

The index check asks the orderbooks one after the other and stops at the first
that has the transaction or fails. Its answer depends on the order of the
orderbooks when one of them has the transaction and another fails.
-/

namespace AlbionApi

section Check

variable {F : Type}

/-- The client with other orderbooks, or with the same ones in another order. -/
def RaindexClient.withOrderbooks (client : RaindexClient F) (orderbooks : List OrderbookCfg) :
    RaindexClient F :=
  { client with getAllOrderbooks := .ok orderbooks }

section Outcomes

variable (client : RaindexClient F) (txHash : B256) (orderbooks : List OrderbookCfg)

def TxFound : Prop := ∃ ob ∈ orderbooks, client.getTransaction ob txHash = .ok ()

/-- Some orderbook answers with an error that is no timeout. -/
def TxFailed : Prop :=
  ∃ ob ∈ orderbooks, client.getTransaction ob txHash ≠ .ok () ∧
    client.getTransaction ob txHash ≠ .error .transactionIndexingTimeout

/-- Some orderbook runs into the timeout. -/
def TxTimedOut : Prop :=
  ∃ ob ∈ orderbooks, client.getTransaction ob txHash = .error .transactionIndexingTimeout

instance : Decidable (TxFound client txHash orderbooks) :=
  inferInstanceAs (Decidable (∃ ob ∈ orderbooks, _))

instance : Decidable (TxFailed client txHash orderbooks) :=
  inferInstanceAs (Decidable (∃ ob ∈ orderbooks, _))

instance : Decidable (TxTimedOut client txHash orderbooks) :=
  inferInstanceAs (Decidable (∃ ob ∈ orderbooks, _))

/-- The state by precedence: found, then failed, then timed out. -/
def indexState : Except ApiError TxIndexState :=
  if TxFound client txHash orderbooks then .ok .indexed
  else if TxFailed client txHash orderbooks then .error (.internal "failed to query transaction")
  else if TxTimedOut client txHash orderbooks then .ok .notYetIndexed
  else .ok .indexed

end Outcomes

/-- The answer at which the check stops, if it stops at an orderbook. -/
def stopsWith (client : RaindexClient F) (txHash : B256) (orderbook : OrderbookCfg) :
    Option (Except ApiError TxIndexState) :=
  match client.getTransaction orderbook txHash with
  | .ok _ => some (.ok .indexed)
  | .error .transactionIndexingTimeout => none
  | .error _ => some (.error (.internal "failed to query transaction"))

variable {client : RaindexClient F} {txHash : B256} {orderbooks orderbooks' : List OrderbookCfg}

theorem stopsWith_cases (client : RaindexClient F) (txHash : B256) (orderbook : OrderbookCfg) :
    (client.getTransaction orderbook txHash = .ok () ∧
      stopsWith client txHash orderbook = some (.ok .indexed)) ∨
    (client.getTransaction orderbook txHash = .error .transactionIndexingTimeout ∧
      stopsWith client txHash orderbook = none) ∨
    ((client.getTransaction orderbook txHash ≠ .ok () ∧
      client.getTransaction orderbook txHash ≠ .error .transactionIndexingTimeout) ∧
      stopsWith client txHash orderbook =
        some (.error (.internal "failed to query transaction"))) := by
  unfold stopsWith
  cases client.getTransaction orderbook txHash with
  | ok found => exact Or.inl ⟨rfl, rfl⟩
  | error e => cases e <;> simp

theorem txIndexState_eq (client : RaindexClient F) (txHash : B256) (sawTimeout : Bool)
    (orderbooks : List OrderbookCfg) :
    txIndexState client txHash sawTimeout orderbooks =
      (orderbooks.findSome? (stopsWith client txHash)).getD
        (if sawTimeout = true ∨ orderbooks ≠ [] then .ok .notYetIndexed else .ok .indexed) := by
  induction orderbooks generalizing sawTimeout with
  | nil => cases sawTimeout <;> rfl
  | cons orderbook orderbooks ih =>
    rw [txIndexState, List.findSome?_cons, stopsWith]
    cases client.getTransaction orderbook txHash with
    | ok found => rfl
    | error e =>
      cases e with
      | transactionIndexingTimeout => simp [ih]
      | orderNotFound => rfl
      | other message => rfl

/-- A scan whose stopping answers are all the same gives this answer in any order. -/
theorem findSome?_eq_of_agree {α β : Type} {f : α → Option β} {l : List α} {a : α} {b : β}
    (ha : a ∈ l) (hf : f a = some b) (hagree : ∀ a' ∈ l, ∀ b', f a' = some b' → b' = b) :
    l.findSome? f = some b := by
  cases hs : l.findSome? f with
  | none => rw [List.findSome?_eq_none_iff.1 hs a ha] at hf; cases hf
  | some b' =>
    obtain ⟨a', ha', hf'⟩ := List.exists_of_findSome?_eq_some hs
    rw [hagree a' ha' b' hf']

theorem findSome?_stopsWith_of_found (hf : TxFound client txHash orderbooks)
    (hn : ¬ TxFailed client txHash orderbooks) :
    orderbooks.findSome? (stopsWith client txHash) = some (.ok .indexed) := by
  obtain ⟨ob, hm, hok⟩ := hf
  refine findSome?_eq_of_agree hm ?_ ?_
  · rw [stopsWith, hok]
  · intro ob' hm' state hs
    rcases stopsWith_cases client txHash ob' with ⟨-, hs'⟩ | ⟨-, hs'⟩ | ⟨hfail, -⟩
    · exact Option.some.inj (hs.symm.trans hs')
    · rw [hs'] at hs
      cases hs
    · exact absurd ⟨ob', hm', hfail⟩ hn

theorem findSome?_stopsWith_of_failed (hf : TxFailed client txHash orderbooks)
    (hn : ¬ TxFound client txHash orderbooks) :
    orderbooks.findSome? (stopsWith client txHash) =
      some (.error (.internal "failed to query transaction")) := by
  obtain ⟨ob, hm, hfail⟩ := hf
  refine findSome?_eq_of_agree hm ?_ ?_
  · rcases stopsWith_cases client txHash ob with ⟨hok, -⟩ | ⟨ht, -⟩ | ⟨-, hs⟩
    · exact absurd hok hfail.1
    · exact absurd ht hfail.2
    · exact hs
  · intro ob' hm' state hs
    rcases stopsWith_cases client txHash ob' with ⟨hok, -⟩ | ⟨-, hs'⟩ | ⟨-, hs'⟩
    · exact absurd ⟨ob', hm', hok⟩ hn
    · rw [hs'] at hs
      cases hs
    · exact Option.some.inj (hs.symm.trans hs')

theorem findSome?_stopsWith_eq_none (hf : ¬ TxFound client txHash orderbooks)
    (hn : ¬ TxFailed client txHash orderbooks) :
    orderbooks.findSome? (stopsWith client txHash) = none := by
  rw [List.findSome?_eq_none_iff]
  intro ob hm
  rcases stopsWith_cases client txHash ob with ⟨hok, -⟩ | ⟨-, hs⟩ | ⟨hfail, -⟩
  · exact absurd ⟨ob, hm, hok⟩ hf
  · exact hs
  · exact absurd ⟨ob, hm, hfail⟩ hn

/-- Unless one orderbook has the transaction and another fails, the scan follows the
precedence. -/
theorem txIndexState_eq_indexState
    (h : ¬ (TxFound client txHash orderbooks ∧ TxFailed client txHash orderbooks)) :
    txIndexState client txHash false orderbooks = indexState client txHash orderbooks := by
  rw [txIndexState_eq, indexState]
  by_cases hfound : TxFound client txHash orderbooks
  · rw [findSome?_stopsWith_of_found hfound fun hfailed => h ⟨hfound, hfailed⟩, if_pos hfound]
    rfl
  · rw [if_neg hfound]
    by_cases hfailed : TxFailed client txHash orderbooks
    · rw [findSome?_stopsWith_of_failed hfailed hfound, if_pos hfailed]
      rfl
    · rw [findSome?_stopsWith_eq_none hfound hfailed, if_neg hfailed, Option.getD_none]
      -- every orderbook that is left timed out
      have htimed : TxTimedOut client txHash orderbooks ↔ false = true ∨ orderbooks ≠ [] := by
        constructor
        · rintro ⟨ob, hm, -⟩
          exact Or.inr (List.ne_nil_of_mem hm)
        · rintro (h | hne)
          · cases h
          · obtain ⟨ob, hm⟩ := List.exists_mem_of_ne_nil _ hne
            rcases stopsWith_cases client txHash ob with ⟨hok, -⟩ | ⟨ht, -⟩ | ⟨hfail, -⟩
            · exact absurd ⟨ob, hm, hok⟩ hfound
            · exact ⟨ob, hm, ht⟩
            · exact absurd ⟨ob, hm, hfail⟩ hfailed
      simp only [htimed]

theorem TxFound.perm (h : TxFound client txHash orderbooks) (hp : orderbooks.Perm orderbooks') :
    TxFound client txHash orderbooks' := by
  obtain ⟨ob, hm, hok⟩ := h
  exact ⟨ob, hp.mem_iff.1 hm, hok⟩

theorem TxFailed.perm (h : TxFailed client txHash orderbooks) (hp : orderbooks.Perm orderbooks') :
    TxFailed client txHash orderbooks' := by
  obtain ⟨ob, hm, hfail⟩ := h
  exact ⟨ob, hp.mem_iff.1 hm, hfail⟩

theorem TxTimedOut.perm (h : TxTimedOut client txHash orderbooks)
    (hp : orderbooks.Perm orderbooks') : TxTimedOut client txHash orderbooks' := by
  obtain ⟨ob, hm, ht⟩ := h
  exact ⟨ob, hp.mem_iff.1 hm, ht⟩

theorem indexState_perm (hp : orderbooks.Perm orderbooks') :
    indexState client txHash orderbooks = indexState client txHash orderbooks' := by
  have hfound : TxFound client txHash orderbooks ↔ TxFound client txHash orderbooks' :=
    ⟨fun h => h.perm hp, fun h => h.perm hp.symm⟩
  have hfailed : TxFailed client txHash orderbooks ↔ TxFailed client txHash orderbooks' :=
    ⟨fun h => h.perm hp, fun h => h.perm hp.symm⟩
  have htimed : TxTimedOut client txHash orderbooks ↔ TxTimedOut client txHash orderbooks' :=
    ⟨fun h => h.perm hp, fun h => h.perm hp.symm⟩
  simp only [indexState, hfound, hfailed, htimed]

theorem checkTxIndexState_withOrderbooks (client : RaindexClient F) (txHash : B256)
    (orderbooks : List OrderbookCfg) :
    (raindexTradesDataSource (client.withOrderbooks orderbooks)).checkTxIndexState txHash =
      txIndexState client txHash false orderbooks := by
  have hstate : ∀ sawTimeout, txIndexState (client.withOrderbooks orderbooks) txHash sawTimeout
      orderbooks = txIndexState client txHash sawTimeout orderbooks := by
    intro sawTimeout
    rw [txIndexState_eq, txIndexState_eq]
    rfl
  exact hstate false

end Check

/-! ## The answer to an empty lookup -/

section Answer

variable {F : Type} [FloatLib F] [HexText]

/-- What an empty lookup is answered with in each state. -/
def emptyAnswer (txHash : B256) : Except ApiError TxIndexState → ApiError
  | .ok .indexed => .notFound "transaction has no associated trades"
  | .ok .notYetIndexed =>
    .notYetIndexed ("transaction " ++ HexText.formatB256 txHash ++ " not yet indexed")
  | .error e => e

theorem processGetTradesByTx_of_empty {ds : TradesDataSource F} {txHash : B256}
    (h : ds.getTradesByTx txHash = .ok []) :
    processGetTradesByTx ds txHash =
      .error (emptyAnswer txHash (ds.checkTxIndexState txHash)) := by
  simp only [processGetTradesByTx, h, noTradesByTx, bind, Except.bind]
  cases ds.checkTxIndexState txHash with
  | error e => rfl
  | ok state => cases state <;> rfl

/-- Every order of the orderbooks gives the state of the precedence, and an empty lookup its
answer, just when no orderbook has the transaction while another one fails. -/
theorem checkTxIndexState_perm_iff (client : RaindexClient F) (txHash : B256)
    (orderbooks : List OrderbookCfg) :
    (∀ orderbooks', orderbooks'.Perm orderbooks →
      (raindexTradesDataSource (client.withOrderbooks orderbooks')).checkTxIndexState txHash =
        indexState client txHash orderbooks ∧
      ((raindexTradesDataSource (client.withOrderbooks orderbooks')).getTradesByTx txHash =
          .ok [] →
        processGetTradesByTx (raindexTradesDataSource (client.withOrderbooks orderbooks')) txHash =
          .error (emptyAnswer txHash (indexState client txHash orderbooks)))) ↔
      ¬ (TxFound client txHash orderbooks ∧ TxFailed client txHash orderbooks) := by
  constructor
  · rintro hall ⟨hfound, ob, hm, hfail⟩
    -- the failing orderbook first
    have h := (hall (ob :: orderbooks.erase ob) (List.perm_cons_erase hm).symm).1
    rw [checkTxIndexState_withOrderbooks, txIndexState_eq, List.findSome?_cons, indexState,
      if_pos hfound] at h
    rcases stopsWith_cases client txHash ob with ⟨hok, -⟩ | ⟨ht, -⟩ | ⟨-, hs⟩
    · exact hfail.1 hok
    · exact hfail.2 ht
    · rw [hs] at h
      cases h
  · intro h orderbooks' hp
    have hs : (raindexTradesDataSource
        (client.withOrderbooks orderbooks')).checkTxIndexState txHash =
        indexState client txHash orderbooks := by
      rw [checkTxIndexState_withOrderbooks, txIndexState_eq_indexState, indexState_perm hp]
      rintro ⟨hfound, hfailed⟩
      exact h ⟨hfound.perm hp, hfailed.perm hp⟩
    refine ⟨hs, ?_⟩
    intro hempty
    rw [processGetTradesByTx_of_empty hempty, hs]

end Answer

section Example

def halfClient : RaindexClient ℚ where
  getAllOrderbooks := .ok [⟨8453, 1⟩, ⟨8453, 2⟩]
  getOrders _ _ _ := .ok ([], 0)
  getOrderByHash _ _ := .error .orderNotFound
  getTradesList _ _ _ := .ok []
  getTransactionTrades _ _ := .ok []
  getTransaction ob _ := if ob.address = 1 then .ok () else .error (.other "subgraph error")

theorem checkTxIndexState_half :
    (raindexTradesDataSource (halfClient.withOrderbooks
        [⟨8453, 1⟩, ⟨8453, 2⟩])).checkTxIndexState 5 = .ok .indexed ∧
      (raindexTradesDataSource (halfClient.withOrderbooks
        [⟨8453, 2⟩, ⟨8453, 1⟩])).checkTxIndexState 5 =
          .error (.internal "failed to query transaction") := by
  decide

end Example

end AlbionApi
