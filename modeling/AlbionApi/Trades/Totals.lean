import AlbionApi.Api.Rational
import AlbionApi.Foundations.Mediant
import AlbionApi.Trades.ByTx

/-! # Totals of a transaction

Where the floats are exact, the loop over the trades of a transaction adds up
the amounts that it reads, whichever order they come in, and the ratio of the
totals lies between those of the trades.
-/

namespace AlbionApi

open Mediant

/-- Floats as exact rational arithmetic, with a text for every number. -/
structure ExactFloats [FloatLib ℚ] : Prop where
  zero : FloatLib.zero = some (0 : ℚ)
  add : ∀ a b : ℚ, FloatLib.add a b = some (a + b)
  sub : ∀ a b : ℚ, FloatLib.sub a b = some (a - b)
  div : ∀ a b : ℚ, b ≠ 0 → FloatLib.div a b = some (a / b)
  eq : ∀ a b : ℚ, FloatLib.eq a b = some (decide (a = b))
  format : ∀ a : ℚ, ∃ s, FloatLib.format a = some s

namespace TradeWithOwner

variable (t : TradeWithOwner ℚ)

def input : ℚ := t.trade.inputVaultBalanceChange.amount

def output : ℚ := -t.trade.outputVaultBalanceChange.amount

/-- The order hash of the trade can be read. -/
def HashReadable [HexText] : Prop :=
  (HexText.parseB256 (HexText.formatBytes t.trade.orderHash)).isSome = true

def Readable [HexText] : Prop :=
  t.HashReadable ∧ t.trade.transaction.blockNumber.tryIntoU64.isSome = true ∧
    t.trade.transaction.timestamp.tryIntoU64.isSome = true

instance [HexText] : Decidable t.HashReadable := inferInstanceAs (Decidable (_ = true))

end TradeWithOwner

/-- The trades are of one transaction. -/
def OneTransaction (trades : List (TradeWithOwner ℚ)) : Prop :=
  ∀ t ∈ trades, ∀ t' ∈ trades, t.trade.transaction = t'.trade.transaction

section Round

variable [FloatLib ℚ]

def text (a : ℚ) : String := (FloatLib.format a).getD ""

/-- The text of the ratio of a trade; a trade without output has a ratio of zero. -/
def ratioText (t : TradeWithOwner ℚ) : String :=
  if t.output = 0 then "0" else text (t.input / t.output)

theorem ExactFloats.format_eq (hx : ExactFloats) (a : ℚ) : FloatLib.format a = some (text a) := by
  obtain ⟨s, hs⟩ := hx.format a
  rw [text, hs]
  rfl

theorem ExactFloats.formatFloat_eq (hx : ExactFloats) (a : ℚ) (context : String) :
    formatFloat a context = .ok (text a) := by
  rw [formatFloat, hx.format_eq]
  rfl

theorem ExactFloats.positiveOutput_eq (hx : ExactFloats) (t : TradeWithOwner ℚ) :
    positiveOutput t.trade.outputVaultBalanceChange.amount = .ok t.output := by
  simp only [positiveOutput, hx.zero, orInternal, bind, Except.bind, hx.sub, zero_sub]
  rfl

theorem ExactFloats.computeIoRatio_eq (hx : ExactFloats) (t : TradeWithOwner ℚ) :
    computeIoRatio t.trade.inputVaultBalanceChange.amount
      t.trade.outputVaultBalanceChange.amount = .ok (ratioText t) := by
  simp only [computeIoRatio, hx.positiveOutput_eq, hx.zero, orInternal, bind, Except.bind, hx.eq,
    Option.getD_some, decide_eq_true_eq, ratioText]
  split_ifs with h
  · rfl
  · simp only [hx.div _ _ h, hx.formatFloat_eq]
    rfl

end Round

section Loop

variable [FloatLib ℚ] [HexText] {t : TradeWithOwner ℚ} {trades : List (TradeWithOwner ℚ)}

theorem ExactFloats.addTradeByTx_eq (hx : ExactFloats) (hh : t.HashReadable)
    (s : TradesByTxState ℚ) : ∃ entry : TradeByTxEntry,
      addTradeByTx s t = .ok ⟨s.totalInput + t.input, s.totalOutput + t.output,
        s.entries ++ [entry]⟩ ∧ entry.result.actualIoRatio = ratioText t := by
  obtain ⟨hash, hhash⟩ := Option.isSome_iff_exists.mp hh
  simp only [addTradeByTx, hx.computeIoRatio_eq, parseTradeOrderHash, hhash, orInternal, hx.add,
    hx.positiveOutput_eq, bind, Except.bind]
  exact ⟨_, rfl, rfl⟩

theorem ExactFloats.addTradeByTx_error (hx : ExactFloats) (hh : ¬ t.HashReadable)
    (s : TradesByTxState ℚ) :
    addTradeByTx s t = .error (.internal "invalid trade order hash") := by
  rw [TradeWithOwner.HashReadable, Option.not_isSome_iff_eq_none] at hh
  simp only [addTradeByTx, hx.computeIoRatio_eq, parseTradeOrderHash, hh, orInternal, bind,
    Except.bind]

theorem ExactFloats.foldlM_addTradeByTx (hx : ExactFloats) (hh : ∀ t ∈ trades, t.HashReadable)
    (s : TradesByTxState ℚ) : ∃ entries : List TradeByTxEntry,
      trades.foldlM addTradeByTx s = .ok ⟨s.totalInput + total TradeWithOwner.input trades,
        s.totalOutput + total TradeWithOwner.output trades, s.entries ++ entries⟩ ∧
      entries.map (·.result.actualIoRatio) = trades.map ratioText := by
  induction trades generalizing s with
  | nil =>
    refine ⟨[], ?_, rfl⟩
    simp [total, pure, Except.pure]
  | cons t trades ih =>
    rw [List.forall_mem_cons] at hh
    obtain ⟨entry, he, hr⟩ := hx.addTradeByTx_eq hh.1 s
    obtain ⟨entries, hf, hrs⟩ := ih hh.2 ⟨s.totalInput + t.input, s.totalOutput + t.output,
      s.entries ++ [entry]⟩
    refine ⟨entry :: entries, ?_, ?_⟩
    · simp only [List.foldlM_cons, he, bind, Except.bind, hf, total, List.map_cons, List.sum_cons,
        add_assoc, List.append_assoc, List.singleton_append]
    · rw [List.map_cons, hr, hrs, List.map_cons]

theorem ExactFloats.foldlM_addTradeByTx_error (hx : ExactFloats)
    (hh : ¬ ∀ t ∈ trades, t.HashReadable) (s : TradesByTxState ℚ) :
    trades.foldlM addTradeByTx s = .error (.internal "invalid trade order hash") := by
  induction trades generalizing s with
  | nil => exact absurd (fun _ h => nomatch h) hh
  | cons t trades ih =>
    rw [List.foldlM_cons]
    by_cases ht : t.HashReadable
    · obtain ⟨entry, he, -⟩ := hx.addTradeByTx_eq ht s
      rw [he]
      refine ih (fun h => hh ?_) _
      exact List.forall_mem_cons.mpr ⟨ht, h⟩
    · rw [hx.addTradeByTx_error ht]
      rfl

end Loop

section Report

variable [FloatLib ℚ] [HexText] {trades trades' : List (TradeWithOwner ℚ)}

def totalsOf (trades : List (TradeWithOwner ℚ)) : TradesTotals where
  totalInputAmount := text (total TradeWithOwner.input trades)
  totalOutputAmount := text (total TradeWithOwner.output trades)
  averageIoRatio :=
    text (total TradeWithOwner.input trades / total TradeWithOwner.output trades)

/-- The totals that the trades of a transaction give, or the first error that they run into. -/
def totalsReport (trades : List (TradeWithOwner ℚ)) : Except ApiError TradesTotals :=
  if ∀ t ∈ trades, t.HashReadable then
    if ∀ t ∈ trades, t.trade.transaction.blockNumber.tryIntoU64.isSome = true then
      if ∀ t ∈ trades, t.trade.transaction.timestamp.tryIntoU64.isSome = true then
        .ok (totalsOf trades)
      else .error (.internal "timestamp overflow")
    else .error (.internal "block number overflow")
  else .error (.internal "invalid trade order hash")

theorem totalsReport_eq_ok_iff {totals : TradesTotals} : totalsReport trades = .ok totals ↔
    (∀ t ∈ trades, t.Readable) ∧ totalsOf trades = totals := by
  simp only [TradeWithOwner.Readable, forall_and, totalsReport]
  split_ifs with hh hb ht
  · rw [Except.ok.injEq]
    exact (and_iff_right ⟨hh, hb, ht⟩).symm
  · exact iff_of_false (fun h => nomatch h) fun h => ht h.1.2.2
  · exact iff_of_false (fun h => nomatch h) fun h => hb h.1.2.1
  · exact iff_of_false (fun h => nomatch h) fun h => hh h.1.1

theorem totalsReport_perm (h : trades.Perm trades') :
    totalsReport trades = totalsReport trades' := by
  have hmem (p : TradeWithOwner ℚ → Prop) : (∀ t ∈ trades, p t) ↔ ∀ t ∈ trades', p t := by
    simp only [h.mem_iff]
  simp only [totalsReport, totalsOf, hmem fun t => t.HashReadable, hmem, total_perm h]

variable {ds : TradesDataSource ℚ} {txHash : B256}

omit [FloatLib ℚ] [HexText] in
theorem OneTransaction.forall_iff {first : TradeWithOwner ℚ} {rest : List (TradeWithOwner ℚ)}
    (h : OneTransaction (first :: rest)) (p : RaindexTransaction → Prop) :
    (∀ t ∈ first :: rest, p t.trade.transaction) ↔ p first.trade.transaction := by
  constructor
  · intro hall
    exact hall first List.mem_cons_self
  · intro hp t ht
    rwa [h t ht first List.mem_cons_self]

theorem ExactFloats.processGetTradesByTx_of_hashes (hx : ExactFloats)
    {first : TradeWithOwner ℚ} {rest : List (TradeWithOwner ℚ)}
    (hds : ds.getTradesByTx txHash = .ok (first :: rest))
    (hh : ∀ t ∈ first :: rest, t.HashReadable) : ∃ entries : List TradeByTxEntry,
      entries.map (·.result.actualIoRatio) = (first :: rest).map ratioText ∧
      processGetTradesByTx ds txHash = (do
        let blockNumber ← toU64 first.trade.transaction.blockNumber "block number"
        let timestamp ← toU64 first.trade.transaction.timestamp "timestamp"
        return {
          txHash := txHash
          blockNumber := blockNumber
          timestamp := timestamp
          sender := first.trade.transaction.sender
          trades := entries
          totals := totalsOf (first :: rest) }) := by
  obtain ⟨entries, hf, hr⟩ := hx.foldlM_addTradeByTx hh ⟨0, 0, []⟩
  refine ⟨entries, hr, ?_⟩
  simp only [processGetTradesByTx, hds, bind, Except.bind, hx.zero, hf, orInternal, hx.eq,
    zero_add, List.nil_append, Option.getD_some, decide_eq_true_eq, hx.formatFloat_eq]
  split_ifs with h0
  · simp only [totalsOf, h0, div_zero]
    rfl
  · rw [hx.div _ _ h0]
    rfl

/-- The lookup answers with the report of the trades, each listed with its ratio. -/
theorem ExactFloats.processGetTradesByTx_eq (hx : ExactFloats)
    (hds : ds.getTradesByTx txHash = .ok trades) (hne : trades ≠ [])
    (hone : OneTransaction trades) :
    (processGetTradesByTx ds txHash).map (·.totals) = totalsReport trades ∧
      ∀ r, processGetTradesByTx ds txHash = .ok r →
        r.trades.map (·.result.actualIoRatio) = trades.map ratioText := by
  obtain ⟨first, rest, rfl⟩ := List.exists_cons_of_ne_nil hne
  have hblock := hone.forall_iff fun tx => tx.blockNumber.tryIntoU64.isSome = true
  have htime := hone.forall_iff fun tx => tx.timestamp.tryIntoU64.isSome = true
  by_cases hh : ∀ t ∈ first :: rest, t.HashReadable
  · obtain ⟨entries, hr, he⟩ := hx.processGetTradesByTx_of_hashes hds hh
    rw [he, totalsReport, if_pos hh]
    simp only [hblock, htime, toU64, orInternal, bind, Except.bind]
    cases hb : first.trade.transaction.blockNumber.tryIntoU64 with
    | none => exact ⟨rfl, fun r h => nomatch h⟩
    | some blockNumber =>
      cases ht : first.trade.transaction.timestamp.tryIntoU64 with
      | none => exact ⟨rfl, fun r h => nomatch h⟩
      | some timestamp =>
        refine ⟨rfl, fun r h => ?_⟩
        cases h
        exact hr
  · have hf := hx.foldlM_addTradeByTx_error hh ⟨0, 0, []⟩
    simp only [processGetTradesByTx, hds, bind, Except.bind, orInternal, hx.zero, hf]
    refine ⟨?_, fun r h => nomatch h⟩
    rw [totalsReport, if_neg hh]
    rfl

/-! ## What the lookup reports -/

variable (trades) in
/-- The totals are those of the trades. If every trade has an input that is not negative and an
output, the average lies between the smallest and the largest of their ratios. -/
structure Reports (r : TradesByTxResponse) : Prop where
  totalInput : FloatLib.format (total TradeWithOwner.input trades) =
    some r.totals.totalInputAmount
  totalOutput : FloatLib.format (total TradeWithOwner.output trades) =
    some r.totals.totalOutputAmount
  average : ∃ a : ℚ, FloatLib.format a = some r.totals.averageIoRatio ∧
    (total TradeWithOwner.output trades ≠ 0 →
      a * total TradeWithOwner.output trades = total TradeWithOwner.input trades) ∧
    (total TradeWithOwner.output trades = 0 → a = 0) ∧
    ((∀ t ∈ trades, 0 ≤ t.trade.inputVaultBalanceChange.amount ∧
        t.trade.outputVaultBalanceChange.amount < 0) →
      ∃ ratios : List ℚ,
        ratios.map FloatLib.format = r.trades.map (fun e => some e.result.actualIoRatio) ∧
        ∃ lo ∈ ratios, ∃ hi ∈ ratios, (∀ x ∈ ratios, lo ≤ x ∧ x ≤ hi) ∧ lo ≤ a ∧ a ≤ hi)

omit [HexText] in
theorem ExactFloats.reports (hx : ExactFloats) (hne : trades ≠ []) {r : TradesByTxResponse}
    (ht : r.totals = totalsOf trades)
    (hr : r.trades.map (·.result.actualIoRatio) = trades.map ratioText) : Reports trades r := by
  refine ⟨?_, ?_, total TradeWithOwner.input trades / total TradeWithOwner.output trades, ?_, ?_,
    ?_, ?_⟩
  · rw [ht, hx.format_eq]
    rfl
  · rw [ht, hx.format_eq]
    rfl
  · rw [ht, hx.format_eq]
    rfl
  · intro h0
    exact div_mul_cancel₀ _ h0
  · intro h0
    rw [h0, div_zero]
  · intro hsign
    have hpos : ∀ t ∈ trades, 0 < t.output := fun t hm => neg_pos.mpr (hsign t hm).2
    obtain ⟨lo, hlo, hi, hhi, hall, hle, hge⟩ :=
      div_between (f := TradeWithOwner.input) hne hpos
    refine ⟨trades.map fun t => t.input / t.output, ?_, _, List.mem_map_of_mem hlo, _,
      List.mem_map_of_mem hhi, ?_, hle, hge⟩
    · have hsome : r.trades.map (fun e => some e.result.actualIoRatio) =
          (trades.map ratioText).map some := by
        rw [← hr, List.map_map]
        rfl
      rw [hsome, List.map_map, List.map_map]
      apply List.map_congr_left
      intro t hm
      simp only [Function.comp, ratioText, if_neg (hpos t hm).ne', hx.format_eq]
    · exact List.forall_mem_map.mpr hall

/-- With exact floats the lookup answers for every list of readable trades of a transaction and
reports their totals, and any other order of the trades gives the same totals or the same error. -/
theorem processGetTradesByTx_totals (hx : ExactFloats)
    (hds : ds.getTradesByTx txHash = .ok trades) (hne : trades ≠ [])
    (hone : OneTransaction trades) :
    ((∃ r, processGetTradesByTx ds txHash = .ok r) ↔ ∀ t ∈ trades, t.Readable) ∧
      (∀ r, processGetTradesByTx ds txHash = .ok r → Reports trades r) ∧
      ∀ (ds' : TradesDataSource ℚ) (trades' : List (TradeWithOwner ℚ)), trades'.Perm trades →
        ds'.getTradesByTx txHash = .ok trades' →
        (processGetTradesByTx ds' txHash).map (·.totals) =
          (processGetTradesByTx ds txHash).map (·.totals) := by
  obtain ⟨htotals, hratios⟩ := hx.processGetTradesByTx_eq hds hne hone
  refine ⟨?_, ?_, ?_⟩
  · constructor
    · rintro ⟨r, hr⟩
      rw [hr] at htotals
      exact (totalsReport_eq_ok_iff.mp htotals.symm).1
    · intro hread
      rw [totalsReport_eq_ok_iff.mpr ⟨hread, rfl⟩] at htotals
      cases hp : processGetTradesByTx ds txHash with
      | error e =>
        rw [hp] at htotals
        cases htotals
      | ok r => exact ⟨r, rfl⟩
  · intro r hr
    rw [hr] at htotals
    exact hx.reports hne (totalsReport_eq_ok_iff.mp htotals.symm).2.symm (hratios r hr)
  · intro ds' trades' hp hds'
    have hne' : trades' ≠ [] := fun h => hne (List.nil_perm.mp (h ▸ hp))
    have hone' : OneTransaction trades' := fun t ht t' ht' =>
      hone t (hp.mem_iff.mp ht) t' (hp.mem_iff.mp ht')
    rw [(hx.processGetTradesByTx_eq hds' hne' hone').1, htotals, totalsReport_perm hp]

end Report

section Example

local instance pairHexText : HexText := Hex.text

local instance pairFloats : FloatLib ℚ := Rational.fractions

def pairTrade (input output : ℚ) : TradeWithOwner ℚ where
  owner := 7
  trade := {
    id := "trade"
    orderHash := List.replicate 32 1
    transaction := { id := 5, sender := 9, blockNumber := 100, timestamp := 200 }
    inputVaultBalanceChange :=
      { token := ⟨1, some "USDC", 6⟩, amount := input, formattedAmount := toString input }
    outputVaultBalanceChange :=
      { token := ⟨2, some "WETH", 18⟩, amount := output, formattedAmount := toString output }
    timestamp := 200 }

def pairSource : TradesDataSource ℚ where
  getOrders _ _ _ := .ok ([], 0)
  getOrderTrades _ _ _ := .ok []
  getTradesByTx _ := .ok [pairTrade 2 (-1), pairTrade 6 (-1)]
  findOrderByHash _ := .ok none
  checkTxIndexState _ := .ok .indexed

theorem pairFloats_exact : ExactFloats where
  zero := rfl
  add _ _ := rfl
  sub _ _ := rfl
  div _ _ h := if_neg h
  eq _ _ := rfl
  format a := ⟨toString a, rfl⟩

theorem pairTrade_readable (input output : ℚ) : (pairTrade input output).Readable := by
  refine ⟨?_, rfl, rfl⟩
  show (HexText.parseB256 (HexText.formatBytes (List.replicate 32 1))).isSome = true
  decide +kernel

/-- Two trades with ratios of 2 and 6 and an average of 4. -/
theorem processGetTradesByTx_totals_pair : ∃ r, processGetTradesByTx pairSource 5 = .ok r ∧
    Reports [pairTrade 2 (-1), pairTrade 6 (-1)] r := by
  have hds : pairSource.getTradesByTx 5 = .ok [pairTrade 2 (-1), pairTrade 6 (-1)] := rfl
  have hone : OneTransaction [pairTrade 2 (-1), pairTrade 6 (-1)] := by
    intro t ht t' ht'
    simp only [List.mem_cons, List.not_mem_nil, or_false] at ht ht'
    obtain rfl | rfl := ht <;> obtain rfl | rfl := ht' <;> rfl
  obtain ⟨hok, hreports, -⟩ :=
    processGetTradesByTx_totals pairFloats_exact hds (List.cons_ne_nil _ _) hone
  obtain ⟨r, hr⟩ := hok.mpr (by simp [pairTrade_readable])
  exact ⟨r, hr, hreports r hr⟩

end Example

end AlbionApi
