import AlbionApi.Api.Rational
import AlbionApi.Orders.Vaults
import Mathlib.Data.List.Perm.Basic

/-! # Cancelling an order

The transaction that removes an order, and the vaults with a balance that the
owner gets back. The summary goes through the input vaults and then through the
output vaults, so a vault of both kinds is met twice or not at all.
-/

namespace AlbionApi

structure CancelTransaction where
  «to» : Address
  data : Bytes
  value : U256
  deriving DecidableEq, Repr

structure TokenReturn where
  token : Address
  symbol : String
  amount : String
  deriving DecidableEq, Repr

structure CancelSummary where
  vaultsToWithdraw : UInt32
  tokensReturned : List TokenReturn
  deriving DecidableEq, Repr

structure CancelOrderResponse where
  transactions : List CancelTransaction
  summary : CancelSummary
  deriving DecidableEq, Repr

structure OrderDataSource (F : Type) where
  getOrdersByHash : B256 → Except ApiError (List (OrderWithVaults F))
  getOrderQuotes : OrderWithVaults F → Except ApiError (List RaindexOrderQuote)
  getOrderTrades : OrderWithVaults F → Except ApiError (List (RaindexTrade F))
  getRemoveCalldata : OrderWithVaults F → Except ApiError Bytes

section Process

variable {F : Type}

def tokenReturn (vault : RaindexVault F) : TokenReturn where
  token := vault.token.address
  symbol := vault.token.symbol.getD ""
  amount := vault.formattedBalance

variable [FloatIsZero F]

/-- The loop over the vaults, with the summary so far. -/
def withdrawVaults : CancelSummary → List (RaindexVault F) → Except ApiError CancelSummary
  | summary, [] => .ok summary
  | summary, vault :: vaults =>
    match FloatIsZero.isZero vault.balance with
    | .error e => .error (.internal ("failed to check vault balance: " ++ e))
    | .ok true => withdrawVaults summary vaults
    | .ok false =>
      withdrawVaults {
        vaultsToWithdraw := summary.vaultsToWithdraw + 1
        tokensReturned := summary.tokensReturned ++ [tokenReturn vault] } vaults

def processCancelOrder (ds : OrderDataSource F) (hash : B256) :
    Except ApiError CancelOrderResponse := do
  match ← ds.getOrdersByHash hash with
  | [] => .error (.notFound "order not found")
  | order :: _ =>
    let calldata ← ds.getRemoveCalldata order
    let summary ← withdrawVaults { vaultsToWithdraw := 0, tokensReturned := [] }
      (order.inputsList ++ order.outputsList)
    return {
      transactions := [{ «to» := order.orderbook, data := calldata, value := 0 }]
      summary := summary }

/-! ## The vaults of the summary -/

/-- The zero check says that there is a balance. -/
def HasBalance (vault : RaindexVault F) : Prop := FloatIsZero.isZero vault.balance = .ok false

instance (vault : RaindexVault F) : Decidable (HasBalance vault) :=
  inferInstanceAs (Decidable (_ = _))

def reportedVaults (order : OrderWithVaults F) : List (RaindexVault F) :=
  (order.inputsList ++ order.outputsList).filter fun v => HasBalance v

theorem withdrawVaults_eq (summary : CancelSummary) {vaults : List (RaindexVault F)}
    (hz : ∀ v ∈ vaults, ∃ b, FloatIsZero.isZero v.balance = .ok b) :
    withdrawVaults summary vaults = .ok {
      vaultsToWithdraw := summary.vaultsToWithdraw +
        UInt32.ofNat (vaults.filter fun v => HasBalance v).length
      tokensReturned := summary.tokensReturned ++
        (vaults.filter fun v => HasBalance v).map tokenReturn } := by
  induction vaults generalizing summary with
  | nil => simp [withdrawVaults]
  | cons v vaults ih =>
    have ih := fun s => ih s fun v' hv' => hz v' (List.mem_cons_of_mem _ hv')
    obtain ⟨b, hb⟩ := hz v List.mem_cons_self
    cases b with
    | true =>
      simp only [withdrawVaults, hb]
      rw [ih, List.filter_cons_of_neg (by simp [HasBalance, hb])]
    | false =>
      simp only [withdrawVaults, hb]
      rw [ih, List.filter_cons_of_pos (by simp [HasBalance, hb])]
      simp [UInt32.add_assoc, UInt32.add_comm]

/-- A vault up to the kind it is listed as. -/
def RaindexVault.untyped (vault : RaindexVault F) : RaindexVault F :=
  { vault with vaultType := none }

/-- The vaults of an order are listed once, each of some kind. The lists of its input and of
its output vaults have those of this kind and the same ones of both kinds. -/
structure ListsVaults (order : OrderWithVaults F) (shared : RaindexVault F → Bool) : Prop where
  once : (order.vaultsList.map (·.id)).Nodup
  typed : ∀ v ∈ order.vaultsList, v.vaultType ≠ none
  inputs : (order.inputsList.map (·.untyped)).Perm
    ((order.vaultsList.filter fun v =>
      v.vaultType = some .input ∨ v.vaultType = some .inputOutput ∧ shared v).map (·.untyped))
  outputs : (order.outputsList.map (·.untyped)).Perm
    ((order.vaultsList.filter fun v =>
      v.vaultType = some .output ∨ v.vaultType = some .inputOutput ∧ shared v).map (·.untyped))

variable {order : OrderWithVaults F} {shared : RaindexVault F → Bool}

omit [FloatIsZero F] in
theorem countP_of_perm_untyped {l l' : List (RaindexVault F)} {q : RaindexVault F → Bool}
    (h : (l.map (·.untyped)).Perm ((l'.filter q).map (·.untyped))) {p : RaindexVault F → Bool}
    (hp : ∀ v, p v.untyped = p v) : l.countP p = l'.countP fun v => p v && q v := by
  have hu : ∀ l : List (RaindexVault F), (l.map (·.untyped)).countP p = l.countP p := by
    intro l
    rw [List.countP_map]
    exact List.countP_congr fun v _ => by simp [hp]
  rw [← hu l, h.countP_eq, hu, List.countP_filter]

def timesListed (order : OrderWithVaults F) (vault : RaindexVault F) : ℕ :=
  (reportedVaults order).countP fun v => v.id = vault.id

omit [FloatIsZero F] in
theorem countP_once {l : List (RaindexVault F)} (hn : (l.map (·.id)).Nodup) {v : RaindexVault F}
    (hv : v ∈ l) (p : RaindexVault F → Bool) :
    (l.countP fun w => decide (w.id = v.id) && p w) = if p v then 1 else 0 := by
  induction l with
  | nil => cases hv
  | cons w l ih =>
    rw [List.map_cons, List.nodup_cons] at hn
    rw [List.countP_cons]
    rcases List.mem_cons.1 hv with rfl | hv
    · have hno : (l.countP fun w => decide (w.id = v.id) && p w) = 0 := by
        rw [List.countP_eq_zero]
        intro w hw
        have : w.id ≠ v.id := fun e => hn.1 (e ▸ List.mem_map_of_mem hw)
        simp [this]
      rw [hno]
      simp
    · have : w.id ≠ v.id := fun e => hn.1 (e ▸ List.mem_map_of_mem hv)
      rw [ih hn.2 hv]
      simp [this]

/-- A vault of one kind is listed once if it has a balance, one of both kinds twice or never. -/
theorem ListsVaults.timesListed_eq (hl : ListsVaults order shared) {v : RaindexVault F}
    (hv : v ∈ order.vaultsList) : timesListed order v =
      if HasBalance v then
        if v.vaultType = some .inputOutput then (if shared v then 2 else 0) else 1
      else 0 := by
  have hsplit : timesListed order v =
      (order.inputsList.countP fun w => decide (w.id = v.id) && decide (HasBalance w)) +
        order.outputsList.countP fun w => decide (w.id = v.id) && decide (HasBalance w) := by
    rw [timesListed, reportedVaults, List.countP_filter, List.countP_append]
  rw [hsplit, countP_of_perm_untyped hl.inputs fun _ => rfl,
    countP_of_perm_untyped hl.outputs fun _ => rfl]
  simp only [Bool.and_assoc]
  rw [countP_once hl.once hv fun w => decide (HasBalance w) && _,
    countP_once hl.once hv fun w => decide (HasBalance w) && _]
  have ht := hl.typed v hv
  by_cases hb : HasBalance v
  · cases hk : v.vaultType with
    | none => exact absurd hk ht
    | some t => cases t <;> simp [hb]; cases shared v <;> rfl
  · simp [hb]

theorem countP_add_of_exclusive {α : Type} {l : List α} {p q r : α → Bool}
    (h : ∀ a ∈ l, (p a).toNat + (q a).toNat = (r a).toNat) :
    l.countP p + l.countP q = l.countP r := by
  induction l with
  | nil => rfl
  | cons a l ih =>
    have ih := ih fun b hb => h b (List.mem_cons_of_mem _ hb)
    have ha := h a List.mem_cons_self
    rw [List.countP_cons, List.countP_cons, List.countP_cons, ← ih]
    cases hp : p a <;> cases hq : q a <;> cases hr : r a <;> simp_all <;> omega

/-- No vault with a balance serves as both input and output. -/
def NoSharedBalance (order : OrderWithVaults F) : Prop :=
  ∀ v ∈ order.vaultsList, v.vaultType = some .inputOutput → ¬ HasBalance v

theorem ListsVaults.length_reportedVaults (hl : ListsVaults order shared)
    (hno : NoSharedBalance order) : (reportedVaults order).length =
      (order.vaultsList.filter fun v => HasBalance v).length := by
  rw [reportedVaults, ← List.countP_eq_length_filter, ← List.countP_eq_length_filter,
    List.countP_append, countP_of_perm_untyped hl.inputs fun _ => rfl,
    countP_of_perm_untyped hl.outputs fun _ => rfl]
  apply countP_add_of_exclusive
  intro v hv
  have ht := hl.typed v hv
  have hn := hno v hv
  by_cases hb : HasBalance v
  · cases hk : v.vaultType with
    | none => exact absurd hk ht
    | some t =>
      cases t with
      | input => simp [hb]
      | output => simp [hb]
      | inputOutput => exact absurd hb (hn hk)
  · simp [hb]

theorem exists_of_mem_reportedVaults (hl : ListsVaults order shared) {w : RaindexVault F}
    (hw : w ∈ reportedVaults order) : ∃ v ∈ order.vaultsList, v.untyped = w.untyped := by
  have hof : ∀ {l : List (RaindexVault F)} {q : RaindexVault F → Bool},
      (l.map (·.untyped)).Perm ((order.vaultsList.filter q).map (·.untyped)) → w ∈ l →
      ∃ v ∈ order.vaultsList, v.untyped = w.untyped := by
    intro l q h hm
    obtain ⟨v, hv, he⟩ := List.mem_map.1 (h.mem_iff.1 (List.mem_map_of_mem hm))
    exact ⟨v, (List.mem_filter.1 hv).1, he⟩
  rcases List.mem_append.1 (List.mem_filter.1 hw).1 with hm | hm
  · exact hof hl.inputs hm
  · exact hof hl.outputs hm

/-- The summary lists vaults of the order, each with a balance once and no other, and gives
their number. -/
def ReportsOnce (ds : OrderDataSource F) (hash : B256) (order : OrderWithVaults F) : Prop :=
  ∃ response, processCancelOrder ds hash = .ok response ∧
    response.summary.tokensReturned = (reportedVaults order).map tokenReturn ∧
    (∀ w ∈ reportedVaults order, ∃ v ∈ order.vaultsList, v.untyped = w.untyped) ∧
    (∀ v ∈ order.vaultsList, timesListed order v = if HasBalance v then 1 else 0) ∧
    response.summary.vaultsToWithdraw.toNat =
      (order.vaultsList.filter fun v => HasBalance v).length

/-- Every vault with a balance is listed once just when none of them is of both kinds, and
their number fits the counter. -/
theorem processCancelOrder_reportsOnce_iff {ds : OrderDataSource F} {hash : B256}
    {rest : List (OrderWithVaults F)} {calldata : Bytes}
    (ho : ds.getOrdersByHash hash = .ok (order :: rest))
    (hc : ds.getRemoveCalldata order = .ok calldata) (hl : ListsVaults order shared)
    (hz : ∀ v ∈ order.inputsList ++ order.outputsList,
      ∃ b, FloatIsZero.isZero v.balance = .ok b) :
    ReportsOnce ds hash order ↔ NoSharedBalance order ∧
      (order.vaultsList.filter fun v => HasBalance v).length < 2 ^ 32 := by
  have hr : processCancelOrder ds hash = .ok {
      transactions := [{ «to» := order.orderbook, data := calldata, value := 0 }]
      summary := {
        vaultsToWithdraw := UInt32.ofNat (reportedVaults order).length
        tokensReturned := (reportedVaults order).map tokenReturn } } := by
    simp only [processCancelOrder, ho, hc, bind, Except.bind, withdrawVaults_eq _ hz,
      UInt32.zero_add, List.nil_append]
    rfl
  constructor
  · rintro ⟨response, h, -, -, honce, hcount⟩
    constructor
    · intro v hv ht hb
      have := honce v hv
      rw [hl.timesListed_eq hv, if_pos hb, if_pos ht, if_pos hb] at this
      split at this <;> omega
    · rw [← hcount]
      exact response.summary.vaultsToWithdraw.toNat_lt
  · rintro ⟨hno, hlt⟩
    refine ⟨_, hr, rfl, fun w hw => exists_of_mem_reportedVaults hl hw, ?_, ?_⟩
    · intro v hv
      rw [hl.timesListed_eq hv]
      by_cases ht : v.vaultType = some .inputOutput
      · rw [if_neg (hno v hv ht), if_neg (hno v hv ht)]
      · rw [if_neg ht]
    · rw [UInt32.toNat_ofNat_of_lt' (by rw [hl.length_reportedVaults hno]; exact hlt),
        hl.length_reportedVaults hno]

end Process

section Example

local instance sharedFloats : FloatIsZero ℚ := ⟨fun balance => .ok (balance = 0)⟩

def vaultOf (id : Bytes) (vaultType : RaindexVaultType) : RaindexVault ℚ where
  id := id
  vaultType := some vaultType
  vaultId := 4011
  balance := 1
  formattedBalance := "1"
  token := { address := 3, symbol := some "USDC", decimals := 6 }

def orderOf (vaults : List (RaindexVault ℚ)) : OrderWithVaults ℚ where
  id := [2]
  chainId := 8453
  orderbook := 1
  orderHash := 48879
  owner := 1
  orderBytes := [1]
  timestampAdded := 1700000000
  rainlang := none
  vaultsList := vaults
  inputsList := vaults.filter fun v => v.IsInput
  outputsList := vaults.filter fun v => v.IsOutput

def sourceOf (order : OrderWithVaults ℚ) : OrderDataSource ℚ where
  getOrdersByHash _ := .ok [order]
  getOrderQuotes _ := .ok []
  getOrderTrades _ := .ok []
  getRemoveCalldata _ := .ok [171, 205, 239]

theorem processCancelOrder_shared :
    (∃ response, processCancelOrder (sourceOf (orderOf [vaultOf [3] .inputOutput])) 48879 =
        .ok response ∧ response.summary.vaultsToWithdraw = 2 ∧
      response.summary.tokensReturned = [⟨3, "USDC", "1"⟩, ⟨3, "USDC", "1"⟩]) ∧
    ¬ ReportsOnce (sourceOf (orderOf [vaultOf [3] .inputOutput])) 48879
      (orderOf [vaultOf [3] .inputOutput]) := by
  constructor
  · exact ⟨_, rfl, rfl, rfl⟩
  · rintro ⟨response, -, -, -, honce, -⟩
    have := honce (vaultOf [3] .inputOutput) List.mem_cons_self
    exact absurd this (by decide)

theorem processCancelOrder_apart :
    ReportsOnce (sourceOf (orderOf [vaultOf [3] .input, vaultOf [4] .output])) 48879
      (orderOf [vaultOf [3] .input, vaultOf [4] .output]) := by
  have hl : ListsVaults (orderOf [vaultOf [3] .input, vaultOf [4] .output]) fun _ => true :=
    ⟨by decide, by decide, by decide, by decide⟩
  refine (processCancelOrder_reportsOnce_iff rfl rfl hl fun v _ => ⟨_, rfl⟩).2 ⟨?_, by decide⟩
  intro v hv ht
  rcases List.mem_cons.1 hv with rfl | hv
  · cases ht
  · obtain rfl := List.mem_singleton.1 hv
    cases ht

end Example

end AlbionApi
