import AlbionApi.Api.Error
import AlbionApi.Raindex.Orders

/-! # Input and output vaults

The first vault of an order that it takes from and the first that it pays from.
A vault of both kinds counts as either.
-/

namespace AlbionApi

variable {F : Type}

/-- One round of the loop over the vaults. -/
def takeVault (io : Option (RaindexVault F) × Option (RaindexVault F)) (v : RaindexVault F) :
    Option (RaindexVault F) × Option (RaindexVault F) :=
  match v.vaultType with
  | some .input => (io.1.or (some v), io.2)
  | some .output => (io.1, io.2.or (some v))
  | some .inputOutput => (io.1.or (some v), io.2.or (some v))
  | none => io

/-- The loop over the vaults, which stops once it has both. -/
def findIoVaults (io : Option (RaindexVault F) × Option (RaindexVault F)) :
    List (RaindexVault F) → Option (RaindexVault F) × Option (RaindexVault F)
  | [] => io
  | v :: vaults =>
    let io := takeVault io v
    if io.1.isSome ∧ io.2.isSome then io else findIoVaults io vaults

def resolveIoVaults (order : OrderWithVaults F) :
    Except ApiError (RaindexVault F × RaindexVault F) :=
  match findIoVaults (none, none) order.vaultsList with
  | (none, _) => .error (.internal "order has no input vaults")
  | (some _, none) => .error (.internal "order has no output vaults")
  | (some input, some output) => .ok (input, output)

def RaindexVault.IsInput (v : RaindexVault F) : Prop :=
  v.vaultType = some .input ∨ v.vaultType = some .inputOutput

def RaindexVault.IsOutput (v : RaindexVault F) : Prop :=
  v.vaultType = some .output ∨ v.vaultType = some .inputOutput

instance (v : RaindexVault F) : Decidable v.IsInput := inferInstanceAs (Decidable (_ ∨ _))

instance (v : RaindexVault F) : Decidable v.IsOutput := inferInstanceAs (Decidable (_ ∨ _))

theorem takeVault_eq (io : Option (RaindexVault F) × Option (RaindexVault F))
    (v : RaindexVault F) : takeVault io v =
      (io.1.or (if v.IsInput then some v else none),
        io.2.or (if v.IsOutput then some v else none)) := by
  cases h : v.vaultType with
  | none => simp [takeVault, RaindexVault.IsInput, RaindexVault.IsOutput, h]
  | some t => cases t <;> simp [takeVault, RaindexVault.IsInput, RaindexVault.IsOutput, h]

theorem findIoVaults_eq (io : Option (RaindexVault F) × Option (RaindexVault F))
    (vaults : List (RaindexVault F)) : findIoVaults io vaults =
      (io.1.or (vaults.find? fun v => v.IsInput), io.2.or (vaults.find? fun v => v.IsOutput)) := by
  induction vaults generalizing io with
  | nil => simp [findIoVaults]
  | cons v vaults ih =>
    have hin : (v :: vaults).find? (fun v => v.IsInput) =
        (if v.IsInput then some v else none).or (vaults.find? fun v => v.IsInput) := by
      by_cases h : v.IsInput <;> simp [h]
    have hout : (v :: vaults).find? (fun v => v.IsOutput) =
        (if v.IsOutput then some v else none).or (vaults.find? fun v => v.IsOutput) := by
      by_cases h : v.IsOutput <;> simp [h]
    rw [findIoVaults, hin, hout, ← Option.or_assoc, ← Option.or_assoc]
    have ht := takeVault_eq io v
    generalize takeVault io v = io' at ht ⊢
    obtain ⟨input, output⟩ := io'
    rw [Prod.mk.injEq] at ht
    rw [← ht.1, ← ht.2]
    by_cases hboth : input.isSome ∧ output.isSome
    · rw [if_pos hboth]
      obtain ⟨input, rfl⟩ := Option.isSome_iff_exists.1 hboth.1
      obtain ⟨output, rfl⟩ := Option.isSome_iff_exists.1 hboth.2
      rfl
    · rw [if_neg hboth]
      exact ih (input, output)

theorem resolveIoVaults_isOk {order : OrderWithVaults F}
    (hin : ∃ v ∈ order.vaultsList, v.IsInput) (hout : ∃ v ∈ order.vaultsList, v.IsOutput) :
    ∃ input output, resolveIoVaults order = .ok (input, output) := by
  obtain ⟨v, hv, hi⟩ := hin
  obtain ⟨w, hw, ho⟩ := hout
  have hv' : (order.vaultsList.find? fun v => v.IsInput).isSome := by
    rw [List.find?_isSome]
    exact ⟨v, hv, decide_eq_true hi⟩
  have hw' : (order.vaultsList.find? fun v => v.IsOutput).isSome := by
    rw [List.find?_isSome]
    exact ⟨w, hw, decide_eq_true ho⟩
  obtain ⟨input, hinput⟩ := Option.isSome_iff_exists.1 hv'
  obtain ⟨output, houtput⟩ := Option.isSome_iff_exists.1 hw'
  refine ⟨input, output, ?_⟩
  simp only [resolveIoVaults, findIoVaults_eq, hinput, houtput, Option.none_or]

end AlbionApi
