import StellarRwa.Lockup

/-!
# Transfers in the name of another

`transfer_from` is `transfer` by the owner and a debit of the allowance: it goes through exactly when the transfer would
and the allowance of that ledger covers the amount (`transferFrom_iff_transfer`). It debits first and reads the
recipient's balance afterwards, so a transfer to the owner itself writes back the balance it found.
-/

namespace StellarRwa.Token

open Lib

variable {Address X : Type} {client : ComplianceClient Address X} {env env' : Env Address}

/-- The answers depend on the ledger alone: `is_allowed` asks for no signature. -/
def Unsigned (client : ComplianceClient Address X) : Prop :=
  ∀ env env' : Env Address, env.sequence = env'.sequence → client env = client env'

variable [DecidableEq Address]

/-- The compliance contract of the repository asks for no signature. -/
theorem isAllowedAt_unsigned : Unsigned (isAllowedAt : ComplianceClient Address (Fleet Address)) := by
  rintro ⟨sequence, authorized⟩ ⟨sequence', authorized'⟩ rfl
  rfl

/-! ## The two readings of an allowance -/

section Allowances

variable {s : State Address} {from_ spender : Address} {n : Int}

/-- The view covers an amount when the record that `transfer_from` reads does. -/
theorem le_allowance_iff (hn : 0 < n) :
    n ≤ (allowance env s from_ spender).val ↔
      env.sequence.val ≤ (currentAllowance s from_ spender).expirationLedger.val ∧
        n ≤ (currentAllowance s from_ spender).amount.val := by
  unfold allowance currentAllowance
  cases s.allowance.get (from_, spender) with
  | none =>
    simp only [Option.getD_none, MInt.val_zero]
    omega
  | some v =>
    simp only [Option.getD_some, MInt.le_def]
    split
    · rename_i hlive
      exact (and_iff_right hlive).symm
    · rename_i hlapsed
      refine iff_of_false ?_ fun h => hlapsed h.1
      rw [MInt.val_zero]
      omega

/-- An allowance that covers something is stored. -/
theorem get_allowance (hn : 0 < n) (hle : n ≤ (currentAllowance s from_ spender).amount.val) :
    s.allowance.get (from_, spender) = some (currentAllowance s from_ spender) := by
  unfold currentAllowance at hle ⊢
  cases hget : s.allowance.get (from_, spender) with
  | none =>
    rw [hget, Option.getD_none, MInt.val_zero] at hle
    omega
  | some v => rfl

end Allowances

/-! ## The two moves of balances -/

section Moves

variable {s : State Address} {from_ to_ : Address} {amount newFromBal newToBal : I128}

/-- Debit and credit of the owner write back what was there. -/
theorem moved_self (hamount : 0 < amount.val) (hfunds : amount.val ≤ (balance s from_).val)
    (hfrom : newFromBal.val = (balance s from_).val - amount.val)
    (hto : newToBal.val = (Book.balance (s.balance.set from_ newFromBal) from_).val + amount.val) :
    s.moved from_ newFromBal from_ newToBal = s := by
  rw [Book.balance_set_self] at hto
  have hback : newToBal.val = (Book.balance s.balance from_).val := by
    rw [← balance]
    omega
  have hpos : 0 < newToBal.val := by
    rw [← balance] at hback
    omega
  unfold State.moved
  rw [Storage.set_set_self, Book.set_balance hback hpos]

/-- What is left of a balance or an allowance fits. -/
theorem exists_rest {a : I128} (hamount : 0 < amount.val) (hle : amount.val ≤ a.val) :
    ∃ rest : I128, rest.val = a.val - amount.val := by
  have := a.le_hi
  exact MInt.exists_val (by omega) (by omega)

end Moves

section Refinement

variable {h h₁ h₂ : Contract Address X} {spender from_ to_ : Address} {amount : I128}

/-- A transfer leaves the allowances alone. -/
theorem transfer_allowance (hrun : transfer client env from_ to_ amount h = .ok ((), h₂)) :
    h₂.storage.allowance = h.storage.allowance := by
  obtain ⟨-, -, md, -, -, x, -, hsend⟩ := transfer_ok.1 hrun
  obtain ⟨y, -, -, ⟨-, hr⟩ | ⟨-, newFromBal, newToBal, -, -, hr⟩⟩ := sendTo_ok.1 hsend
  · cases hr
    rfl
  · cases hr
    rfl

/-- A transfer in the name of the owner is a transfer by the owner and a debit of the allowance. -/
theorem transfer_of_transferFrom (hview : Unsigned client) (hledger : env.sequence = env'.sequence)
    (howner : env'.authorized from_ = true) (hrun : transferFrom client env spender from_ to_ amount h = .ok ((), h₁)) :
    amount.val ≤ (allowance env h.storage from_ spender).val ∧
      ∃ left v, h.storage.allowance.get (from_, spender) = some v ∧ left.val = v.amount.val - amount.val ∧
      ∃ h₂, transfer client env' from_ to_ amount h = .ok ((), h₂) ∧ h₁.outside = h₂.outside ∧
        h₁.storage = { h₂.storage with
          allowance := h.storage.allowance.set (from_, spender) ⟨left, v.expirationLedger⟩ } := by
  obtain ⟨-, hamount, md, hmd, hpaused, x, hx, y, hy, hcovered, hfunds, newFromBal, newToBal, left, hfrom, hto, hleft,
    hr⟩ := transferFrom_ok.1 hrun
  cases hr
  rw [hview env env' hledger] at hx hy
  refine ⟨(le_allowance_iff hamount).2 hcovered, left, _, get_allowance hamount hcovered.2, hleft, ?_⟩
  by_cases hself : from_ = to_
  · subst hself
    refine ⟨_, transfer_ok.2 ⟨howner, hamount, md, hmd, hpaused, x, hx,
      sendTo_ok.2 ⟨y, hy, hfunds, .inl ⟨rfl, rfl⟩⟩⟩, rfl, ?_⟩
    dsimp only
    rw [moved_self hamount hfunds hfrom hto]
  · rw [Book.balance_set_of_ne _ _ (Ne.symm hself)] at hto
    exact ⟨_, transfer_ok.2 ⟨howner, hamount, md, hmd, hpaused, x, hx,
      sendTo_ok.2 ⟨y, hy, hfunds, .inr ⟨hself, newFromBal, newToBal, hfrom, hto, rfl⟩⟩⟩, rfl, rfl⟩

/-- A transfer that the owner could make and the allowance covers goes through in the name of the owner. -/
theorem transferFrom_of_transfer (hview : Unsigned client) (hledger : env.sequence = env'.sequence)
    (hspender : env.authorized spender = true) (hrun : transfer client env' from_ to_ amount h = .ok ((), h₂))
    (hcovered : amount.val ≤ (allowance env h.storage from_ spender).val) :
    ∃ h₁, transferFrom client env spender from_ to_ amount h = .ok ((), h₁) := by
  obtain ⟨-, hamount, md, hmd, hpaused, x, hx, hsend⟩ := transfer_ok.1 hrun
  obtain ⟨y, hy, hfunds, hmove⟩ := sendTo_ok.1 hsend
  rw [← hview env env' hledger] at hx hy
  rw [le_allowance_iff hamount] at hcovered
  change amount.val ≤ (balance h.storage from_).val at hfunds
  obtain ⟨newFromBal, hfrom⟩ := exists_rest hamount hfunds
  obtain ⟨left, hleft⟩ := exists_rest hamount hcovered.2
  have hcredit : ∃ newToBal : I128,
      newToBal.val = (Book.balance (h.storage.balance.set from_ newFromBal) to_).val + amount.val := by
    rcases hmove with ⟨rfl, -⟩ | ⟨hself, -, newToBal, -, hto, -⟩
    · rw [Book.balance_set_self]
      exact ⟨balance h.storage from_, by omega⟩
    · rw [Book.balance_set_of_ne _ _ (Ne.symm hself)]
      exact ⟨newToBal, hto⟩
  obtain ⟨newToBal, hto⟩ := hcredit
  exact ⟨_, transferFrom_ok.2 ⟨hspender, hamount, md, hmd, hpaused, x, hx, y, hy, hcovered, hfunds, newFromBal,
    newToBal, left, hfrom, hto, hleft, rfl⟩⟩

/-- **`transfer_from` is `transfer` plus an allowance.** At one ledger and in one state, signed by the spender it
returns exactly when `transfer` signed by the owner returns and the allowance covers the amount; then the balances and
the metadata are the same as after that transfer, which leaves the allowances alone, and the stored allowance has
dropped by the amount, with its expiration kept, and no other has changed. -/
theorem transferFrom_iff_transfer (hview : Unsigned client) (env env' : Env Address)
    (hledger : env.sequence = env'.sequence) (hspender : env.authorized spender = true)
    (howner : env'.authorized from_ = true) (h : Contract Address X) (to_ : Address) (amount : I128) :
    ((∃ h₁, transferFrom client env spender from_ to_ amount h = .ok ((), h₁)) ↔
        (∃ h₂, transfer client env' from_ to_ amount h = .ok ((), h₂)) ∧
          amount ≤ allowance env h.storage from_ spender) ∧
      ∀ h₁ h₂, transferFrom client env spender from_ to_ amount h = .ok ((), h₁) →
        transfer client env' from_ to_ amount h = .ok ((), h₂) →
        h₁.storage.balance = h₂.storage.balance ∧ h₁.storage.metadata = h₂.storage.metadata ∧
          h₁.outside = h₂.outside ∧ h₂.storage.allowance = h.storage.allowance ∧
          ∃ v left, h.storage.allowance.get (from_, spender) = some v ∧ left.val = v.amount.val - amount.val ∧
            h₁.storage.allowance = h.storage.allowance.set (from_, spender) ⟨left, v.expirationLedger⟩ := by
  refine ⟨⟨?_, ?_⟩, ?_⟩
  · rintro ⟨h₁, hrun⟩
    obtain ⟨hcovered, -, -, -, -, h₂, htransfer, -⟩ := transfer_of_transferFrom hview hledger howner hrun
    exact ⟨⟨h₂, htransfer⟩, hcovered⟩
  · rintro ⟨⟨h₂, htransfer⟩, hcovered⟩
    exact transferFrom_of_transfer hview hledger hspender htransfer hcovered
  · intro h₁ h₂ hrun htransfer
    obtain ⟨-, left, v, hv, hleft, h₂', htransfer', hout, hstorage⟩ :=
      transfer_of_transferFrom hview hledger howner hrun
    obtain rfl : h₂ = h₂' := by
      rw [htransfer] at htransfer'
      cases htransfer'
      rfl
    rw [hstorage]
    exact ⟨rfl, rfl, hout, transfer_allowance htransfer, v, left, hv, hleft, rfl⟩

end Refinement

/-- `mintedRun`, and then 1 lets 2 spend 50 until ledger 30. -/
def approvedRun : List (Network.Label ℕ) := mintedRun ++ [.token (Env.signed 10) (.approve 1 2 50 30)]

/-- Ledger 20, and `a` alone has signed. -/
def signedBy (a : ℕ) : Env ℕ := ⟨20, fun b => b == a⟩

/-- Signed by 2, 30 go from 1 to 0, as in a transfer signed by 1. -/
theorem transferFrom_iff_transfer_approved :
    ∃ h₁ h₂, transferFrom isAllowedAt (signedBy 2) 2 1 0 30 (lockupWorld approvedRun) = .ok ((), h₁) ∧
      transfer isAllowedAt (signedBy 1) 1 0 30 (lockupWorld approvedRun) = .ok ((), h₂) ∧
      h₁.storage.balance = h₂.storage.balance ∧ h₁.storage.metadata = h₂.storage.metadata := by
  obtain ⟨hiff, hsame⟩ := transferFrom_iff_transfer isAllowedAt_unsigned (signedBy 2) (signedBy 1) rfl
    (rfl : (signedBy 2).authorized 2 = true) (rfl : (signedBy 1).authorized 1 = true) (lockupWorld approvedRun) 0 30
  have hreturns : (transferFrom isAllowedAt (signedBy 2) 2 1 0 30 (lockupWorld approvedRun)).map Prod.fst
      = .ok () := by decide +kernel
  obtain ⟨h₁, hrun⟩ := Call.exists_of_map_fst hreturns
  obtain ⟨⟨h₂, htransfer⟩, -⟩ := hiff.1 ⟨h₁, hrun⟩
  obtain ⟨hbalance, hmetadata, -⟩ := hsame h₁ h₂ hrun htransfer
  exact ⟨h₁, h₂, hrun, htransfer, hbalance, hmetadata⟩

end StellarRwa.Token
