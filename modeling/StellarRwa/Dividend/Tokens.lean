import StellarRwa.Dividend.Model

/-!
# Payment tokens

`ExactTokens` and `LiveTokens` state what the results about money assume of the payment tokens; `Ledgers` is a world of
plain ledgers that satisfies them (`Ledgers.exact`, `Ledgers.live`).
-/

namespace StellarRwa.Dividend

open Lib

section Assumptions

variable {Address X A : Type} [DecidableEq Address] {w : World Address X A} {this : Address} {x x' : X}

/-- What is assumed of the payment tokens, with `balance x token a` the balance of `a`: a transfer moves exactly the
amount or fails, balances of the contract at `this` are never negative, and nobody lowers them without its
authorization. -/
structure ExactTokens (w : World Address X A) (this : Address) (balance : X → Address → Address → Int) : Prop where
  moves : ∀ {x x' : X} {token from_ to_ : Address} {amount : I128}, w.transfer x token from_ to_ amount = some x' →
    ∀ p a, balance x' p a = balance x p a - (if p = token ∧ a = from_ then amount.val else 0)
      + (if p = token ∧ a = to_ then amount.val else 0)
  nonneg : ∀ x p, 0 ≤ balance x p this
  keeps : ∀ {a : A} {x x' : X}, w.act a x = some x' → ∀ p, balance x p this ≤ balance x' p this

/-- In addition, a transfer from the contract at `this` succeeds when it has the balance. -/
structure LiveTokens (w : World Address X A) (this : Address) (balance : X → Address → Address → Int) : Prop
    extends ExactTokens w this balance where
  pays : ∀ {x : X} {token : Address} {amount : I128} (to_ : Address), 0 ≤ amount.val →
    amount.val ≤ balance x token this → ∃ x', w.transfer x token this to_ amount = some x'

namespace ExactTokens

variable {balance : X → Address → Address → Int} {token a : Address} {amount : I128}

/-- Paying out lowers the balance of the contract by the amount. -/
theorem sent (hw : ExactTokens w this balance) (h : w.transfer x token this a amount = some x') (ha : a ≠ this)
    (p : Address) : balance x' p this = balance x p this - if p = token then amount.val else 0 := by
  rw [hw.moves h]
  simp [Ne.symm ha]

/-- Being paid raises it. -/
theorem got (hw : ExactTokens w this balance) (h : w.transfer x token a this amount = some x') (ha : a ≠ this)
    (p : Address) : balance x' p this = balance x p this + if p = token then amount.val else 0 := by
  rw [hw.moves h]
  simp [Ne.symm ha]

end ExactTokens

end Assumptions

/-! ## Plain ledgers -/

/-- Balances by token and account. -/
abbrev Ledgers (Address : Type) := Storage (Address × Address) ℕ

namespace Ledgers

variable {Address : Type} [DecidableEq Address]

def balance (x : Ledgers Address) (token a : Address) : Int := ((x.get (token, a)).getD 0 : ℕ)

/-- Move `amount`, if `from_` has it. -/
def transfer (x : Ledgers Address) (token from_ to_ : Address) (amount : I128) : Option (Ledgers Address) :=
  if 0 ≤ amount.val ∧ amount.val ≤ balance x token from_ then
    let x := x.set (token, from_) (balance x token from_ - amount.val).toNat
    some (x.set (token, to_) (balance x token to_ + amount.val).toNat)
  else none

/-- A world of plain ledgers, where others mint. Every asset token has the same supply and admin. -/
def world (supply : I128) (admin : Address) : World Address (Ledgers Address) (Address × Address × ℕ) where
  totalSupply _ _ := some supply
  assetAdmin _ _ := some admin
  transfer := transfer
  act m x := some (x.set (m.1, m.2.1) (balance x m.1 m.2.1 + m.2.2).toNat)

theorem balance_nonneg (x : Ledgers Address) (token a : Address) : 0 ≤ balance x token a := Int.natCast_nonneg _

theorem balance_set (x : Ledgers Address) (token a p b : Address) {n : Int} (hn : 0 ≤ n) :
    balance (x.set (token, a) n.toNat) p b = if p = token ∧ b = a then n else balance x p b := by
  unfold balance
  rw [Storage.get_set]
  split
  · rename_i h
    rw [if_pos (by simpa using h), Option.getD_some, Int.toNat_of_nonneg hn]
  · rename_i h
    rw [if_neg (by simpa using h)]

/-- Plain ledgers are exact. -/
theorem exact (supply : I128) (admin this : Address) : ExactTokens (world supply admin) this balance where
  moves := by
    intro x x' token from_ to_ amount h p a
    change transfer x token from_ to_ amount = some x' at h
    unfold transfer at h
    split at h
    · rename_i hamount
      obtain ⟨hnonneg, hle⟩ := hamount
      cases h
      have hto := balance_nonneg (x.set (token, from_) (balance x token from_ - amount.val).toNat) token to_
      rw [balance_set _ _ _ _ _ (by omega), balance_set _ _ _ _ _ (by omega), balance_set _ _ _ _ _ (by omega)]
      by_cases hp : p = token
      · subst hp
        by_cases hf : a = from_ <;> by_cases ht : a = to_ <;> simp_all
      · simp [hp]
    · cases h
  nonneg x p := balance_nonneg x p this
  keeps := by
    rintro ⟨token, b, n⟩ x x' h p
    obtain rfl : x.set (token, b) (balance x token b + n).toNat = x' := Option.some.inj h
    have hb := balance_nonneg x token b
    rw [balance_set _ _ _ _ _ (by omega)]
    split
    · rename_i he
      obtain ⟨rfl, rfl⟩ := he
      omega
    · exact le_refl _

/-- Plain ledgers are live. -/
theorem live (supply : I128) (admin this : Address) : LiveTokens (world supply admin) this balance where
  toExactTokens := exact supply admin this
  pays _ h₁ h₂ := ⟨_, if_pos ⟨h₁, h₂⟩⟩

end Ledgers

end StellarRwa.Dividend
