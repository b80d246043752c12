import StellarRwa.Token.Allowance
import StellarRwa.Token.Gated

/-!
# What an owner is exposed to

An owner who has signed approvals is exposed to their spenders by what the unexpired ones still let them move, taken
together (`exposure`). A call that the owner does not sign takes no more from the balance than it takes from the
exposure (`call_exposure`): there is no other way to somebody's tokens.
-/

namespace StellarRwa.Token

open Lib

variable {Address X : Type} [DecidableEq Address] {client : ComplianceClient Address X} {env : Env Address}
  {h h' : Contract Address X} {u : Unit} {a : Address} {t : U32}

/-- What the entry lets its spender move of the tokens of `a`, at the ledger `t` or later. -/
def exposedBy (a : Address) (t : U32) (pair : Address × Address) (v : AllowanceValue) : Int :=
  if pair.1 = a ∧ t ≤ v.expirationLedger then v.amount.val else 0

/-- What all spenders together can move of the tokens of `a` at the ledger `t` or later. -/
def exposure (s : State Address) (a : Address) (t : U32) : Int := s.allowance.sum (exposedBy a t)

/-- No allowance is negative. -/
def Granted (s : State Address) : Prop := ∀ pair v, s.allowance.get pair = some v → 0 ≤ v.amount.val

theorem Granted.step {l : Label Address X} (hg : Granted h.storage) (hstep : (token client).step h l = some (u, h')) :
    Granted h'.storage := by
  rintro ⟨o, s⟩ v hv
  have hs := step_allowance o s hstep
  rw [hv] at hs
  generalize hv₀ : h.storage.allowance.get (o, s) = v₀ at hs
  cases hs with
  | kept _ _ => exact hg _ _ hv₀
  | approved _ _ hnonneg => exact hnonneg
  | @spent w sequence amount left _ _ _ _ _ hle hleft =>
    have hrest : 0 ≤ left.val := by omega
    exact hrest

theorem exposedBy_nonneg {s : State Address} (hg : Granted s) {pair : Address × Address} {v : AllowanceValue}
    (hv : s.allowance.get pair = some v) : 0 ≤ exposedBy a t pair v := by
  unfold exposedBy
  split
  · exact hg pair v hv
  · exact le_rfl

theorem Granted.exposure_nonneg {s : State Address} (hg : Granted s) : 0 ≤ exposure s a t :=
  Storage.sum_nonneg fun _ _ hv => exposedBy_nonneg hg hv

/-- Each spender alone can move no more than all together. -/
theorem Granted.allowance_le {s : State Address} (hg : Granted s) (g : Address) :
    (allowance env s a g).val ≤ exposure s a env.sequence := by
  unfold allowance
  cases hget : s.allowance.get (a, g) with
  | none => exact hg.exposure_nonneg
  | some v =>
    have hle := Storage.le_sum (f := exposedBy a env.sequence) (fun _ _ hv => exposedBy_nonneg hg hv) hget
    simp only [exposedBy, true_and] at hle
    show (if env.sequence ≤ v.expirationLedger then v.amount else 0).val ≤ _
    split
    · rename_i hlive
      rwa [if_pos hlive] at hle
    · exact hg.exposure_nonneg

/-! ## One call -/

/-- An allowance of another owner does not count. -/
theorem sum_set_other {s : State Address} {o g : Address} (hne : o ≠ a) (v : AllowanceValue) :
    (s.allowance.set (o, g) v).sum (exposedBy a t) = exposure s a t := by
  have hzero : ∀ w, exposedBy a t (o, g) w = 0 := fun w => if_neg fun hboth => hne hboth.1
  have hset := Storage.sum_set s.allowance (exposedBy a t) (o, g) v
  have hold : (s.allowance.get (o, g)).elim 0 (exposedBy a t (o, g)) = 0 := by
    cases s.allowance.get (o, g) with
    | none => rfl
    | some w => exact hzero w
  rw [hold, hzero] at hset
  rw [exposure]
  omega

theorem approve_exposure {from_ spender : Address} {amount : I128} {expirationLedger : U32}
    (hsigned : env.authorized a = false)
    (hrun : (approve env from_ spender amount expirationLedger : M Address X Unit) h = .ok (u, h')) :
    (balance h'.storage a).val = (balance h.storage a).val ∧ exposure h'.storage a t = exposure h.storage a t := by
  obtain ⟨hfrom, -, md, -, -, -, hr⟩ := approve_ok.1 hrun
  cases hr
  refine ⟨rfl, sum_set_other ?_ _⟩
  rintro rfl
  cases hsigned.symm.trans hfrom

/-- What a transfer in the name of `a` takes from the balance, it takes from the exposure. -/
theorem transferFrom_exposure {spender to_ : Address} {amount : I128} (ht : t ≤ env.sequence)
    (hrun : transferFrom client env spender a to_ amount h = .ok (u, h')) :
    (balance h.storage a).val - amount.val ≤ (balance h'.storage a).val ∧
      exposure h'.storage a t = exposure h.storage a t - amount.val := by
  obtain ⟨-, hamount, md, -, -, x, -, y, -, ⟨hlive, hle⟩, -, newFromBal, newToBal, left, hfrom, hto, hleft, hr⟩ :=
    transferFrom_ok.1 hrun
  cases hr
  constructor
  · show (balance h.storage a).val - amount.val ≤
      (Book.balance ((h.storage.balance.set a newFromBal).set to_ newToBal) a).val
    rw [Book.balance_set]
    split
    · rename_i heq
      rw [← heq, Book.balance_set_self] at hto
      omega
    · rw [Book.balance_set_self]
      omega
  · have hstored := currentAllowance_of_pos (s := h.storage) (lt_of_lt_of_le hamount hle)
    have hlate : t ≤ (currentAllowance h.storage a spender).expirationLedger := MInt.le_def.2 (le_trans ht hlive)
    have hset := Storage.sum_set_of_some (exposedBy a t)
      (⟨left, (currentAllowance h.storage a spender).expirationLedger⟩ : AllowanceValue) hstored
    simp only [exposedBy, true_and, if_pos hlate] at hset
    show (h.storage.allowance.set (a, spender) _).sum (exposedBy a t) = _
    rw [exposure]
    refine hset.trans ?_
    show _ - (currentAllowance h.storage a spender).amount.val + left.val = _ - amount.val
    have hbefore :
        h.storage.allowance.sum (fun pair v => if pair.1 = a ∧ t ≤ v.expirationLedger then v.amount.val else 0) =
        h.storage.allowance.sum (exposedBy a t) := rfl
    omega

/-- **What a call takes from an owner who does not sign it**, it takes from the exposure. -/
theorem call_exposure {op : Op Address} (hsigned : env.authorized a = false) (ht : t ≤ env.sequence)
    (hrun : call client env op h = .ok (u, h')) :
    (balance h.storage a).val - exposure h.storage a t ≤ (balance h'.storage a).val - exposure h'.storage a t := by
  -- unless a spender moves tokens of `a`, the balance does not go down
  have hkept : (∀ spender to_ amount, op ≠ .transferFrom spender a to_ amount) →
      (balance h.storage a).val ≤ (balance h'.storage a).val := by
    intro hother
    by_contra hless
    rcases (call_gated hrun).debited a (not_le.1 hless) with hyes | ⟨_, _, _, _, hop, -⟩
    · cases hsigned.symm.trans hyes
    · exact hother _ _ _ hop
  by_cases happrove : ∃ from_ spender amount expirationLedger, op = .approve from_ spender amount expirationLedger
  · obtain ⟨from_, spender, amount, expirationLedger, rfl⟩ := happrove
    obtain ⟨hbalance, hexposure⟩ := approve_exposure (t := t) hsigned hrun
    omega
  by_cases hspend : ∃ spender from_ to_ amount, op = .transferFrom spender from_ to_ amount
  · obtain ⟨spender, from_, to_, amount, rfl⟩ := hspend
    by_cases hown : from_ = a
    · subst hown
      obtain ⟨hbalance, hexposure⟩ := transferFrom_exposure ht hrun
      omega
    · have hrest := hkept fun _ _ _ hop => by
        cases hop
        exact hown rfl
      have hexposure : exposure h'.storage a t = exposure h.storage a t := by
        obtain ⟨-, -, md, -, -, x, -, y, -, -, -, newFromBal, newToBal, left, -, -, -, hr⟩ := transferFrom_ok.1 hrun
        cases hr
        exact sum_set_other hown _
      omega
  · push Not at happrove hspend
    have hrest := hkept fun spender to_ amount => hspend spender a to_ amount
    have hexposure : exposure h'.storage a t = exposure h.storage a t := by
      rw [exposure, exposure, call_allowance_kept happrove hspend hrun]
    omega

end StellarRwa.Token
