import StellarRwa.Deployment.Gate
import StellarRwa.Token.Exposure

/-!
# Custody

In a deployment nobody else disposes of an account's tokens: while the account signs nothing, whatever the others call
and whatever the contracts call of each other, its balance in a token goes down by no more than its spenders there use
up of what it had approved before (`self_custody`). The argument is a potential: balance less exposure never falls
(`step_exposure`).
-/

namespace StellarRwa.Deployment

open Lib

variable {Address : Type} [DecidableEq Address] {this : Address}

/-- What the spenders of `a` in the token at `p` can move at the ledger `t` or later. -/
def Chain.exposure (c : Chain Address) (p a : Address) (t : U32) : Int :=
  ((c.tokens.get p).map fun k => Token.exposure k.storage a t).getD 0

/-- No allowance in any token is negative. -/
def Chain.Granted (c : Chain Address) : Prop := ∀ p k, c.tokens.get p = some k → Token.Granted k.storage

section Chains

variable {c c' : Chain Address} {p q a : Address} {w : World Address} {signed : Address → Bool} {t : U32}

theorem exposure_of_token (hw : c.token p = some w) : c.exposure p a t = Token.exposure w.storage a t := by
  obtain ⟨k, hk, rfl⟩ := Chain.token_eq_some.1 hw
  simp [Chain.exposure, hk, Host.among]

theorem exposure_put (c : Chain Address) (w : World Address) :
    (c.put p w).exposure q a t = if q = p then Token.exposure w.storage a t else c.exposure q a t := by
  unfold Chain.exposure Chain.put
  rw [Storage.get_set]
  split <;> rfl

theorem Chain.Granted.exposure_nonneg (hg : c.Granted) : 0 ≤ c.exposure p a t := by
  unfold Chain.exposure
  cases hk : c.tokens.get p with
  | none => exact le_rfl
  | some k => exact (hg p k hk).exposure_nonneg

theorem Chain.Granted.moves (hg : c.Granted) (hm : Moves this c c') : c'.Granted := by
  cases hm with
  | kept => exact hg
  | advanced _ => exact hg
  | ruled _ _ _ => exact hg
  | called _ hw hrun =>
    intro q k hk
    rw [Chain.put, Storage.get_set] at hk
    split at hk
    · cases hk
      obtain ⟨kt, hkt, rfl⟩ := Chain.token_eq_some.1 hw
      have hstep : (Token.token isAllowedAt).step _ (.call _ _) = some ((), _) := Call.returned_eq_some.2 hrun
      have hbefore : Token.Granted (kt.among c.compliance).storage := hg _ kt hkt
      exact hbefore.step hstep
    · exact hg q k hk

/-- A call of a token that `a` does not sign. -/
theorem callToken_exposure {op : Token.Op Address} (hcall : c.callToken q signed op = some c') (ht : t ≤ c.now)
    (hsigned : signed a = false) :
    c.balance p a - c.exposure p a t ≤ c'.balance p a - c'.exposure p a t := by
  obtain ⟨w, w', hw, hrun, rfl⟩ := Chain.callToken_eq_some.1 hcall
  rw [Chain.balance_put, exposure_put]
  by_cases hp : p = q
  · subst hp
    rw [if_pos rfl, if_pos rfl, Chain.balance_of_token hw, exposure_of_token hw]
    exact Token.call_exposure hsigned ht hrun
  · rw [if_neg hp, if_neg hp]

end Chains

section Runs

variable {d d' : State this} {l : Label Address} {u : Unit} {p a : Address} {t : U32}

/-- What the spenders of `a` in the token at `p` can move at the ledger `t` or later. -/
abbrev State.exposure (d : State this) (p a : Address) (t : U32) : Int := d.ledger.val.exposure p a t

/-- **One call** that `a` does not sign. -/
theorem step_exposure (hstep : (deployment this).step d l = some (u, d')) (hne : a ≠ this)
    (hsigned : l.signed a = false) (ht : t ≤ d.now) :
    d.ledger.balance p a - d.exposure p a t ≤ d'.ledger.balance p a - d'.exposure p a t := by
  show d.ledger.val.balance p a - d.ledger.val.exposure p a t ≤ d'.ledger.val.balance p a - d'.ledger.val.exposure p a t
  have htouches := step_touches hstep
  generalize d'.ledger.val = c' at htouches ⊢
  cases htouches with
  | kept => exact le_rfl
  | advanced _ => exact le_rfl
  | called _ hcall => exact callToken_exposure hcall ht hsigned
  | ruled _ hcall =>
    obtain ⟨h, r, h', -, -, rfl⟩ := Chain.callCompliance_eq_some.1 hcall
    exact le_rfl
  | @paid signed _ _ from_ _ _ _ _ hpayer htransfer =>
    have hunpaid : a ≠ from_ := by
      rintro rfl
      rcases hpayer with hself | hpaid
      · exact hne hself
      · cases hsigned.symm.trans hpaid
    exact callToken_exposure htransfer ht (by simpa using hunpaid)

theorem run_granted (this : Address) (now : U32) (tokenAddresses compliance : List Address)
    (ls : List (Label Address)) :
    ((deployment this).run (State.fresh this now tokenAddresses compliance) ls).ledger.val.Granted := by
  refine System.invariant (I := fun d : State this => d.ledger.val.Granted) ?_
    (fun d l u d' hg hstep => hg.moves (step_moves hstep)) ls
  intro p k hk
  simp only [State.fresh, Chain.fresh, Storage.get_ofKeys, Option.ite_none_right_eq_some, Option.some.injEq] at hk
  rw [← hk.2]
  rintro pair v hv
  cases hv.symm.trans (Storage.get_empty pair)

/-- **Custody.** In every run of a deployment, from any moment on: as long as no answered call is signed by the account
`a`, what `a` loses in a token is no more than what its spenders there have used up of the approvals that were unexpired
at that moment; so without such approvals it loses nothing. The exposure is never negative, and no spender alone can
move more than it. -/
theorem self_custody (this : Address) (now : U32) (tokenAddresses compliance : List Address)
    (ls ls' : List (Label Address)) :
    let d := (deployment this).run (State.fresh this now tokenAddresses compliance) ls
    let d' := (deployment this).run d ls'
    ∀ a, a ≠ this → (∀ r ∈ (deployment this).trace d ls', r.label.signed a = false) → ∀ p,
      d.ledger.balance p a - d'.ledger.balance p a ≤ d.exposure p a d.now - d'.exposure p a d.now ∧
        0 ≤ d'.exposure p a d.now ∧
        ∀ w env g, d.token p = some w → env.sequence = d.now →
          (Token.allowance env w.storage a g).val ≤ d.exposure p a d.now := by
  intro d d' a hne hsigned p
  have hg : d.ledger.val.Granted := run_granted this now tokenAddresses compliance ls
  have hrun := System.run_rule_on (M := deployment this) (G := fun r => r.label.signed a = false)
    (P := fun _ d' => d.now.val ≤ d'.now.val ∧ d'.ledger.val.Granted ∧
      d.ledger.balance p a - d.exposure p a d.now ≤ d'.ledger.balance p a - d'.exposure p a d.now)
    ⟨le_rfl, hg, le_rfl⟩ ?_ ls' hsigned
  · obtain ⟨-, hg', hkept⟩ := hrun
    have hkept' : d.ledger.balance p a - d.exposure p a d.now ≤ d'.ledger.balance p a - d'.exposure p a d.now := hkept
    refine ⟨by omega, hg'.exposure_nonneg, fun w env g hw henv => ?_⟩
    obtain ⟨k, hk, rfl⟩ := Chain.token_eq_some.1 hw
    rw [← henv, State.exposure, exposure_of_token hw]
    exact (hg p k hk).allowance_le g
  · rintro tr d₁ l u d₂ hunsigned ⟨hle, hg₁, hkept⟩ hstep
    refine ⟨le_trans hle (MInt.le_def.1 (now_le hstep)), hg₁.moves (step_moves hstep), ?_⟩
    exact le_trans hkept (step_exposure hstep hne hunsigned (MInt.le_def.2 hle))

/-- The holder 2 of `payRun` approves 3 to spend 40 of its tokens until the ledger 100. -/
def approvedRun : List (Label ℕ) := payRun ++ [.act (.token 20 accounts (.approve 2 3 40 100))]

/-- Then 3 moves 25 of them to 1, and by that much the exposure of 2 goes down. -/
theorem self_custody_spent :
    let d := (deployment 9).run (State.fresh 9 5 [20] [30]) approvedRun
    let d' := (deployment 9).run d [.act (.token 20 (fun a => a = 3) (.transferFrom 3 2 1 25))]
    d.ledger.balance 20 2 - d'.ledger.balance 20 2 = 25 ∧ 25 ≤ d.exposure 20 2 d.now - d'.exposure 20 2 d.now := by
  intro d d'
  have hbalances : d.ledger.balance 20 2 = 100 ∧ d'.ledger.balance 20 2 = 75 := by decide +kernel
  have hunsigned : ∀ l ∈ [Label.act (.token 20 (fun a => a = 3) (.transferFrom 3 2 1 25))], l.signed 2 = false := by
    simp [Label.signed]
  have hloss := (self_custody 9 5 [20] [30] approvedRun
    [.act (.token 20 (fun a => a = 3) (.transferFrom 3 2 1 25))] 2 (by decide)
    (fun r hr => hunsigned _ (System.label_mem hr)) 20).1
  have hlost : d.ledger.balance 20 2 - d'.ledger.balance 20 2 = 25 := by
    rw [hbalances.1, hbalances.2]
    rfl
  exact ⟨hlost, hlost ▸ hloss⟩

end Runs

end StellarRwa.Deployment
