import StellarRwa.Deployment.Projection
import StellarRwa.Dividend.Phases

/-!
# Escrow in the tokens of the repository

With the tokens of this repository as payment tokens the escrow is held without any assumption (`escrow_held`). But
these tokens have a gate: the dividend contract and the holder it pays must both be allowed by the compliance contract
of the payment token, and the token must not be paused. That is all that stands between a holder and a share that is due
(`claim_answered_iff`); what is refused stays in escrow.
-/

namespace StellarRwa.Deployment

open Lib

variable {Address : Type} [DecidableEq Address] {this : Address}

/-! ## Transfers at the gate -/

/-- The compliance contract that the token of `w` points at allows `a` at the ledger `now`. -/
def Admits (w : World Address) (now : U32) (a : Address) : Prop :=
  ∃ md k k', w.storage.metadata = some md ∧ w.outside.get md.complianceContract = some k ∧
    Compliance.isAllowed (.signed now) a k = .ok (true, k')

/-- The token of `w` lets `from_` pay `to_` at the ledger `now`: it is initialized and not paused, and both are
allowed. -/
structure Opens (w : World Address) (now : U32) (from_ to_ : Address) : Prop where
  running : ∃ md, w.storage.metadata = some md ∧ md.paused = false
  payer : Admits w now from_
  payee : Admits w now to_

section Transfers

variable {w : World Address} {env : Env Address} {from_ to_ a p : Address} {amount : I128} {l : Ledger this}
  {x y : Fleet Address} {c : Address}

theorem isAllowedAt_true_iff : (∃ y, isAllowedAt env x c a = some (true, y)) ↔
    ∃ k k', x.get c = some k ∧ Compliance.isAllowed env a k = .ok (true, k') := by
  constructor
  · rintro ⟨y, hy⟩
    obtain ⟨k, k', hk, hrun, -⟩ := isAllowedAt_some hy
    exact ⟨k, k', hk, hrun⟩
  · rintro ⟨k, k', hk, hrun⟩
    exact ⟨x.set c k', by simp [isAllowedAt, hk, hrun]⟩

/-- **When a transfer in a token of the repository returns.** -/
theorem token_transfer_iff (hs : Token.Conserved w.storage) (hsigned : env.authorized from_ = true) :
    (∃ w', Token.transfer isAllowedAt env from_ to_ amount w = .ok ((), w')) ↔
      0 < amount.val ∧ amount.val ≤ (w.balance from_).val ∧ Opens w env.sequence from_ to_ := by
  rw [transfer_returns_iff hs]
  constructor
  · rintro ⟨-, hpos, hfunds, md, hmd, hpaused, x, y, hx, hy⟩
    obtain rfl := isAllowedAt_yes hx
    obtain ⟨k₁, k₁', hk₁, hrun₁⟩ := isAllowedAt_true_iff.1 ⟨_, hx⟩
    obtain ⟨k₂, k₂', hk₂, hrun₂⟩ := isAllowedAt_true_iff.1 ⟨_, hy⟩
    exact ⟨hpos, hfunds, ⟨md, hmd, hpaused⟩, ⟨md, k₁, k₁', hmd, hk₁, hrun₁⟩, ⟨md, k₂, k₂', hmd, hk₂, hrun₂⟩⟩
  · rintro ⟨hpos, hfunds, ⟨md, hmd, hpaused⟩, ⟨md₁, k₁, k₁', hmd₁, hk₁, hrun₁⟩, ⟨md₂, k₂, k₂', hmd₂, hk₂, hrun₂⟩⟩
    obtain rfl := Option.some.inj (hmd.symm.trans hmd₁)
    obtain rfl := Option.some.inj (hmd.symm.trans hmd₂)
    obtain ⟨x, hx⟩ := isAllowedAt_true_iff.2 ⟨k₁, k₁', hk₁, hrun₁⟩
    obtain ⟨y, hy⟩ := isAllowedAt_true_iff.2 ⟨k₂, k₂', hk₂, hrun₂⟩
    obtain rfl := isAllowedAt_yes hx
    exact ⟨hsigned, hpos, hfunds, md, hmd, hpaused, _, y, hx, hy⟩

/-- The same, as the dividend contract calls it. -/
theorem transfer_answered_iff : (∃ l', (tokens this).transfer l p from_ to_ amount = some l') ↔
    0 < amount.val ∧ amount.val ≤ l.balance p from_ ∧ ∃ w, l.val.token p = some w ∧ Opens w l.val.now from_ to_ := by
  constructor
  · rintro ⟨l', htransfer⟩
    obtain ⟨w, w', hw, hrun, -⟩ := Chain.callToken_eq_some.1 (transfer_eq_some.1 htransfer)
    obtain ⟨hpos, hfunds, hopens⟩ := (token_transfer_iff (l.property.token hw).1 (by simp)).1 ⟨w', hrun⟩
    refine ⟨hpos, ?_, w, hw, hopens⟩
    rwa [Ledger.balance, Chain.balance_of_token hw]
  · rintro ⟨hpos, hfunds, w, hw, hopens⟩
    rw [Ledger.balance, Chain.balance_of_token hw] at hfunds
    obtain ⟨w', hrun⟩ : ∃ w', Token.transfer isAllowedAt ⟨l.val.now, fun a => a = from_⟩ from_ to_ amount w =
        .ok ((), w') := (token_transfer_iff (l.property.token hw).1 (by simp)).2 ⟨hpos, hfunds, hopens⟩
    have htransfer : l.val.transfer p from_ to_ amount = some (l.val.put p w') :=
      Chain.callToken_eq_some.2 ⟨w, w', hw, hrun, rfl⟩
    exact ⟨⟨_, l.property.transfer htransfer⟩, transfer_eq_some.2 htransfer⟩

end Transfers

/-! ## Escrow -/

section Runs

variable {d d' : State this} {id : U64} {holder : Address} {amount : I128} {dist : Dividend.Distribution Address}
  {signed : Address → Bool} {u : Unit}

/-- The answered calls of the dividend contract among the tokens. -/
abbrev History (this : Address) := List (Dividend.Answered Address (Ledger this) (Chain.Act Address))

/-- The dividend contract in a state of a deployment: a history of its own, and a balance that covers what it owes. -/
def Held (d : State this) : Prop := ∃ tr : History this, Dividend.Covered Ledger.balance this tr d.dividendView

theorem run_held (this : Address) (now : U32) (tokenAddresses compliance : List Address) (ls : List (Label Address)) :
    Held ((deployment this).run (State.fresh this now tokenAddresses compliance) ls) := by
  obtain ⟨ks, hks, hseen⟩ := run_dividend_seen (State.fresh this now tokenAddresses compliance) ls
  have hunsigned := (InOrder.of_clock hks).2
  exact ⟨_, hseen ▸ Dividend.run_covered (exactTokens this) _ ks fun r hr => hunsigned _ (System.label_mem hr)⟩

/-- Further calls leave the distributions of a history as they stand. -/
theorem run_stands {tr : History this} (hl : Dividend.Lifecycle tr d.dividend.storage) (ls : List (Label Address)) :
    ∃ tr' : History this, Dividend.Lifecycle (tr ++ tr') ((deployment this).run d ls).dividend.storage := by
  obtain ⟨ks, -, hseen⟩ := run_dividend_seen d ls
  have hlater : Dividend.Lifecycle _ ((Dividend.dividend (tokens this) this).run d.dividendView ks).storage :=
    Dividend.Lifecycle.run hl ks
  rw [← hseen] at hlater
  exact ⟨_, hlater⟩

/-- **The escrow is held.** In every run of a deployment, with nothing assumed of the tokens, the balance of the
dividend contract in every payment token covers what all open distributions in that token still owe; and where something
is owed there is an initialized token, with a supply of at least that balance. -/
theorem escrow_held (this : Address) (now : U32) (tokenAddresses compliance : List Address)
    (ls : List (Label Address)) :
    let d := (deployment this).run (State.fresh this now tokenAddresses compliance) ls
    ∀ p, Dividend.owed d.dividend.storage p ≤ d.ledger.balance p this ∧
      (0 < Dividend.owed d.dividend.storage p → ∃ w md, d.token p = some w ∧ w.storage.metadata = some md ∧
        d.ledger.balance p this ≤ md.totalSupply.val) := by
  intro d p
  obtain ⟨tr, hcovered⟩ := run_held this now tokenAddresses compliance ls
  have hcovers : Dividend.owed d.dividend.storage p ≤ d.ledger.balance p this := hcovered.covered p
  refine ⟨hcovers, fun howed => ?_⟩
  have hpos : 0 < d.ledger.val.balance p this := lt_of_lt_of_le howed hcovers
  cases hk : d.ledger.val.tokens.get p with
  | none => simp [Chain.balance, hk] at hpos
  | some k =>
    have hw : d.token p = some (k.among d.ledger.val.compliance) := Chain.token_eq_some.2 ⟨k, hk, rfl⟩
    have hs := d.ledger.property.conserved p k hk
    rw [Chain.balance_of_token hw] at hpos
    cases hmd : k.storage.metadata with
    | none =>
      have hempty : k.storage.balance = ∅ := hs.fresh hmd
      simp [World.balance, Token.balance, Host.among, hempty, Book.balance] at hpos
    | some md =>
      refine ⟨_, md, hw, hmd, ?_⟩
      rw [Ledger.balance, Chain.balance_of_token hw]
      exact hs.balance_le hmd this

/-! ## Claims at the gate -/

/-- A share that is due is paid exactly when the payment token lets it through. -/
theorem Held.claim_iff (hheld : Held d) (hd : d.dividend.storage.dist.get id = some dist)
    (hopen : dist.completed = false)
    (hinTime : dist.deadline ≠ 0 → d.now.val ≤ dist.deadline.val)
    (hdue : Dividend.Due d.dividend.storage id holder amount)
    (hsigned : signed holder = true) (hself : signed this = false) :
    (∃ d', (deployment this).step d (.dividend signed (.claim id holder)) = some ((), d')) ↔
      ∃ w, d.token dist.paymentToken = some w ∧ Opens w d.now this holder := by
  obtain ⟨tr, hcovered⟩ := hheld
  have hroom := hcovered.lifecycle.room hd hopen hdue
  have hcovers := hcovered.covers hd
  rw [Dividend.remaining_of_open hopen] at hcovers
  have hfunds : amount.val ≤ d.ledger.balance dist.paymentToken this := by
    obtain ⟨t, -, hst⟩ := hcovered.lifecycle.exists_terms hd
    obtain ⟨-, ⟨hnonneg, -⟩, -⟩ := hst.phase
    have hcovers' : dist.totalAmount.val - dist.distributed.val ≤ d.ledger.balance dist.paymentToken this := hcovers
    omega
  have hview : d.dividendView.storage = d.dividend.storage := rfl
  constructor
  · rintro ⟨d', hstep⟩
    obtain ⟨-, ⟨r, hrun⟩, -⟩ := step_dividend hstep
    simp only [Dividend.call, Call.bind_ok, Call.pure_ok] at hrun
    obtain ⟨_, _, hclaim, -⟩ := hrun
    obtain ⟨-, dist', hd', -, -, amount', -, l', htransfer, -⟩ := Dividend.claim_ok.1 hclaim
    obtain rfl := Option.some.inj (hd.symm.trans hd')
    exact (transfer_answered_iff.1 ⟨l', htransfer⟩).2.2
  · intro hopens
    obtain ⟨l', htransfer⟩ := transfer_answered_iff.2 ⟨hdue.pos, hfunds, hopens⟩
    obtain ⟨distributed, hdistributed⟩ : ∃ n : I128, n.val = dist.distributed.val + amount.val := by
      have hlo := dist.distributed.lo_le
      have hhi := dist.totalAmount.le_hi
      have hpos := hdue.pos
      exact MInt.exists_val (by omega) (by omega)
    have hclaim : Dividend.claim (tokens this) this ⟨d.now, signed⟩ id holder d.dividendView = .ok ((), _) :=
      Dividend.claim_ok.2 ⟨hsigned, dist, hd, hopen, hinTime, amount, hdue, l', htransfer, distributed, hdistributed,
        by omega, rfl⟩
    have hcall : Dividend.call (tokens this) this ⟨d.now, signed⟩ (.claim id holder) d.dividendView = .ok (.unit, _) :=
      Call.bind_ok.2 ⟨_, _, hclaim, rfl⟩
    obtain ⟨d', hstep⟩ : ∃ d', d.callDividend signed (.claim id holder) = some d' :=
      ⟨_, Option.map_eq_some_iff.2 ⟨_, Call.returned_eq_some.2 hcall, rfl⟩⟩
    exact ⟨d', by simp [deployment, hself, hstep]⟩

/-- What an answered claim moves. -/
theorem claim_moves (hd : d.dividend.storage.dist.get id = some dist)
    (hdue : Dividend.Due d.dividend.storage id holder amount)
    (hstep : (deployment this).step d (.dividend signed (.claim id holder)) = some (u, d')) (p a : Address) :
    d'.ledger.balance p a = d.ledger.balance p a - (if p = dist.paymentToken ∧ a = this then amount.val else 0) +
      if p = dist.paymentToken ∧ a = holder then amount.val else 0 := by
  obtain ⟨-, ⟨r, hrun⟩, -⟩ := step_dividend hstep
  simp only [Dividend.call, Call.bind_ok, Call.pure_ok] at hrun
  obtain ⟨_, h₁, hclaim, hr⟩ := hrun
  obtain ⟨-, dist', hd', -, -, amount', hdue', l', htransfer, distributed, -, -, hr'⟩ := Dividend.claim_ok.1 hclaim
  obtain rfl := Option.some.inj (hd.symm.trans hd')
  -- both amounts are what the view returns
  have hview := (Dividend.claimable_pos (X := Ledger this) (h := d.dividendView) (r := (amount, d.dividendView))).2
    ⟨hdue, rfl⟩
  have hview' := (Dividend.claimable_pos (X := Ledger this) (h := d.dividendView) (r := (amount', d.dividendView))).2
    ⟨hdue', rfl⟩
  cases hview.1.symm.trans hview'.1
  obtain rfl := (Prod.mk.inj hr').2
  have hledger : d'.ledger = l' := (congrArg (fun q => Host.outside q.2) hr).symm
  rw [hledger]
  exact transfer_balance (transfer_eq_some.1 htransfer) p a

/-- What `claimable` returns when it returns something. -/
theorem claimable_due (hview : (Dividend.claimable id holder d.dividendView).map Prod.fst = .ok amount)
    (hpos : 0 < amount.val) : Dividend.Due d.dividend.storage id holder amount := by
  obtain ⟨h, hrun⟩ := Call.exists_of_map_fst hview
  exact (Dividend.claimable_pos.1 ⟨hrun, hpos⟩).1

/-- What is due to a holder of an open distribution stays due while the distribution is open and the holder has not
claimed, whatever else is called. -/
theorem Held.stays_due (hheld : Held d) (hd : d.dividend.storage.dist.get id = some dist)
    (hopen : dist.completed = false) (hdue : Dividend.Due d.dividend.storage id holder amount)
    (ls : List (Label Address)) :
    ∃ dist', ((deployment this).run d ls).dividend.storage.dist.get id = some dist' ∧ (dist'.completed = false →
      Dividend.hasClaimed ((deployment this).run d ls).dividend.storage id holder = false →
      Dividend.Due ((deployment this).run d ls).dividend.storage id holder amount) := by
  obtain ⟨tr, hcovered⟩ := hheld
  obtain ⟨t, hcreated, hst⟩ := hcovered.lifecycle.exists_terms hd
  obtain ⟨htotal, -, -⟩ := hst.stage.terms
  obtain ⟨hsnapshot, hsupply, -, -⟩ := hst.stage.of_open hopen
  obtain ⟨b, hmem, hamount, hshare⟩ := hdue.share hd htotal hsnapshot hsupply
  have hfits := hdue.fits hd htotal hsnapshot hmem
  -- the terms are still the ones of the creation
  obtain ⟨tr', hlater⟩ := run_stands hcovered.lifecycle ls
  obtain ⟨t', ht', dist', hd', hst'⟩ := hlater.standing id t.toOffer (hcreated.later _)
  refine ⟨dist', hd', fun hopen' hflag => ?_⟩
  obtain ⟨htotal', -, -⟩ := hst'.stage.terms
  obtain ⟨hsnapshot', hsupply', -, -⟩ := hst'.stage.of_open hopen'
  rw [← ht'] at hmem hamount hshare hfits
  obtain ⟨amount', hdue', hamount'⟩ := Dividend.due_of_share hd' htotal' hsnapshot' hsupply' hflag hmem hshare hfits
  obtain rfl : amount' = amount := MInt.val_inj.1 (hamount'.trans hamount.symm)
  exact hdue'

/-- **Claims at the gate.** In every run of a deployment, when `claimable` of an open distribution returns a positive
amount for a holder, a claim that the holder signs in time is answered if and only if the payment token lets the
dividend contract pay the holder, and then it moves exactly that amount between the two. A refused claim is not lost:
after any further calls, while the distribution is open and the holder has not claimed, `claimable` returns the same
amount. -/
theorem claims_at_the_gate (this : Address) (now : U32) (tokenAddresses compliance : List Address)
    (ls : List (Label Address)) :
    let d := (deployment this).run (State.fresh this now tokenAddresses compliance) ls
    ∀ id dist holder amount, d.dividend.storage.dist.get id = some dist → dist.completed = false →
      (Dividend.claimable id holder d.dividendView).map Prod.fst = .ok amount → 0 < amount.val →
      (∀ signed : Address → Bool, signed holder = true → signed this = false →
        (dist.deadline ≠ 0 → d.now ≤ dist.deadline) →
        ((∃ d', (deployment this).step d (.dividend signed (.claim id holder)) = some ((), d')) ↔
          ∃ w, d.token dist.paymentToken = some w ∧ Opens w d.now this holder) ∧
        ∀ d', (deployment this).step d (.dividend signed (.claim id holder)) = some ((), d') → ∀ p a,
          d'.ledger.balance p a = d.ledger.balance p a - (if p = dist.paymentToken ∧ a = this then amount.val else 0) +
            if p = dist.paymentToken ∧ a = holder then amount.val else 0) ∧
      ∀ ls', let d₂ := (deployment this).run d ls'
        ∃ dist₂, d₂.dividend.storage.dist.get id = some dist₂ ∧ (dist₂.completed = false →
          Dividend.hasClaimed d₂.dividend.storage id holder = false →
          (Dividend.claimable id holder d₂.dividendView).map Prod.fst = .ok amount) := by
  intro d id dist holder amount hd hopen hview hpos
  have hheld : Held d := run_held this now tokenAddresses compliance ls
  have hdue := claimable_due hview hpos
  refine ⟨fun signed hsigned hself hinTime => ⟨?_, fun d' hstep => claim_moves hd hdue hstep⟩, fun ls' => ?_⟩
  · exact hheld.claim_iff hd hopen hinTime hdue hsigned hself
  · intro d₂
    obtain ⟨dist₂, hd₂, hlater⟩ := hheld.stays_due hd hopen hdue ls'
    refine ⟨dist₂, hd₂, fun hopen₂ hflag => ?_⟩
    have hview₂ := (Dividend.claimable_pos (h := d₂.dividendView) (r := (amount, d₂.dividendView))).2
      ⟨hlater hopen₂ hflag, rfl⟩
    rw [hview₂.1]
    rfl

/-- Everybody signs but the dividend contract 9. -/
def accounts (a : ℕ) : Bool := a ≠ 9

/-- The token 20 pays a distribution of 300 to its holders 1 and 2; the compliance contract 30 allows both, and 9. -/
def payRun : List (Label ℕ) :=
  [.act (.compliance 30 accounts (.initializeContract 1)),
    .act (.compliance 30 accounts (.addToAllowlist 1 1 [85, 83] 0)),
    .act (.compliance 30 accounts (.addToAllowlist 1 2 [85, 83] 0)),
    .act (.compliance 30 accounts (.addToAllowlist 1 9 [85, 83] 0)),
    .act (.token 20 accounts (.initializeToken 1 [65] [65] [65] 1000 0 30 [65] 0)),
    .act (.token 20 accounts (.transfer 1 2 100)),
    .dividend accounts (.initializeDividend 1),
    .dividend accounts (.createDistribution 1 20 20 300 [(1, 900), (2, 100)])]

/-- The claim of 2 goes through the gate and moves its 30. -/
theorem claims_at_the_gate_paid :
    let d := (deployment 9).run (State.fresh 9 5 [20] [30]) payRun
    (∃ w, d.token 20 = some w ∧ Opens w d.now 9 2) ∧
      ∃ d', (deployment 9).step d (.dividend accounts (.claim 1 2)) = some ((), d') ∧
        d'.ledger.balance 20 2 = d.ledger.balance 20 2 + 30 := by
  intro d
  have hrecord : (d.dividend.storage.dist.get 1).map (fun dist => (dist.completed, dist.paymentToken, dist.deadline)) =
      some (false, 20, 0) := by decide +kernel
  obtain ⟨dist, hd, hfacts⟩ := Option.map_eq_some_iff.1 hrecord
  simp only [Prod.mk.injEq] at hfacts
  obtain ⟨hopen, htoken, hdeadline⟩ := hfacts
  have hview : (Dividend.claimable 1 2 d.dividendView).map Prod.fst = .ok 30 := by decide +kernel
  have hanswered : ((deployment 9).step d (.dividend accounts (.claim 1 2))).isSome = true := by decide +kernel
  obtain ⟨⟨_, d'⟩, hstep⟩ := Option.isSome_iff_exists.1 hanswered
  obtain ⟨hiff, hmoves⟩ := (claims_at_the_gate 9 5 [20] [30] payRun 1 dist 2 30 hd hopen hview (by decide)).1 accounts
    rfl rfl fun hno => absurd hdeadline hno
  rw [htoken] at hiff hmoves
  have hthirty : (30 : I128).val = 30 := by decide
  exact ⟨hiff.1 ⟨d', hstep⟩, d', hstep, by simpa [hthirty] using hmoves d' hstep 20 2⟩

end Runs

end StellarRwa.Deployment
