import StellarRwa.Deployment.Escrow

/-!
# The gate of every token

In a deployment balances move by calls of the accounts and by the transfers of the dividend contract. Either way the
compliance contract of the token allows everybody whose balance changes, and who loses has signed, has approved a
spender who has, or is the dividend contract paying out (`deployment_gate`). So the dividend contract brings money past
nobody's gate, and takes it from nobody who has not signed.
-/

namespace StellarRwa.Deployment

open Lib

variable {Address : Type} [DecidableEq Address] {this : Address}

/-- Whose signatures the call carries. -/
def Label.signed : Label Address → Address → Bool
  | .act (.advance _), _ => false
  | .act (.token _ signed _), a => signed a
  | .act (.compliance _ signed _), a => signed a
  | .registry signed _, a => signed a
  | .dividend signed _, a => signed a

/-- The record of a call in a run. -/
abbrev Record (this : Address) := Done (State this) (Label Address) Unit

/-- The token at `p` is called, and the compliance contract it points at allows `a`; the first one is stored by the call
itself. -/
def Passes (c c' : Chain Address) (p a : Address) : Prop :=
  ∃ w w' k h h', c.token p = some w ∧ c'.token p = some w' ∧ Token.storedCompliance w.storage w'.storage = some k ∧
    c.compliance.get k = some h ∧ Compliance.isAllowed (.signed c.now) a h = .ok (true, h')

/-- What may lower a balance of `a` in the token at `p` by `n`: a signature of `a`, a spender whom `a` has approved for
it, or a payout of a distribution in that token, when `a` is the dividend contract. -/
inductive Lowers (r : Record this) (p a : Address) (n : Int) : Prop
  | signed (hsigned : r.label.signed a = true)
  | approved {w : World Address} {spender to_ : Address} {amount : I128} {v : Token.AllowanceValue}
    {signed : Address → Bool} (hlabel : r.label = .act (.token p signed (.transferFrom spender a to_ amount)))
    (hsigned : signed spender = true) (hw : r.pre.token p = some w)
    (hv : w.storage.allowance.get (a, spender) = some v) (hlive : r.pre.now ≤ v.expirationLedger)
    (hle : n ≤ v.amount.val)
  | payout {signed : Address → Bool} {op : Dividend.Op Address} {id : U64} {dist : Dividend.Distribution Address}
    (hself : a = this) (hlabel : r.label = .dividend signed op) (hspends : op.spends = some id)
    (hd : r.pre.dividend.storage.dist.get id = some dist) (htoken : dist.paymentToken = p)

variable {c c' : Chain Address} {p q a : Address} {signed : Address → Bool}

/-- One call of a token. -/
theorem callToken_gated {op : Token.Op Address} (hcall : c.callToken q signed op = some c')
    (hne : c'.balance p a ≠ c.balance p a) : p = q ∧ Passes c c' p a ∧
      ∃ w, c.token p = some w ∧ (c'.balance p a < c.balance p a →
        Token.MayDebit ⟨c.now, signed⟩ w.storage op a (c.balance p a - c'.balance p a)) := by
  obtain ⟨w, w', hw, hrun, rfl⟩ := Chain.callToken_eq_some.1 hcall
  rw [Chain.balance_put] at hne
  by_cases hp : p = q
  · subst hp
    rw [if_pos rfl, Chain.balance_of_token hw] at hne
    have hgated := record_gated (d := ⟨w, .token ⟨c.now, signed⟩ op, (), w'⟩) (Call.returned_eq_some.2 hrun)
    have houtside : w.outside = c.compliance := by
      obtain ⟨k, -, rfl⟩ := Chain.token_eq_some.1 hw
      rfl
    have hw' : (c.put p w').token p = some w' := by simp [Chain.token, Chain.put, Host.alone, Host.among]
    refine ⟨rfl, ?_, w, hw, fun hlt => ?_⟩
    · obtain ⟨env, op', k, h, h', hlabel, hstored, hk, hallowed⟩ := hgated.1 a fun e => hne (congrArg MInt.val e)
      cases hlabel
      exact ⟨w, w', k, h, h', hw, hw', hstored, houtside ▸ hk, hallowed⟩
    · rw [Chain.balance_put, if_pos rfl, Chain.balance_of_token hw] at hlt ⊢
      obtain ⟨env, op', hlabel, hdebit⟩ := hgated.2.1 a hlt
      cases hlabel
      exact hdebit
  · exact absurd (if_neg hp) hne

/-- A transfer lowers the balance of its payer only. -/
theorem transfer_gated {from_ to_ : Address} {amount : I128} (hcall : c.transfer q from_ to_ amount = some c')
    (hne : c'.balance p a ≠ c.balance p a) : p = q ∧ Passes c c' p a ∧
      (c'.balance p a < c.balance p a → a = from_) := by
  obtain ⟨hpq, hpasses, w, -, hdebit⟩ := callToken_gated hcall hne
  refine ⟨hpq, hpasses, fun hlt => ?_⟩
  rcases hdebit hlt with hsigned | ⟨_, _, _, _, hop, -⟩
  · simpa using hsigned
  · cases hop

/-- One record of a run. -/
theorem step_gated {r : Record this} (hstep : (deployment this).step r.pre r.label = some (r.result, r.post))
    (hne : r.post.ledger.balance p a ≠ r.pre.ledger.balance p a) :
    Passes r.pre.ledger.val r.post.ledger.val p a ∧ (r.post.ledger.balance p a < r.pre.ledger.balance p a →
      Lowers r p a (r.pre.ledger.balance p a - r.post.ledger.balance p a)) := by
  obtain ⟨d, l, u, d'⟩ := r
  dsimp only at hstep hne ⊢
  cases l with
  | registry signed op =>
    obtain ⟨-, ⟨r, hrun⟩, -⟩ := step_registry hstep
    have hsame : d'.ledger = d.ledger := Registry.call_outside hrun
    exact absurd (by rw [hsame]) hne
  | act b =>
    have hact := (step_act hstep).1
    cases b with
    | advance n =>
      simp only [Chain.act, Option.ite_none_right_eq_some, Option.some.injEq] at hact
      exact absurd (by rw [Ledger.balance, Ledger.balance, ← hact.2]; rfl) hne
    | compliance k signed op =>
      simp only [Chain.act, Option.ite_none_left_eq_some] at hact
      obtain ⟨h, r, h', -, -, hd'⟩ := Chain.callCompliance_eq_some.1 hact.2
      exact absurd (by rw [Ledger.balance, Ledger.balance, hd']; rfl) hne
    | token q signed op =>
      simp only [Chain.act, Option.ite_none_left_eq_some] at hact
      obtain ⟨rfl, hpasses, w, hw, hdebit⟩ := callToken_gated hact.2 hne
      refine ⟨hpasses, fun hlt => ?_⟩
      rcases hdebit hlt with hsigned | ⟨spender, to_, amount, v, rfl, hsigned, hv, hlive, hle⟩
      · exact .signed hsigned
      · exact .approved rfl hsigned hw hv hlive hle
  | dividend signed op =>
    obtain ⟨-, ⟨r, hrun⟩, -⟩ := step_dividend hstep
    have heffect := Dividend.call_effect hrun
    -- every payout is a transfer in the payment token of a stored record
    have hpayout : ∀ {id : U64} {dist : Dividend.Distribution Address} {to_ : Address} {amount : I128},
        op.spends = some id → d.dividend.storage.dist.get id = some dist →
        (tokens this).transfer d.ledger dist.paymentToken this to_ amount = some d'.ledger →
        Passes d.ledger.val d'.ledger.val p a ∧ (d'.ledger.balance p a < d.ledger.balance p a →
          Lowers ⟨d, .dividend signed op, u, d'⟩ p a (d.ledger.balance p a - d'.ledger.balance p a)) := by
      intro id dist to_ amount hspends hd htransfer
      obtain ⟨rfl, hpasses, hpayer⟩ := transfer_gated (transfer_eq_some.1 htransfer) hne
      exact ⟨hpasses, fun hlt => .payout (hpayer hlt) rfl hspends hd rfl⟩
    obtain ⟨l', registry', dividend'⟩ := d'
    simp only [State.dividendView, Host.among] at heffect
    generalize dividend'.storage = s' at heffect
    cases heffect with
    | handover _ _ _ => exact absurd rfl hne
    | initialized _ => exact absurd rfl hne
    | opened hop hsigned _ _ _ _ _ htransfer =>
      obtain ⟨rfl, hpasses, hpayer⟩ := transfer_gated (transfer_eq_some.1 htransfer) hne
      exact ⟨hpasses, fun hlt => .signed (hpayer hlt ▸ hsigned.2)⟩
    | claimed _ hd _ _ _ _ _ htransfer => exact hpayout rfl hd htransfer
    | reclaimed _ _ hd _ _ _ htransfer => exact hpayout rfl hd htransfer
    | cancelled _ _ hd _ _ htransfer => exact hpayout rfl hd htransfer

/-- **The gate of every token.** In every run of a deployment, whenever a balance of `a` in the token at `p` changes, be
it by a call of an account or by a transfer of the dividend contract: the compliance contract that the token points at
allows `a` at that ledger, and if the balance goes down, then `a` has signed the call, or a signing spender has an
unexpired allowance of `a` for at least the difference, or `a` is the dividend contract paying out a distribution in
that token. -/
theorem deployment_gate (this : Address) (now : U32) (tokenAddresses compliance : List Address)
    (ls : List (Label Address)) :
    ∀ r ∈ (deployment this).trace (State.fresh this now tokenAddresses compliance) ls, ∀ p a,
      r.post.ledger.balance p a ≠ r.pre.ledger.balance p a →
      Passes r.pre.ledger.val r.post.ledger.val p a ∧ (r.post.ledger.balance p a < r.pre.ledger.balance p a →
        Lowers r p a (r.pre.ledger.balance p a - r.post.ledger.balance p a)) :=
  fun _ hr _ _ hne => step_gated (System.mem_trace hr).1 hne

/-- The claim of 2 in `payRun` passes the gate on both sides, and the dividend contract 9 pays it out of escrow. -/
theorem deployment_gate_paid :
    ∃ r : Record 9, r.label = .dividend accounts (.claim 1 2) ∧ Passes r.pre.ledger.val r.post.ledger.val 20 2 ∧
      Passes r.pre.ledger.val r.post.ledger.val 20 9 ∧ Lowers r 20 9 30 := by
  have hanswered : ((deployment 9).step ((deployment 9).run (State.fresh 9 5 [20] [30]) payRun)
      (.dividend accounts (.claim 1 2))).isSome = true := by decide +kernel
  obtain ⟨⟨_, d'⟩, hstep⟩ := Option.isSome_iff_exists.1 hanswered
  have hmoved : (((deployment 9).step ((deployment 9).run (State.fresh 9 5 [20] [30]) payRun)
      (.dividend accounts (.claim 1 2))).map fun q => (q.2.ledger.balance 20 2, q.2.ledger.balance 20 9)) =
      some (130, 270) := by decide +kernel
  rw [hstep, Option.map_some, Option.some.injEq, Prod.mk.injEq] at hmoved
  have hbefore : ((deployment 9).run (State.fresh 9 5 [20] [30]) payRun).ledger.balance 20 2 = 100 := by decide +kernel
  have hbefore' : ((deployment 9).run (State.fresh 9 5 [20] [30]) payRun).ledger.balance 20 9 = 300 := by decide +kernel
  have hgate := deployment_gate 9 5 [20] [30] _ _ (System.mem_trace_last hstep)
  obtain ⟨hpasses, -⟩ := hgate 20 2 (by simp [hmoved.1, hbefore])
  obtain ⟨hpasses', hlowers⟩ := hgate 20 9 (by simp [hmoved.2, hbefore'])
  refine ⟨_, rfl, hpasses, hpasses', ?_⟩
  simpa [hmoved.2, hbefore'] using hlowers (by simp [hmoved.2, hbefore'])

end StellarRwa.Deployment
