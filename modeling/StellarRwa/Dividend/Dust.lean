import StellarRwa.Dividend.Accounting
import StellarRwa.Dividend.Claims

/-!
# Dust

Once everybody whose share is not zero has claimed, what is left of a distribution is what rounding lost: less than one
unit for each listed holder, and nothing exactly when every share is whole (`dust_bound`).
-/

namespace StellarRwa.Dividend

open Lib

variable {Address X A : Type} [DecidableEq Address]

/-! ## Who has claimed -/

section Claimants

variable {w : World Address X A} {this : Address} {h h' : Contract Address X} {l : Label Address A} {u : Ret} {id : U64}
  {holder : Address}

/-- An answered call marks its claimant, and unmarks nobody. -/
theorem step_marked (hstep : (dividend w this).step h l = some (u, h'))
    (hclaim : l.claimant = some (id, holder) ∨ hasClaimed h.storage id holder = true) :
    hasClaimed h'.storage id holder = true := by
  cases l with
  | others a =>
    obtain ⟨x, -, hx⟩ := Option.map_eq_some_iff.1 hstep
    cases hx
    exact hclaim.resolve_left nofun
  | call env op =>
    have hrun := Call.returned_eq_some.1 hstep
    rcases hclaim with hclaim | hmarked
    · obtain ⟨env', hl⟩ := Label.claimant_eq_some.1 hclaim
      cases hl
      simp only [call, Call.bind_ok, Call.pure_ok] at hrun
      obtain ⟨_, _, hrun, e⟩ := hrun
      cases e
      obtain ⟨-, d, -, -, -, amount, -, x, -, distributed, -, -, hr⟩ := claim_ok.1 hrun
      cases hr
      rw [hasClaimed_written, hasClaimed_marked, if_pos ⟨rfl, rfl⟩]
    · exact (call_effect hrun).marked hmarked

theorem run_marked (w : World Address X A) (this : Address) (x : X) (ls : List (Label Address A)) :
    ∀ r ∈ (dividend w this).trace (Contract.fresh Address x) ls, ∀ id holder, r.label.claimant = some (id, holder) →
      hasClaimed ((dividend w this).run (Contract.fresh Address x) ls).storage id holder = true := by
  refine System.run_rule (P := fun tr (h : Contract Address X) => ∀ r ∈ tr, ∀ id holder,
    r.label.claimant = some (id, holder) → hasClaimed h.storage id holder = true) (by simp) ?_ ls
  intro tr h l u h' hmarked hstep
  refine forall_mem_concat ?_ ?_
  · intro r hr id holder hclaim
    exact step_marked hstep (.inr (hmarked r hr id holder hclaim))
  · intro id holder hclaim
    exact step_marked hstep (.inl hclaim)

end Claimants

/-! ## What rounding loses -/

section Dust

variable {tr : List (Answered Address X A)} {t : Terms Address} {id : U64} {s : State Address}
  {d : Distribution Address}

/-- What is left when everybody whose share is not zero is marked. -/
theorem Standing.dust (hst : Standing tr t id s d) (hno : ¬ Swept tr id) (hpos : 0 < t.supply.val)
    (hall : ∀ e ∈ t.eligible, 0 < t.share e.2 → hasClaimed s id e.1 = true) :
    0 ≤ d.totalAmount.val - d.distributed.val ∧ d.totalAmount.val - d.distributed.val ≤ t.eligible.length - 1 ∧
      (d.totalAmount.val - d.distributed.val = 0 ↔ ∀ e ∈ t.eligible, t.supply.val ∣ t.totalAmount.val * e.2.val) := by
  have hweights : 0 < t.weights.total := by rwa [Terms.weights_total]
  have hentries : t.weights.entries.length = t.eligible.length := by simp [Terms.weights]
  have hpaid : t.weights.paid t.totalAmount.val (hasClaimed s id) =
      (t.weights.entries.map fun e => t.weights.share t.totalAmount.val e.2).sum := by
    refine Weights.paid_eq_sum t.pos.le fun e he hshare => ?_
    obtain ⟨e', he', rfl⟩ := List.mem_map.1 he
    exact hall e' he' (by rwa [Terms.share_eq])
  have hdistributed := (hst.unswept hno).2
  rw [Terms.paid, hpaid] at hdistributed
  rw [hst.stage.terms.1, hdistributed, ← Terms.exact_iff]
  have hle := t.weights.sum_share_le t.pos.le
  have hlt := Weights.loss_lt hweights t.totalAmount.val
  refine ⟨by omega, by omega, ?_⟩
  by_cases hexact : t.weights.Exact t.totalAmount.val
  · have heq := Weights.sum_share_eq hweights hexact
    exact iff_of_true (by omega) hexact
  · have hless := Weights.sum_share_lt hweights hexact
    exact iff_of_false (by omega) hexact

/-- **The dust bound.** In every run, for every distribution that was neither reclaimed nor cancelled and whose balances
are not all zero: once every listed holder with a positive share has claimed it, in whatever order, what is left of the
total is at least zero and at most the number of listed holders less one, and it is zero exactly when the sum of the
balances divides the product of the total with each balance. -/
theorem dust_bound (w : World Address X A) (this : Address) (x : X) (ls : List (Label Address A)) :
    let tr := (dividend w this).trace (Contract.fresh Address x) ls
    let h := (dividend w this).run (Contract.fresh Address x) ls
    ∀ id o, Created tr id o → ¬ Swept tr id → 0 < (o.eligible.map fun e => e.2.val).sum →
      (∀ e ∈ o.eligible, 0 < o.totalAmount.val * e.2.val / (o.eligible.map fun e => e.2.val).sum →
        ∃ r ∈ tr, r.label.claimant = some (id, e.1)) →
      ∃ d, h.storage.dist.get id = some d ∧ d.totalAmount = o.totalAmount ∧
        0 ≤ d.totalAmount.val - d.distributed.val ∧
        d.totalAmount.val - d.distributed.val ≤ o.eligible.length - 1 ∧
        (d.totalAmount.val - d.distributed.val = 0 ↔
          ∀ e ∈ o.eligible, (o.eligible.map fun e => e.2.val).sum ∣ o.totalAmount.val * e.2.val) := by
  intro tr h id o hcreated hno hpos hclaimed
  have hl : Lifecycle tr h.storage := run_lifecycle w this x ls
  obtain ⟨t, rfl, d, hd, hst⟩ := hl.standing id o hcreated
  have hsum : (t.eligible.map fun e => e.2.val).sum = t.supply.val := t.sum_eq
  have hall : ∀ e ∈ t.eligible, 0 < t.share e.2 → hasClaimed h.storage id e.1 = true := by
    intro e he hshare
    obtain ⟨r, hr, hclaim⟩ := hclaimed e he hshare
    exact run_marked w this x ls r hr id e.1 hclaim
  rw [hsum] at hpos ⊢
  exact ⟨d, hd, hst.stage.terms.1, hst.dust hno hpos hall⟩

/-- `sharedRun`, and 3 claims too. -/
def settledRun : List (Label ℕ (ℕ × ℕ × ℕ)) := sharedRun ++ [.call (.signed 0) (.claim 1 3)]

/-- One of the 100 is left. -/
theorem dust_bound_settled :
    ∃ d, ((dividend (Ledgers.world 1 1) 9).run (Contract.fresh ℕ ∅) settledRun).storage.dist.get 1 = some d ∧
      0 < d.totalAmount.val - d.distributed.val ∧ d.totalAmount.val - d.distributed.val ≤ 1 := by
  have hcreated : Created ((dividend (Ledgers.world 1 1) 9).trace (Contract.fresh ℕ ∅) settledRun) 1 sharedOffer := by
    unfold Created
    decide +kernel
  have hunswept : ¬ Swept ((dividend (Ledgers.world 1 1) 9).trace (Contract.fresh ℕ ∅) settledRun) 1 := by
    unfold Swept
    decide +kernel
  have hclaimed : ∀ e ∈ sharedOffer.eligible,
      ∃ r ∈ (dividend (Ledgers.world 1 1) 9).trace (Contract.fresh ℕ ∅) settledRun,
        r.label.claimant = some (1, e.1) := by decide +kernel
  obtain ⟨d, hd, -, hnonneg, hle, hwhole⟩ := dust_bound (Ledgers.world 1 1) 9 ∅ settledRun 1 sharedOffer hcreated
    hunswept (by decide) fun e he _ => hclaimed e he
  have hrounded : d.totalAmount.val - d.distributed.val ≠ 0 := fun hzero => absurd (hwhole.1 hzero) (by decide)
  exact ⟨d, hd, lt_of_le_of_ne hnonneg (Ne.symm hrounded), hle⟩

end Dust

end StellarRwa.Dividend
