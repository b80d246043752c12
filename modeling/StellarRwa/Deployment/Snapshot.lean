import StellarRwa.Deployment.Escrow
import StellarRwa.Dividend.Claimable
import StellarRwa.Dividend.Snapshot

/-!
# Honest snapshots

Who may claim what is fixed by the list that the creator of a distribution hands in. The contract does not compare it
with the balances of the asset token: it divides by the sum of the list, and asks `total_supply` only whether it is
positive. When the list names every holder with the balance of that moment, the sum is the supply, and the shares are
the documented `total_amount * balance / total_supply` (`snapshot_pro_rata`), whatever is traded or minted afterwards.
-/

namespace StellarRwa.Deployment

open Lib

variable {Address : Type} [DecidableEq Address] {this : Address}

/-- The list names every holder of the token of `w`, with the balance that it has. -/
structure Honest (w : World Address) (eligible : List (Address × I128)) : Prop where
  agrees : ∀ e ∈ eligible, e.2 = w.balance e.1
  complete : ∀ a, (w.balance a).val ≠ 0 → a ∈ eligible.map Prod.fst

section Sums

variable {w : World Address} {md : Token.AssetMetadata Address} {eligible : List (Address × I128)}

/-- An honest list sums to the supply. -/
theorem Honest.sum_eq (hh : Honest w eligible) (hs : Token.Conserved w.storage) (hmd : w.storage.metadata = some md)
    (hnd : (eligible.map Prod.fst).Nodup) : (eligible.map fun e => e.2.val).sum = md.totalSupply.val := by
  have hlist : eligible.map (fun e => e.2.val) = (eligible.map Prod.fst).map fun a => (w.balance a).val := by
    rw [List.map_map]
    refine List.map_congr_left fun e he => ?_
    rw [hh.agrees e he, Function.comp_apply]
  rw [hlist, ← hs.total md hmd]
  exact Book.sum_balance_eq_total hnd hh.complete

/-- The balance in an honest list is the balance in the token. -/
theorem Honest.balanceIn_eq (hh : Honest w eligible) (hnd : (eligible.map Prod.fst).Nodup) (a : Address) :
    (Dividend.balanceIn eligible a).val = (w.balance a).val := by
  by_cases ha : a ∈ eligible.map Prod.fst
  · obtain ⟨e, he, rfl⟩ := List.mem_map.1 ha
    rw [Dividend.balanceIn_of_mem hnd he, hh.agrees e he]
  · have hzero : (w.balance a).val = 0 := by
      by_contra hne
      exact ha (hh.complete a hne)
    rw [Dividend.balanceIn_of_not_mem fun b hb => ha (List.mem_map.2 ⟨_, hb, rfl⟩), hzero]
    rfl

end Sums

section Runs

variable {d d' : State this} {signed : Address → Bool} {op : Dividend.Op Address} {admin : Address}
  {o : Dividend.Offer Address} {u : Unit} {tr : History this}

/-- A creation returns the id it has counted up to. -/
theorem effect_id {X A : Type} {w : Dividend.World Address X A} {env : Env Address} {s s' : Dividend.State Address}
    {x x' : X} {r : Dividend.Ret} (heffect : Dividend.Effect w this env s x op r s' x')
    (hop : op.offer = some (admin, o)) : ∃ id, r = .id id ∧ s'.counter = some id := by
  cases heffect with
  | handover hop' _ _ => cases hop'.offer.symm.trans hop
  | opened _ _ _ _ _ _ _ _ => exact ⟨_, rfl, rfl⟩
  | initialized _ => cases hop
  | claimed _ _ _ _ _ _ _ _ => cases hop
  | reclaimed _ _ _ _ _ _ _ => cases hop
  | cancelled _ _ _ _ _ _ => cases hop

/-- After an answered creation the history names the last id and its terms. -/
theorem created_of_step (hl : Dividend.Lifecycle tr d.dividend.storage) (hop : op.offer = some (admin, o))
    (hstep : (deployment this).step d (.dividend signed op) = some (u, d')) :
    ∃ (id : U64) (tr' : History this), d'.dividend.storage.counter = some id ∧ Dividend.Created tr' id o ∧
      Dividend.Lifecycle tr' d'.dividend.storage := by
  obtain ⟨-, ⟨r, hrun⟩, -⟩ := step_dividend hstep
  have hcall : (Dividend.dividend (tokens this) this).step d.dividendView (.call ⟨d.now, signed⟩ op) =
      some (r, d'.dividendView) := Call.returned_eq_some.2 hrun
  have hl' := Dividend.Lifecycle.step (h := d.dividendView) hl hcall
  obtain ⟨id, rfl, hid⟩ := effect_id (Dividend.call_effect hrun) hop
  refine ⟨id, _, hid, ?_, hl'⟩
  exact Dividend.created_concat.2 (.inr ⟨rfl, by simp [Dividend.Label.offer, hop]⟩)

/-- **Pro rata.** In every run of a deployment, when a distribution is created with a list that names every holder of
its asset token with the balance of that moment, and its products fit, then at all later times `claimable` of any
address is `total_amount * balance / total_supply` of that moment, until the address has claimed or the distribution is
completed. -/
theorem snapshot_pro_rata (this : Address) (now : U32) (tokenAddresses compliance : List Address)
    (ls : List (Label Address)) :
    let d := (deployment this).run (State.fresh this now tokenAddresses compliance) ls
    ∀ signed op admin o w md d', op.offer = some (admin, o) →
      (deployment this).step d (.dividend signed op) = some ((), d') →
      d.token o.assetToken = some w → w.storage.metadata = some md → Honest w o.eligible →
      (∀ e ∈ o.eligible, o.totalAmount.val * e.2.val ≤ 2 ^ 127 - 1) →
      ∃ id, d'.dividend.storage.counter = some id ∧ ∀ ls' holder,
        let d₂ := (deployment this).run d' ls'
        ∃ dist amount, d₂.dividend.storage.dist.get id = some dist ∧
          (Dividend.claimable id holder d₂.dividendView).map Prod.fst = .ok amount ∧
          amount.val =
            if dist.completed = true ∨ Dividend.hasClaimed d₂.dividend.storage id holder = true then 0
            else o.totalAmount.val * (w.balance holder).val / md.totalSupply.val := by
  intro d signed op admin o w md d' hop hstep hw hmd hhonest hfits
  obtain ⟨tr, hcovered⟩ := run_held this now tokenAddresses compliance ls
  obtain ⟨id, tr', hid, hcreated, hl⟩ := created_of_step hcovered.lifecycle hop hstep
  refine ⟨id, hid, fun ls' holder => ?_⟩
  intro d₂
  obtain ⟨tr'', hlater⟩ := run_stands hl ls'
  obtain ⟨t, rfl, dist, hd, hst⟩ := hlater.standing id o (hcreated.later _)
  obtain ⟨amount, hview, hamount⟩ := hst.claimable_eq (h := d₂.dividendView) hd hfits holder
  refine ⟨dist, amount, hd, by rw [hview]; rfl, hamount.trans ?_⟩
  rw [Dividend.Offer.share, Dividend.Offer.sum, hhonest.balanceIn_eq t.listed.distinct,
    hhonest.sum_eq (d.ledger.property.token hw).1 hmd t.listed.distinct]
  rfl

/-- The last call of `payRun` names both holders of the token 20 with their balances, so 2 may claim 300 * 100 /
1000. -/
theorem snapshot_pro_rata_pay :
    let d := (deployment 9).run (State.fresh 9 5 [20] [30]) (payRun.take 7)
    ∃ d', (deployment 9).step d (.dividend accounts (.createDistribution 1 20 20 300 [(1, 900), (2, 100)])) =
        some ((), d') ∧ ∃ id dist amount, d'.dividend.storage.counter = some id ∧
      d'.dividend.storage.dist.get id = some dist ∧
      (Dividend.claimable id 2 d'.dividendView).map Prod.fst = .ok amount ∧
      amount.val = if dist.completed = true ∨ Dividend.hasClaimed d'.dividend.storage id 2 = true then 0 else 30 := by
  intro d
  have hanswered : ((deployment 9).step d (.dividend accounts
      (.createDistribution 1 20 20 300 [(1, 900), (2, 100)]))).isSome = true := by decide +kernel
  obtain ⟨⟨_, d'⟩, hstep⟩ := Option.isSome_iff_exists.1 hanswered
  refine ⟨d', hstep, ?_⟩
  have hsees : (d.token 20).map (fun w => (w.storage.metadata.map Token.AssetMetadata.totalSupply, w.storage.balance)) =
      some (some 1000, ((∅ : Book ℕ).set 1 900).set 2 100) := by decide +kernel
  obtain ⟨w, hw, hsees⟩ := Option.map_eq_some_iff.1 hsees
  obtain ⟨hsupply, hbook⟩ := Prod.mk.inj hsees
  obtain ⟨md, hmd, hsupply⟩ := Option.map_eq_some_iff.1 hsupply
  have hbalance : ∀ a, w.balance a = if a = 2 then 100 else if a = 1 then 900 else 0 := by
    intro a
    rw [World.balance, Token.balance, hbook]
    rw [Book.balance_set, Book.balance_set]
    rfl
  have hhonest : Honest w [(1, 900), (2, 100)] := by
    constructor
    · intro e he
      simp only [List.mem_cons, List.not_mem_nil, or_false] at he
      rcases he with rfl | rfl
      · exact (hbalance 1).symm
      · exact (hbalance 2).symm
    · intro a ha
      rw [hbalance] at ha
      split at ha
      · simp_all
      · split at ha
        · simp_all
        · exact absurd rfl ha
  obtain ⟨id, hid, hlater⟩ := snapshot_pro_rata 9 5 [20] [30] (payRun.take 7) accounts _ 1 _ w md d' rfl hstep hw hmd
    hhonest (by decide)
  obtain ⟨dist, amount, hd, hview, hamount⟩ := hlater [] 2
  refine ⟨id, dist, amount, hid, hd, hview, ?_⟩
  rw [hamount, hbalance, hsupply]
  rfl

end Runs

end StellarRwa.Deployment
