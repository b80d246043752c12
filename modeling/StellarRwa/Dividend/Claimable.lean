import StellarRwa.Dividend.Accounting
import StellarRwa.Dividend.Claims

/-!
# The view of what is claimable

`claimable` returns the share of the holder until the holder has claimed or the distribution is completed, and zero from
then on (`Standing.claimable_eq`). A claim also looks at the deadline, and the view does not: the two agree exactly as
long as the deadline, if there is one, does not stand between them (`claimable_truthful_iff`).
-/

namespace StellarRwa.Dividend

open Lib

variable {Address X A : Type} [DecidableEq Address]

section View

variable {tr : List (Answered Address X A)} {h : Contract Address X} {t : Terms Address} {id : U64}
  {d : Distribution Address} {holder : Address}

omit [DecidableEq Address] in
theorem Terms.share_nonneg {b : I128} (hb : 0 ≤ b.val) : 0 ≤ t.share b := by
  rw [Terms.share_eq]
  exact Weights.share_nonneg t.pos.le hb

omit [DecidableEq Address] in
@[simp] theorem Terms.share_zero : t.share 0 = 0 := by simp [Offer.share]

theorem balanceIn_nonneg (t : Terms Address) (holder : Address) : 0 ≤ (balanceIn t.eligible holder).val := by
  by_cases hpos : 0 < (balanceIn t.eligible holder).val
  · exact hpos.le
  · cases hfind : t.eligible.find? fun e => e.1 = holder with
    | none => simp [balanceIn, hfind]
    | some e =>
      simpa [balanceIn, hfind] using t.listed.nonneg e (List.mem_of_find?_eq_some hfind)

theorem Stage.loadSupply_of_completed {s : State Address} (hst : Stage t id s d) (hcompleted : d.completed = true) :
    loadSupply s id = 0 := by
  cases hst with
  | opened _ _ _ _ => cases hcompleted
  | paid _ hsupply => simp [loadSupply, hsupply]
  | cancelled _ hsupply _ => simp [loadSupply, hsupply]

/-- What `claimable` returns while the list is stored. -/
theorem claimable_opened (hd : h.storage.dist.get id = some d) (htotal : d.totalAmount = t.totalAmount)
    (hsnapshot : h.storage.snapshot.get id = some t.eligible) (hsupply : h.storage.supply.get id = some t.supply)
    (hflag : hasClaimed h.storage id holder = false)
    (hfits : ∀ e ∈ t.eligible, t.totalAmount.val * e.2.val ≤ 2 ^ 127 - 1) :
    ∃ amount, (claimable id holder : M Address X I128) h = .ok (amount, h) ∧
      amount.val = t.share (balanceIn t.eligible holder) := by
  have hload : loadSupply h.storage id = t.supply := by rw [loadSupply, hsupply, Option.getD_some]
  have hnonneg := balanceIn_nonneg t holder
  by_cases hpos : 0 < t.share (balanceIn t.eligible holder)
  · obtain ⟨-, hbalance⟩ := Terms.pos_of_share_pos hpos
    have hmem := mem_of_balanceIn_pos hbalance
    obtain ⟨amount, hdue, hamount⟩ :=
      due_of_share hd htotal hsnapshot hsupply hflag hmem hpos (hfits _ hmem)
    exact ⟨amount, (claimable_pos (r := (amount, h)).2 ⟨hdue, rfl⟩).1, hamount⟩
  · -- no share is due, because the sum or the balance is zero or by rounding
    have hzero : t.share (balanceIn t.eligible holder) = 0 := le_antisymm (not_lt.1 hpos) (Terms.share_nonneg hnonneg)
    refine ⟨0, ?_, hzero.symm⟩
    by_cases hsum : 0 < t.supply.val
    · by_cases hbalance : 0 < (balanceIn t.eligible holder).val
      · have hprod : 0 ≤ t.totalAmount.val * (balanceIn t.eligible holder).val := mul_nonneg t.pos.le hbalance.le
        have hle := hfits _ (mem_of_balanceIn_pos hbalance)
        have hdiv :
            (⟨t.totalAmount.val * (balanceIn t.eligible holder).val, by omega, hle⟩ : I128).checkedDiv t.supply =
            some 0 := by
          rw [MInt.checkedDiv_eq_some_of_nonneg hprod hsum, MInt.val_zero, ← hzero, Offer.share, t.sum_eq]
        simp only [claimable, Call.bind_ok, load_ok, Call.storage_ok, Call.ite_ok, snapshotBalance_ok,
          Call.unwrapOrElse_ok, Call.orTrap_ok, MInt.le_def, MInt.val_zero, not_le, MInt.checkedMul_eq_some]
        refine ⟨_, _, ⟨d, hd, rfl⟩, _, _, rfl, .inr ⟨by simp [hflag], .inr ⟨hload ▸ hsum, _, _,
          ⟨_, hsnapshot, rfl⟩, .inr ⟨hbalance, _, _, ⟨_, ?_, rfl⟩, _, hload ▸ hdiv, rfl⟩⟩⟩⟩
        rw [htotal]
      · simp [claimable, Call.ite_ok, hd, hflag, hsnapshot, MInt.le_def, hload, hsum, not_lt.1 hbalance]
    · simp [claimable, Call.ite_ok, hd, hflag, MInt.le_def, hload, not_lt.1 hsum]

/-- What `claimable` returns in every stage of a distribution, when the products fit. -/
theorem Standing.claimable_eq (hst : Standing tr t id h.storage d) (hd : h.storage.dist.get id = some d)
    (hfits : ∀ e ∈ t.eligible, t.totalAmount.val * e.2.val ≤ 2 ^ 127 - 1) (holder : Address) :
    ∃ amount, (claimable id holder : M Address X I128) h = .ok (amount, h) ∧
      amount.val = if d.completed = true ∨ hasClaimed h.storage id holder = true then 0
        else t.share (balanceIn t.eligible holder) := by
  by_cases hover : d.completed = true ∨ hasClaimed h.storage id holder = true
  · rw [if_pos hover]
    refine ⟨0, ?_, rfl⟩
    rcases hover with hcompleted | hflag
    · have hload := hst.stage.loadSupply_of_completed hcompleted
      cases hflag : hasClaimed h.storage id holder <;> simp [claimable, Call.ite_ok, hd, hflag, hload, MInt.le_def]
    · simp [claimable, Call.ite_ok, hd, hflag]
  · rw [if_neg hover]
    simp only [not_or, Bool.not_eq_true] at hover
    obtain ⟨hsnapshot, hsupply, -, -⟩ := hst.stage.of_open hover.1
    exact claimable_opened hd hst.stage.terms.1 hsnapshot hsupply hover.2 hfits

end View

/-! ## The view and the claim -/

section Truth

variable {w : World Address X A} {this : Address} {tr : List (Logged Address X A)} {env : Env Address}
  {h h' : Contract Address (X × List (Transfer Address))} {t : Terms Address} {id : U64} {d : Distribution Address}
  {holder : Address}

/-- What `claimable` returns is what a claim of the holder would transfer, and it is zero exactly when the claim would
be rejected. -/
def Truthful (w : World Address X A) (this : Address) (env : Env Address) (id : U64) (holder : Address)
    (h : Contract Address (X × List (Transfer Address))) : Prop :=
  ∃ amount, (claimable id holder : M Address (X × List (Transfer Address)) I128) h = .ok (amount, h) ∧
    (∀ h', claim w.recorded this env id holder h = .ok ((), h') → ∃ d, h.storage.dist.get id = some d ∧
      h'.outside.2 = h.outside.2 ++ [⟨d.paymentToken, this, holder, amount⟩]) ∧
    (amount.val = 0 ↔ ∀ h', claim w.recorded this env id holder h ≠ .ok ((), h'))

/-- A claim that returns is in time, of an open distribution, by a holder with a positive share who was not paid, and
transfers the share. -/
theorem Standing.claim_inv (hst : Standing tr t id h.storage d) (hd : h.storage.dist.get id = some d)
    (hclaim : Dividend.claim w.recorded this env id holder h = .ok ((), h')) :
    (d.deadline ≠ 0 → env.sequence.val ≤ d.deadline.val) ∧ d.completed = false ∧
      hasClaimed h.storage id holder = false ∧ 0 < t.share (balanceIn t.eligible holder) ∧
      ∃ amount : I128, amount.val = t.share (balanceIn t.eligible holder) ∧
        h'.outside.2 = h.outside.2 ++ [⟨d.paymentToken, this, holder, amount⟩] := by
  obtain ⟨-, d₁, hd₁, hopen, hinTime, amount, hdue, x', htransfer, distributed, -, -, hr⟩ := claim_ok.1 hclaim
  obtain rfl : d = d₁ := Option.some.inj (hd.symm.trans hd₁)
  obtain ⟨hsnapshot, hsupply, -, -⟩ := hst.stage.of_open hopen
  obtain ⟨b, hmem, hamount, hshare⟩ := hdue.share hd hst.stage.terms.1 hsnapshot hsupply
  rw [balanceIn_of_mem t.listed.distinct hmem]
  obtain ⟨y, -, rfl⟩ := Option.map_eq_some_iff.1 htransfer
  cases hr
  exact ⟨hinTime, hopen, hdue.unclaimed, hshare, amount, hamount, rfl⟩

/-- Once nothing is due, the view is zero and the claim is rejected, at every ledger. -/
theorem Standing.truthful_of_over (hst : Standing tr t id h.storage d) (hd : h.storage.dist.get id = some d)
    (hfits : ∀ e ∈ t.eligible, t.totalAmount.val * e.2.val ≤ 2 ^ 127 - 1)
    (hover : d.completed = true ∨ hasClaimed h.storage id holder = true ∨
      t.share (balanceIn t.eligible holder) = 0) : Truthful w this env id holder h := by
  obtain ⟨amount, hclaimable, hamount⟩ := hst.claimable_eq hd hfits holder
  have hzero : amount.val = 0 := by
    rw [hamount]
    split
    · rfl
    · rename_i hno
      rcases hover with hcompleted | hflag | hshare
      · exact absurd (.inl hcompleted) hno
      · exact absurd (.inr hflag) hno
      · exact hshare
  have hrejected : ∀ h', Dividend.claim w.recorded this env id holder h ≠ .ok ((), h') := by
    intro h' hclaim
    obtain ⟨-, hopen, hunclaimed, hpos, -⟩ := hst.claim_inv hd hclaim
    rcases hover with hcompleted | hflag | hshare
    · cases hcompleted.symm.trans hopen
    · cases hflag.symm.trans hunclaimed
    · omega
  exact ⟨amount, hclaimable, fun h' hclaim => absurd hclaim (hrejected h'), iff_of_true hzero hrejected⟩

/-- A claim in time pays what the view says. -/
theorem Standing.truthful_of_inTime (hst : Standing tr t id h.storage d) (hd : h.storage.dist.get id = some d)
    (hfits : ∀ e ∈ t.eligible, t.totalAmount.val * e.2.val ≤ 2 ^ 127 - 1) (hsigned : env.authorized holder = true)
    (hpays : ∀ amount : I128, amount.val = t.share (balanceIn t.eligible holder) →
      ∃ x', w.transfer h.outside.1 t.paymentToken this holder amount = some x')
    (hinTime : d.deadline = 0 ∨ env.sequence.val ≤ d.deadline.val) : Truthful w this env id holder h := by
  by_cases hover : d.completed = true ∨ hasClaimed h.storage id holder = true ∨
      t.share (balanceIn t.eligible holder) = 0
  · exact hst.truthful_of_over hd hfits hover
  simp only [not_or, Bool.not_eq_true] at hover
  obtain ⟨hopen, hunclaimed, hne⟩ := hover
  obtain ⟨amount, hclaimable, hamount⟩ := hst.claimable_eq hd hfits holder
  rw [if_neg (by simp [hopen, hunclaimed])] at hamount
  have hpos : 0 < t.share (balanceIn t.eligible holder) :=
    lt_of_le_of_ne (Terms.share_nonneg (balanceIn_nonneg t holder)) (Ne.symm hne)
  have hmem := mem_of_balanceIn_pos (Terms.pos_of_share_pos hpos).2
  have hdeadline : t.deadline ≠ 0 → env.sequence.val ≤ t.deadline.val := by
    rw [← hst.stage.terms.2.2]
    exact hinTime.resolve_left
  have hpays' : ∀ a : I128, a.val = t.share (balanceIn t.eligible holder) →
      ∃ x', w.recorded.transfer h.outside t.paymentToken this holder a = some x' := by
    intro a ha
    obtain ⟨x', hx'⟩ := hpays a ha
    exact ⟨_, Option.map_eq_some_iff.2 ⟨x', hx', rfl⟩⟩
  obtain ⟨-, h', hclaim, -, -⟩ :=
    hst.claim_of_pays hd hopen ⟨hmem, hpos, hfits _ hmem, hsigned, hdeadline⟩ hunclaimed hpays'
  refine ⟨amount, hclaimable, fun h₁ hclaim₁ => ⟨d, hd, ?_⟩, iff_of_false (by omega) fun hno => hno h' hclaim⟩
  obtain ⟨-, -, -, -, paid, hpaid, hlog⟩ := hst.claim_inv hd hclaim₁
  obtain rfl : amount = paid := MInt.val_inj.1 (hamount.trans hpaid.symm)
  exact hlog

theorem Standing.truthful_iff (hst : Standing tr t id h.storage d) (hd : h.storage.dist.get id = some d)
    (hfits : ∀ e ∈ t.eligible, t.totalAmount.val * e.2.val ≤ 2 ^ 127 - 1) (hsigned : env.authorized holder = true)
    (hpays : ∀ amount : I128, amount.val = t.share (balanceIn t.eligible holder) →
      ∃ x', w.transfer h.outside.1 t.paymentToken this holder amount = some x') :
    Truthful w this env id holder h ↔ d.deadline = 0 ∨ env.sequence.val ≤ d.deadline.val ∨ d.completed = true ∨
      hasClaimed h.storage id holder = true ∨ t.share (balanceIn t.eligible holder) = 0 := by
  constructor
  · rintro ⟨amount, hclaimable, -, hzero⟩
    by_contra hlate
    simp only [not_or, Bool.not_eq_true] at hlate
    obtain ⟨hdeadline, hpast, hopen, hunclaimed, hne⟩ := hlate
    obtain ⟨amount', hclaimable', hamount⟩ := hst.claimable_eq hd hfits holder
    rw [if_neg (by simp [hopen, hunclaimed])] at hamount
    cases hclaimable.symm.trans hclaimable'
    refine hne (hamount ▸ hzero.2 fun h' hclaim => ?_)
    exact hpast ((hst.claim_inv hd hclaim).1 hdeadline)
  · rintro (hnone | hinTime | hover)
    · exact hst.truthful_of_inTime hd hfits hsigned hpays (.inl hnone)
    · exact hst.truthful_of_inTime hd hfits hsigned hpays (.inr hinTime)
    · exact hst.truthful_of_over hd hfits hover

/-- **When the view tells the truth.** In every run, for every distribution whose products fit and every holder, at
every ledger: when the transfer of the share would succeed, `claimable` is what a claim signed by the holder would
transfer, and zero exactly when it would be rejected, if and only if the distribution has no deadline, or its ledger has
not passed, or the distribution is completed, or the holder has claimed already or has no share. -/
theorem claimable_truthful_iff (w : World Address X A) (this : Address) (x : X) (ls : List (Label Address A)) :
    let tr := (dividend w.recorded this).trace (Contract.fresh Address (x, [])) ls
    let h := (dividend w.recorded this).run (Contract.fresh Address (x, [])) ls
    ∀ id o d, Created tr id o → h.storage.dist.get id = some d →
      (∀ e ∈ o.eligible, o.totalAmount.val * e.2.val ≤ 2 ^ 127 - 1) →
      ∀ (env : Env Address) holder, env.authorized holder = true →
        (∀ amount : I128, amount.val = o.share (balanceIn o.eligible holder) →
          ∃ x', w.transfer h.outside.1 o.paymentToken this holder amount = some x') →
        (Truthful w this env id holder h ↔ d.deadline = 0 ∨ env.sequence.val ≤ d.deadline.val ∨ d.completed = true ∨
          hasClaimed h.storage id holder = true ∨ o.share (balanceIn o.eligible holder) = 0) := by
  intro tr h id o d hcreated hd hfits env holder hsigned hpays
  have hl : Lifecycle tr h.storage := run_lifecycle w.recorded this (x, []) ls
  obtain ⟨t, rfl, d', hd', hst⟩ := hl.standing id o hcreated
  obtain rfl : d = d' := Option.some.inj (hd.symm.trans hd')
  exact hst.truthful_iff hd hfits hsigned hpays

/-- The admin 1 of the contract 9 escrows 100 for 2 and 3 by the weights 1 and 2, to be claimed until the ledger 5. -/
def limitedRun : List (Label ℕ (ℕ × ℕ × ℕ)) :=
  [.others (20, 1, 100), .call (.signed 0) (.initializeDividend 1),
    .call (.signed 0) (.createDistributionDeadline 1 10 20 100 [(2, 1), (3, 2)] 5)]

/-- The terms of the distribution of `limitedRun`. -/
def limitedOffer : Offer ℕ := ⟨10, 20, 100, [(2, 1), (3, 2)], 5⟩

/-- At the ledger 5 the view of 3 is true. -/
theorem claimable_truthful_iff_limited :
    Truthful (Ledgers.world 1 1) 9 (.signed 5) 1 3
      ((dividend (Ledgers.world 1 1).recorded 9).run (Contract.fresh ℕ (∅, [])) limitedRun) := by
  have hcreated : Created ((dividend (Ledgers.world 1 1).recorded 9).trace (Contract.fresh ℕ (∅, [])) limitedRun) 1
      limitedOffer := by
    unfold Created
    decide +kernel
  have hrecord : (((dividend (Ledgers.world 1 1).recorded 9).run (Contract.fresh ℕ (∅, [])) limitedRun).storage.dist.get
      1).map (fun d => d.deadline) = some 5 := by decide +kernel
  have hbalance : Ledgers.balance ((dividend (Ledgers.world 1 1).recorded 9).run (Contract.fresh ℕ (∅, []))
      limitedRun).outside.1 limitedOffer.paymentToken 9 = 100 := by decide +kernel
  have hshare : limitedOffer.share (balanceIn limitedOffer.eligible 3) = 66 := by decide
  obtain ⟨d, hd, hdeadline⟩ := Option.map_eq_some_iff.1 hrecord
  refine (claimable_truthful_iff (Ledgers.world 1 1) 9 ∅ limitedRun 1 limitedOffer d hcreated hd (by decide)
    (.signed 5) 3 rfl fun amount hamount => ?_).2 (.inr (.inl (by rw [hdeadline]; decide)))
  have hpaid : amount.val = 66 := hamount.trans hshare
  exact (Ledgers.live 1 1 9).pays 3 (by omega) (by rw [hbalance, hpaid]; decide)

/-- At the ledger 6 it shows 66, and the claim is rejected. -/
theorem claimable_untruthful_late :
    let h := (dividend (Ledgers.world 1 1).recorded 9).run (Contract.fresh ℕ (∅, [])) limitedRun
    (∃ x', (Ledgers.world 1 1).transfer h.outside.1 20 9 3 66 = some x') ∧
      (claimable 1 3 h : Except _ _).map Prod.fst = .ok 66 ∧
      (claim (Ledgers.world 1 1).recorded 9 (.signed 6) 1 3 h).map Prod.fst = .error (.error .deadlinePassed) ∧
      ¬ Truthful (Ledgers.world 1 1) 9 (.signed 6) 1 3 h := by
  intro h
  have hbalance : Ledgers.balance h.outside.1 20 9 = 100 := by decide +kernel
  have hview : (claimable 1 3 h : Except _ _).map Prod.fst = .ok 66 := by decide +kernel
  have hrejected : (claim (Ledgers.world 1 1).recorded 9 (.signed 6) 1 3 h).map Prod.fst =
      .error (.error .deadlinePassed) := by decide +kernel
  refine ⟨(Ledgers.live 1 1 9).pays 3 (by decide) (by rw [hbalance]; decide), hview, hrejected, ?_⟩
  rintro ⟨amount, hclaimable, -, hzero⟩
  rw [hclaimable] at hview
  cases hview
  have hnone : (66 : I128).val = 0 := hzero.2 fun h' hclaim => by
    rw [hclaim] at hrejected
    cases hrejected
  exact absurd hnone (by decide)

end Truth

end StellarRwa.Dividend
