import StellarRwa.Dividend.Lifecycle
import StellarRwa.Dividend.Tokens

/-!
# The snapshot of a distribution

Creation accepts exactly the lists that are not empty, with distinct addresses and non-negative balances whose sum fits,
and freezes them as they are (`Acceptable.answered`, `createDistributionDeadline_frozen`); their order does not matter
(`snapshot_exact`). What it does not check is that a listed share is worth anything (`claimable_created_iff`).
-/

namespace StellarRwa.Dividend

open Lib

variable {Address X A : Type} [DecidableEq Address]

/-! ## The order of a list -/

section Order

variable {l l' : List (Address × I128)} {sum : I128}

omit [DecidableEq Address] in
/-- Some sum is that of the list when the exact sum fits. -/
theorem exists_listed_iff :
    (∃ sum, Listed l sum) ↔
      (∀ e ∈ l, 0 ≤ e.2.val) ∧ (l.map Prod.fst).Nodup ∧ (l.map fun e => e.2.val).sum ≤ 2 ^ 127 - 1 := by
  constructor
  · rintro ⟨sum, hlisted⟩
    exact ⟨hlisted.nonneg, hlisted.distinct, hlisted.sum ▸ sum.le_hi⟩
  · rintro ⟨hnonneg, hdistinct, hfits⟩
    have hsum : 0 ≤ (l.map fun e => e.2.val).sum := by
      refine List.sum_nonneg fun n hn => ?_
      obtain ⟨e, he, rfl⟩ := List.mem_map.1 hn
      exact hnonneg e he
    obtain ⟨sum, hval⟩ : ∃ sum : I128, sum.val = (l.map fun e => e.2.val).sum := MInt.exists_val (by omega) hfits
    exact ⟨sum, hdistinct, hnonneg, hval⟩

omit [DecidableEq Address] in
theorem Listed.perm (hlisted : Listed l sum) (hperm : l.Perm l') : Listed l' sum where
  distinct := (hperm.map Prod.fst).nodup_iff.1 hlisted.distinct
  nonneg e he := hlisted.nonneg e (hperm.mem_iff.2 he)
  sum := hlisted.sum.trans (hperm.map _).sum_eq

/-- An address that is not listed has no balance. -/
theorem balanceIn_of_not_mem {a : Address} (h : ∀ b, (a, b) ∉ l) : balanceIn l a = 0 := by
  have hnone : l.find? (fun e => e.1 = a) = none := by
    refine List.find?_eq_none.2 fun e he ha => ?_
    obtain rfl : e.1 = a := of_decide_eq_true ha
    exact h e.2 he
  rw [balanceIn, hnone]
  rfl

/-- The first entry for an address is the only one, so the order does not matter. -/
theorem balanceIn_perm (hdistinct : (l.map Prod.fst).Nodup) (hperm : l.Perm l') (a : Address) :
    balanceIn l a = balanceIn l' a := by
  by_cases hmem : ∃ b, (a, b) ∈ l
  · obtain ⟨b, hb⟩ := hmem
    rw [balanceIn_of_mem hdistinct hb,
      balanceIn_of_mem ((hperm.map Prod.fst).nodup_iff.1 hdistinct) (hperm.mem_iff.1 hb)]
  · push Not at hmem
    rw [balanceIn_of_not_mem hmem, balanceIn_of_not_mem fun b hb => hmem b (hperm.mem_iff.2 hb)]

end Order

/-! ## What `claimable` reads -/

section Claimable

variable {h₁ h₂ : Contract Address X} {id : U64} {holder : Address}

/-- `claimable` reads the record, the flag, the sum, and of the list the balance of the holder. -/
theorem claimable_congr (hdist : h₁.storage.dist.get id = h₂.storage.dist.get id)
    (hflag : hasClaimed h₁.storage id holder = hasClaimed h₂.storage id holder)
    (hsupply : loadSupply h₁.storage id = loadSupply h₂.storage id)
    (hsnapshot : (h₁.storage.snapshot.get id).map (fun snap => balanceIn snap holder) =
      (h₂.storage.snapshot.get id).map fun snap => balanceIn snap holder) :
    (claimable id holder h₁ : Except _ _).map Prod.fst = (claimable id holder h₂).map Prod.fst := by
  unfold claimable
  cases hd : h₂.storage.dist.get id with
  | none =>
    rw [Call.bind_eq_of_error (load_error.2 ⟨hdist.trans hd, rfl⟩), Call.bind_eq_of_error (load_error.2 ⟨hd, rfl⟩)]
  | some d =>
    rw [Call.bind_eq_of_ok (load_ok.2 ⟨d, hdist.trans hd, rfl⟩), Call.bind_eq_of_ok (load_ok.2 ⟨d, hd, rfl⟩),
      Call.bind_eq_of_ok (Call.storage_ok.2 rfl), Call.bind_eq_of_ok (Call.storage_ok.2 rfl), hflag, hsupply]
    dsimp only
    -- the same branch is taken at both until the list is read
    split
    · rfl
    split
    · rfl
    cases hs : h₂.storage.snapshot.get id with
    | none =>
      rw [hs, Option.map_none, Option.map_eq_none_iff] at hsnapshot
      rw [Call.bind_eq_of_error (snapshotBalance_error.2 ⟨hsnapshot, rfl⟩),
        Call.bind_eq_of_error (snapshotBalance_error.2 ⟨hs, rfl⟩)]
    | some snap =>
      rw [hs, Option.map_some] at hsnapshot
      obtain ⟨snap₁, hs₁, hbalance⟩ := Option.map_eq_some_iff.1 hsnapshot
      rw [Call.bind_eq_of_ok (snapshotBalance_ok.2 ⟨snap₁, hs₁, rfl⟩),
        Call.bind_eq_of_ok (snapshotBalance_ok.2 ⟨snap, hs, rfl⟩), hbalance]
      split
      · rfl
      -- what is left reads nothing of the state
      cases d.totalAmount.checkedMul (balanceIn snap holder) with
      | none => rfl
      | some product =>
        show (Call.orTrap (product.checkedDiv _) h₁ : Except _ _).map Prod.fst =
          (Call.orTrap (product.checkedDiv _) h₂).map Prod.fst
        cases product.checkedDiv (loadSupply h₂.storage id) <;> rfl

end Claimable

/-! ## What creation accepts -/

section Creation

variable {w : World Address X A} {this : Address} {env : Env Address} {h h₁ h₂ : Contract Address X}
  {admin assetToken paymentToken : Address} {totalAmount sum : I128} {deadline : U32} {id id₁ id₂ : U64}
  {l l' : List (Address × I128)}

/-- What creation checks besides the list: the signature, the amount, the deadline, the supply of the asset token, that
the escrow is paid in, and that there is a next id. -/
structure Acceptable (w : World Address X A) (this : Address) (env : Env Address) (h : Contract Address X)
    (admin assetToken paymentToken : Address) (totalAmount : I128) (deadline : U32) : Prop where
  signed : SignedFor w env h.storage h.outside admin assetToken
  pos : 0 < totalAmount.val
  inTime : deadline ≠ 0 → env.sequence.val ≤ deadline.val
  supply : ∃ n, w.totalSupply h.outside assetToken = some n ∧ 0 < n.val
  funded : ∃ x, w.transfer h.outside paymentToken admin this totalAmount = some x
  numbered : (h.storage.counter.getD 0).val < 2 ^ 64 - 1

theorem Acceptable.answered
    (ha : Acceptable w this env h admin assetToken paymentToken totalAmount deadline) :
    (∃ r, createDistributionDeadline w this env admin assetToken paymentToken totalAmount l deadline h = .ok r) ↔
      l ≠ [] ∧ ∃ sum, Listed l sum := by
  constructor
  · rintro ⟨r, hrun⟩
    obtain ⟨-, -, -, n, -, -, hne, sum, hlisted, -⟩ := createDistributionDeadline_ok.1 hrun
    exact ⟨hne, sum, hlisted⟩
  · rintro ⟨hne, sum, hlisted⟩
    obtain ⟨n, hn, hpos⟩ := ha.supply
    obtain ⟨x, hx⟩ := ha.funded
    have hroom := ha.numbered
    have hlo := (h.storage.counter.getD 0).lo_le
    exact ⟨_, createDistributionDeadline_ok.2 ⟨ha.signed, ha.pos, ha.inTime, n, hn, hpos, hne, sum, hlisted, x, hx,
      ⟨(h.storage.counter.getD 0).val + 1, by omega, by omega⟩, rfl, rfl⟩⟩

/-- The list is frozen as it is, with its exact sum. -/
theorem createDistributionDeadline_frozen
    (hrun : createDistributionDeadline w this env admin assetToken paymentToken totalAmount l deadline h =
      .ok (id, h₁)) :
    h₁.storage.snapshot.get id = some l ∧
      ∃ sum, h₁.storage.supply.get id = some sum ∧ sum.val = (l.map fun e => e.2.val).sum := by
  obtain ⟨-, -, -, n, -, -, -, sum, hlisted, x, -, id', -, hr⟩ := createDistributionDeadline_ok.1 hrun
  cases hr
  exact ⟨Storage.get_set_self _ _ _, sum, Storage.get_set_self _ _ _, hlisted.sum⟩

/-- Two orders of a list lead to the same id and the same claimable amounts. -/
theorem createDistributionDeadline_perm (hperm : l.Perm l')
    (h₁run : createDistributionDeadline w this env admin assetToken paymentToken totalAmount l deadline h =
      .ok (id₁, h₁))
    (h₂run : createDistributionDeadline w this env admin assetToken paymentToken totalAmount l' deadline h =
      .ok (id₂, h₂)) :
    id₁ = id₂ ∧ ∀ (id : U64) (holder : Address),
      (claimable id holder h₁ : Except _ _).map Prod.fst = (claimable id holder h₂).map Prod.fst := by
  obtain ⟨-, -, -, n, -, -, -, sum, hlisted, x, -, id, hid, hr⟩ := createDistributionDeadline_ok.1 h₁run
  obtain ⟨-, -, -, n', -, -, -, sum', hlisted', x', -, id', hid', hr'⟩ := createDistributionDeadline_ok.1 h₂run
  obtain rfl : id = id' := MInt.val_inj.1 (hid.trans hid'.symm)
  obtain rfl : sum = sum' := MInt.val_inj.1 ((hlisted.perm hperm).sum.trans hlisted'.sum.symm)
  cases hr
  cases hr'
  refine ⟨rfl, fun j holder => claimable_congr rfl rfl rfl ?_⟩
  show ((h.storage.snapshot.set _ l).get j).map _ = ((h.storage.snapshot.set _ l').get j).map _
  rw [Storage.get_set, Storage.get_set]
  split
  · exact congrArg some (balanceIn_perm hlisted.distinct hperm holder)
  · rfl

/-- **Validation of the snapshot is exact and order-free.** When everything else is acceptable, a creation is answered
exactly when the list is not empty, no balance is negative, no address is listed twice and the exact sum of the balances
is at most `i128::MAX`; it stores the list and that sum; and a permutation of the list changes neither whether it is
answered nor what anybody can claim afterwards. -/
theorem snapshot_exact (ha : Acceptable w this env h admin assetToken paymentToken totalAmount deadline) :
    let create := fun l =>
      (createDistributionDeadline w this env admin assetToken paymentToken totalAmount l deadline h : Except _ _)
    (∀ l, (∃ r, create l = .ok r) ↔
        l ≠ [] ∧ (∀ e ∈ l, 0 ≤ e.2.val) ∧ (l.map Prod.fst).Nodup ∧ (l.map fun e => e.2.val).sum ≤ 2 ^ 127 - 1) ∧
      (∀ l id h', create l = .ok (id, h') → h'.storage.snapshot.get id = some l ∧
        ∃ sum, h'.storage.supply.get id = some sum ∧ sum.val = (l.map fun e => e.2.val).sum) ∧
      ∀ l l', l.Perm l' → ((∃ r, create l = .ok r) ↔ ∃ r, create l' = .ok r) ∧
        ∀ id₁ h₁ id₂ h₂, create l = .ok (id₁, h₁) → create l' = .ok (id₂, h₂) → id₁ = id₂ ∧
          ∀ id holder, (claimable id holder h₁ : Except _ _).map Prod.fst = (claimable id holder h₂).map Prod.fst := by
  intro create
  refine ⟨fun l => ?_, fun l id h' hrun => createDistributionDeadline_frozen hrun, fun l l' hperm => ⟨?_, ?_⟩⟩
  · rw [ha.answered, exists_listed_iff]
  · have hnil : l = [] ↔ l' = [] := by
      rw [← List.length_eq_zero_iff, hperm.length_eq, List.length_eq_zero_iff]
    have hlisted : (∃ sum, Listed l sum) ↔ ∃ sum, Listed l' sum :=
      ⟨fun ⟨sum, hs⟩ => ⟨sum, hs.perm hperm⟩, fun ⟨sum, hs⟩ => ⟨sum, hs.perm hperm.symm⟩⟩
    rw [ha.answered, ha.answered, ne_eq, hnil, hlisted]
  · intro id₁ h₁ id₂ h₂ h₁run h₂run
    exact createDistributionDeadline_perm hperm h₁run h₂run

/-- The contract 9 of the admin 1, who holds 100 of token 20. -/
def fundedRun : List (Label ℕ (ℕ × ℕ × ℕ)) := [.others (20, 1, 100), .call (.signed 0) (.initializeDividend 1)]

/-- It accepts the list of 2 and 3 with the weights 1 and 2 in both orders. -/
theorem snapshot_exact_funded :
    let h := (dividend (Ledgers.world 1 1) 9).run (Contract.fresh ℕ ∅) fundedRun
    (∃ r, createDistributionDeadline (Ledgers.world 1 1) 9 (.signed 0) 1 10 20 100 [(2, 1), (3, 2)] 0 h = .ok r) ∧
      ∃ r, createDistributionDeadline (Ledgers.world 1 1) 9 (.signed 0) 1 10 20 100 [(3, 2), (2, 1)] 0 h = .ok r := by
  intro h
  have hadmin : h.storage.roles.admin = some 1 := by decide +kernel
  have hfunded : ((Ledgers.world 1 1).transfer h.outside 20 1 9 100).isSome := by decide +kernel
  have hcounter : (h.storage.counter.getD 0).val = 0 := by decide +kernel
  have ha : Acceptable (Ledgers.world 1 1) 9 (.signed 0) h 1 10 20 100 0 :=
    ⟨⟨⟨1, hadmin, .inl rfl⟩, rfl⟩, by decide, fun hno => absurd rfl hno, ⟨1, rfl, by decide⟩,
      Option.isSome_iff_exists.1 hfunded, by omega⟩
  obtain ⟨hexact, -, horder⟩ := snapshot_exact ha
  have hfirst := (hexact [(2, 1), (3, 2)]).2 (by decide)
  exact ⟨hfirst, ((horder [(2, 1), (3, 2)] [(3, 2), (2, 1)] (List.Perm.swap _ _ _)).1).1 hfirst⟩

end Creation

/-! ## Whether anybody can claim -/

section Claimable

variable {w : World Address X A} {this : Address} {env : Env Address} {s s' : State Address} {x x' : X}
  {op : Op Address}
  {admin : Address} {o : Offer Address} {id : U64} {t : Terms Address}

omit [DecidableEq Address] in
/-- A share is positive when the product reaches the sum. -/
theorem Terms.share_pos_iff {b : I128} :
    0 < t.share b ↔ 0 < t.supply.val ∧ t.supply.val ≤ t.totalAmount.val * b.val := by
  constructor
  · intro hshare
    obtain ⟨hpos, -⟩ := Terms.pos_of_share_pos hshare
    have hone : 1 * t.supply.val ≤ t.totalAmount.val * b.val := by
      rw [Offer.share, t.sum_eq] at hshare
      exact (Int.le_ediv_iff_mul_le hpos).1 hshare
    exact ⟨hpos, by omega⟩
  · rintro ⟨hpos, hle⟩
    rw [Offer.share, t.sum_eq]
    exact (Int.le_ediv_iff_mul_le hpos).2 (by omega)

/-- A creation opens a record with accepted terms under the next id. -/
theorem Effect.opens (heffect : Effect w this env s x op (.id id) s' x') (hoffer : op.offer = some (admin, o)) :
    ∃ t : Terms Address, t.toOffer = o ∧ id.val = (s.counter.getD 0).val + 1 ∧
      s' = s.opened (t.record id 0 false false) t.eligible t.supply := by
  cases heffect with
  | @opened _ _ o' sum _ _ hop _ hpos _ _ hlisted hid _ =>
    obtain ⟨-, rfl⟩ := Prod.mk.inj (Option.some.inj (hop.symm.trans hoffer))
    exact ⟨⟨o', env.sequence, sum, hpos, hlisted⟩, rfl, hid, rfl⟩

/-- What is due from a distribution that was just opened. -/
theorem due_opened {holder : Address} :
    (∃ amount, Due (s.opened (t.record id 0 false false) t.eligible t.supply) id holder amount) ↔
      ∃ b, (holder, b) ∈ t.eligible ∧ 0 < t.share b ∧ t.totalAmount.val * b.val ≤ 2 ^ 127 - 1 ∧
        hasClaimed s id holder = false := by
  have hd : (s.opened (t.record id 0 false false) t.eligible t.supply).dist.get id = some (t.record id 0 false false) :=
    Storage.get_set_self _ _ _
  have hsnapshot : (s.opened (t.record id 0 false false) t.eligible t.supply).snapshot.get id = some t.eligible :=
    Storage.get_set_self _ _ _
  have hsupply : (s.opened (t.record id 0 false false) t.eligible t.supply).supply.get id = some t.supply :=
    Storage.get_set_self _ _ _
  constructor
  · rintro ⟨amount, hdue⟩
    obtain ⟨b, hmem, -, hshare⟩ := hdue.share hd rfl hsnapshot hsupply
    exact ⟨b, hmem, hshare, hdue.fits hd rfl hsnapshot hmem, hdue.unclaimed⟩
  · rintro ⟨b, hmem, hshare, hfits, hflag⟩
    obtain ⟨amount, hdue, -⟩ := due_of_share hd rfl hsnapshot hsupply hflag hmem hshare hfits
    exact ⟨amount, hdue⟩

/-- **Whether an accepted distribution is claimable by somebody.** Right after a creation `claimable` is positive for a
listed address exactly when some listed balance is worth at least one unit and its product fits, for an address that is
not marked under the new id; in reachable states none is. -/
theorem claimable_created_iff {h h' : Contract Address X} (hoffer : op.offer = some (admin, o))
    (hrun : call w this env op h = .ok (.id id, h')) :
    let sum := (o.eligible.map fun e => e.2.val).sum
    let claimed := ∃ e ∈ o.eligible, ∃ r, (claimable id e.1 h' : Except _ _) = .ok r ∧ 0 < r.1.val
    (claimed ↔ ∃ e ∈ o.eligible, 0 < sum ∧ sum ≤ o.totalAmount.val * e.2.val ∧
        o.totalAmount.val * e.2.val ≤ 2 ^ 127 - 1 ∧ hasClaimed h.storage id e.1 = false) ∧
      ∀ x ls, h = (dividend w this).run (Contract.fresh Address x) ls →
        (claimed ↔ ∃ e ∈ o.eligible, 0 < sum ∧ sum ≤ o.totalAmount.val * e.2.val ∧
          o.totalAmount.val * e.2.val ≤ 2 ^ 127 - 1) := by
  intro sum claimed
  obtain ⟨t, rfl, hid, hs⟩ := (call_effect hrun).opens hoffer
  have hsum : sum = t.supply.val := t.sum_eq
  have hiff : claimed ↔ ∃ e ∈ t.eligible, 0 < sum ∧ sum ≤ t.totalAmount.val * e.2.val ∧
      t.totalAmount.val * e.2.val ≤ 2 ^ 127 - 1 ∧ hasClaimed h.storage id e.1 = false := by
    rw [hsum]
    constructor
    · rintro ⟨e, -, r, hclaimable, hpos⟩
      obtain ⟨hdue, -⟩ := claimable_pos.1 ⟨hclaimable, hpos⟩
      obtain ⟨b, hmem, hshare, hfits, hflag⟩ := due_opened.1 ⟨r.1, hs ▸ hdue⟩
      obtain ⟨hsupply, hle⟩ := Terms.share_pos_iff.1 hshare
      exact ⟨(e.1, b), hmem, hsupply, hle, hfits, hflag⟩
    · rintro ⟨e, hmem, hsupply, hle, hfits, hflag⟩
      obtain ⟨amount, hdue⟩ := due_opened.2 ⟨e.2, hmem, Terms.share_pos_iff.2 ⟨hsupply, hle⟩, hfits, hflag⟩
      rw [← hs] at hdue
      exact ⟨e, hmem, (amount, h'), claimable_pos.2 ⟨hdue, rfl⟩⟩
  refine ⟨hiff, fun x ls hreached => ?_⟩
  have hl : Lifecycle _ h.storage := hreached ▸ run_lifecycle w this x ls
  rw [hiff]
  simp only [hl.unclaimed_next hid, and_true]

/-- For the weights 1 and 2, 100 is claimable. -/
theorem claimable_created_iff_funded :
    ∃ h', call (Ledgers.world 1 1) 9 (.signed 0) (.createDistribution 1 10 20 100 [(2, 1), (3, 2)])
        ((dividend (Ledgers.world 1 1) 9).run (Contract.fresh ℕ ∅) fundedRun) = .ok (.id 1, h') ∧
      ∃ e ∈ [((2 : ℕ), (1 : I128)), (3, 2)], ∃ r, (claimable 1 e.1 h' : Except _ _) = .ok r ∧ 0 < r.1.val := by
  have hanswered : (call (Ledgers.world 1 1) 9 (.signed 0) (.createDistribution 1 10 20 100 [(2, 1), (3, 2)])
      ((dividend (Ledgers.world 1 1) 9).run (Contract.fresh ℕ ∅) fundedRun)).map Prod.fst = .ok (.id 1) := by
    decide +kernel
  obtain ⟨h', hrun⟩ := Call.exists_of_map_fst hanswered
  refine ⟨h', hrun, ?_⟩
  exact ((claimable_created_iff (o := ⟨10, 20, 100, [(2, 1), (3, 2)], 0⟩) rfl hrun).2 ∅ fundedRun rfl).2 (by decide)

/-- A list with the balance zero only is accepted, and nobody can claim. -/
theorem claimable_created_worthless :
    ∃ h', call (Ledgers.world 1 1) 9 (.signed 0) (.createDistribution 1 10 20 100 [(2, 0)])
        ((dividend (Ledgers.world 1 1) 9).run (Contract.fresh ℕ ∅) fundedRun) = .ok (.id 1, h') ∧
      ¬ ∃ e ∈ [((2 : ℕ), (0 : I128))], ∃ r, (claimable 1 e.1 h' : Except _ _) = .ok r ∧ 0 < r.1.val := by
  have hanswered : (call (Ledgers.world 1 1) 9 (.signed 0) (.createDistribution 1 10 20 100 [(2, 0)])
      ((dividend (Ledgers.world 1 1) 9).run (Contract.fresh ℕ ∅) fundedRun)).map Prod.fst = .ok (.id 1) := by
    decide +kernel
  obtain ⟨h', hrun⟩ := Call.exists_of_map_fst hanswered
  refine ⟨h', hrun, ?_⟩
  rintro ⟨e, -, r, hclaimable, hpos⟩
  obtain ⟨t, ht, -, hs⟩ := (call_effect hrun).opens rfl
  obtain ⟨hdue, -⟩ := claimable_pos.1 ⟨hclaimable, hpos⟩
  obtain ⟨b, -, hshare, -⟩ := due_opened.1 ⟨r.1, hs ▸ hdue⟩
  obtain ⟨hsupply, -⟩ := Terms.share_pos_iff.1 hshare
  rw [← t.sum_eq, ht] at hsupply
  exact absurd hsupply (by decide)

end Claimable

end StellarRwa.Dividend
