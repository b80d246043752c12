import StellarRwa.Registry.Totals

/-!
# Overflow of the running totals

The total value locked is the sum of non-negative valuations and the active count is at most the number of entries, so
taking an entry out never underflows and counting one more never overflows (`Totalled.worth_le`,
`Totalled.activeCount_lt`). What is left is the total itself: a call that adds to it overflows exactly when the sum over
the entries as they would be afterwards does not fit (`registry_overflow_exact`).
-/

namespace StellarRwa.Registry

open Lib

variable {Address X : Type} {assetAdmin : X → Address → Option Address} {s s' : State Address} {id : U64}
  {e e' : AssetEntry Address}

/-! ## Room in the totals -/

theorem worth_nonneg (hval : 0 ≤ e.valuation.val) : 0 ≤ worth e := by
  unfold worth
  split
  · exact hval
  · exact le_refl 0

/-- No entry is worth more than the total. -/
theorem Totalled.worth_le (ht : Totalled s) (he : s.asset.get id = some e) :
    worth e ≤ (totalValueLocked s).val := by
  rw [ht.tvl]
  exact Storage.le_sum (fun id e he => worth_nonneg (ht.valuation id e he)) he

theorem counted_le_one (e : AssetEntry Address) : counted e ≤ 1 := by
  unfold counted
  split <;> decide

theorem Totalled.activeCount_le (ht : Totalled s) : (activeCount s).val ≤ (assetCount s).val := by
  rw [ht.count]
  exact ht.ids.sum_le fun _ e _ => counted_le_one e

/-- An entry that is not active is not counted, so there is room for one more. -/
theorem Totalled.activeCount_lt (ht : Totalled s) (he : s.asset.get id = some e) (hact : e.active = false) :
    (activeCount s).val < (assetCount s).val := by
  have hle := (ht.ids.replace he { e with active := true }).sum_le
    (f := fun _ e => counted e) fun _ e _ => counted_le_one e
  rw [Storage.sum_set_of_some _ _ he, ← ht.count] at hle
  simp [counted, hact] at hle
  omega

/-- The total when the entry at `id` is replaced. -/
theorem Totalled.sum_set (ht : Totalled s) (he : s.asset.get id = some e) :
    ((s.asset.set id e').sum fun _ e => worth e) = (totalValueLocked s).val - worth e + worth e' := by
  rw [Storage.sum_set_of_some _ _ he, ← ht.tvl]

/-- Taking an active entry out leaves a total in range. -/
theorem Totalled.rest_fits (ht : Totalled s) (he : s.asset.get id = some e) (hact : e.active = true) :
    0 ≤ (totalValueLocked s).val - e.valuation.val ∧ (totalValueLocked s).val - e.valuation.val ≤ 2 ^ 127 - 1 := by
  have hle := ht.worth_le he
  have hval := ht.valuation id e he
  have hhi := (totalValueLocked s).le_hi
  rw [worth, if_pos hact] at hle
  omega

variable [DecidableEq Address] {env : Env Address} {h h' : Contract Address X}

/-! ## When a call overflows -/

section Faults

variable {issuer tokenContract admin : Address} {name assetType : Bytes} {valuation newValuation : I128}

/-- The check of a signer does not overflow. -/
theorem signer_not_overflow (token : Address) :
    ((administered Address).requireAdminOrAssetAdmin assetAdmin env admin token : M Address X Unit) h ≠
      .error (.error .overflow) := by
  intro hrun
  rcases Administered.requireAdminOrAssetAdmin_error hrun with hf | hf | hf <;> cases hf

theorem registerAsset_overflow :
    (registerAsset env issuer tokenContract name assetType valuation : M Address X U64) h =
        .error (.error .overflow) ↔
      h.storage.roles.admin ≠ none ∧ env.authorized issuer = true ∧ 0 ≤ valuation.val ∧ name.length ≠ 0 ∧
      name.length ≤ 64 ∧ assetType ∈ validAssetTypes ∧ h.storage.tokenContractIndex.get tokenContract = none ∧
      (∃ id : U64, id.val = (assetCount h.storage).val + 1) ∧
      (∃ count : U64, count.val = (activeCount h.storage).val + 1) ∧
      ((totalValueLocked h.storage).val + valuation.val < -2 ^ 127 ∨
        2 ^ 127 - 1 < (totalValueLocked h.storage).val + valuation.val) := by
  simp [registerAsset, assertInit, validateAssetType, Storage.has_eq_false, MInt.lt_def, assetCount, activeCount,
    totalValueLocked]

theorem deactivateAsset_overflow :
    deactivateAsset assetAdmin env admin id h = .error (.error .overflow) ↔
      ∃ entry, h.storage.asset.get id = some entry ∧ SignedFor assetAdmin env h admin entry.tokenContract ∧
        entry.active = true ∧
        ((totalValueLocked h.storage).val - entry.valuation.val < -2 ^ 127 ∨
          2 ^ 127 - 1 < (totalValueLocked h.storage).val - entry.valuation.val) := by
  simp [deactivateAsset, SignedFor, signer_not_overflow, totalValueLocked]

theorem reactivateAsset_overflow :
    reactivateAsset assetAdmin env admin id h = .error (.error .overflow) ↔
      ∃ entry, h.storage.asset.get id = some entry ∧ SignedFor assetAdmin env h admin entry.tokenContract ∧
        entry.active = false ∧ (∃ count : U64, count.val = (activeCount h.storage).val + 1) ∧
        ((totalValueLocked h.storage).val + entry.valuation.val < -2 ^ 127 ∨
          2 ^ 127 - 1 < (totalValueLocked h.storage).val + entry.valuation.val) := by
  simp [reactivateAsset, SignedFor, signer_not_overflow, activeCount, totalValueLocked]

/-- The total is first lowered by the old valuation and then raised by the new one; either may leave the range. -/
theorem updateValuation_overflow :
    (updateValuation env admin id newValuation : M Address X Unit) h = .error (.error .overflow) ↔
      h.storage.roles.admin = some admin ∧ env.authorized admin = true ∧ 0 ≤ newValuation.val ∧
      ∃ entry, h.storage.asset.get id = some entry ∧ entry.active = true ∧
        (((totalValueLocked h.storage).val - entry.valuation.val < -2 ^ 127 ∨
            2 ^ 127 - 1 < (totalValueLocked h.storage).val - entry.valuation.val) ∨
          ∃ rest : I128, rest.val = (totalValueLocked h.storage).val - entry.valuation.val ∧
            (rest.val + newValuation.val < -2 ^ 127 ∨ 2 ^ 127 - 1 < rest.val + newValuation.val)) := by
  simp [updateValuation, Administered.requireAdmin, administered, revalueTotal, MInt.lt_def, totalValueLocked]

/-! ## Calls whose other checks pass -/

/-- Every check of a registration other than the one of the total: the caller's, and the next id fits. -/
structure Registrable (env : Env Address) (s : State Address) (issuer tokenContract : Address)
    (name assetType : Bytes) (valuation : I128) : Prop where
  initialized : s.roles.admin ≠ none
  signed : env.authorized issuer = true
  valuation : 0 ≤ valuation.val
  named : name.length ≠ 0 ∧ name.length ≤ 64
  typed : assetType ∈ validAssetTypes
  unlisted : s.tokenContractIndex.get tokenContract = none
  numbered : (assetCount s).val < 2 ^ 64 - 1

theorem deactivateAsset_never (ht : Totalled h.storage) :
    deactivateAsset assetAdmin env admin id h ≠ .error (.error .overflow) := by
  intro hrun
  obtain ⟨entry, he, -, hact, hout⟩ := deactivateAsset_overflow.1 hrun
  have := ht.rest_fits he hact
  omega

/-- A registration is accepted when its checks pass and the total has room for it. -/
theorem registerAsset_accepted (ht : Totalled h.storage) :
    (∃ r, (registerAsset env issuer tokenContract name assetType valuation : M Address X U64) h = .ok r) ↔
      Registrable env h.storage issuer tokenContract name assetType valuation ∧
        (totalValueLocked h.storage).val + valuation.val ≤ 2 ^ 127 - 1 := by
  constructor
  · rintro ⟨r, hrun⟩
    obtain ⟨hinit, hsigned, hval, hname, hlen, htyped, hnew, id, hid, -, -, tvl, htvl, -⟩ := registerAsset_ok.1 hrun
    have hid' := id.le_hi
    have htvl' := tvl.le_hi
    exact ⟨⟨hinit, hsigned, hval, ⟨hname, hlen⟩, htyped, hnew, by omega⟩, by omega⟩
  · rintro ⟨⟨hinit, hsigned, hval, ⟨hname, hlen⟩, htyped, hnew, hnum⟩, hfits⟩
    have hids := (assetCount h.storage).lo_le
    have hpos := (activeCount h.storage).lo_le
    have hle := ht.activeCount_le
    have hlo := (totalValueLocked h.storage).lo_le
    obtain ⟨id, hid⟩ : ∃ id : U64, id.val = (assetCount h.storage).val + 1 := MInt.exists_val (by omega) (by omega)
    obtain ⟨count, hcount⟩ : ∃ count : U64, count.val = (activeCount h.storage).val + 1 :=
      MInt.exists_val (by omega) (by omega)
    obtain ⟨tvl, htvl⟩ : ∃ tvl : I128, tvl.val = (totalValueLocked h.storage).val + valuation.val :=
      MInt.exists_val (by omega) (by omega)
    exact ⟨_, registerAsset_ok.2 ⟨hinit, hsigned, hval, hname, hlen, htyped, hnew, id, hid, count, hcount, tvl, htvl,
      rfl⟩⟩

/-- A registration whose checks pass overflows when the total has no room for it. -/
theorem registerAsset_overflows (ht : Totalled h.storage)
    (hr : Registrable env h.storage issuer tokenContract name assetType valuation)
    (hout : 2 ^ 127 - 1 < (totalValueLocked h.storage).val + valuation.val) :
    (registerAsset env issuer tokenContract name assetType valuation : M Address X U64) h =
      .error (.error .overflow) := by
  have hids := (assetCount h.storage).lo_le
  have hpos := (activeCount h.storage).lo_le
  have hle := ht.activeCount_le
  have hnum := hr.numbered
  exact registerAsset_overflow.2 ⟨hr.initialized, hr.signed, hr.valuation, hr.named.1, hr.named.2, hr.typed,
    hr.unlisted, MInt.exists_val (by omega) (by omega), MInt.exists_val (by omega) (by omega), .inr hout⟩

theorem registerAsset_outcome (entry : AssetEntry Address) (ht : Totalled h.storage)
    (hr : Registrable env h.storage issuer tokenContract name assetType valuation)
    (hid : entry.id.val = (assetCount h.storage).val + 1) (hval : entry.valuation = valuation)
    (hact : entry.active = true) :
    ((registerAsset env issuer tokenContract name assetType valuation : M Address X U64) h =
        .error (.error .overflow) ↔ 2 ^ 127 - 1 < (h.storage.asset.set entry.id entry).sum fun _ e => worth e) ∧
      ((∃ r, (registerAsset env issuer tokenContract name assetType valuation : M Address X U64) h = .ok r) ↔
        ((h.storage.asset.set entry.id entry).sum fun _ e => worth e) ≤ 2 ^ 127 - 1) := by
  rw [Storage.sum_set_of_none _ _ (ht.ids.get_next hid), ← ht.tvl, worth, if_pos hact, hval]
  refine Call.outcome_iff (fun hfits => ?_) fun hout => ?_
  · exact (registerAsset_accepted ht).2 ⟨hr, hfits⟩
  · exact registerAsset_overflows ht hr hout

theorem reactivateAsset_outcome (ht : Totalled h.storage) (he : h.storage.asset.get id = some e)
    (hsigned : SignedFor assetAdmin env h admin e.tokenContract) :
    (reactivateAsset assetAdmin env admin id h = .error (.error .overflow) ↔
        2 ^ 127 - 1 < (h.storage.asset.set id { e with active := true }).sum fun _ e => worth e) ∧
      ((∃ r, reactivateAsset assetAdmin env admin id h = .ok r) ↔
        ((h.storage.asset.set id { e with active := true }).sum fun _ e => worth e) ≤ 2 ^ 127 - 1) := by
  have hval := ht.valuation id e he
  have htvl := (totalValueLocked h.storage).le_hi
  have hlo : 0 ≤ (totalValueLocked h.storage).val := (worth_nonneg hval).trans (ht.worth_le he)
  rw [ht.sum_set he]
  rcases Bool.eq_false_or_eq_true e.active with hact | hact
  · have hsum : (totalValueLocked h.storage).val - worth e + worth { e with active := true } =
        (totalValueLocked h.storage).val := by
      simp [worth, hact]
    rw [hsum]
    exact Call.outcome_iff (fun _ => ⟨_, reactivateAsset_ok.2 ⟨e, he, hsigned, .inl ⟨hact, rfl⟩⟩⟩)
      fun hout => absurd hout (by omega)
  · have hsum : (totalValueLocked h.storage).val - worth e + worth { e with active := true } =
        (totalValueLocked h.storage).val + e.valuation.val := by
      simp [worth, hact]
    have hroom := ht.activeCount_lt he hact
    have hpos := (activeCount h.storage).lo_le
    have hmax := (assetCount h.storage).le_hi
    have hnext : ∃ count : U64, count.val = (activeCount h.storage).val + 1 :=
      MInt.exists_val (by omega) (by omega)
    rw [hsum]
    refine Call.outcome_iff (fun hfits => ?_) fun hout => ?_
    · obtain ⟨count, hcount⟩ := hnext
      exact ⟨_, reactivateAsset_ok.2 ⟨e, he, hsigned, .inr ⟨hact, count, hcount, ⟨_, by omega, by omega⟩, rfl, rfl⟩⟩⟩
    · exact reactivateAsset_overflow.2 ⟨e, he, hsigned, hact, hnext, .inr hout⟩

theorem updateValuation_outcome (ht : Totalled h.storage) (hadmin : h.storage.roles.admin = some admin)
    (hsigned : env.authorized admin = true) (hnew : 0 ≤ newValuation.val)
    (he : h.storage.asset.get id = some e) :
    ((updateValuation env admin id newValuation : M Address X Unit) h = .error (.error .overflow) ↔
        2 ^ 127 - 1 < (h.storage.asset.set id { e with valuation := newValuation }).sum fun _ e => worth e) ∧
      ((∃ r, (updateValuation env admin id newValuation : M Address X Unit) h = .ok r) ↔
        ((h.storage.asset.set id { e with valuation := newValuation }).sum fun _ e => worth e) ≤ 2 ^ 127 - 1) := by
  have htvl := (totalValueLocked h.storage).le_hi
  rw [ht.sum_set he]
  rcases Bool.eq_false_or_eq_true e.active with hact | hact
  · have hsum : (totalValueLocked h.storage).val - worth e + worth { e with valuation := newValuation } =
        (totalValueLocked h.storage).val - e.valuation.val + newValuation.val := by
      simp [worth, hact]
    obtain ⟨hlo, hhi⟩ := ht.rest_fits he hact
    rw [hsum]
    let rest : I128 := ⟨(totalValueLocked h.storage).val - e.valuation.val, by omega, by omega⟩
    refine Call.outcome_iff (fun hfits => ?_) fun hout => ?_
    · exact ⟨_, updateValuation_ok.2 ⟨hadmin, hsigned, hnew, e, he, _,
        .inl ⟨hact, rest, rfl, ⟨rest.val + newValuation.val, by dsimp only [rest]; omega, by dsimp only [rest]; omega⟩,
          rfl, rfl⟩, rfl⟩⟩
    · exact updateValuation_overflow.2 ⟨hadmin, hsigned, hnew, e, he, hact, .inr ⟨rest, rfl, .inr hout⟩⟩
  · have hsum : (totalValueLocked h.storage).val - worth e + worth { e with valuation := newValuation } =
        (totalValueLocked h.storage).val := by
      simp [worth, hact]
    rw [hsum]
    exact Call.outcome_iff (fun _ => ⟨_, updateValuation_ok.2 ⟨hadmin, hsigned, hnew, e, he, _, .inr ⟨hact, rfl⟩, rfl⟩⟩)
      fun hout => absurd hout (by omega)

/-- An asset that is not active is not in the total. -/
theorem updateValuation_inactive (he : h.storage.asset.get id = some e) (hact : e.active = false) :
    (updateValuation env admin id newValuation : M Address X Unit) h ≠ .error (.error .overflow) := by
  intro hrun
  obtain ⟨-, -, -, entry, hentry, hact', -⟩ := updateValuation_overflow.1 hrun
  rw [he] at hentry
  cases hentry
  rw [hact] at hact'
  cases hact'

end Faults

/-- **The registry's overflow errors are exact.** In every reachable state a deactivation never ends in `Overflow`: the
active count is lowered by exactly one and the total less the valuation of an active asset fits. A registration, a
reactivation and a revaluation whose other checks pass end in `Overflow` if and only if the valuations of the assets
that would be active afterwards sum to more than `i128::MAX`, and return otherwise; revaluing an asset that is not
active never does. -/
theorem registry_overflow_exact (assetAdmin : X → Address → Option Address) (x : X) (ls : List (Label Address X))
    (env : Env Address) :
    let h := (registry assetAdmin).run (Contract.fresh Address x) ls
    let locked (asset : Storage U64 (AssetEntry Address)) : Int :=
      asset.sum fun _ e => if e.active = true then e.valuation.val else 0
    (∀ admin id, deactivateAsset assetAdmin env admin id h ≠ .error (.error .overflow)) ∧
      (∀ id e, h.storage.asset.get id = some e → e.active = true →
        ((activeCount h.storage).saturatingSub 1).val = (activeCount h.storage).val - 1 ∧
        ((totalValueLocked h.storage).checkedSub e.valuation).isSome) ∧
      (∀ issuer tokenContract name assetType valuation,
        Registrable env h.storage issuer tokenContract name assetType valuation →
        ∀ id : U64, id.val = (assetCount h.storage).val + 1 →
        let asset := h.storage.asset.set id
          ⟨id, tokenContract, issuer, name, assetType, valuation, env.sequence, true⟩
        (registerAsset env issuer tokenContract name assetType valuation h = .error (.error .overflow) ↔
          2 ^ 127 - 1 < locked asset) ∧
        ((∃ r, registerAsset env issuer tokenContract name assetType valuation h = .ok r) ↔
          locked asset ≤ 2 ^ 127 - 1)) ∧
      (∀ admin id e, h.storage.asset.get id = some e → SignedFor assetAdmin env h admin e.tokenContract →
        (reactivateAsset assetAdmin env admin id h = .error (.error .overflow) ↔
          2 ^ 127 - 1 < locked (h.storage.asset.set id { e with active := true })) ∧
        ((∃ r, reactivateAsset assetAdmin env admin id h = .ok r) ↔
          locked (h.storage.asset.set id { e with active := true }) ≤ 2 ^ 127 - 1)) ∧
      (∀ admin id v e, h.storage.roles.admin = some admin → env.authorized admin = true → 0 ≤ v.val →
        h.storage.asset.get id = some e →
        (updateValuation env admin id v h = .error (.error .overflow) ↔
          2 ^ 127 - 1 < locked (h.storage.asset.set id { e with valuation := v })) ∧
        ((∃ r, updateValuation env admin id v h = .ok r) ↔
          locked (h.storage.asset.set id { e with valuation := v }) ≤ 2 ^ 127 - 1)) ∧
      ∀ admin id v e, h.storage.asset.get id = some e → e.active = false →
        updateValuation env admin id v h ≠ .error (.error .overflow) := by
  intro h locked
  have ht : Totalled h.storage := run_totalled assetAdmin x ls
  refine ⟨fun _ _ => deactivateAsset_never ht, fun id e he hact => ⟨?_, ?_⟩, ?_, ?_, ?_, ?_⟩
  · have hpos := ht.activeCount_pos he hact
    have hmax := (activeCount h.storage).le_hi
    rw [MInt.val_saturatingSub, MInt.val_one]
    omega
  · obtain ⟨hlo, hhi⟩ := ht.rest_fits he hact
    exact Option.isSome_iff_exists.2 ⟨⟨_, by omega, by omega⟩, MInt.checkedSub_eq_some.2 rfl⟩
  · intro issuer tokenContract name assetType valuation hr id hid asset
    exact registerAsset_outcome ⟨id, tokenContract, issuer, name, assetType, valuation, env.sequence, true⟩ ht hr hid
      rfl rfl
  · intro admin id e he hsigned
    exact reactivateAsset_outcome ht he hsigned
  · intro admin id v e hadmin hsigned hv he
    exact updateValuation_outcome ht hadmin hsigned hv he
  · intro admin id v e he hact
    exact updateValuation_inactive he hact

end StellarRwa.Registry
