import StellarRwa.Registry.Model

/-!
# What the registry calls do

A registration appends an entry and its three index entries (`registerAsset_ok`); the other calls on an asset rewrite
its entry and the totals (`State.rewritten`) or do nothing. `call_cases` is the inversion lemma for all entry points.
-/

namespace StellarRwa.Registry

open Lib

variable {Address X : Type}

@[simp] theorem administered_roles : (administered Address).roles = State.roles := rfl

@[simp] theorem administered_setRoles (r : Roles Address) (s : State Address) :
    (administered Address).setRoles r s = { s with roles := r } := rfl

variable [DecidableEq Address] {assetAdmin : X → Address → Option Address} {env : Env Address}
  {h h' : Contract Address X}

omit [DecidableEq Address] in
@[simp] theorem assertInit_ok {r : Unit × Contract Address X} :
    (assertInit : M Address X Unit) h = .ok r ↔ h.storage.roles.admin ≠ none ∧ ((), h) = r := by
  simp [assertInit]

omit [DecidableEq Address] in
@[simp] theorem validateAssetType_ok {assetType : Bytes} {r : Unit × Contract Address X} :
    (validateAssetType assetType : M Address X Unit) h = .ok r ↔ assetType ∈ validAssetTypes ∧ ((), h) = r := by
  simp [validateAssetType]

omit [DecidableEq Address] in
@[simp] theorem loadAsset_ok {assetId : U64} {r : AssetEntry Address × Contract Address X} :
    (loadAsset assetId : M Address X _) h = .ok r ↔
      ∃ entry, h.storage.asset.get assetId = some entry ∧ (entry, h) = r := by
  simp [loadAsset]

omit [DecidableEq Address] in
@[simp] theorem loadAsset_error {assetId : U64} {f : Fault Error} :
    (loadAsset assetId : M Address X _) h = .error f ↔
      h.storage.asset.get assetId = none ∧ .error .assetNotFound = f := by
  simp [loadAsset]

/-! ## Registration -/

omit [DecidableEq Address] in
theorem initializeRegistry_ok {admin : Address} {r : Unit × Contract Address X} :
    (initializeRegistry env admin : M Address X Unit) h = .ok r ↔
      h.storage.roles.admin = none ∧ env.authorized admin = true ∧
      ((), { h with
        storage := { h.storage with
          roles := { h.storage.roles with admin := some admin }
          counter := some 0
          activeCount := some 0
          totalValuation := some 0 }
        events := h.events ++ [.init admin] }) = r := by
  simp [initializeRegistry]

/-- `entry` registered under its id, with the new totals. -/
def State.registered (s : State Address) (entry : AssetEntry Address) (count : U64) (tvl : I128) : State Address :=
  { s with
    asset := s.asset.set entry.id entry
    tokenContractIndex := s.tokenContractIndex.set entry.tokenContract entry.id
    counter := some entry.id
    activeCount := some count
    issuerIndex := pushId s.issuerIndex entry.issuer entry.id
    typeIndex := pushId s.typeIndex entry.assetType entry.id
    totalValuation := some tvl }

theorem registerAsset_ok {issuer tokenContract : Address} {name assetType : Bytes} {valuation : I128}
    {r : U64 × Contract Address X} :
    (registerAsset env issuer tokenContract name assetType valuation : M Address X U64) h = .ok r ↔
      h.storage.roles.admin ≠ none ∧ env.authorized issuer = true ∧ 0 ≤ valuation.val ∧ name.length ≠ 0 ∧
      name.length ≤ 64 ∧ assetType ∈ validAssetTypes ∧ h.storage.tokenContractIndex.get tokenContract = none ∧
      ∃ id : U64, id.val = (assetCount h.storage).val + 1 ∧
      ∃ count : U64, count.val = (activeCount h.storage).val + 1 ∧
      ∃ tvl : I128, tvl.val = (totalValueLocked h.storage).val + valuation.val ∧
        (id, { h with
          storage := h.storage.registered
            ⟨id, tokenContract, issuer, name, assetType, valuation, env.sequence, true⟩ count tvl
          events := h.events ++ [.register issuer id] }) = r := by
  simp [registerAsset, State.registered, Storage.has_eq_false, MInt.lt_def, assetCount, activeCount, totalValueLocked]

/-! ## Changing an entry -/

/-- The entry at `id` replaced, with the new totals. -/
def State.rewritten (s : State Address) (id : U64) (entry : AssetEntry Address) (count : Option U64)
    (tvl : Option I128) : State Address :=
  { s with asset := s.asset.set id entry, activeCount := count, totalValuation := tvl }

/-- Signed by the admin, or by the admin of the asset's token contract. -/
def SignedFor (assetAdmin : X → Address → Option Address) (env : Env Address) (h : Contract Address X)
    (admin tokenContract : Address) : Prop :=
  (∃ stored, h.storage.roles.admin = some stored ∧
    (admin = stored ∨ assetAdmin h.outside tokenContract = some admin)) ∧ env.authorized admin = true

theorem deactivateAsset_ok {admin : Address} {assetId : U64} {r : Unit × Contract Address X} :
    deactivateAsset assetAdmin env admin assetId h = .ok r ↔
      ∃ entry, h.storage.asset.get assetId = some entry ∧
        SignedFor assetAdmin env h admin entry.tokenContract ∧
        ((entry.active = false ∧ ((), h) = r) ∨
          (entry.active = true ∧ ∃ tvl : I128, tvl.val = (totalValueLocked h.storage).val - entry.valuation.val ∧
            ((), { h with
              storage := h.storage.rewritten assetId { entry with active := false }
                (some ((activeCount h.storage).saturatingSub 1)) (some tvl)
              events := h.events ++ [.deactvate assetId] }) = r)) := by
  simp only [deactivateAsset, SignedFor, State.rewritten, Call.bind_ok, loadAsset_ok,
    Administered.requireAdminOrAssetAdmin_ok, administered_roles, Call.onlyIf_ok, Call.update_ok, Call.storage_ok,
    Call.unwrapOrElse_ok, Call.publish_ok, MInt.checkedSub_eq_some, Bool.not_eq_true]
  constructor
  · rintro ⟨entry, _, ⟨_, he, e₁⟩, _, _, ⟨hs, hauth, e₂⟩, hrest⟩
    cases e₁; cases e₂
    refine ⟨entry, he, ⟨hs, hauth⟩, ?_⟩
    rcases hrest with ⟨hact, _, _, e₃, _, _, e₄, _, _, e₅, tvl, _, ⟨_, htvl, e₆⟩, _, _, e₇, hr⟩ | ⟨hact, hr⟩
    · cases e₃; cases e₄; cases e₅; cases e₆; cases e₇
      exact .inr ⟨hact, tvl, htvl, hr⟩
    · exact .inl ⟨hact, hr⟩
  · rintro ⟨entry, he, ⟨hs, hauth⟩, hrest⟩
    refine ⟨entry, h, ⟨entry, he, rfl⟩, (), h, ⟨hs, hauth, rfl⟩, ?_⟩
    rcases hrest with ⟨hact, hr⟩ | ⟨hact, tvl, htvl, hr⟩
    · exact .inr ⟨hact, hr⟩
    · exact .inl ⟨hact, _, _, rfl, _, _, rfl, _, _, rfl, tvl, _, ⟨tvl, htvl, rfl⟩, _, _, rfl, hr⟩

theorem reactivateAsset_ok {admin : Address} {assetId : U64} {r : Unit × Contract Address X} :
    reactivateAsset assetAdmin env admin assetId h = .ok r ↔
      ∃ entry, h.storage.asset.get assetId = some entry ∧
        SignedFor assetAdmin env h admin entry.tokenContract ∧
        ((entry.active = true ∧ ((), h) = r) ∨
          (entry.active = false ∧ ∃ count : U64, count.val = (activeCount h.storage).val + 1 ∧
            ∃ tvl : I128, tvl.val = (totalValueLocked h.storage).val + entry.valuation.val ∧
            ((), { h with
              storage := h.storage.rewritten assetId { entry with active := true } (some count) (some tvl)
              events := h.events ++ [.reactvate assetId] }) = r)) := by
  simp only [reactivateAsset, SignedFor, State.rewritten, Call.bind_ok, loadAsset_ok,
    Administered.requireAdminOrAssetAdmin_ok, administered_roles, Call.onlyIf_ok, Call.update_ok, Call.storage_ok,
    Call.orTrap_ok, Call.unwrapOrElse_ok, Call.publish_ok, MInt.checkedAdd_eq_some, MInt.val_one, Bool.not_eq_false]
  constructor
  · rintro ⟨entry, _, ⟨_, he, e₁⟩, _, _, ⟨hs, hauth, e₂⟩, hrest⟩
    cases e₁; cases e₂
    refine ⟨entry, he, ⟨hs, hauth⟩, ?_⟩
    rcases hrest with
      ⟨hact, _, _, e₃, _, _, e₄, count, _, ⟨_, hcount, e₅⟩, _, _, e₆, tvl, _, ⟨_, htvl, e₇⟩, _, _, e₈, hr⟩ | ⟨hact, hr⟩
    · cases e₃; cases e₄; cases e₅; cases e₆; cases e₇; cases e₈
      exact .inr ⟨hact, count, hcount, tvl, htvl, hr⟩
    · exact .inl ⟨hact, hr⟩
  · rintro ⟨entry, he, ⟨hs, hauth⟩, hrest⟩
    refine ⟨entry, h, ⟨entry, he, rfl⟩, (), h, ⟨hs, hauth, rfl⟩, ?_⟩
    rcases hrest with ⟨hact, hr⟩ | ⟨hact, count, hcount, tvl, htvl, hr⟩
    · exact .inr ⟨hact, hr⟩
    · exact .inl ⟨hact, _, _, rfl, _, _, rfl, count, _, ⟨count, hcount, rfl⟩, _, _, rfl, tvl, _, ⟨tvl, htvl, rfl⟩,
        _, _, rfl, hr⟩

omit [DecidableEq Address] in
@[simp] theorem revalueTotal_ok {oldValuation newValuation : I128} {r : Unit × Contract Address X} :
    (revalueTotal oldValuation newValuation : M Address X Unit) h = .ok r ↔
      ∃ rest : I128, rest.val = (totalValueLocked h.storage).val - oldValuation.val ∧
      ∃ tvl : I128, tvl.val = rest.val + newValuation.val ∧
      ((), { h with storage := { h.storage with totalValuation := some tvl } }) = r := by
  simp [revalueTotal]

theorem updateValuation_ok {admin : Address} {assetId : U64} {newValuation : I128} {r : Unit × Contract Address X} :
    (updateValuation env admin assetId newValuation : M Address X Unit) h = .ok r ↔
      h.storage.roles.admin = some admin ∧ env.authorized admin = true ∧ 0 ≤ newValuation.val ∧
      ∃ entry, h.storage.asset.get assetId = some entry ∧
      ∃ tvl : Option I128,
        ((entry.active = true ∧ ∃ rest : I128, rest.val = (totalValueLocked h.storage).val - entry.valuation.val ∧
            ∃ t : I128, t.val = rest.val + newValuation.val ∧ tvl = some t) ∨
          (entry.active = false ∧ tvl = h.storage.totalValuation)) ∧
        ((), { h with
          storage := h.storage.rewritten assetId { entry with valuation := newValuation } h.storage.activeCount tvl
          events := h.events ++ [.valuation assetId entry.valuation newValuation] }) = r := by
  simp only [updateValuation, State.rewritten, Call.bind_ok, Administered.requireAdmin_ok, administered_roles,
    Call.panicIf_ok, loadAsset_ok, Call.update_ok, Call.onlyIf_ok, revalueTotal_ok, Call.publish_ok, MInt.lt_def,
    MInt.val_zero, not_lt, Bool.not_eq_true]
  constructor
  · rintro ⟨_, _, ⟨ha, hauth, e₁⟩, _, _, ⟨hpos, e₂⟩, entry, _, ⟨_, he, e₃⟩, _, _, e₄, _, _, hrest, hr⟩
    cases e₁; cases e₂; cases e₃; cases e₄
    refine ⟨ha, hauth, hpos, entry, he, ?_⟩
    rcases hrest with ⟨hact, rest, hrest, t, ht, e₅⟩ | ⟨hact, e₅⟩
    · cases e₅
      exact ⟨some t, .inl ⟨hact, rest, hrest, t, ht, rfl⟩, hr⟩
    · cases e₅
      exact ⟨h.storage.totalValuation, .inr ⟨hact, rfl⟩, hr⟩
  · rintro ⟨ha, hauth, hpos, entry, he, tvl, hrest, hr⟩
    refine ⟨(), h, ⟨ha, hauth, rfl⟩, (), h, ⟨hpos, rfl⟩, entry, h, ⟨entry, he, rfl⟩, _, _, rfl, (),
      { h with
        storage := h.storage.rewritten assetId { entry with valuation := newValuation } h.storage.activeCount tvl },
      ?_, hr⟩
    rcases hrest with ⟨hact, rest, hrest, t, ht, rfl⟩ | ⟨hact, rfl⟩
    · exact .inl ⟨hact, rest, hrest, t, ht, rfl⟩
    · exact .inr ⟨hact, rfl⟩

/-! ## All entry points -/

/-- What a call can do to the storage. -/
inductive Change (s : State Address) : State Address → Prop
  | none : Change s s
  | roles {r : Roles Address} (hadmin : s.roles.admin ≠ Option.none) (hadmin' : r.admin ≠ Option.none) :
    Change s { s with roles := r }
  | initialized {admin : Address} (hadmin : s.roles.admin = Option.none) :
    Change s { s with
      roles := { s.roles with admin := some admin }
      counter := some 0
      activeCount := some 0
      totalValuation := some 0 }
  | registered {entry : AssetEntry Address} {count : U64} {tvl : I128} (hadmin : s.roles.admin ≠ Option.none)
    (hnew : s.tokenContractIndex.get entry.tokenContract = Option.none)
    (hid : entry.id.val = (assetCount s).val + 1) (hval : 0 ≤ entry.valuation.val) (hact : entry.active = true)
    (hcount : count.val = (activeCount s).val + 1)
    (htvl : tvl.val = (totalValueLocked s).val + entry.valuation.val) : Change s (s.registered entry count tvl)
  | deactivated {id : U64} {entry : AssetEntry Address} {tvl : I128} (hentry : s.asset.get id = some entry)
    (hact : entry.active = true) (htvl : tvl.val = (totalValueLocked s).val - entry.valuation.val) :
    Change s (s.rewritten id { entry with active := false } (some ((activeCount s).saturatingSub 1)) (some tvl))
  | reactivated {id : U64} {entry : AssetEntry Address} {count : U64} {tvl : I128}
    (hentry : s.asset.get id = some entry) (hact : entry.active = false)
    (hcount : count.val = (activeCount s).val + 1)
    (htvl : tvl.val = (totalValueLocked s).val + entry.valuation.val) :
    Change s (s.rewritten id { entry with active := true } (some count) (some tvl))
  | revalued {id : U64} {entry : AssetEntry Address} {v : I128} {tvl : Option I128}
    (hentry : s.asset.get id = some entry) (hv : 0 ≤ v.val)
    (htvl : (tvl.getD 0).val =
      if entry.active then (totalValueLocked s).val - entry.valuation.val + v.val else (totalValueLocked s).val) :
    Change s (s.rewritten id { entry with valuation := v } s.activeCount tvl)

theorem call_change {op : Op Address} {r : Ret} (hrun : call assetAdmin env op h = .ok (r, h')) :
    Change h.storage h'.storage := by
  cases op <;> simp only [call, Call.bind_ok, Call.pure_ok] at hrun <;> obtain ⟨x, h₁, hop, hr⟩ := hrun <;> cases hr
  case initializeRegistry =>
    obtain ⟨hnone, -, hr⟩ := initializeRegistry_ok.1 hop
    cases hr
    exact .initialized hnone
  case registerAsset =>
    obtain ⟨hadmin, -, hval, -, -, -, hnew, id, hid, count, hcount, tvl, htvl, hr⟩ := registerAsset_ok.1 hop
    cases hr
    exact .registered hadmin hnew hid hval rfl hcount htvl
  case deactivateAsset =>
    obtain ⟨entry, hentry, -, ⟨-, hr⟩ | ⟨hact, tvl, htvl, hr⟩⟩ := deactivateAsset_ok.1 hop
    · cases hr
      exact .none
    · cases hr
      exact .deactivated hentry hact htvl
  case updateValuation =>
    obtain ⟨-, -, hv, entry, hentry, tvl, hrest, hr⟩ := updateValuation_ok.1 hop
    cases hr
    refine .revalued hentry hv ?_
    rcases hrest with ⟨hact, rest, hrest, t, ht, rfl⟩ | ⟨hact, rfl⟩
    · rw [if_pos hact, Option.getD_some, ht, hrest]
    · rw [if_neg (by simp [hact])]
      rfl
  case reactivateAsset =>
    obtain ⟨entry, hentry, -, ⟨-, hr⟩ | ⟨hact, count, hcount, tvl, htvl, hr⟩⟩ := reactivateAsset_ok.1 hop
    · cases hr
      exact .none
    · cases hr
      exact .reactivated hentry hact hcount htvl
  case proposeAdmin =>
    obtain ⟨hadmin, -, hr⟩ := Administered.proposeAdmin_ok.1 hop
    cases hr
    have hsome : h.storage.roles.admin ≠ Option.none := fun e => by
      rw [administered_roles, e] at hadmin
      cases hadmin
    exact .roles hsome hsome
  case cancelAdminProposal =>
    obtain ⟨hadmin, -, -, hr⟩ := Administered.cancelAdminProposal_ok.1 hop
    cases hr
    have hsome : h.storage.roles.admin ≠ Option.none := fun e => by
      rw [administered_roles, e] at hadmin
      cases hadmin
    exact .roles hsome hsome
  case acceptAdmin =>
    obtain ⟨-, -, oldAdmin, hadmin, hr⟩ := Administered.acceptAdmin_ok.1 hop
    cases hr
    have hsome : h.storage.roles.admin ≠ Option.none := fun e => by
      rw [administered_roles, e] at hadmin
      cases hadmin
    exact .roles hsome (by simp)

/-- A call only reads the other contracts. -/
theorem call_outside {op : Op Address} {r : Ret} (hrun : call assetAdmin env op h = .ok (r, h')) :
    h'.outside = h.outside := by
  cases op <;> simp only [call, Call.bind_ok, Call.pure_ok] at hrun <;> obtain ⟨x, h₁, hop, hr⟩ := hrun <;> cases hr
  case initializeRegistry =>
    obtain ⟨-, -, hr⟩ := initializeRegistry_ok.1 hop
    cases hr
    rfl
  case registerAsset =>
    obtain ⟨-, -, -, -, -, -, -, id, -, count, -, tvl, -, hr⟩ := registerAsset_ok.1 hop
    cases hr
    rfl
  case deactivateAsset =>
    obtain ⟨entry, -, -, ⟨-, hr⟩ | ⟨-, tvl, -, hr⟩⟩ := deactivateAsset_ok.1 hop <;> cases hr <;> rfl
  case updateValuation =>
    obtain ⟨-, -, -, entry, -, tvl, -, hr⟩ := updateValuation_ok.1 hop
    cases hr
    rfl
  case reactivateAsset =>
    obtain ⟨entry, -, -, ⟨-, hr⟩ | ⟨-, count, -, tvl, -, hr⟩⟩ := reactivateAsset_ok.1 hop <;> cases hr <;> rfl
  case proposeAdmin =>
    obtain ⟨-, -, hr⟩ := Administered.proposeAdmin_ok.1 hop
    cases hr
    rfl
  case cancelAdminProposal =>
    obtain ⟨-, -, -, hr⟩ := Administered.cancelAdminProposal_ok.1 hop
    cases hr
    rfl
  case acceptAdmin =>
    obtain ⟨-, -, oldAdmin, -, hr⟩ := Administered.acceptAdmin_ok.1 hop
    cases hr
    rfl

theorem step_change {l : Label Address X} {r : Ret} (hstep : (registry assetAdmin).step h l = some (r, h')) :
    Change h.storage h'.storage := by
  cases l with
  | call env op => exact call_change (Call.returned_eq_some.1 hstep)
  | others x =>
    cases hstep
    exact .none

end StellarRwa.Registry
