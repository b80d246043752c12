import StellarRwa.Registry.Totals

/-!
# Delisting

The registry admin takes an asset out by `deactivate_asset` and puts it back by `reactivate_asset`. But the two calls
also listen to the admin that the asset's own token contract names, whoever that is. So a delisting lasts until the
registry admin reverses it exactly when nobody else reactivates the asset in between (`delisting_sticks_iff`).
-/

namespace StellarRwa.Registry

open Lib

variable {Address X : Type} [DecidableEq Address] {assetAdmin : X → Address → Option Address} {env : Env Address}
  {h h' : Contract Address X} {id : U64}

/-- The answered calls of a run. -/
abbrev History (Address X : Type) := List (Done (Contract Address X) (Label Address X) Ret)

/-- What the registry admin of that step decided about the asset: delisted or listed again. -/
def ruling (id : U64) (d : Done (Contract Address X) (Label Address X) Ret) : Option Bool :=
  match d.label with
  | .call _ (.deactivateAsset admin assetId) =>
    if assetId = id ∧ d.pre.storage.roles.admin = some admin then some false else none
  | .call _ (.reactivateAsset admin assetId) =>
    if assetId = id ∧ d.pre.storage.roles.admin = some admin then some true else none
  | _ => none

/-- The asset is inactive, and the totals are those of the other assets. -/
def Delisted (s : State Address) (id : U64) : Prop :=
  (∃ e, s.asset.get id = some e ∧ e.active = false) ∧
    (totalValueLocked s).val = ((s.asset.remove id).sum fun _ e => worth e) ∧
    (activeCount s).val = (s.asset.remove id).sum fun _ e => counted e

omit [DecidableEq Address] in
/-- Inactive assets are out of the totals. -/
theorem Totalled.delisted {s : State Address} (ht : Totalled s)
    (hinactive : ∃ e, s.asset.get id = some e ∧ e.active = false) : Delisted s id := by
  obtain ⟨e, he, hact⟩ := hinactive
  refine ⟨⟨e, he, hact⟩, ?_, ?_⟩
  · rw [ht.tvl, Storage.sum_remove_of_some _ _ he]
    simp [worth, hact]
  · rw [ht.count, Storage.sum_remove_of_some _ _ he]
    simp [counted, hact]

/-! ## One step -/

omit [DecidableEq Address] in
/-- An inactive asset stays inactive when one entry is written, unless that one is it and is active. -/
theorem inactive_set {s : State Address} {id' : U64} {e' : AssetEntry Address}
    (hinactive : ∃ e, s.asset.get id = some e ∧ e.active = false) (hset : id' = id → e'.active = false) :
    ∃ e, (s.asset.set id' e').get id = some e ∧ e.active = false := by
  obtain ⟨e, he, hact⟩ := hinactive
  rw [Storage.get_set]
  split
  · rename_i hid
    exact ⟨e', rfl, hset hid.symm⟩
  · exact ⟨e, he, hact⟩

/-- Only `reactivate_asset` makes an inactive asset active. -/
theorem call_inactive {op : Op Address} {r : Ret} (ht : Totalled h.storage)
    (hrun : call assetAdmin env op h = .ok (r, h'))
    (hinactive : ∃ e, h.storage.asset.get id = some e ∧ e.active = false)
    (hno : ∀ admin, op ≠ .reactivateAsset admin id) : ∃ e, h'.storage.asset.get id = some e ∧ e.active = false := by
  cases op <;> simp only [call, Call.bind_ok, Call.pure_ok] at hrun <;> obtain ⟨x, h₁, hop, hr⟩ := hrun <;> cases hr
  case initializeRegistry =>
    obtain ⟨-, -, hr⟩ := initializeRegistry_ok.1 hop
    cases hr
    exact hinactive
  case registerAsset =>
    obtain ⟨-, -, -, -, -, -, -, newId, hid, _, -, _, -, hr⟩ := registerAsset_ok.1 hop
    cases hr
    refine inactive_set (s := h.storage) hinactive fun heq => ?_
    obtain rfl : x = id := heq
    obtain ⟨e, he, -⟩ := hinactive
    cases he.symm.trans (ht.ids.get_next hid)
  case deactivateAsset =>
    obtain ⟨entry, hentry, -, ⟨-, hr⟩ | ⟨hact, tvl, htvl, hr⟩⟩ := deactivateAsset_ok.1 hop
    · cases hr
      exact hinactive
    · cases hr
      exact inactive_set (s := h.storage) hinactive fun _ => rfl
  case updateValuation =>
    obtain ⟨-, -, -, entry, hentry, tvl, -, hr⟩ := updateValuation_ok.1 hop
    cases hr
    refine inactive_set (s := h.storage) hinactive fun heq => ?_
    obtain ⟨e, he, hact⟩ := hinactive
    rw [heq, he] at hentry
    cases hentry
    exact hact
  case reactivateAsset admin assetId =>
    obtain ⟨entry, hentry, -, ⟨-, hr⟩ | ⟨-, count, -, tvl, -, hr⟩⟩ := reactivateAsset_ok.1 hop
    · cases hr
      exact hinactive
    · cases hr
      exact inactive_set (s := h.storage) hinactive fun heq => absurd (by rw [heq]) (hno admin)
  case proposeAdmin =>
    obtain ⟨-, -, hr⟩ := Administered.proposeAdmin_ok.1 hop
    cases hr
    exact hinactive
  case cancelAdminProposal =>
    obtain ⟨-, -, -, hr⟩ := Administered.cancelAdminProposal_ok.1 hop
    cases hr
    exact hinactive
  case acceptAdmin =>
    obtain ⟨-, -, _, -, hr⟩ := Administered.acceptAdmin_ok.1 hop
    cases hr
    exact hinactive

/-- After an answered `deactivate_asset` the asset is inactive. -/
theorem inactive_of_deactivate {admin : Address} {r : Ret}
    (hstep : (registry assetAdmin).step h (.call env (.deactivateAsset admin id)) = some (r, h')) :
    ∃ e, h'.storage.asset.get id = some e ∧ e.active = false := by
  have hrun := Call.returned_eq_some.1 hstep
  simp only [call, Call.bind_ok, Call.pure_ok] at hrun
  obtain ⟨x, h₁, hop, hr⟩ := hrun
  cases hr
  obtain ⟨entry, hentry, -, ⟨hact, hr⟩ | ⟨-, tvl, -, hr⟩⟩ := deactivateAsset_ok.1 hop
  · cases hr
    exact ⟨entry, hentry, hact⟩
  · cases hr
    exact ⟨_, Storage.get_set_self _ _ _, rfl⟩

/-- After an answered `reactivate_asset` the asset is active. -/
theorem active_of_reactivate {admin : Address} {r : Ret}
    (hstep : (registry assetAdmin).step h (.call env (.reactivateAsset admin id)) = some (r, h')) :
    ∃ e, h'.storage.asset.get id = some e ∧ e.active = true := by
  have hrun := Call.returned_eq_some.1 hstep
  simp only [call, Call.bind_ok, Call.pure_ok] at hrun
  obtain ⟨x, h₁, hop, hr⟩ := hrun
  cases hr
  obtain ⟨entry, hentry, -, ⟨hact, hr⟩ | ⟨-, count, -, tvl, -, hr⟩⟩ := reactivateAsset_ok.1 hop
  · cases hr
    exact ⟨entry, hentry, hact⟩
  · cases hr
    exact ⟨_, Storage.get_set_self _ _ _, rfl⟩

/-! ## Runs -/

/-- Delisted by the registry admin, and until the registry admin lists it again, the asset is out. -/
def DelistingSticks (id : U64) (tr : History Address X) : Prop :=
  ∀ tr₁ d tr₂, tr = tr₁ ++ d :: tr₂ → latest (ruling id) (tr₁ ++ [d]) = some false → Delisted d.post.storage id

/-- While the asset is delisted by the registry admin, nobody but the registry admin reactivates it. -/
def RelistedByAdmin (id : U64) (tr : History Address X) : Prop :=
  ∀ tr₁ d tr₂, tr = tr₁ ++ d :: tr₂ → latest (ruling id) tr₁ = some false →
    ∀ env admin, d.label = .call env (.reactivateAsset admin id) → d.pre.storage.roles.admin = some admin

omit [DecidableEq Address] in
/-- A delisting is a `deactivate_asset`. -/
theorem label_of_ruling [DecidableEq Address] {d : Done (Contract Address X) (Label Address X) Ret}
    (hruling : ruling id d = some false) : ∃ env admin, d.label = .call env (.deactivateAsset admin id) := by
  obtain ⟨pre, l, r, post⟩ := d
  cases l with
  | others x => cases hruling
  | call env op =>
    cases op with
    | deactivateAsset admin assetId =>
      dsimp only [ruling] at hruling
      split at hruling
      · rename_i hid
        exact ⟨env, admin, by rw [hid.1]⟩
      · cases hruling
    | reactivateAsset admin assetId =>
      dsimp only [ruling] at hruling
      split at hruling <;> cases hruling
    | _ => cases hruling

/-- One step keeps the asset out while the registry admin's last word is against it. -/
theorem inactive_step {d : Done (Contract Address X) (Label Address X) Ret} {tr : History Address X}
    (ht : Totalled d.pre.storage) (hstep : (registry assetAdmin).step d.pre d.label = some (d.result, d.post))
    (hprev : latest (ruling id) tr = some false → ∃ e, d.pre.storage.asset.get id = some e ∧ e.active = false)
    (hadmin : latest (ruling id) tr = some false → ∀ env admin, d.label = .call env (.reactivateAsset admin id) →
      d.pre.storage.roles.admin = some admin) (hlast : latest (ruling id) (tr ++ [d]) = some false) :
    ∃ e, d.post.storage.asset.get id = some e ∧ e.active = false := by
  rw [latest_concat] at hlast
  cases hruling : ruling id d with
  | some b =>
    rw [hruling] at hlast
    cases hlast
    obtain ⟨env, admin, hlabel⟩ := label_of_ruling hruling
    rw [hlabel] at hstep
    exact inactive_of_deactivate hstep
  | none =>
    rw [hruling, Option.none_or] at hlast
    have hinactive := hprev hlast
    have hallowed := hadmin hlast
    cases hlabel : d.label with
    | others x =>
      rw [hlabel] at hstep
      have hpost : { d.pre with outside := x } = d.post := congrArg Prod.snd (Option.some.inj hstep)
      rw [← hpost]
      exact hinactive
    | call env op =>
      rw [hlabel] at hstep
      refine call_inactive ht (Call.returned_eq_some.1 hstep) hinactive fun admin hop => ?_
      -- the registry admin would have spoken
      subst hop
      have hspoken : ruling id d = some true := by
        unfold ruling
        rw [hlabel]
        exact if_pos ⟨rfl, hallowed env admin hlabel⟩
      rw [hruling] at hspoken
      cases hspoken

/-- The asset against the rulings of a history. -/
structure RuledOver (id : U64) (tr : History Address X) (s : State Address) : Prop where
  totalled : Totalled s
  inactive : RelistedByAdmin id tr → latest (ruling id) tr = some false →
    ∃ e, s.asset.get id = some e ∧ e.active = false
  sticks : RelistedByAdmin id tr → DelistingSticks id tr

theorem RuledOver.step {tr : History Address X} {d : Done (Contract Address X) (Label Address X) Ret}
    (hinv : RuledOver id tr d.pre.storage)
    (hstep : (registry assetAdmin).step d.pre d.label = some (d.result, d.post)) :
    RuledOver id (tr ++ [d]) d.post.storage := by
  have hbefore : RelistedByAdmin id (tr ++ [d]) → RelistedByAdmin id tr := fun hadmin tr₁ d' tr₂ htr =>
    hadmin tr₁ d' (tr₂ ++ [d]) (by rw [htr, List.append_assoc, List.cons_append])
  have htotalled : Totalled d.post.storage := hinv.totalled.step (step_change hstep)
  have hout : RelistedByAdmin id (tr ++ [d]) → latest (ruling id) (tr ++ [d]) = some false →
      ∃ e, d.post.storage.asset.get id = some e ∧ e.active = false := fun hadmin =>
    inactive_step hinv.totalled hstep (hinv.inactive (hbefore hadmin)) (hadmin tr d [] rfl)
  refine ⟨htotalled, hout, fun hadmin tr₁ d' tr₂ htr hlast => ?_⟩
  rcases concat_eq_split htr with ⟨rfl, rfl, rfl⟩ | ⟨tr₃, rfl, rfl⟩
  · exact htotalled.delisted (hout hadmin hlast)
  · exact hinv.sticks (hbefore hadmin) tr₁ d' tr₃ rfl hlast

theorem run_ruled (assetAdmin : X → Address → Option Address) (id : U64) (x : X) (ls : List (Label Address X)) :
    RuledOver id ((registry assetAdmin).trace (Contract.fresh Address x) ls)
      ((registry assetAdmin).run (Contract.fresh Address x) ls).storage := by
  refine System.run_rule (P := fun tr (h : Contract Address X) => RuledOver id tr h.storage) ?_ ?_ ls
  · refine ⟨totalled_fresh, fun _ hlast => ?_, fun _ tr₁ d tr₂ htr => ?_⟩
    · rw [latest_nil] at hlast
      cases hlast
    · cases tr₁ <;> cases htr
  · exact fun tr h l r h' hinv hstep => hinv.step (d := ⟨h, l, r, h'⟩) hstep

/-- **A delisting by the registry admin sticks exactly when** no answered `reactivate_asset` of the asset, made while
the registry admin's last word is against it, names anyone but the registry admin of that step. -/
theorem delisting_sticks_iff (assetAdmin : X → Address → Option Address) (id : U64) (x : X)
    (ls : List (Label Address X)) :
    let tr := (registry assetAdmin).trace (Contract.fresh Address x) ls
    DelistingSticks id tr ↔ RelistedByAdmin id tr := by
  intro tr
  refine ⟨fun hsticks tr₁ d tr₂ htr hlast env admin hlabel => ?_, (run_ruled assetAdmin id x ls).sticks⟩
  by_contra hother
  have hsilent : ruling id d = none := by
    unfold ruling
    rw [hlabel]
    exact if_neg fun hboth => hother hboth.2
  obtain ⟨⟨e, he, hact⟩, -⟩ := hsticks tr₁ d tr₂ htr (by rw [latest_concat, hsilent, Option.none_or, hlast])
  have hmem : d ∈ tr := htr ▸ List.mem_append_right _ List.mem_cons_self
  have hstep := (System.mem_trace hmem).1
  rw [hlabel] at hstep
  obtain ⟨e', he', hact'⟩ := active_of_reactivate hstep
  rw [he] at he'
  cases he'
  rw [hact] at hact'
  cases hact'

/-- Issuer 5 registers token 20, whose contract names 5 as its admin; the registry admin 1 delists the asset and 5 lists
it again. -/
def relistedRun : List (Label ℕ Unit) :=
  [.call (.signed 0) (.initializeRegistry 1),
    .call (.signed 1) (.registerAsset 5 20 [65] [98, 111, 110, 100] 100),
    .call (.signed 2) (.deactivateAsset 1 1),
    .call (.signed 3) (.reactivateAsset 5 1)]

/-- The token contract 20 names 5 as its admin. -/
def issuerAdmin (_ : Unit) (token : ℕ) : Option ℕ := if token = 20 then some 5 else none

/-- After it the asset is active, though the registry admin's last word is against it. -/
theorem delisting_reversed :
    ¬ ∀ (assetAdmin : Unit → ℕ → Option ℕ) (id : U64) (ls : List (Label ℕ Unit)),
      DelistingSticks id ((registry assetAdmin).trace (Contract.fresh ℕ ()) ls) := by
  intro hall
  have hne : (registry issuerAdmin).trace (Contract.fresh ℕ ()) relistedRun ≠ [] :=
    List.ne_nil_of_length_pos (by decide +kernel)
  have hsplit := List.dropLast_append_getLast hne
  obtain ⟨⟨e, he, hact⟩, -⟩ := hall issuerAdmin 1 relistedRun _ _ [] hsplit.symm
    (by rw [hsplit]; decide +kernel)
  have hactive : (((registry issuerAdmin).trace (Contract.fresh ℕ ()) relistedRun).getLast?.bind fun d =>
      (d.post.storage.asset.get 1).map AssetEntry.active) = some true := by decide +kernel
  rw [List.getLast?_eq_some_getLast hne, Option.bind_some, he, Option.map_some, hact] at hactive
  cases hactive

end StellarRwa.Registry
