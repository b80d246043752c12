import StellarRwa.Registry.Overflow

/-!
# Registrations of two issuers

Anyone may register an asset, and all registrations go through the same cells: the id counter, the active count and the
total value locked. A registration of another token contract therefore changes nothing for the next one but the room
left in these cells (`Registrable.after`), and the next one is refused for it exactly when the two valuations do not
both fit under the total, or the ids run out (`registration_interference`).
-/

namespace StellarRwa.Registry

open Lib

variable {Address X : Type} [DecidableEq Address] {env : Env Address} {s : State Address} {h : Contract Address X}
  {issuer tokenContract : Address} {name assetType : Bytes} {valuation : I128}

/-- After a registration of another token contract the checks pass as before, one id further. -/
theorem Registrable.after {entry : AssetEntry Address} {count : U64} {tvl : I128}
    (hother : entry.tokenContract ≠ tokenContract) (hid : entry.id.val = (assetCount s).val + 1) :
    Registrable env (s.registered entry count tvl) issuer tokenContract name assetType valuation ↔
      Registrable env s issuer tokenContract name assetType valuation ∧ (assetCount s).val + 2 ≤ 2 ^ 64 - 1 := by
  have hindex : (s.registered entry count tvl).tokenContractIndex.get tokenContract =
      s.tokenContractIndex.get tokenContract := Storage.get_set_of_ne _ _ hother.symm
  have hcount : (assetCount (s.registered entry count tvl)).val = (assetCount s).val + 1 := hid
  constructor
  · intro hr
    have hnum := hr.numbered
    exact ⟨⟨hr.initialized, hr.signed, hr.valuation, hr.named, hr.typed, hindex.symm.trans hr.unlisted, by omega⟩,
      by omega⟩
  · rintro ⟨hr, hroom⟩
    exact ⟨hr.initialized, hr.signed, hr.valuation, hr.named, hr.typed, hindex.trans hr.unlisted, by omega⟩

section Two

variable {envA envB : Env Address} {issuerA issuerB tokenA tokenB : Address} {nameA nameB typeA typeB : Bytes}
  {valuationA valuationB : I128} {id : U64} {hA : Contract Address X}

/-- What the state after an accepted registration offers to the next one. -/
theorem registerAsset_next (ht : Totalled h.storage)
    (hrun : (registerAsset envA issuerA tokenA nameA typeA valuationA : M Address X U64) h = .ok (id, hA))
    (hother : tokenA ≠ tokenB) : Totalled hA.storage ∧ 0 ≤ valuationA.val ∧
      (totalValueLocked hA.storage).val = (totalValueLocked h.storage).val + valuationA.val ∧
      ∀ envB issuerB nameB typeB valuationB, Registrable envB hA.storage issuerB tokenB nameB typeB valuationB ↔
        Registrable envB h.storage issuerB tokenB nameB typeB valuationB ∧
          (assetCount h.storage).val + 2 ≤ 2 ^ 64 - 1 := by
  obtain ⟨hinit, -, hval, -, -, -, hnew, id, hid, count, hcount, tvl, htvl, hr⟩ := registerAsset_ok.1 hrun
  cases hr
  exact ⟨ht.registered hinit hid hval rfl hcount htvl, hval, htvl, fun _ _ _ _ _ => Registrable.after hother hid⟩

/-- The next registration is accepted when it would have been before, and both fit. -/
theorem registerAsset_accepted_next (ht : Totalled h.storage)
    (hrun : (registerAsset envA issuerA tokenA nameA typeA valuationA : M Address X U64) h = .ok (id, hA))
    (hother : tokenA ≠ tokenB) :
    (∃ r, (registerAsset envB issuerB tokenB nameB typeB valuationB : M Address X U64) hA = .ok r) ↔
      (∃ r, (registerAsset envB issuerB tokenB nameB typeB valuationB : M Address X U64) h = .ok r) ∧
        (totalValueLocked h.storage).val + valuationA.val + valuationB.val ≤ 2 ^ 127 - 1 ∧
        (assetCount h.storage).val + 2 ≤ 2 ^ 64 - 1 := by
  obtain ⟨htA, hval, htvl, hafter⟩ := registerAsset_next ht hrun hother
  rw [registerAsset_accepted htA, registerAsset_accepted ht, hafter, htvl]
  constructor
  · rintro ⟨⟨hr, hroom⟩, hfits⟩
    exact ⟨⟨hr, by omega⟩, hfits, hroom⟩
  · rintro ⟨⟨hr, -⟩, hfits, hroom⟩
    exact ⟨⟨hr, hroom⟩, hfits⟩

end Two

/-- **Registrations interfere through the total only.** In every reachable state, after a registration of one token
contract was called, accepted or not, a registration of another token contract is accepted if and only if it is accepted
without the first one, and, if the first one was accepted, the total value locked and both valuations sum to at most
`i128::MAX` (and two ids are left). If they do not, it fails with `Overflow`. -/
theorem registration_interference (assetAdmin : X → Address → Option Address) (x : X) (ls : List (Label Address X))
    (envA envB : Env Address) (issuerA issuerB tokenA tokenB : Address) (nameA nameB typeA typeB : Bytes)
    (valuationA valuationB : I128) (hother : tokenA ≠ tokenB) :
    let h := (registry assetAdmin).run (Contract.fresh Address x) ls
    let hA := (registry assetAdmin).exec h (.call envA (.registerAsset issuerA tokenA nameA typeA valuationA))
    let acceptedA := ∃ r, registerAsset envA issuerA tokenA nameA typeA valuationA h = .ok r
    let callB := (registerAsset envB issuerB tokenB nameB typeB valuationB : M Address X U64)
    let fits := (totalValueLocked h.storage).val + valuationA.val + valuationB.val ≤ 2 ^ 127 - 1
    let idsLeft := (assetCount h.storage).val + 2 ≤ 2 ^ 64 - 1
    ((∃ r, callB hA = .ok r) ↔ (∃ r, callB h = .ok r) ∧ (acceptedA → fits ∧ idsLeft)) ∧
      (acceptedA → (∃ r, callB h = .ok r) → idsLeft → ¬ fits → callB hA = .error (.error .overflow)) := by
  intro h hA acceptedA callB fits idsLeft
  have ht : Totalled h.storage := run_totalled assetAdmin x ls
  cases hrun : (registerAsset envA issuerA tokenA nameA typeA valuationA : M Address X U64) h with
  | error f =>
    have hcall : call assetAdmin envA (.registerAsset issuerA tokenA nameA typeA valuationA) h = .error f :=
      Call.bind_eq_of_error hrun
    have hsame : hA = h := System.exec_of_none (Call.returned_eq_none.2 ⟨f, hcall⟩)
    have hno : ¬ acceptedA := by
      rintro ⟨r, hr⟩
      cases hrun.symm.trans hr
    rw [hsame]
    exact ⟨⟨fun hB => ⟨hB, fun hacc => absurd hacc hno⟩, And.left⟩, fun hacc => absurd hacc hno⟩
  | ok r =>
    obtain ⟨id, h₁⟩ := r
    have hstep : hA = h₁ := System.exec_of_some (r := some id)
      (Call.returned_eq_some.2 (by simp [call, Call.bind_eq_of_ok hrun]))
    have hacc : acceptedA := ⟨_, hrun⟩
    rw [hstep]
    refine ⟨(registerAsset_accepted_next ht hrun hother).trans (and_congr_right fun _ => ?_), fun _ hB hids hout => ?_⟩
    · exact ⟨fun hboth _ => hboth, fun hboth => hboth hacc⟩
    · obtain ⟨ht₁, -, htvl, hafter⟩ := registerAsset_next ht hrun hother
      refine registerAsset_overflows ht₁ ((hafter ..).2 ⟨((registerAsset_accepted ht).1 hB).1, hids⟩) ?_
      rw [htvl]
      exact not_le.1 hout

/-- An initialized registry. -/
def initializedRun : List (Label ℕ Unit) := [.call (.signed 0) (.initializeRegistry 1)]

/-- `i128::MAX`, all that the total can hold. -/
def greatest : I128 := 170141183460469231731687303715884105727

/-- Issuer 5 registers token 20 for all of it. -/
def giantRegistration : Label ℕ Unit :=
  .call (.signed 1) (.registerAsset 5 20 [65] [98, 111, 110, 100] greatest)

/-- After it issuer 6 cannot register token 21 for one unit. -/
theorem registration_interference_giant :
    let h := (registry fun _ _ => none).run (Contract.fresh ℕ ()) initializedRun
    (registerAsset (.signed 2) 6 21 [66] [102, 117, 110, 100] 1 : M ℕ Unit U64)
      ((registry fun _ _ => none).exec h giantRegistration) = .error (.error .overflow) := by
  intro h
  have hA : (registerAsset (.signed 1) 5 20 [65] [98, 111, 110, 100] greatest :
      M ℕ Unit U64).returned h |>.isSome := by decide +kernel
  have hB : (registerAsset (.signed 2) 6 21 [66] [102, 117, 110, 100] 1 : M ℕ Unit U64).returned h |>.isSome := by
    decide +kernel
  obtain ⟨rA, hrA⟩ := Option.isSome_iff_exists.1 hA
  obtain ⟨rB, hrB⟩ := Option.isSome_iff_exists.1 hB
  exact (registration_interference (fun _ _ => none) () initializedRun (.signed 1) (.signed 2) 5 6 20 21 [65] [66]
    [98, 111, 110, 100] [102, 117, 110, 100] greatest 1 (by decide)).2
    ⟨rA, Call.returned_eq_some.1 hrA⟩ ⟨rB, Call.returned_eq_some.1 hrB⟩ (by decide +kernel) (by decide +kernel)

/-- So whether a registration is accepted does depend on another issuer's registration of another token. -/
theorem registration_blocked :
    ¬ ∀ (assetAdmin : Unit → ℕ → Option ℕ) (ls : List (Label ℕ Unit)) (envA envB : Env ℕ)
      (issuerA issuerB tokenA tokenB : ℕ) (nameA nameB typeA typeB : Bytes) (valuationA valuationB : I128),
      issuerA ≠ issuerB → tokenA ≠ tokenB →
      let h := (registry assetAdmin).run (Contract.fresh ℕ ()) ls
      let hA := (registry assetAdmin).exec h (.call envA (.registerAsset issuerA tokenA nameA typeA valuationA))
      ((∃ r, registerAsset envB issuerB tokenB nameB typeB valuationB hA = .ok r) ↔
        ∃ r, registerAsset envB issuerB tokenB nameB typeB valuationB h = .ok r) := by
  intro hall
  have hiff := hall (fun _ _ => none) initializedRun (.signed 1) (.signed 2) 5 6 20 21 [65] [66] [98, 111, 110, 100]
    [102, 117, 110, 100] greatest 1 (by decide) (by decide)
  have hbefore : ((registerAsset (.signed 2) 6 21 [66] [102, 117, 110, 100] 1 : M ℕ Unit U64).returned
      ((registry fun _ _ => none).run (Contract.fresh ℕ ()) initializedRun)).isSome := by decide +kernel
  have hafter : (registerAsset (.signed 2) 6 21 [66] [102, 117, 110, 100] 1 : M ℕ Unit U64).returned
      ((registry fun _ _ => none).exec ((registry fun _ _ => none).run (Contract.fresh ℕ ()) initializedRun)
        giantRegistration) = none := by decide +kernel
  obtain ⟨r, hr⟩ := Option.isSome_iff_exists.1 hbefore
  obtain ⟨r', hr'⟩ := hiff.2 ⟨r, Call.returned_eq_some.1 hr⟩
  cases hafter.symm.trans (Call.returned_eq_some.2 hr')

end StellarRwa.Registry
