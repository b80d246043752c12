import StellarRwa.Token.Spec

/-!
# Conservation

The sum of the balances is the total supply, and no balance is negative, after every run of the token: whatever the
compliance contracts answer, and however recipients repeat or coincide with the sender (`balances_sum_to_supply`).
Moving a balance keeps the invariant as it stands, also in the middle of a batch (`sendTo_conserved`); minting moves
the sum and the running supply together (`mintEntries_conserved`).
-/

namespace StellarRwa.Token

open Lib

variable {Address X : Type} [DecidableEq Address] {client : ComplianceClient Address X} {env : Env Address}
  {h h' : Contract Address X}

/-- The balances against the metadata. -/
structure Conserved (s : State Address) : Prop where
  solvent : s.balance.Solvent
  total : ∀ md, s.metadata = some md → s.balance.total = md.totalSupply.val
  fresh : s.metadata = none → s.balance = ∅

omit [DecidableEq Address] in
theorem Conserved.ofTotal [DecidableEq Address] {s : State Address} {md : AssetMetadata Address}
    (hsolvent : s.balance.Solvent) (hmd : s.metadata = some md) (htotal : s.balance.total = md.totalSupply.val) :
    Conserved s := by
  refine ⟨hsolvent, ?_, ?_⟩
  · intro md' hmd'
    rw [hmd] at hmd'
    cases hmd'
    exact htotal
  · intro hnone
    rw [hmd] at hnone
    cases hnone

/-! ## One call -/

theorem initializeToken_conserved {admin : Address} {name symbol assetType : Bytes} {totalSupply : I128}
    {decimals : U32} {complianceContract : Address} {assetDescription : Bytes} {valuation : I128} {u : Unit}
    (hs : Conserved h.storage)
    (hrun : initializeToken client env admin name symbol assetType totalSupply decimals complianceContract
      assetDescription valuation h = .ok (u, h')) : Conserved h'.storage := by
  obtain ⟨hnone, -, ⟨hsupply, -⟩, -, -, -, -, x, -, hr⟩ := initializeToken_ok.1 hrun
  cases hr
  refine .ofTotal (hs.solvent.set hsupply) rfl ?_
  show Book.total (h.storage.balance.set admin totalSupply) = totalSupply.val
  rw [Book.total_set, hs.fresh hnone]
  simp [Book.balance]

/-- A move keeps the balances conserved and the metadata as it is. -/
theorem sendTo_conserved {md : AssetMetadata Address} {from_ to_ : Address} {amount : I128} {u : Unit}
    (hamount : 0 < amount.val) (hs : Conserved h.storage)
    (hrun : sendTo client env md from_ to_ amount h = .ok (u, h')) :
    Conserved h'.storage ∧ h'.storage.metadata = h.storage.metadata := by
  obtain ⟨x, -, hle, ⟨-, hr⟩ | ⟨hne, newFromBal, newToBal, hfrom, hto, hr⟩⟩ := sendTo_ok.1 hrun
  · cases hr
    exact ⟨hs, rfl⟩
  · cases hr
    refine ⟨⟨?_, fun md' hmd' => ?_, fun hnone => ?_⟩, rfl⟩
    · have := hs.solvent to_
      unfold balance at hle hfrom hto
      exact (hs.solvent.set (by omega)).set (by omega)
    · refine Eq.trans (Book.total_move h.storage.balance hfrom ?_) (hs.total md' hmd')
      rw [Book.balance_set_of_ne _ _ (Ne.symm hne)]
      exact hto
    · rw [balance, hs.fresh hnone] at hle
      simp [Book.balance] at hle
      omega

theorem transferBatch_conserved {from_ : Address} {transfers : List (Address × I128)} {u : Unit}
    (hs : Conserved h.storage) (hrun : transferBatch client env from_ transfers h = .ok (u, h')) :
    Conserved h'.storage := by
  obtain ⟨-, md, -, -, x, -, hloop⟩ := transferBatch_ok.1 hrun
  refine Call.forEach_rule (P := fun h => Conserved h.storage) (h := { h with outside := x })
    (fun p _ h₁ h₂ hs₁ hround => ?_) hs hloop
  simp only [Call.bind_ok, checkAmount_ok] at hround
  obtain ⟨_, _, ⟨hamount, e⟩, hsend⟩ := hround
  cases e
  exact (sendTo_conserved hamount hs₁ hsend).1

/-- The state of `mint_batch` between two entries: the balances follow the running supply. -/
structure Minting (md : AssetMetadata Address) (supply : I128) (s : State Address) : Prop where
  solvent : s.balance.Solvent
  total : s.balance.total = supply.val
  metadata : s.metadata = some md

theorem mintTo_conserved {md : AssetMetadata Address} {supply newSupply : I128} {to_ : Address} {amount : I128}
    (hamount : 0 < amount.val) (hs : Minting md supply h.storage)
    (hrun : mintTo client env md supply to_ amount h = .ok (newSupply, h')) : Minting md newSupply h'.storage := by
  obtain ⟨x, -, n, newToBal, hn, hto, hr⟩ := mintTo_ok.1 hrun
  cases hr
  have hbal := hs.solvent to_
  have htotal := hs.total
  unfold balance at hto
  refine ⟨hs.solvent.set (by omega), ?_, hs.metadata⟩
  show Book.total (h.storage.balance.set to_ newToBal) = newSupply.val
  rw [Book.total_set]
  omega

theorem mintEntries_conserved {md : AssetMetadata Address} {supply newSupply : I128}
    {recipients : List (Address × I128)} (hs : Minting md supply h.storage)
    (hrun : Call.foldEach (mintEntry client env md) supply recipients h = .ok (newSupply, h')) :
    Minting md newSupply h'.storage := by
  refine Call.foldEach_rule (P := fun supply h => Minting md supply h.storage) (fun p _ b₁ h₁ b₂ h₂ hs₁ hround => ?_)
    hs hrun
  simp only [Call.bind_ok, checkAmount_ok, Call.publish_ok, Call.pure_ok] at hround
  obtain ⟨_, _, ⟨hamount, e₁⟩, n, h₃, hmint, _, _, e₂, e₃⟩ := hround
  cases e₁; cases e₂; cases e₃
  show Minting md b₂ h₃.storage
  exact mintTo_conserved hamount hs₁ hmint

theorem Conserved.minting {s : State Address} (hs : Conserved s) {md : AssetMetadata Address}
    (hmd : s.metadata = some md) : Minting md md.totalSupply s := ⟨hs.solvent, hs.total md hmd, hmd⟩

theorem burn_conserved {from_ : Address} {amount : I128} {u : Unit} (hs : Conserved h.storage)
    (hrun : burn client env from_ amount h = .ok (u, h')) : Conserved h'.storage := by
  obtain ⟨-, hamount, md, hmd, -, x, -, hle, newFromBal, newSupply, hfrom, hsupply, hr⟩ := burn_ok.1 hrun
  cases hr
  have htotal := hs.total md hmd
  unfold balance at hle hfrom
  refine .ofTotal (hs.solvent.set (by omega)) rfl ?_
  show Book.total (h.storage.balance.set from_ newFromBal) = newSupply.val
  rw [Book.total_set]
  omega

/-- Sender and recipient may coincide: the recipient's balance is read after the debit. -/
theorem transferFrom_conserved {spender from_ to_ : Address} {amount : I128} {u : Unit} (hs : Conserved h.storage)
    (hrun : transferFrom client env spender from_ to_ amount h = .ok (u, h')) : Conserved h'.storage := by
  obtain ⟨-, hamount, md, hmd, -, x, -, y, -, -, hle, newFromBal, newToBal, left, hfrom, hto, -, hr⟩ :=
    transferFrom_ok.1 hrun
  cases hr
  unfold balance at hle hfrom
  have hdebit : Book.Solvent (h.storage.balance.set from_ newFromBal) := hs.solvent.set (by omega)
  have := hdebit to_
  exact .ofTotal (hdebit.set (by omega)) hmd ((Book.total_move _ hfrom hto).trans (hs.total md hmd))

theorem call_conserved {op : Op Address} {u : Unit} (hs : Conserved h.storage)
    (hrun : call client env op h = .ok (u, h')) : Conserved h'.storage := by
  by_cases hop : op.administrative = true
  · obtain ⟨hbal, ⟨md, md', hmd, hmd', hsupply, -⟩, -⟩ := call_administrative hop hrun
    refine .ofTotal ?_ hmd' ?_
    · rw [hbal]
      exact hs.solvent
    · rw [hbal, hsupply]
      exact hs.total md hmd
  · cases op <;> first | exact absurd rfl hop | skip
    case initializeToken => exact initializeToken_conserved hs hrun
    case transfer =>
      obtain ⟨-, hamount, md, -, -, x, -, hsend⟩ := transfer_ok.1 hrun
      exact (sendTo_conserved (h := { h with outside := x }) hamount hs hsend).1
    case transferBatch => exact transferBatch_conserved hs hrun
    case mint =>
      obtain ⟨md, hmd, -, -, hamount, -, n, h₁, hmint, hr⟩ := mint_ok.1 hrun
      cases hr
      have hs₁ := mintTo_conserved hamount (hs.minting hmd) hmint
      exact .ofTotal hs₁.solvent rfl hs₁.total
    case mintBatch =>
      obtain ⟨md, hmd, -, -, -, n, h₁, hloop, hr⟩ := mintBatch_ok.1 hrun
      cases hr
      have hs₁ := mintEntries_conserved (hs.minting hmd) hloop
      exact .ofTotal hs₁.solvent rfl hs₁.total
    case burn => exact burn_conserved hs hrun
    case transferFrom => exact transferFrom_conserved hs hrun

/-! ## Runs -/

theorem conserved_fresh : Conserved (State.fresh Address) := ⟨Book.solvent_empty, by simp [State.fresh], fun _ => rfl⟩

theorem run_conserved (x : X) (ls : List (Label Address X)) :
    Conserved ((token client).run (Contract.fresh Address x) ls).storage := by
  refine System.invariant (I := fun h : Contract Address X => Conserved h.storage) conserved_fresh ?_ ls
  intro h l u h' hs hstep
  cases l with
  | call env op => exact call_conserved hs (Call.returned_eq_some.1 hstep)
  | others y =>
    cases hstep
    exact hs

/-- **Conservation.** In every state that an initialized token can reach, whatever the compliance contracts answer,
the stored balances sum to the total supply, and the supply and every balance lie between zero and `i128::MAX`. -/
theorem balances_sum_to_supply (client : ComplianceClient Address X) (x : X) (ls : List (Label Address X)) :
    let s := ((token client).run (Contract.fresh Address x) ls).storage
    ∀ md, s.metadata = some md →
      s.balance.sum (fun _ amount => amount.val) = md.totalSupply.val ∧
        (0 ≤ md.totalSupply.val ∧ md.totalSupply.val ≤ 2 ^ 127 - 1) ∧
        ∀ a, 0 ≤ (balance s a).val ∧ (balance s a).val ≤ 2 ^ 127 - 1 := by
  intro s md hmd
  have hs : Conserved s := run_conserved x ls
  have htotal := hs.total md hmd
  have hnonneg := hs.solvent.total_nonneg
  exact ⟨htotal, ⟨htotal ▸ hnonneg, md.totalSupply.le_hi⟩, fun a => ⟨hs.solvent a, (balance s a).le_hi⟩⟩

/-- A token of supply 100 whose compliance contract approves everyone; the admin pays itself and another twice. -/
def approvingRun : List (Label ℕ Unit) :=
  [.call (.signed 0) (.initializeToken 1 [65] [65] [65] 100 0 9 [65] 0),
    .call (.signed 0) (.transferBatch 1 [(2, 1), (1, 1), (2, 1)]),
    .call (.signed 0) (.mint 1 2 1)]

theorem balances_sum_to_supply_approving :
    ((token fun _ x _ _ => some (true, x)).run (Contract.fresh ℕ ()) approvingRun).storage.balance.sum
      (fun _ amount => amount.val) = 101 := by
  have hsupply : (((token fun _ x _ _ => some (true, x)).run (Contract.fresh ℕ ()) approvingRun).storage.metadata.map
      fun md => md.totalSupply.val) = some 101 := by decide +kernel
  obtain ⟨md, hmd, hsupply⟩ := Option.map_eq_some_iff.1 hsupply
  exact (balances_sum_to_supply (fun _ x _ _ => some (true, x)) () approvingRun md hmd).1.trans hsupply

end StellarRwa.Token
