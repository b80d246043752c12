import StellarRwa.Lockup

/-!
# Batches

`transfer_batch` and `mint_batch` do what the single calls do, one entry after the other. The single calls ask the
compliance contract more often, so its answers must stay the same while it is asked (`Steady`). The two loops then
simulate each other: `transferBatch` and the single transfers go through the same storages, `mintBatch` keeps the new
supply in a local variable that the single mints keep in the metadata.
-/

namespace StellarRwa.Token

open Lib

variable {Address X : Type} {client : ComplianceClient Address X} {env : Env Address}

/-! ## Answers that stay -/

/-- The other contracts after some questions to the compliance contract at `c`. -/
inductive Questioned (client : ComplianceClient Address X) (env : Env Address) (c : Address) (x : X) : X → Prop
  | refl : Questioned client env c x x
  | ask {y z : X} {who : Address} {b : Bool} (hy : Questioned client env c x y)
    (hz : client env y c who = some (b, z)) : Questioned client env c x z

/-- Asking the compliance contract at `c` does not change its answers. -/
def Steady (client : ComplianceClient Address X) (env : Env Address) (c : Address) (x : X) : Prop :=
  ∀ y, Questioned client env c x y → ∀ who, (client env y c who).map Prod.fst = (client env x c who).map Prod.fst

/-- A yes in the middle of the questions is a yes anywhere among them. -/
theorem Steady.yes {c who : Address} {x y z y' : X} (hsteady : Steady client env c x)
    (hy : Questioned client env c x y) (hz : Questioned client env c x z)
    (hyes : client env y c who = some (true, y')) :
    Questioned client env c x y' ∧ ∃ z', client env z c who = some (true, z') ∧ Questioned client env c x z' := by
  have hsame := (hsteady y hy who).trans (hsteady z hz who).symm
  rw [hyes, Option.map_some] at hsame
  obtain ⟨⟨b, z'⟩, hz', hb⟩ := Option.map_eq_some_iff.1 hsame.symm
  obtain rfl : b = true := hb
  exact ⟨hy.ask hyes, z', hz', hz.ask hz'⟩

theorem Questioned.queried {c : Address} {x y : X} (h : Questioned client env c x y) : Queried client env x y := by
  induction h with
  | refl => exact .refl
  | ask _ hz ih => exact ih.ask hz

/-- The compliance contract of the repository is steady: a question leaves its storage as it was. -/
theorem isAllowedAt_steady [DecidableEq Address] (env : Env Address) (c : Address) (x : Fleet Address) :
    Steady isAllowedAt env c x := by
  intro y hy who
  have hsame := queried_sameStorage hy.queried c
  cases hx : x.get c with
  | none =>
    rw [hx, Option.map_none, Option.map_eq_none_iff] at hsame
    simp [isAllowedAt, hx, hsame]
  | some k =>
    rw [hx, Option.map_some] at hsame
    obtain ⟨k', hk', hstorage⟩ := Option.map_eq_some_iff.1 hsame
    rw [isAllowedAt_map hx, isAllowedAt_map hk']
    have halike : (Compliance.isAllowed env who k').map Prod.fst = (Compliance.isAllowed env who k).map Prod.fst :=
      Compliance.isAllowed_alike (by rw [hstorage]) (by rw [hstorage]) fun _ => by rw [hstorage]
    rw [halike]

variable [DecidableEq Address]

/-- A call that does not return changes nothing. -/
theorem exec_of_fault {op : Op Address} {h : Contract Address X} (hfail : ¬ ∃ h', call client env op h = .ok ((), h')) :
    (token client).exec h (.call env op) = h := by
  refine System.exec_of_none (Option.eq_none_iff_forall_ne_some.2 fun r hstep => ?_)
  exact hfail ⟨r.2, Call.returned_eq_some.1 hstep⟩

/-! ## Transfers -/

/-- Two tokens in the middle of the transfers: the same storage and events, among contracts that were only asked. -/
structure InStep (client : ComplianceClient Address X) (env : Env Address) (md : AssetMetadata Address) (x : X)
    (h k : Contract Address X) : Prop where
  metadata : h.storage.metadata = some md
  storage : h.storage = k.storage
  events : h.events = k.events
  outside : Questioned client env md.complianceContract x h.outside
  outside' : Questioned client env md.complianceContract x k.outside

section Transfers

variable {md : AssetMetadata Address} {x : X} {h h' k : Contract Address X} {from_ to_ : Address} {amount : I128}
  {u : Unit}

omit [DecidableEq Address] in
theorem InStep.symm (hstep : InStep client env md x h k) : InStep client env md x k h :=
  ⟨hstep.storage ▸ hstep.metadata, hstep.storage.symm, hstep.events.symm, hstep.outside', hstep.outside⟩

theorem sendTo_inStep (hsteady : Steady client env md.complianceContract x) (hstep : InStep client env md x h k)
    (hrun : sendTo client env md from_ to_ amount h = .ok (u, h')) :
    ∃ k', sendTo client env md from_ to_ amount k = .ok (u, k') ∧ InStep client env md x h' k' := by
  obtain ⟨hs, hx, he⟩ := h
  obtain ⟨ks, kx, ke⟩ := k
  obtain ⟨hmd, hst, hev, hout, hout'⟩ := hstep
  cases hst
  cases hev
  obtain ⟨y, hyes, hfunds, hmove⟩ := sendTo_ok.1 hrun
  obtain ⟨hy, z, hz, hz'⟩ := hsteady.yes hout hout' hyes
  rcases hmove with ⟨hself, hr⟩ | ⟨hne, newFromBal, newToBal, hfrom, hto, hr⟩
  · cases hr
    exact ⟨_, sendTo_ok.2 ⟨z, hz, hfunds, .inl ⟨hself, rfl⟩⟩, hmd, rfl, rfl, hy, hz'⟩
  · cases hr
    exact ⟨_, sendTo_ok.2 ⟨z, hz, hfunds, .inr ⟨hne, newFromBal, newToBal, hfrom, hto, rfl⟩⟩, hmd, rfl, rfl, hy, hz'⟩

/-- One round of the batch, and the single transfer. -/
theorem transfer_of_round (hsteady : Steady client env md.complianceContract x) (hstep : InStep client env md x h k)
    (hsigned : env.authorized from_ = true) (hpaused : md.paused = false) {y : X}
    (hsender : client env x md.complianceContract from_ = some (true, y))
    (hrun : (checkAmount amount >>= fun _ => sendTo client env md from_ to_ amount) h = .ok (u, h')) :
    ∃ k', transfer client env from_ to_ amount k = .ok (u, k') ∧ InStep client env md x h' k' := by
  simp only [Call.bind_ok, checkAmount_ok] at hrun
  obtain ⟨_, _, ⟨hamount, e⟩, hsend⟩ := hrun
  cases e
  obtain ⟨-, z, hz, hz'⟩ := hsteady.yes .refl hstep.outside' hsender
  have hasked : InStep client env md x h { k with outside := z } :=
    ⟨hstep.metadata, hstep.storage, hstep.events, hstep.outside, hz'⟩
  obtain ⟨k', hsend', hstep'⟩ := sendTo_inStep hsteady hasked hsend
  exact ⟨k', transfer_ok.2 ⟨hsigned, hamount, md, hstep.symm.metadata, hpaused, z, hz, hsend'⟩, hstep'⟩

/-- The single transfer, and one round of the batch. -/
theorem round_of_transfer (hsteady : Steady client env md.complianceContract x) (hstep : InStep client env md x h k)
    (hrun : transfer client env from_ to_ amount h = .ok (u, h')) :
    ∃ k', (checkAmount amount >>= fun _ => sendTo client env md from_ to_ amount) k = .ok (u, k') ∧
      InStep client env md x h' k' := by
  obtain ⟨-, hamount, md', hmd', -, y, hy, hsend⟩ := transfer_ok.1 hrun
  obtain rfl : md = md' := Option.some.inj (hstep.metadata.symm.trans hmd')
  have hasked : InStep client env md x { h with outside := y } k :=
    ⟨hstep.metadata, hstep.storage, hstep.events, hstep.outside.ask hy, hstep.outside'⟩
  obtain ⟨k', hsend', hstep'⟩ := sendTo_inStep hsteady hasked hsend
  refine ⟨k', ?_, hstep'⟩
  simp only [Call.bind_ok, checkAmount_ok]
  exact ⟨(), k, ⟨hamount, rfl⟩, hsend'⟩

end Transfers

/-- `transfer` for each entry, one call after the other. -/
def transferEach (client : ComplianceClient Address X) (env : Env Address) (from_ : Address)
    (transfers : List (Address × I128)) : M Address X Unit :=
  Call.forEach transfers fun p => transfer client env from_ p.1 p.2

section Batch

variable {md : AssetMetadata Address} {h h' : Contract Address X} {from_ : Address} {transfers : List (Address × I128)}
  {u : Unit}

theorem transferEach_of_batch (hmd : h.storage.metadata = some md)
    (hsteady : Steady client env md.complianceContract h.outside)
    (hrun : transferBatch client env from_ transfers h = .ok (u, h')) :
    ∃ k', transferEach client env from_ transfers h = .ok ((), k') ∧ InStep client env md h.outside h' k' := by
  obtain ⟨hsigned, md', hmd', hpaused, y, hsender, hloop⟩ := transferBatch_ok.1 hrun
  obtain rfl : md = md' := Option.some.inj (hmd.symm.trans hmd')
  have hstart : InStep client env md h.outside { h with outside := y } h :=
    ⟨hmd, rfl, rfl, .ask .refl hsender, .refl⟩
  obtain ⟨_, k', hloop', hend⟩ := Call.foldEach_sim (P := fun _ h _ k => InStep client env md _ h k)
    (g := fun _ p => transfer client env from_ p.1 p.2)
    (fun p _ _ h₁ _ k₁ _ h₂ hP hround => ⟨(), transfer_of_round hsteady hP hsigned hpaused hsender hround⟩) hstart hloop
  exact ⟨k', hloop', hend⟩

theorem batch_of_transferEach (hmd : h.storage.metadata = some md) (hne : transfers ≠ [])
    (hsteady : Steady client env md.complianceContract h.outside)
    (hrun : transferEach client env from_ transfers h = .ok (u, h')) :
    ∃ k', transferBatch client env from_ transfers h = .ok ((), k') := by
  -- the first single call passes the checks that the batch makes once
  obtain ⟨p, rest, rfl⟩ := List.exists_cons_of_ne_nil hne
  have hfirst := hrun
  rw [transferEach, Call.forEach_cons, Call.bind_ok] at hfirst
  obtain ⟨_, _, hfirst, -⟩ := hfirst
  obtain ⟨hsigned, -, md', hmd', hpaused, y, hsender, -⟩ := transfer_ok.1 hfirst
  obtain rfl : md = md' := Option.some.inj (hmd.symm.trans hmd')
  have hstart : InStep client env md h.outside h { h with outside := y } :=
    ⟨hmd, rfl, rfl, .refl, .ask .refl hsender⟩
  obtain ⟨_, k', hloop, -⟩ := Call.foldEach_sim (P := fun _ h _ k => InStep client env md _ h k)
    (g := fun _ p => checkAmount p.2 >>= fun _ => sendTo client env md from_ p.1 p.2)
    (fun p _ _ h₁ _ k₁ _ h₂ hP hround => ⟨(), round_of_transfer hsteady hP hround⟩) hstart hrun
  exact ⟨k', transferBatch_ok.2 ⟨hsigned, md, hmd, hpaused, y, hsender, hloop⟩⟩

/-- **`transfer_batch` refines `transfer`.** On a list that is not empty and with a compliance contract whose answers do
not change while it is asked, the batch returns exactly when the single transfers, one after the other, all return; then
both leave the same storage and the same events, and when the batch fails nothing has changed. -/
theorem transferBatch_refines (hmd : h.storage.metadata = some md)
    (hsteady : Steady client env md.complianceContract h.outside) (from_ : Address) (transfers : List (Address × I128))
    (hne : transfers ≠ []) :
    ((∃ h₁, transferBatch client env from_ transfers h = .ok ((), h₁)) ↔
        ∃ h₂, transferEach client env from_ transfers h = .ok ((), h₂)) ∧
      (∀ h₁ h₂, transferBatch client env from_ transfers h = .ok ((), h₁) →
        transferEach client env from_ transfers h = .ok ((), h₂) → h₁.storage = h₂.storage ∧ h₁.events = h₂.events) ∧
      ((¬ ∃ h₁, transferBatch client env from_ transfers h = .ok ((), h₁)) →
        (token client).exec h (.call env (.transferBatch from_ transfers)) = h) := by
  refine ⟨⟨?_, ?_⟩, ?_, fun hfail => exec_of_fault hfail⟩
  · rintro ⟨h₁, hrun⟩
    obtain ⟨k', hsingles, -⟩ := transferEach_of_batch hmd hsteady hrun
    exact ⟨k', hsingles⟩
  · rintro ⟨h₂, hrun⟩
    exact batch_of_transferEach hmd hne hsteady hrun
  · intro h₁ h₂ hrun hrun'
    obtain ⟨k', hsingles, hend⟩ := transferEach_of_batch hmd hsteady hrun
    rw [hrun'] at hsingles
    cases hsingles
    exact ⟨hend.storage, hend.events⟩

end Batch

/-- The metadata of the token of `mintedRun`. -/
def mintedMetadata : AssetMetadata ℕ := ⟨[65], [65], [65], 200, 0, 0, 9, [65], 0, false, none, none⟩

theorem metadata_mintedRun : (lockupWorld mintedRun).storage.metadata = some mintedMetadata := by decide +kernel

/-- 1 holds 100 and sends 10 and 90 to 0, with 5 to itself in between. -/
theorem transferBatch_refines_minted :
    ∃ h₁ h₂, transferBatch isAllowedAt (Env.signed 20) 1 [(0, 10), (1, 5), (0, 90)] (lockupWorld mintedRun)
        = .ok ((), h₁) ∧
      transferEach isAllowedAt (Env.signed 20) 1 [(0, 10), (1, 5), (0, 90)] (lockupWorld mintedRun) = .ok ((), h₂) ∧
      h₁.storage = h₂.storage ∧ h₁.events = h₂.events := by
  obtain ⟨hiff, hsame, -⟩ := transferBatch_refines metadata_mintedRun
    (isAllowedAt_steady (Env.signed 20) _ _) 1 [(0, 10), (1, 5), (0, 90)] (by simp)
  have hreturns : (transferBatch isAllowedAt (Env.signed 20) 1 [(0, 10), (1, 5), (0, 90)] (lockupWorld mintedRun)).map
      Prod.fst = .ok () := by decide +kernel
  obtain ⟨h₁, hbatch⟩ := Call.exists_of_map_fst hreturns
  obtain ⟨h₂, hsingles⟩ := hiff.1 ⟨h₁, hbatch⟩
  exact ⟨h₁, h₂, hbatch, hsingles, hsame h₁ h₂ hbatch hsingles⟩

/-! ## Mints -/

/-- A batch of mints with new supply `n` so far, and the token in the middle of the single mints. -/
structure MintedAlike (client : ComplianceClient Address X) (env : Env Address) (md : AssetMetadata Address) (x : X)
    (n : I128) (h k : Contract Address X) : Prop where
  storage : k.storage = { h.storage with metadata := some { md with totalSupply := n } }
  events : h.events = k.events
  outside : Questioned client env md.complianceContract x h.outside
  outside' : Questioned client env md.complianceContract x k.outside

/-- `mint` for each entry, one call after the other. -/
def mintEach (client : ComplianceClient Address X) (env : Env Address) (admin : Address)
    (recipients : List (Address × I128)) : M Address X Unit :=
  Call.forEach recipients fun p => mint client env admin p.1 p.2

section Mints

variable {md : AssetMetadata Address} {x : X} {n n' : I128} {h h' k k' : Contract Address X} {p : Address × I128}
  {admin : Address} {recipients : List (Address × I128)} {u : Unit}

theorem mint_of_round (hsteady : Steady client env md.complianceContract x) (hmint : MintedAlike client env md x n h k)
    (hsigned : env.authorized admin = true) (hadmin : md.admin = admin) (hpaused : md.paused = false)
    (hrun : mintEntry client env md n p h = .ok (n', h')) :
    ∃ k', mint client env admin p.1 p.2 k = .ok (u, k') ∧ MintedAlike client env md x n' h' k' := by
  obtain ⟨ks, kx, ke⟩ := k
  obtain ⟨hst, hev, hout, hout'⟩ := hmint
  cases hst
  cases hev
  simp only [Call.bind_ok, checkAmount_ok, mintTo_ok, Call.publish_ok, Call.pure_ok] at hrun
  obtain ⟨_, _, ⟨hamount, e₁⟩, _, _, ⟨y, hyes, newSupply, newToBal, hsupply, hto, e₂⟩, _, _, e₃, e₄⟩ := hrun
  cases e₁; cases e₂; cases e₃; cases e₄
  obtain ⟨hy, z, hz, hz'⟩ := hsteady.yes hout hout' hyes
  exact ⟨_, mint_ok.2 ⟨_, rfl, hsigned, hadmin, hamount, hpaused, _, _,
    mintTo_ok.2 ⟨z, hz, _, newToBal, hsupply, hto, rfl⟩, rfl⟩, rfl, rfl, hy, hz'⟩

theorem round_of_mint (hsteady : Steady client env md.complianceContract x) (hmint : MintedAlike client env md x n h k)
    (hrun : mint client env admin p.1 p.2 k = .ok (u, k')) :
    ∃ n' h', mintEntry client env md n p h = .ok (n', h') ∧ MintedAlike client env md x n' h' k' := by
  obtain ⟨ks, kx, ke⟩ := k
  obtain ⟨hst, hev, hout, hout'⟩ := hmint
  cases hst
  cases hev
  obtain ⟨md', hmd', -, -, hamount, -, newSupply, k₁, hto, hr⟩ := mint_ok.1 hrun
  cases hmd'
  cases hr
  obtain ⟨y, hyes, newSupply, newToBal, hsupply, hbal, hr⟩ := mintTo_ok.1 hto
  cases hr
  obtain ⟨hy, z, hz, hz'⟩ := hsteady.yes hout' hout hyes
  have hround : mintEntry client env md n p h = .ok (newSupply,
      { storage := { h.storage with balance := h.storage.balance.set p.1 newToBal }
        outside := z
        events := h.events ++ [.mint p.1 p.2] }) := by
    simp only [Call.bind_ok, checkAmount_ok, mintTo_ok, Call.publish_ok, Call.pure_ok]
    exact ⟨(), _, ⟨hamount, rfl⟩, newSupply, _, ⟨z, hz, newSupply, newToBal, hsupply, hbal, rfl⟩, (), _, rfl, rfl⟩
  exact ⟨newSupply, _, hround, rfl, rfl, hz', hy⟩

omit [DecidableEq Address] in
theorem minting_start (hmd : h.storage.metadata = some md) :
    MintedAlike client env md h.outside md.totalSupply h h := by
  obtain ⟨⟨metadata, balance, allowance⟩, hx, he⟩ := h
  cases hmd
  exact ⟨rfl, rfl, .refl, .refl⟩

theorem mintEach_of_batch (hmd : h.storage.metadata = some md)
    (hsteady : Steady client env md.complianceContract h.outside)
    (hrun : mintBatch client env admin recipients h = .ok (u, h')) :
    ∃ k', mintEach client env admin recipients h = .ok ((), k') ∧ h'.storage = k'.storage ∧ h'.events = k'.events := by
  obtain ⟨md', hmd', hsigned, hadmin, hpaused, newSupply, h₁, hloop, hr⟩ := mintBatch_ok.1 hrun
  obtain rfl : md = md' := Option.some.inj (hmd.symm.trans hmd')
  cases hr
  obtain ⟨_, k', hloop', hend⟩ := Call.foldEach_sim (P := fun n h _ k => MintedAlike client env md _ n h k)
    (g := fun _ p => mint client env admin p.1 p.2)
    (fun p _ _ _ _ _ _ _ hP hround => ⟨(), mint_of_round hsteady hP hsigned hadmin hpaused hround⟩)
    (minting_start hmd) hloop
  exact ⟨k', hloop', hend.storage.symm, hend.events⟩

theorem batch_of_mintEach (hmd : h.storage.metadata = some md) (hne : recipients ≠ [])
    (hsteady : Steady client env md.complianceContract h.outside)
    (hrun : mintEach client env admin recipients h = .ok (u, h')) :
    ∃ k', mintBatch client env admin recipients h = .ok ((), k') := by
  obtain ⟨p, rest, rfl⟩ := List.exists_cons_of_ne_nil hne
  have hfirst := hrun
  rw [mintEach, Call.forEach_cons, Call.bind_ok] at hfirst
  obtain ⟨_, _, hfirst, -⟩ := hfirst
  obtain ⟨md', hmd', hsigned, hadmin, -, hpaused, -⟩ := mint_ok.1 hfirst
  obtain rfl : md = md' := Option.some.inj (hmd.symm.trans hmd')
  obtain ⟨newSupply, k', hloop, -⟩ := Call.foldEach_sim (P := fun _ k n h => MintedAlike client env md _ n h k)
    (g := mintEntry client env md) (fun p _ _ _ _ _ _ _ hP hround => round_of_mint hsteady hP hround)
    (minting_start hmd) hrun
  exact ⟨_, mintBatch_ok.2 ⟨md, hmd, hsigned, hadmin, hpaused, newSupply, k', hloop, rfl⟩⟩

/-- **`mint_batch` refines `mint`.** On a list that is not empty and with a compliance contract whose answers do not
change while it is asked, the batch returns exactly when the single mints, one after the other, all return; then both
leave the same storage and the same events, and when the batch fails nothing has changed. -/
theorem mintBatch_refines (hmd : h.storage.metadata = some md)
    (hsteady : Steady client env md.complianceContract h.outside) (admin : Address)
    (recipients : List (Address × I128)) (hne : recipients ≠ []) :
    ((∃ h₁, mintBatch client env admin recipients h = .ok ((), h₁)) ↔
        ∃ h₂, mintEach client env admin recipients h = .ok ((), h₂)) ∧
      (∀ h₁ h₂, mintBatch client env admin recipients h = .ok ((), h₁) →
        mintEach client env admin recipients h = .ok ((), h₂) → h₁.storage = h₂.storage ∧ h₁.events = h₂.events) ∧
      ((¬ ∃ h₁, mintBatch client env admin recipients h = .ok ((), h₁)) →
        (token client).exec h (.call env (.mintBatch admin recipients)) = h) := by
  refine ⟨⟨?_, ?_⟩, ?_, fun hfail => exec_of_fault hfail⟩
  · rintro ⟨h₁, hrun⟩
    obtain ⟨k', hsingles, -⟩ := mintEach_of_batch hmd hsteady hrun
    exact ⟨k', hsingles⟩
  · rintro ⟨h₂, hrun⟩
    exact batch_of_mintEach hmd hne hsteady hrun
  · intro h₁ h₂ hrun hrun'
    obtain ⟨k', hsingles, hend⟩ := mintEach_of_batch hmd hsteady hrun
    rw [hrun'] at hsingles
    cases hsingles
    exact hend

end Mints

/-- 1 is minted to twice, with 0 in between. -/
theorem mintBatch_refines_minted :
    ∃ h₁ h₂, mintBatch isAllowedAt (Env.signed 20) 0 [(1, 10), (0, 5), (1, 90)] (lockupWorld mintedRun)
        = .ok ((), h₁) ∧
      mintEach isAllowedAt (Env.signed 20) 0 [(1, 10), (0, 5), (1, 90)] (lockupWorld mintedRun) = .ok ((), h₂) ∧
      h₁.storage = h₂.storage ∧ h₁.events = h₂.events := by
  obtain ⟨hiff, hsame, -⟩ := mintBatch_refines metadata_mintedRun
    (isAllowedAt_steady (Env.signed 20) _ _) 0 [(1, 10), (0, 5), (1, 90)] (by simp)
  have hreturns : (mintBatch isAllowedAt (Env.signed 20) 0 [(1, 10), (0, 5), (1, 90)] (lockupWorld mintedRun)).map
      Prod.fst = .ok () := by decide +kernel
  obtain ⟨h₁, hbatch⟩ := Call.exists_of_map_fst hreturns
  obtain ⟨h₂, hsingles⟩ := hiff.1 ⟨h₁, hbatch⟩
  exact ⟨h₁, h₂, hbatch, hsingles, hsame h₁ h₂ hbatch hsingles⟩

end StellarRwa.Token
