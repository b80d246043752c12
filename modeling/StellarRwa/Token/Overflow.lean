import StellarRwa.Token.Conservation
import StellarRwa.Token.Questions

/-!
# Overflow

Which of the arithmetic checks of the token can fail. As the balances of any two accounts sum to at most the supply, no
transfer and no burn can overflow or underflow (`sendTo_fault`, `transferFrom_fault`, `burn_fault`): they trap only for
a missing signature or with the compliance contract. A mint overflows exactly when the new supply does not fit; the
check of the recipient's balance never decides (`Minting.recipient_fits`).
-/

namespace StellarRwa.Token

open Lib

variable {Address X : Type} {client : ComplianceClient Address X} {env : Env Address} {c : Address} {x : X}

/-! ## Asking in turn -/

/-- The compliance contract at `c`, asked about these addresses in turn, approves each. -/
def Approves (client : ComplianceClient Address X) (env : Env Address) (c : Address) : X → List Address → Prop
  | _, [] => True
  | x, a :: as => ∃ y, client env x c a = some (true, y) ∧ Approves client env c y as

/-- The compliance contract at `c`, asked about these addresses in turn as long as it approves them, traps at one. -/
def Traps (client : ComplianceClient Address X) (env : Env Address) (c : Address) : X → List Address → Prop
  | _, [] => False
  | x, a :: as => client env x c a = none ∨ ∃ y, client env x c a = some (true, y) ∧ Traps client env c y as

/-- The fault is not an overflow, and a trap is one of the compliance contract while it is asked about `whos`. -/
def NotArithmetic (client : ComplianceClient Address X) (env : Env Address) (c : Address) (x : X)
    (whos : List Address) (f : Fault Error) : Prop :=
  f ≠ .error .overflow ∧ (f = .trap → Traps client env c x whos)

variable {whos : List Address} {who : Address} {f : Fault Error}

theorem NotArithmetic.ofError {e : Error} (he : e ≠ .overflow) : NotArithmetic client env c x whos (.error e) :=
  ⟨fun h => he (Fault.error.inj h), nofun⟩

theorem NotArithmetic.ofTrap (hx : client env x c who = none) : NotArithmetic client env c x (who :: whos) .trap :=
  ⟨nofun, fun _ => .inl hx⟩

theorem NotArithmetic.asked {y : X} (hy : client env x c who = some (true, y))
    (hf : NotArithmetic client env c y whos f) : NotArithmetic client env c x (who :: whos) f :=
  ⟨hf.1, fun h => .inr ⟨y, hy, hf.2 h⟩⟩

variable [DecidableEq Address] {h h' : Contract Address X} {md : AssetMetadata Address} {from_ to_ : Address}
  {amount : I128}

/-! ## Room for a transfer -/

/-- No two balances exceed the supply, so crediting one with a part of the other fits. -/
theorem Conserved.room (hs : Conserved h.storage) (hmd : h.storage.metadata = some md) (hne : from_ ≠ to_) :
    (balance h.storage from_).val + (balance h.storage to_).val ≤ md.totalSupply.val := by
  rw [← hs.total md hmd]
  exact hs.solvent.balance_add_le_total hne

theorem Conserved.balance_le (hs : Conserved h.storage) (hmd : h.storage.metadata = some md) (a : Address) :
    (balance h.storage a).val ≤ md.totalSupply.val := by
  rw [← hs.total md hmd]
  exact hs.solvent.balance_le_total a

/-- What is left of a debited balance is credited to an account that may be the same. -/
theorem Conserved.credit_after_debit (hs : Conserved h.storage) (hmd : h.storage.metadata = some md) (to_ : Address)
    (hfunds : amount.val ≤ (balance h.storage from_).val) {newFromBal : I128}
    (hdebit : newFromBal.val = (balance h.storage from_).val - amount.val) :
    0 ≤ (Book.balance (h.storage.balance.set from_ newFromBal) to_).val ∧
      (Book.balance (h.storage.balance.set from_ newFromBal) to_).val + amount.val ≤ md.totalSupply.val := by
  have hpart := hs.balance_le hmd from_
  rw [Book.balance_set]
  split
  · omega
  · rename_i hne
    have hto : 0 ≤ (balance h.storage to_).val := hs.solvent to_
    have hroom := hs.room hmd (Ne.symm hne)
    unfold balance at *
    omega

theorem sendTo_fault (hs : Conserved h.storage) (hmd : h.storage.metadata = some md) (hamount : 0 < amount.val)
    (hrun : sendTo client env md from_ to_ amount h = .error f) :
    NotArithmetic client env md.complianceContract h.outside (to_ :: whos) f := by
  have hto : 0 ≤ (balance h.storage to_).val := hs.solvent to_
  have hsupply := md.totalSupply.le_hi
  simp only [sendTo, Call.bind_error, requireCompliant_error, requireCompliant_ok, Call.storage_error, Call.storage_ok,
    Call.panicIf_error, Call.panicIf_ok, Call.ite_error, Call.publish_error, Call.orTrap_error, Call.orTrap_ok,
    setBalance_error, setBalance_ok, Call.unwrapOrElse_error, Call.unwrapOrElse_ok, false_or, or_false, and_false,
    exists_false, MInt.checkedSub_eq_none, MInt.checkedAdd_eq_none, MInt.lt_def, not_lt] at hrun
  rcases hrun with (⟨hno, e⟩ | ⟨y, hno, e⟩) | ⟨_, _, ⟨y, hy, e₁⟩, _, _, e₂, hrun⟩
  · cases e
    exact .ofTrap hno
  · cases e
    exact .ofError (by decide)
  cases e₁; cases e₂
  rcases hrun with ⟨-, e⟩ | ⟨_, _, ⟨hfunds, e₁⟩, hne, hrun⟩
  · cases e
    exact .ofError (by decide)
  cases e₁
  -- the debit is covered, and the credit fits because two balances sum to at most the supply
  have hroom := hs.room hmd hne
  have hfrom := (balance h.storage from_).le_hi
  dsimp only at hfunds hrun
  exfalso
  rcases hrun with ⟨hout, -⟩ | ⟨_, _, -, _, _, -, hout, -⟩
  · omega
  · omega

/-! ## Transfers and burns -/

/-- A call of `signer` that asks about `whos` does not fail by arithmetic: the fault is not an overflow, and a trap is a
missing signature or a trap of the compliance contract. -/
def Foreign (client : ComplianceClient Address X) (env : Env Address) (signer : Address) (whos : List Address)
    (h : Contract Address X) (f : Fault Error) : Prop :=
  f ≠ .error .overflow ∧ (f = .trap → env.authorized signer = false ∨
    ∃ md, h.storage.metadata = some md ∧ Traps client env md.complianceContract h.outside whos)

omit [DecidableEq Address] in
theorem Foreign.ofError {signer : Address} {e : Error} (he : e ≠ .overflow) :
    Foreign client env signer whos h (.error e) := ⟨fun h => he (Fault.error.inj h), nofun⟩

omit [DecidableEq Address] in
theorem NotArithmetic.foreign {signer : Address} (hmd : h.storage.metadata = some md)
    (hf : NotArithmetic client env md.complianceContract h.outside whos f) : Foreign client env signer whos h f :=
  ⟨hf.1, fun htrap => .inr ⟨md, hmd, hf.2 htrap⟩⟩

omit [DecidableEq Address] in
/-- The checks that the calls of a sender share, and what comes after them. -/
theorem sender_fault {signer : Address} {k : AssetMetadata Address → M Address X Unit}
    (hk : ∀ md y, h.storage.metadata = some md → k md { h with outside := y } = .error f →
      NotArithmetic client env md.complianceContract y whos f)
    (hrun : (do
      let md ← metadata
      Call.panicIf (md.paused = true) .paused
      requireCompliant client env md.complianceContract from_ .senderNotCompliant
      k md) h = .error f) : Foreign client env signer (from_ :: whos) h f := by
  simp only [Call.bind_error, metadata_error, metadata_ok, Call.panicIf_error, Call.panicIf_ok, requireCompliant_error,
    requireCompliant_ok] at hrun
  rcases hrun with ⟨-, e⟩ | ⟨md, _, ⟨_, hmd, e₁⟩, hrun⟩
  · cases e
    exact .ofError (by decide)
  cases e₁
  rcases hrun with ⟨-, e⟩ | ⟨_, _, ⟨-, e₁⟩, hrun⟩
  · cases e
    exact .ofError (by decide)
  cases e₁
  refine NotArithmetic.foreign hmd ?_
  rcases hrun with (⟨hno, e⟩ | ⟨y, -, e⟩) | ⟨_, _, ⟨y, hy, e₁⟩, hrun⟩
  · cases e
    exact .ofTrap hno
  · cases e
    exact .ofError (by decide)
  · cases e₁
    exact .asked hy (hk md y hmd hrun)

omit [DecidableEq Address] in
/-- The signature and the check of the amount, and what comes after them. -/
theorem signed_fault {signer : Address} {k : M Address X Unit} (hk : 0 < amount.val → k h = .error f →
      Foreign client env signer whos h f)
    (hrun : (do
      Call.requireAuth env signer
      checkAmount amount
      k) h = .error f) : Foreign client env signer whos h f := by
  simp only [Call.bind_error, Call.requireAuth_error, Call.requireAuth_ok, checkAmount_error, checkAmount_ok] at hrun
  rcases hrun with ⟨hunsigned, e⟩ | ⟨_, _, ⟨-, e₁⟩, ⟨-, e⟩ | ⟨_, _, ⟨hamount, e₂⟩, hrun⟩⟩
  · cases e
    refine ⟨fun hfault => ?_, fun _ => .inl hunsigned⟩
    cases hfault
  · cases e
    exact .ofError (by decide)
  · cases e₁; cases e₂
    exact hk hamount hrun

theorem transfer_fault (hs : Conserved h.storage) (hrun : transfer client env from_ to_ amount h = .error f) :
    Foreign client env from_ [from_, to_] h f := by
  refine signed_fault (fun hamount hrun => ?_) hrun
  refine sender_fault (fun md y hmd hrun => ?_) hrun
  exact sendTo_fault (h := { h with outside := y }) hs hmd hamount hrun

/-- A batch in the middle fails as one move does. -/
theorem sendEntries_fault : ∀ {transfers : List (Address × I128)} {h : Contract Address X}, Conserved h.storage →
    h.storage.metadata = some md →
    Call.forEach transfers (fun p => do
      checkAmount p.2
      sendTo client env md from_ p.1 p.2) h = .error f →
    NotArithmetic client env md.complianceContract h.outside (transfers.map Prod.fst) f
  | [], _, _, _, hrun => absurd hrun Call.pure_error
  | p :: transfers, h, hs, hmd, hrun => by
    simp only [Call.forEach_cons, Call.bind_error, Call.bind_ok, checkAmount_error, checkAmount_ok] at hrun
    rcases hrun with (⟨-, e⟩ | ⟨_, _, ⟨hamount, e₁⟩, hround⟩) | ⟨_, h₁, ⟨_, _, ⟨hamount, e₁⟩, hround⟩, hrest⟩
    · cases e
      exact .ofError (by decide)
    · cases e₁
      exact sendTo_fault hs hmd hamount hround
    · cases e₁
      obtain ⟨hs₁, hmd₁⟩ := sendTo_conserved hamount hs hround
      have hfault := sendEntries_fault hs₁ (hmd₁.trans hmd) hrest
      obtain ⟨y, hy, -, hmove⟩ := sendTo_ok.1 hround
      have hout : h₁.outside = y := by
        rcases hmove with ⟨-, hr⟩ | ⟨-, _, _, -, -, hr⟩
        · cases hr
          rfl
        · cases hr
          rfl
      subst hout
      exact .asked hy hfault

theorem transferBatch_fault {transfers : List (Address × I128)} (hs : Conserved h.storage)
    (hrun : transferBatch client env from_ transfers h = .error f) :
    Foreign client env from_ (from_ :: transfers.map Prod.fst) h f := by
  unfold transferBatch at hrun
  rw [Call.bind_error, Call.requireAuth_error] at hrun
  rcases hrun with ⟨hunsigned, e⟩ | ⟨_, _, hsigned, hrun⟩
  · cases e
    exact ⟨nofun, fun _ => .inl hunsigned⟩
  · obtain ⟨-, e⟩ := Call.requireAuth_ok.1 hsigned
    cases e
    refine sender_fault (fun md y hmd hrun => ?_) hrun
    exact sendEntries_fault (h := { h with outside := y }) hs hmd hrun

theorem burn_fault (hs : Conserved h.storage) (hrun : burn client env from_ amount h = .error f) :
    Foreign client env from_ [from_] h f := by
  refine signed_fault (fun hamount hrun => ?_) hrun
  refine sender_fault (fun md y hmd hrun => ?_) hrun
  have hfrom := (balance h.storage from_).le_hi
  have hsupply := md.totalSupply.le_hi
  have hpart := hs.balance_le hmd from_
  simp only [Call.bind_error, Call.storage_error, Call.storage_ok, Call.panicIf_error, Call.panicIf_ok,
    Call.orTrap_error, Call.orTrap_ok, setBalance_error, setBalance_ok, Call.unwrapOrElse_error, Call.unwrapOrElse_ok,
    setMetadata_error, Call.publish_error, false_or, or_false, and_false, exists_false, MInt.checkedSub_eq_none,
    MInt.lt_def, not_lt] at hrun
  obtain ⟨_, _, e, hrun⟩ := hrun
  cases e
  rcases hrun with ⟨-, e⟩ | ⟨_, _, ⟨hfunds, e₁⟩, hrun⟩
  · cases e
    exact .ofError (by decide)
  cases e₁
  exfalso
  rcases hrun with ⟨hout, -⟩ | ⟨_, _, -, _, _, -, hout, -⟩
  · omega
  · omega

theorem transferFrom_fault {spender : Address} (hs : Conserved h.storage)
    (hrun : transferFrom client env spender from_ to_ amount h = .error f) :
    Foreign client env spender [from_, to_] h f := by
  refine signed_fault (fun hamount hrun => ?_) hrun
  refine sender_fault (fun md y hmd hrun => ?_) hrun
  have hto : 0 ≤ (balance h.storage to_).val := hs.solvent to_
  have hfrom := (balance h.storage from_).le_hi
  have hsupply := md.totalSupply.le_hi
  simp only [Call.bind_error, requireCompliant_error, requireCompliant_ok, Call.storage_error, Call.storage_ok,
    Call.panicIf_error, Call.panicIf_ok, Call.orTrap_error, Call.orTrap_ok, setBalance_error, setBalance_ok,
    Call.unwrapOrElse_error, Call.unwrapOrElse_ok, Call.update_error, Call.update_ok, Call.publish_error, false_or,
    or_false, and_false, exists_false, MInt.checkedSub_eq_none, MInt.checkedAdd_eq_none, MInt.checkedSub_eq_some,
    MInt.lt_def, not_lt, not_or] at hrun
  rcases hrun with (⟨hno, e⟩ | ⟨z, hno, e⟩) | ⟨_, _, ⟨z, hz, e₁⟩, _, _, e₂, hrun⟩
  · cases e
    exact .ofTrap hno
  · cases e
    exact .ofError (by decide)
  cases e₁; cases e₂
  rcases hrun with ⟨-, e⟩ | ⟨_, _, ⟨⟨-, hallowed⟩, e₁⟩, hrun⟩
  · cases e
    exact .ofError (by decide)
  cases e₁
  rcases hrun with ⟨-, e⟩ | ⟨_, _, ⟨hfunds, e₁⟩, hrun⟩
  · cases e
    exact .ofError (by decide)
  cases e₁
  have hleft := (currentAllowance h.storage from_ spender).amount.le_hi
  unfold currentAllowance at hleft
  dsimp only at hallowed hfunds hrun
  exfalso
  rcases hrun with ⟨hout, -⟩ | ⟨newFromBal, _, ⟨_, hdebit, e₁⟩, _, _, e₂, _, _, e₃, hrun⟩
  · omega
  cases e₁; cases e₂; cases e₃
  have hcredit := hs.credit_after_debit hmd to_ hfunds hdebit
  dsimp only at hrun
  rcases hrun with ⟨hout, -⟩ | ⟨_, _, -, _, _, -, hout, -⟩
  · simp only [balance] at hout
    omega
  · omega

/-! ## Mints -/

section Mints

variable {supply : I128} {y : X}

/-- In the middle of a batch too, no balance exceeds the running supply: where the new supply fits, so does the new
balance of the recipient. -/
theorem Minting.recipient_fits {s : State Address} (hs : Minting md supply s)
    (hfits : (supply.checkedAdd amount).isSome) : ((balance s to_).checkedAdd amount).isSome := by
  have hto : 0 ≤ (balance s to_).val := hs.solvent to_
  have hpart : (balance s to_).val ≤ supply.val := by
    rw [← hs.total]
    exact hs.solvent.balance_le_total to_
  have hlo := amount.lo_le
  have hhi := (balance s to_).le_hi
  rw [Option.isSome_iff_ne_none, ne_eq, MInt.checkedAdd_eq_none] at hfits ⊢
  omega

theorem mintTo_returns (hs : Minting md supply h.storage)
    (hyes : client env h.outside md.complianceContract to_ = some (true, y)) (hamount : 0 < amount.val)
    (hfits : supply.val + amount.val ≤ 2 ^ 127 - 1) :
    ∃ n h', mintTo client env md supply to_ amount h = .ok (n, h') ∧ n.val = supply.val + amount.val ∧
      h'.outside = y := by
  have hnonneg : 0 ≤ supply.val := by
    rw [← hs.total]
    exact hs.solvent.total_nonneg
  have hn : supply.checkedAdd amount = some ⟨supply.val + amount.val, by omega, by omega⟩ :=
    MInt.checkedAdd_eq_some.2 rfl
  have hroom : ((balance h.storage to_).checkedAdd amount).isSome := hs.recipient_fits (Option.isSome_of_eq_some hn)
  obtain ⟨b, hb⟩ := Option.isSome_iff_exists.1 hroom
  exact ⟨⟨supply.val + amount.val, by omega, by omega⟩, _,
    mintTo_ok.2 ⟨y, hyes, _, b, rfl, MInt.checkedAdd_eq_some.1 hb, rfl⟩, rfl, rfl⟩

theorem mintTo_overflows (hyes : client env h.outside md.complianceContract to_ = some (true, y))
    (hexceeds : 2 ^ 127 - 1 < supply.val + amount.val) :
    mintTo client env md supply to_ amount h = .error (.error .overflow) := by
  have hnone : supply.checkedAdd amount = none := MInt.checkedAdd_eq_none.2 (.inr hexceeds)
  simp [mintTo, hyes, hnone]

/-- What a batch mints. -/
def minted (recipients : List (Address × I128)) : Int := (recipients.map fun p => p.2.val).sum

omit [DecidableEq Address] in
theorem minted_nonneg {recipients : List (Address × I128)} (hpos : ∀ p ∈ recipients, 0 < p.2.val) :
    0 ≤ minted recipients := by
  refine List.sum_nonneg fun n hn => ?_
  obtain ⟨p, hp, rfl⟩ := List.mem_map.1 hn
  exact (hpos p hp).le

/-- One round of a batch whose new supply fits. -/
theorem mintEntry_returns {p : Address × I128} (hs : Minting md supply h.storage)
    (hyes : client env h.outside md.complianceContract p.1 = some (true, y)) (hamount : 0 < p.2.val)
    (hfits : supply.val + p.2.val ≤ 2 ^ 127 - 1) :
    ∃ n h', mintEntry client env md supply p h = .ok (n, h') ∧ n.val = supply.val + p.2.val ∧ h'.outside = y ∧
      Minting md n h'.storage := by
  obtain ⟨n, h₁, hmint, hn, hout⟩ := mintTo_returns hs hyes hamount hfits
  have hs₁ : Minting md n h₁.storage := mintTo_conserved hamount hs hmint
  refine ⟨n, { h₁ with events := h₁.events ++ [.mint p.1 p.2] }, ?_, hn, hout, hs₁⟩
  simp only [mintEntry, Call.bind_ok, checkAmount_ok, Call.publish_ok, Call.pure_ok]
  exact ⟨(), h, ⟨hamount, rfl⟩, n, h₁, hmint, _, _, rfl, rfl⟩

theorem mintEntries_returns : ∀ {recipients : List (Address × I128)} {supply : I128} {h : Contract Address X},
    Minting md supply h.storage → (∀ p ∈ recipients, 0 < p.2.val) →
    Approves client env md.complianceContract h.outside (recipients.map Prod.fst) →
    supply.val + minted recipients ≤ 2 ^ 127 - 1 →
    ∃ n h', Call.foldEach (mintEntry client env md) supply recipients h = .ok (n, h')
  | [], supply, h, _, _, _, _ => ⟨supply, h, rfl⟩
  | p :: recipients, supply, h, hs, hpos, hyes, hfits => by
    obtain ⟨y, hy, hyes⟩ := hyes
    obtain ⟨hamount, hpos⟩ := List.forall_mem_cons.1 hpos
    have hrest := minted_nonneg hpos
    have hsum : minted (p :: recipients) = p.2.val + minted recipients := rfl
    obtain ⟨n, h₁, hround, hn, rfl, hs₁⟩ := mintEntry_returns hs hy hamount (by omega)
    obtain ⟨m, h₂, hloop⟩ := mintEntries_returns hs₁ hpos hyes (by omega)
    exact ⟨m, h₂, Call.bind_ok.2 ⟨n, h₁, hround, hloop⟩⟩

/-- The partial sums of positive amounts only grow: the batch stops at the first entry whose new supply does not fit. -/
theorem mintEntries_overflows : ∀ {recipients : List (Address × I128)} {supply : I128} {h : Contract Address X},
    Minting md supply h.storage → (∀ p ∈ recipients, 0 < p.2.val) →
    Approves client env md.complianceContract h.outside (recipients.map Prod.fst) →
    2 ^ 127 - 1 < supply.val + minted recipients →
    Call.foldEach (mintEntry client env md) supply recipients h = .error (.error .overflow)
  | [], supply, _, _, _, _, hexceeds => by
    have hhi := supply.le_hi
    have hzero : minted ([] : List (Address × I128)) = 0 := rfl
    omega
  | p :: recipients, supply, h, hs, hpos, hyes, hexceeds => by
    obtain ⟨y, hy, hyes⟩ := hyes
    obtain ⟨hamount, hpos⟩ := List.forall_mem_cons.1 hpos
    have hsum : minted (p :: recipients) = p.2.val + minted recipients := rfl
    by_cases hfits : supply.val + p.2.val ≤ 2 ^ 127 - 1
    · obtain ⟨n, h₁, hround, hn, rfl, hs₁⟩ := mintEntry_returns hs hy hamount hfits
      rw [Call.foldEach_cons, Call.bind_eq_of_ok hround]
      exact mintEntries_overflows hs₁ hpos hyes (by omega)
    · refine Call.bind_eq_of_error ?_
      have hmint : mintTo client env md supply p.1 p.2 h = .error (.error .overflow) :=
        mintTo_overflows hy (not_le.1 hfits)
      simp only [mintEntry, Call.bind_error, checkAmount_error, checkAmount_ok]
      exact .inr ⟨(), h, ⟨hamount, rfl⟩, .inl hmint⟩

/-- The checks of a mint to `recipients`, except for those of overflow. -/
structure Mintable (client : ComplianceClient Address X) (env : Env Address) (admin : Address)
    (recipients : List (Address × I128)) (h : Contract Address X) (md : AssetMetadata Address) : Prop where
  metadata : h.storage.metadata = some md
  signed : env.authorized admin = true
  admin : md.admin = admin
  unpaused : md.paused = false
  positive : ∀ p ∈ recipients, 0 < p.2.val
  approved : Approves client env md.complianceContract h.outside (recipients.map Prod.fst)

theorem mintBatch_returns {admin : Address} {recipients : List (Address × I128)} (hs : Conserved h.storage)
    (hm : Mintable client env admin recipients h md) (hfits : md.totalSupply.val + minted recipients ≤ 2 ^ 127 - 1) :
    ∃ h', mintBatch client env admin recipients h = .ok ((), h') := by
  obtain ⟨n, h₁, hloop⟩ := mintEntries_returns (hs.minting hm.metadata) hm.positive hm.approved hfits
  exact ⟨_, mintBatch_ok.2 ⟨md, hm.metadata, hm.signed, hm.admin, hm.unpaused, n, h₁, hloop, rfl⟩⟩

theorem mintBatch_overflows {admin : Address} {recipients : List (Address × I128)} (hs : Conserved h.storage)
    (hm : Mintable client env admin recipients h md) (hexceeds : 2 ^ 127 - 1 < md.totalSupply.val + minted recipients) :
    mintBatch client env admin recipients h = .error (.error .overflow) := by
  have hloop := mintEntries_overflows (hs.minting hm.metadata) hm.positive hm.approved hexceeds
  have hadmin : requireAdmin env admin h = .ok (md, h) := requireAdmin_ok.2 ⟨md, hm.metadata, hm.signed, hm.admin, rfl⟩
  unfold mintBatch
  rw [Call.bind_eq_of_ok hadmin]
  refine Call.bind_error.2 (.inr ⟨(), h, Call.panicIf_ok.2 ⟨by simp [hm.unpaused], rfl⟩, ?_⟩)
  exact Call.bind_eq_of_error hloop

theorem mint_returns {admin : Address} (hs : Conserved h.storage) (hm : Mintable client env admin [(to_, amount)] h md)
    (hfits : md.totalSupply.val + amount.val ≤ 2 ^ 127 - 1) :
    ∃ h', mint client env admin to_ amount h = .ok ((), h') := by
  obtain ⟨y, hy, -⟩ := hm.approved
  have hamount : 0 < amount.val := hm.positive _ List.mem_cons_self
  obtain ⟨n, h₁, hmint, -, -⟩ := mintTo_returns (hs.minting hm.metadata) hy hamount hfits
  exact ⟨_, mint_ok.2 ⟨md, hm.metadata, hm.signed, hm.admin, hamount, hm.unpaused, n, h₁, hmint, rfl⟩⟩

theorem mint_overflows {admin : Address} (hm : Mintable client env admin [(to_, amount)] h md)
    (hexceeds : 2 ^ 127 - 1 < md.totalSupply.val + amount.val) :
    mint client env admin to_ amount h = .error (.error .overflow) := by
  obtain ⟨y, hy, -⟩ := hm.approved
  have hamount : 0 < amount.val := hm.positive _ List.mem_cons_self
  have hadmin : requireAdmin env admin h = .ok (md, h) := requireAdmin_ok.2 ⟨md, hm.metadata, hm.signed, hm.admin, rfl⟩
  unfold mint
  rw [Call.bind_eq_of_ok hadmin, Call.bind_eq_of_ok (checkAmount_ok.2 ⟨hamount, rfl⟩)]
  refine Call.bind_error.2 (.inr ⟨(), h, Call.panicIf_ok.2 ⟨by simp [hm.unpaused], rfl⟩, ?_⟩)
  exact Call.bind_eq_of_error (mintTo_overflows hy hexceeds)

end Mints

/-- **Overflow errors are exact.** In every reachable state, whatever the compliance contracts answer: transfers and
burns never end in `Overflow`, and no subtraction traps; when its other checks pass, a mint ends in `Overflow` exactly
when the supply and what is minted exceed `i128::MAX` together, and else returns; and wherever a mint gets to, alone or
in a batch, the recipient's balance has room for what the supply has room for. -/
theorem overflow_exact (client : ComplianceClient Address X) (x : X) (ls : List (Label Address X)) (env : Env Address) :
    let h := (token client).run (Contract.fresh Address x) ls
    (∀ from_ to_ amount f, transfer client env from_ to_ amount h = .error f →
        Foreign client env from_ [from_, to_] h f) ∧
      (∀ spender from_ to_ amount f, transferFrom client env spender from_ to_ amount h = .error f →
        Foreign client env spender [from_, to_] h f) ∧
      (∀ from_ transfers f, transferBatch client env from_ transfers h = .error f →
        Foreign client env from_ (from_ :: transfers.map Prod.fst) h f) ∧
      (∀ from_ amount f, burn client env from_ amount h = .error f → Foreign client env from_ [from_] h f) ∧
      (∀ admin to_ amount md, Mintable client env admin [(to_, amount)] h md →
        (mint client env admin to_ amount h = .error (.error .overflow) ↔
          2 ^ 127 - 1 < md.totalSupply.val + amount.val) ∧
        ((∃ h', mint client env admin to_ amount h = .ok ((), h')) ↔
          md.totalSupply.val + amount.val ≤ 2 ^ 127 - 1)) ∧
      (∀ admin recipients md, Mintable client env admin recipients h md →
        (mintBatch client env admin recipients h = .error (.error .overflow) ↔
          2 ^ 127 - 1 < md.totalSupply.val + (recipients.map fun p => p.2.val).sum) ∧
        ((∃ h', mintBatch client env admin recipients h = .ok ((), h')) ↔
          md.totalSupply.val + (recipients.map fun p => p.2.val).sum ≤ 2 ^ 127 - 1)) ∧
      ∀ md recipients supply h₁, h.storage.metadata = some md →
        Call.foldEach (mintEntry client env md) md.totalSupply recipients h = .ok (supply, h₁) →
        ∀ to_ (amount : I128), (supply.checkedAdd amount).isSome →
          ((balance h₁.storage to_).checkedAdd amount).isSome := by
  intro h
  have hs : Conserved h.storage := run_conserved x ls
  refine ⟨fun _ _ _ _ => transfer_fault hs, fun _ _ _ _ _ => transferFrom_fault hs, fun _ _ _ => transferBatch_fault hs,
    fun _ _ _ => burn_fault hs, fun admin to_ amount md hm => ?_, fun admin recipients md hm => ?_,
    fun md recipients supply h₁ hmd hloop to_ amount => ?_⟩
  · exact Call.outcome_iff (mint_returns hs hm) (mint_overflows hm)
  · exact Call.outcome_iff (mintBatch_returns hs hm) (mintBatch_overflows hs hm)
  · exact (mintEntries_conserved (hs.minting hmd) hloop).recipient_fits

end StellarRwa.Token
