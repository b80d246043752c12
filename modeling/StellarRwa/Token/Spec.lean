import StellarRwa.Token.Model

/-!
# What the token calls do

One lemma for each function: when it returns, and what it leaves. Later files cite these and never unfold the
functions.
-/

namespace StellarRwa.Token

open Lib

variable {Address X : Type} {client : ComplianceClient Address X} {env : Env Address} {h : Contract Address X}

/-! ## Helpers -/

@[simp] theorem metadata_ok {r : AssetMetadata Address × Contract Address X} :
    (metadata : M Address X _) h = .ok r ↔ ∃ md, h.storage.metadata = some md ∧ (md, h) = r := by
  simp [metadata]

@[simp] theorem setMetadata_ok {md : AssetMetadata Address} {r : Unit × Contract Address X} :
    (setMetadata md : M Address X Unit) h = .ok r ↔
      ((), { h with storage := { h.storage with metadata := some md } }) = r := by
  simp [setMetadata]

@[simp] theorem checkAmount_ok {amount : I128} {r : Unit × Contract Address X} :
    (checkAmount amount : M Address X Unit) h = .ok r ↔ 0 < amount.val ∧ ((), h) = r := by
  simp [checkAmount, MInt.le_def]

@[simp] theorem checkStr_ok {s : Bytes} {minLen maxLen : Nat} {r : Unit × Contract Address X} :
    (checkStr s minLen maxLen : M Address X Unit) h = .ok r ↔
      (minLen ≤ s.length ∧ s.length ≤ maxLen) ∧ ((), h) = r := by
  simp [checkStr]

@[simp] theorem requireCompliant_ok {compliance who : Address} {e : Error} {r : Unit × Contract Address X} :
    requireCompliant client env compliance who e h = .ok r ↔
      ∃ x, client env h.outside compliance who = some (true, x) ∧ ((), { h with outside := x }) = r := by
  simp only [requireCompliant, compliant, Call.bind_ok, Call.invoke_ok, Call.panicIf_ok]
  constructor
  · rintro ⟨ok, _, ⟨_, x, hx, e⟩, hok, hr⟩
    cases e
    rw [Bool.not_eq_false] at hok
    exact ⟨x, hok ▸ hx, hr⟩
  · rintro ⟨x, hx, hr⟩
    exact ⟨true, _, ⟨true, x, hx, rfl⟩, by simp, hr⟩

variable [DecidableEq Address]

@[simp] theorem setBalance_ok {id : Address} {amount : I128} {r : Unit × Contract Address X} :
    (setBalance id amount : M Address X Unit) h = .ok r ↔
      ((), { h with storage := { h.storage with balance := h.storage.balance.set id amount } }) = r := by
  simp [setBalance]

@[simp] theorem requireAdmin_ok {admin : Address} {r : AssetMetadata Address × Contract Address X} :
    (requireAdmin env admin : M Address X _) h = .ok r ↔
      ∃ md, h.storage.metadata = some md ∧ env.authorized admin = true ∧ md.admin = admin ∧ (md, h) = r := by
  simp only [requireAdmin, Call.bind_ok, metadata_ok, Call.requireAuth_ok, Call.panicIf_ok, Call.pure_ok, not_not]
  constructor
  · rintro ⟨md, _, ⟨_, hmd, e⟩, _, _, ⟨hauth, e₁⟩, _, _, ⟨hadmin, e₂⟩, hr⟩
    cases e; cases e₁; cases e₂
    exact ⟨md, hmd, hauth, hadmin, hr⟩
  · rintro ⟨md, hmd, hauth, hadmin, hr⟩
    exact ⟨md, h, ⟨md, hmd, rfl⟩, (), h, ⟨hauth, rfl⟩, (), h, ⟨hadmin, rfl⟩, hr⟩

/-! ## Moving balances -/

/-- The storage with two balances written, the second after the first. -/
def State.moved (s : State Address) (j : Address) (x : I128) (k : Address) (y : I128) : State Address :=
  { s with balance := (s.balance.set j x).set k y }

theorem initializeToken_ok {admin : Address} {name symbol assetType : Bytes} {totalSupply : I128} {decimals : U32}
    {complianceContract : Address} {assetDescription : Bytes} {valuation : I128} {r : Unit × Contract Address X} :
    initializeToken client env admin name symbol assetType totalSupply decimals complianceContract assetDescription
        valuation h = .ok r ↔
      h.storage.metadata = none ∧ env.authorized admin = true ∧ (0 ≤ totalSupply.val ∧ 0 ≤ valuation.val) ∧
      (1 ≤ name.length ∧ name.length ≤ 64) ∧ (1 ≤ symbol.length ∧ symbol.length ≤ 16) ∧
      (1 ≤ assetType.length ∧ assetType.length ≤ 32) ∧
      (1 ≤ assetDescription.length ∧ assetDescription.length ≤ 256) ∧
      ∃ x, client env h.outside complianceContract admin = some (true, x) ∧
      ((), { storage :=
              { h.storage with
                metadata := some ⟨name, symbol, assetType, totalSupply, decimals, admin, complianceContract,
                  assetDescription, valuation, false, none, none⟩
                balance := h.storage.balance.set admin totalSupply }
             outside := x
             events := h.events ++ [.genesis admin totalSupply] ++ [.mint admin totalSupply] }) = r := by
  simp [initializeToken, MInt.lt_def]

theorem sendTo_ok {md : AssetMetadata Address} {from_ to_ : Address} {amount : I128} {r : Unit × Contract Address X} :
    sendTo client env md from_ to_ amount h = .ok r ↔
      ∃ x, client env h.outside md.complianceContract to_ = some (true, x) ∧
        amount.val ≤ (balance h.storage from_).val ∧
        ((from_ = to_ ∧ ((), { h with
            outside := x
            events := h.events ++
              [.transfer from_ to_ amount (balance h.storage from_) (balance h.storage from_)] }) = r) ∨
          (from_ ≠ to_ ∧ ∃ newFromBal newToBal : I128,
            newFromBal.val = (balance h.storage from_).val - amount.val ∧
            newToBal.val = (balance h.storage to_).val + amount.val ∧
            ((), { storage := h.storage.moved from_ newFromBal to_ newToBal
                   outside := x
                   events := h.events ++ [.transfer from_ to_ amount newFromBal newToBal] }) = r)) := by
  simp [sendTo, State.moved, MInt.lt_def, Call.ite_ok]

theorem transfer_ok {from_ to_ : Address} {amount : I128} {r : Unit × Contract Address X} :
    transfer client env from_ to_ amount h = .ok r ↔ env.authorized from_ = true ∧ 0 < amount.val ∧
      ∃ md, h.storage.metadata = some md ∧ md.paused = false ∧
      ∃ x, client env h.outside md.complianceContract from_ = some (true, x) ∧
      sendTo client env md from_ to_ amount { h with outside := x } = .ok r := by
  simp [transfer]

theorem transferBatch_ok {from_ : Address} {transfers : List (Address × I128)} {r : Unit × Contract Address X} :
    transferBatch client env from_ transfers h = .ok r ↔ env.authorized from_ = true ∧
      ∃ md, h.storage.metadata = some md ∧ md.paused = false ∧
      ∃ x, client env h.outside md.complianceContract from_ = some (true, x) ∧
      Call.forEach transfers (fun p => do
        checkAmount p.2
        sendTo client env md from_ p.1 p.2) { h with outside := x } = .ok r := by
  simp [transferBatch]

theorem mintTo_ok {md : AssetMetadata Address} {supply : I128} {to_ : Address} {amount : I128}
    {r : I128 × Contract Address X} :
    mintTo client env md supply to_ amount h = .ok r ↔
      ∃ x, client env h.outside md.complianceContract to_ = some (true, x) ∧
      ∃ newSupply newToBal : I128, newSupply.val = supply.val + amount.val ∧
        newToBal.val = (balance h.storage to_).val + amount.val ∧
        (newSupply, { h with
          storage := { h.storage with balance := h.storage.balance.set to_ newToBal }
          outside := x }) = r := by
  simp [mintTo]

theorem mint_ok {admin to_ : Address} {amount : I128} {r : Unit × Contract Address X} :
    mint client env admin to_ amount h = .ok r ↔
      ∃ md, h.storage.metadata = some md ∧ env.authorized admin = true ∧ md.admin = admin ∧ 0 < amount.val ∧
      md.paused = false ∧
      ∃ newSupply h₁, mintTo client env md md.totalSupply to_ amount h = .ok (newSupply, h₁) ∧
      ((), { h₁ with
        storage := { h₁.storage with metadata := some { md with totalSupply := newSupply } }
        events := h₁.events ++ [.mint to_ amount] }) = r := by
  simp only [mint, Call.bind_ok, requireAdmin_ok, checkAmount_ok, Call.panicIf_ok, setMetadata_ok, Call.publish_ok]
  constructor
  · rintro ⟨md, _, ⟨_, hmd, hauth, hadmin, e₁⟩, _, _, ⟨ha, e₂⟩, _, _, ⟨hp, e₃⟩, n, h₁, hrun, _, _, e₄, hr⟩
    cases e₁; cases e₂; cases e₃; cases e₄
    exact ⟨md, hmd, hauth, hadmin, ha, by simpa using hp, n, h₁, hrun, hr⟩
  · rintro ⟨md, hmd, hauth, hadmin, ha, hp, n, h₁, hrun, hr⟩
    exact ⟨md, h, ⟨md, hmd, hauth, hadmin, rfl⟩, (), h, ⟨ha, rfl⟩, (), h, ⟨by simp [hp], rfl⟩, n, h₁, hrun, (), _, rfl,
      hr⟩

/-- The body of the loop of `mint_batch`. -/
abbrev mintEntry (client : ComplianceClient Address X) (env : Env Address) (md : AssetMetadata Address) (supply : I128)
    (p : Address × I128) : M Address X I128 := do
  checkAmount p.2
  let newSupply ← mintTo client env md supply p.1 p.2
  Call.publish (.mint p.1 p.2)
  pure newSupply

theorem mintBatch_ok {admin : Address} {recipients : List (Address × I128)} {r : Unit × Contract Address X} :
    mintBatch client env admin recipients h = .ok r ↔
      ∃ md, h.storage.metadata = some md ∧ env.authorized admin = true ∧ md.admin = admin ∧ md.paused = false ∧
      ∃ newSupply h₁, Call.foldEach (mintEntry client env md) md.totalSupply recipients h = .ok (newSupply, h₁) ∧
      ((), { h₁ with
        storage := { h₁.storage with metadata := some { md with totalSupply := newSupply } } }) = r := by
  simp only [mintBatch, Call.bind_ok, requireAdmin_ok, Call.panicIf_ok, setMetadata_ok]
  constructor
  · rintro ⟨md, _, ⟨_, hmd, hauth, hadmin, e₁⟩, _, _, ⟨hp, e₂⟩, n, h₁, hrun, hr⟩
    cases e₁; cases e₂
    exact ⟨md, hmd, hauth, hadmin, by simpa using hp, n, h₁, hrun, hr⟩
  · rintro ⟨md, hmd, hauth, hadmin, hp, n, h₁, hrun, hr⟩
    exact ⟨md, h, ⟨md, hmd, hauth, hadmin, rfl⟩, (), h, ⟨by simp [hp], rfl⟩, n, h₁, hrun, hr⟩

theorem burn_ok {from_ : Address} {amount : I128} {r : Unit × Contract Address X} :
    burn client env from_ amount h = .ok r ↔ env.authorized from_ = true ∧ 0 < amount.val ∧
      ∃ md, h.storage.metadata = some md ∧ md.paused = false ∧
      ∃ x, client env h.outside md.complianceContract from_ = some (true, x) ∧
      amount.val ≤ (balance h.storage from_).val ∧
      ∃ newFromBal newSupply : I128, newFromBal.val = (balance h.storage from_).val - amount.val ∧
        newSupply.val = md.totalSupply.val - amount.val ∧
        ((), { storage :=
                { h.storage with
                  metadata := some { md with totalSupply := newSupply }
                  balance := h.storage.balance.set from_ newFromBal }
               outside := x
               events := h.events ++ [.burn from_ amount] }) = r := by
  simp [burn, MInt.lt_def]

/-! ## Allowances -/

theorem approve_ok {from_ spender : Address} {amount : I128} {expirationLedger : U32} {r : Unit × Contract Address X} :
    (approve env from_ spender amount expirationLedger : M Address X Unit) h = .ok r ↔
      env.authorized from_ = true ∧ 0 ≤ amount.val ∧
      ∃ md, h.storage.metadata = some md ∧ md.paused = false ∧
      (0 < amount.val → env.sequence.val ≤ expirationLedger.val) ∧
      ((), { h with
        storage := { h.storage with
          allowance := h.storage.allowance.set (from_, spender) ⟨amount, expirationLedger⟩ }
        events := h.events ++ [.approve from_ spender amount expirationLedger] }) = r := by
  simp [approve, MInt.lt_def]

/-- The stored allowance, nothing when it is absent. -/
def currentAllowance (s : State Address) (from_ spender : Address) : AllowanceValue :=
  (s.allowance.get (from_, spender)).getD ⟨0, 0⟩

theorem transferFrom_ok {spender from_ to_ : Address} {amount : I128} {r : Unit × Contract Address X} :
    transferFrom client env spender from_ to_ amount h = .ok r ↔ env.authorized spender = true ∧ 0 < amount.val ∧
      ∃ md, h.storage.metadata = some md ∧ md.paused = false ∧
      ∃ x, client env h.outside md.complianceContract from_ = some (true, x) ∧
      ∃ y, client env x md.complianceContract to_ = some (true, y) ∧
      (env.sequence.val ≤ (currentAllowance h.storage from_ spender).expirationLedger.val ∧
        amount.val ≤ (currentAllowance h.storage from_ spender).amount.val) ∧
      amount.val ≤ (balance h.storage from_).val ∧
      ∃ newFromBal newToBal left : I128, newFromBal.val = (balance h.storage from_).val - amount.val ∧
        newToBal.val = (Book.balance (h.storage.balance.set from_ newFromBal) to_).val + amount.val ∧
        left.val = (currentAllowance h.storage from_ spender).amount.val - amount.val ∧
        ((), { storage :=
                { h.storage.moved from_ newFromBal to_ newToBal with
                  allowance := h.storage.allowance.set (from_, spender)
                    ⟨left, (currentAllowance h.storage from_ spender).expirationLedger⟩ }
               outside := y
               events := h.events ++ [.transfer from_ to_ amount newFromBal newToBal] }) = r := by
  simp [transferFrom, State.moved, currentAllowance, balance, MInt.lt_def]

/-! ## Administration -/

/-- `h` with other metadata and one more event. -/
def rewritten (h : Contract Address X) (md : AssetMetadata Address) (e : Event Address) : Contract Address X :=
  { h with storage := { h.storage with metadata := some md }, events := h.events ++ [e] }

theorem pause_ok {caller : Address} {r : Unit × Contract Address X} :
    (pause env caller : M Address X Unit) h = .ok r ↔ env.authorized caller = true ∧
      ∃ md, h.storage.metadata = some md ∧ (md.admin = caller ∨ md.guardian = some caller) ∧
      ((), rewritten h { md with paused := true } (.pause caller)) = r := by
  simp [pause, rewritten, or_iff_not_imp_left]

theorem unpause_ok {admin : Address} {r : Unit × Contract Address X} :
    (unpause env admin : M Address X Unit) h = .ok r ↔
      ∃ md, h.storage.metadata = some md ∧ env.authorized admin = true ∧ md.admin = admin ∧
      ((), rewritten h { md with paused := false } (.unpause admin)) = r := by
  simp [unpause, rewritten, and_assoc]

theorem setGuardian_ok {admin : Address} {guardian : Option Address} {r : Unit × Contract Address X} :
    (setGuardian env admin guardian : M Address X Unit) h = .ok r ↔
      ∃ md, h.storage.metadata = some md ∧ env.authorized admin = true ∧ md.admin = admin ∧
      ((), rewritten h { md with guardian } (.guardian guardian)) = r := by
  simp [setGuardian, rewritten, and_assoc]

omit [DecidableEq Address] in
theorem checkValuationChange_ok {oldValuation newValuation : I128} {u : Unit} {h' : Contract Address X}
    (hrun : (checkValuationChange oldValuation newValuation : M Address X Unit) h = .ok (u, h')) : h' = h := by
  simp only [checkValuationChange, Call.bind_ok, Call.orTrap_ok, Call.unwrapOrElse_ok, Call.panicIf_ok] at hrun
  obtain ⟨_, _, ⟨_, _, e₁⟩, _, _, ⟨_, _, e₂⟩, _, _, ⟨_, _, e₃⟩, _, _, ⟨_, _, e₄⟩, -, e₅⟩ := hrun
  cases e₁; cases e₂; cases e₃; cases e₄; cases e₅
  rfl

theorem updateValuation_ok {admin : Address} {newValuation : I128} {r : Unit × Contract Address X} :
    (updateValuation env admin newValuation : M Address X Unit) h = .ok r ↔
      ∃ md, h.storage.metadata = some md ∧ env.authorized admin = true ∧ md.admin = admin ∧ 0 ≤ newValuation.val ∧
      (0 < md.valuation.val →
        (checkValuationChange md.valuation newValuation : M Address X Unit) h = .ok ((), h)) ∧
      ((), rewritten h { md with valuation := newValuation } (.valuation md.valuation newValuation)) = r := by
  simp only [updateValuation, rewritten, Call.bind_ok, requireAdmin_ok, Call.panicIf_ok, Call.onlyIf_ok, setMetadata_ok,
    Call.publish_ok, MInt.lt_def, MInt.val_zero, not_lt]
  constructor
  · rintro ⟨md, _, ⟨_, hmd, hauth, hadmin, e₁⟩, _, _, ⟨hpos, e₂⟩, _, h₁, hcheck, _, _, e₃, hr⟩
    cases e₁; cases e₂; cases e₃
    rcases hcheck with ⟨-, hcheck⟩ | ⟨hzero, e⟩
    · obtain rfl := checkValuationChange_ok hcheck
      exact ⟨md, hmd, hauth, hadmin, hpos, fun _ => hcheck, hr⟩
    · cases e
      exact ⟨md, hmd, hauth, hadmin, hpos, fun h => absurd h (not_lt.2 hzero), hr⟩
  · rintro ⟨md, hmd, hauth, hadmin, hpos, hcheck, hr⟩
    refine ⟨md, _, ⟨_, hmd, hauth, hadmin, rfl⟩, _, _, ⟨hpos, rfl⟩, (), h, ?_, _, _, rfl, hr⟩
    by_cases hold : 0 < md.valuation.val
    · exact .inl ⟨hold, hcheck hold⟩
    · exact .inr ⟨not_lt.1 hold, rfl⟩

theorem setCompliance_ok {admin compliance : Address} {r : Unit × Contract Address X} :
    setCompliance client env admin compliance h = .ok r ↔
      ∃ md, h.storage.metadata = some md ∧ env.authorized admin = true ∧ md.admin = admin ∧
      ∃ x, client env h.outside compliance admin = some (true, x) ∧
      ((), rewritten { h with outside := x } { md with complianceContract := compliance }
        (.setcomp md.complianceContract compliance)) = r := by
  simp [setCompliance, rewritten, and_assoc]

theorem proposeAdmin_ok {admin newAdmin : Address} {r : Unit × Contract Address X} :
    (proposeAdmin env admin newAdmin : M Address X Unit) h = .ok r ↔
      ∃ md, h.storage.metadata = some md ∧ env.authorized admin = true ∧ md.admin = admin ∧
      ((), rewritten h { md with pendingAdmin := some newAdmin } (.proposed admin newAdmin)) = r := by
  simp [proposeAdmin, rewritten, and_assoc]

theorem cancelAdminProposal_ok {admin : Address} {r : Unit × Contract Address X} :
    (cancelAdminProposal env admin : M Address X Unit) h = .ok r ↔
      ∃ md, h.storage.metadata = some md ∧ env.authorized admin = true ∧ md.admin = admin ∧ md.pendingAdmin ≠ none ∧
      ((), rewritten h { md with pendingAdmin := none } (.cancelled admin)) = r := by
  simp [cancelAdminProposal, rewritten, and_assoc]

theorem acceptAdmin_ok {newAdmin : Address} {r : Unit × Contract Address X} :
    (acceptAdmin env newAdmin : M Address X Unit) h = .ok r ↔ env.authorized newAdmin = true ∧
      ∃ md, h.storage.metadata = some md ∧ md.pendingAdmin = some newAdmin ∧
      ((), rewritten h { md with admin := newAdmin, pendingAdmin := none } (.setAdmin md.admin newAdmin)) = r := by
  simp [acceptAdmin, rewritten]

/-- What an entry point of the administration does to the metadata, and the event it publishes. -/
inductive Rewrite (env : Env Address) (md : AssetMetadata Address) :
    Op Address → AssetMetadata Address → Event Address → Prop
  | pause {caller : Address} (hsigned : env.authorized caller = true)
    (hrole : md.admin = caller ∨ md.guardian = some caller) :
    Rewrite env md (.pause caller) { md with paused := true } (.pause caller)
  | unpause (hsigned : env.authorized md.admin = true) :
    Rewrite env md (.unpause md.admin) { md with paused := false } (.unpause md.admin)
  | setGuardian {guardian : Option Address} (hsigned : env.authorized md.admin = true) :
    Rewrite env md (.setGuardian md.admin guardian) { md with guardian } (.guardian guardian)
  | updateValuation {newValuation : I128} (hsigned : env.authorized md.admin = true) :
    Rewrite env md (.updateValuation md.admin newValuation) { md with valuation := newValuation }
      (.valuation md.valuation newValuation)
  | setCompliance {compliance : Address} (hsigned : env.authorized md.admin = true) :
    Rewrite env md (.setCompliance md.admin compliance) { md with complianceContract := compliance }
      (.setcomp md.complianceContract compliance)
  | proposeAdmin {newAdmin : Address} (hsigned : env.authorized md.admin = true) :
    Rewrite env md (.proposeAdmin md.admin newAdmin) { md with pendingAdmin := some newAdmin }
      (.proposed md.admin newAdmin)
  | cancelAdminProposal (hsigned : env.authorized md.admin = true) (hpending : md.pendingAdmin ≠ none) :
    Rewrite env md (.cancelAdminProposal md.admin) { md with pendingAdmin := none } (.cancelled md.admin)
  | acceptAdmin {newAdmin : Address} (hsigned : env.authorized newAdmin = true)
    (hpending : md.pendingAdmin = some newAdmin) :
    Rewrite env md (.acceptAdmin newAdmin) { md with admin := newAdmin, pendingAdmin := none }
      (.setAdmin md.admin newAdmin)

/-- A call that moves no balance and keeps the supply; only `set_compliance` stores another compliance contract, and it
asks that contract once. -/
structure Administrative (client : ComplianceClient Address X) (env : Env Address) (op : Op Address)
    (h h' : Contract Address X) : Prop where
  balance : h'.storage.balance = h.storage.balance
  metadata : ∃ md md', h.storage.metadata = some md ∧ h'.storage.metadata = some md' ∧
    md'.totalSupply = md.totalSupply ∧ (md'.complianceContract = md.complianceContract ∨
      ∃ admin, op = .setCompliance admin md'.complianceContract)
  outside : h'.outside = h.outside ∨ ∃ compliance who, client env h.outside compliance who = some (true, h'.outside)

/-- The entry points that are `Administrative`. -/
def Op.administrative : Op Address → Bool
  | .approve .. | .pause .. | .unpause .. | .setGuardian .. | .updateValuation .. | .setCompliance .. => true
  | .proposeAdmin .. | .cancelAdminProposal .. | .acceptAdmin .. => true
  | _ => false

/-- A call of the administration rewrites the metadata and publishes one event, and nothing else. -/
theorem call_rewrite {op : Op Address} {u : Unit} {h' : Contract Address X} (hop : op.administrative = true)
    (hnot : ∀ from_ spender amount expirationLedger, op ≠ .approve from_ spender amount expirationLedger)
    (hrun : call client env op h = .ok (u, h')) :
    ∃ md md' e x, h.storage.metadata = some md ∧ Rewrite env md op md' e ∧
      (x = h.outside ∨ ∃ compliance who, client env h.outside compliance who = some (true, x)) ∧
      h' = rewritten { h with outside := x } md' e := by
  cases op <;> first | cases hop; done | skip
  case approve => exact absurd rfl (hnot _ _ _ _)
  case pause =>
    obtain ⟨hsigned, md, hmd, hrole, hr⟩ := pause_ok.1 hrun
    cases hr
    exact ⟨md, _, _, _, hmd, .pause hsigned hrole, .inl rfl, rfl⟩
  case unpause =>
    obtain ⟨md, hmd, hsigned, rfl, hr⟩ := unpause_ok.1 hrun
    cases hr
    exact ⟨md, _, _, _, hmd, .unpause hsigned, .inl rfl, rfl⟩
  case setGuardian =>
    obtain ⟨md, hmd, hsigned, rfl, hr⟩ := setGuardian_ok.1 hrun
    cases hr
    exact ⟨md, _, _, _, hmd, .setGuardian hsigned, .inl rfl, rfl⟩
  case updateValuation =>
    obtain ⟨md, hmd, hsigned, rfl, -, -, hr⟩ := updateValuation_ok.1 hrun
    cases hr
    exact ⟨md, _, _, _, hmd, .updateValuation hsigned, .inl rfl, rfl⟩
  case setCompliance =>
    obtain ⟨md, hmd, hsigned, rfl, x, hx, hr⟩ := setCompliance_ok.1 hrun
    cases hr
    exact ⟨md, _, _, _, hmd, .setCompliance hsigned, .inr ⟨_, _, hx⟩, rfl⟩
  case proposeAdmin =>
    obtain ⟨md, hmd, hsigned, rfl, hr⟩ := proposeAdmin_ok.1 hrun
    cases hr
    exact ⟨md, _, _, _, hmd, .proposeAdmin hsigned, .inl rfl, rfl⟩
  case cancelAdminProposal =>
    obtain ⟨md, hmd, hsigned, rfl, hpending, hr⟩ := cancelAdminProposal_ok.1 hrun
    cases hr
    exact ⟨md, _, _, _, hmd, .cancelAdminProposal hsigned hpending, .inl rfl, rfl⟩
  case acceptAdmin =>
    obtain ⟨hsigned, md, hmd, hpending, hr⟩ := acceptAdmin_ok.1 hrun
    cases hr
    exact ⟨md, _, _, _, hmd, .acceptAdmin hsigned hpending, .inl rfl, rfl⟩

omit [DecidableEq Address] in
/-- The administration leaves the supply alone, and only `set_compliance` stores another compliance contract. -/
theorem Rewrite.kept {md md' : AssetMetadata Address} {op : Op Address} {e : Event Address}
    (hr : Rewrite env md op md' e) :
    md'.totalSupply = md.totalSupply ∧ (md'.complianceContract = md.complianceContract ∨
      ∃ admin, op = .setCompliance admin md'.complianceContract) := by
  cases hr <;> first | exact ⟨rfl, .inl rfl⟩ | exact ⟨rfl, .inr ⟨_, rfl⟩⟩

theorem call_administrative {op : Op Address} {u : Unit} {h' : Contract Address X} (hop : op.administrative = true)
    (hrun : call client env op h = .ok (u, h')) : Administrative client env op h h' := by
  by_cases happrove : ∃ from_ spender amount expirationLedger, op = .approve from_ spender amount expirationLedger
  · obtain ⟨from_, spender, amount, expirationLedger, rfl⟩ := happrove
    obtain ⟨-, -, md, hmd, -, -, hr⟩ := approve_ok.1 hrun
    cases hr
    exact ⟨rfl, ⟨md, md, hmd, hmd, rfl, .inl rfl⟩, .inl rfl⟩
  · push Not at happrove
    obtain ⟨md, md', e, x, hmd, hrewrite, hx, rfl⟩ := call_rewrite hop happrove hrun
    exact ⟨rfl, ⟨md, md', hmd, rfl, hrewrite.kept⟩, hx⟩

end StellarRwa.Token
