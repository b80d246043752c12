import StellarRwa.Token.Spec

/-!
# Who moves a balance

`Moving` follows the balances through one call: an address whose balance changed was asked about at the compliance
contract and passed, and an address whose balance went down is one of the payers. It is kept by asking
(`Moving.ask`), by writing a balance (`Moving.write`) and so by every round of a batch. `call_gated` is the summary
for all entry points.
-/

namespace StellarRwa.Token

open Lib

variable {Address X : Type} {client : ComplianceClient Address X} {env : Env Address}

/-- The other contracts after some questions to compliance contracts. -/
inductive Queried (client : ComplianceClient Address X) (env : Env Address) (x : X) : X → Prop
  | refl : Queried client env x x
  | ask {y z : X} {compliance who : Address} {b : Bool} (hy : Queried client env x y)
    (hz : client env y compliance who = some (b, z)) : Queried client env x z

/-- The compliance contract at `c` was asked about `a`, after some questions, and said yes. -/
def Asked (client : ComplianceClient Address X) (env : Env Address) (x : X) (c a : Address) : Prop :=
  ∃ y z, Queried client env x y ∧ client env y c a = some (true, z)

variable [DecidableEq Address]

/-- From `h₀` to `h` only addresses that passed the gate at `c` changed, and only payers went down. -/
structure Moving (client : ComplianceClient Address X) (env : Env Address) (c : Address) (payer : Address → Prop)
    (h₀ h : Contract Address X) : Prop where
  queried : Queried client env h₀.outside h.outside
  moved : ∀ a, balance h.storage a ≠ balance h₀.storage a → Asked client env h₀.outside c a
  debited : ∀ a, (balance h.storage a).val < (balance h₀.storage a).val → payer a

namespace Moving

variable {c : Address} {payer : Address → Prop} {h₀ h h' : Contract Address X}

theorem refl (h₀ : Contract Address X) : Moving client env c payer h₀ h₀ :=
  ⟨.refl, fun _ hne => absurd rfl hne, fun _ hlt => absurd hlt (lt_irrefl _)⟩

/-- Only the balances and the other contracts matter. -/
theorem congr (hm : Moving client env c payer h₀ h) (hout : h'.outside = h.outside)
    (hbal : h'.storage.balance = h.storage.balance) : Moving client env c payer h₀ h' := by
  have hsame : ∀ a, balance h'.storage a = balance h.storage a := fun a => by rw [balance, hbal, ← balance]
  refine ⟨hout ▸ hm.queried, fun a hne => hm.moved a ?_, fun a hlt => hm.debited a ?_⟩
  · rwa [← hsame]
  · rwa [← hsame]

theorem ask (hm : Moving client env c payer h₀ h) {compliance who : Address} {b : Bool} {x : X}
    (hx : client env h.outside compliance who = some (b, x)) :
    Moving client env c payer h₀ { h with outside := x } :=
  ⟨hm.queried.ask hx, hm.moved, hm.debited⟩

theorem asked (hm : Moving client env c payer h₀ h) {a : Address} {x : X}
    (hx : client env h.outside c a = some (true, x)) : Asked client env h₀.outside c a :=
  ⟨_, _, hm.queried, hx⟩

/-- A balance is written: of an address that passed the gate, and not downwards unless it pays. -/
theorem write (hm : Moving client env c payer h₀ h) {a : Address} {v : I128} (ha : Asked client env h₀.outside c a)
    (hv : payer a ∨ (balance h.storage a).val ≤ v.val) :
    Moving client env c payer h₀
      { h with storage := { h.storage with balance := h.storage.balance.set a v } } := by
  have hget : ∀ b, balance { h.storage with balance := h.storage.balance.set a v } b
      = if b = a then v else balance h.storage b := fun b => Book.balance_set _ _ _ _
  refine ⟨hm.queried, ?_, ?_⟩
  · intro b hne
    rw [hget] at hne
    by_cases hb : b = a
    · exact hb ▸ ha
    · rw [if_neg hb] at hne
      exact hm.moved b hne
  · intro b hlt
    rw [hget] at hlt
    by_cases hb : b = a
    · subst hb
      rw [if_pos rfl] at hlt
      exact hv.elim id fun hle => hm.debited b (by omega)
    · rw [if_neg hb] at hlt
      exact hm.debited b hlt

end Moving

/-! ## Moving functions -/

variable {c : Address} {payer : Address → Prop} {h₀ h h' : Contract Address X}

theorem sendTo_moving {md : AssetMetadata Address} {from_ to_ : Address} {amount : I128} {u : Unit}
    (hamount : 0 < amount.val) (hm : Moving client env md.complianceContract payer h₀ h)
    (hfrom : Asked client env h₀.outside md.complianceContract from_) (hpayer : payer from_)
    (hrun : sendTo client env md from_ to_ amount h = .ok (u, h')) :
    Moving client env md.complianceContract payer h₀ h' ∧ h'.storage.metadata = h.storage.metadata := by
  obtain ⟨x, hx, -, ⟨-, hr⟩ | ⟨hne, newFromBal, newToBal, -, hto, hr⟩⟩ := sendTo_ok.1 hrun
  · cases hr
    exact ⟨(hm.ask hx).congr rfl rfl, rfl⟩
  · cases hr
    have hdebit := (hm.ask hx).write (v := newFromBal) hfrom (.inl hpayer)
    refine ⟨(hdebit.write (a := to_) (v := newToBal) (hm.asked hx) (.inr ?_)).congr rfl rfl, rfl⟩
    show (Book.balance (h.storage.balance.set from_ newFromBal) to_).val ≤ _
    rw [Book.balance_set_of_ne _ _ (Ne.symm hne)]
    unfold balance at hto
    omega

theorem mintTo_moving {md : AssetMetadata Address} {supply newSupply : I128} {to_ : Address} {amount : I128}
    (hamount : 0 < amount.val) (hm : Moving client env md.complianceContract payer h₀ h)
    (hrun : mintTo client env md supply to_ amount h = .ok (newSupply, h')) :
    Moving client env md.complianceContract payer h₀ h' := by
  obtain ⟨x, hx, n, newToBal, -, hto, hr⟩ := mintTo_ok.1 hrun
  cases hr
  refine (hm.ask hx).write (hm.asked hx) (.inr ?_)
  show (balance h.storage to_).val ≤ _
  omega

theorem transferFrom_moving {spender from_ to_ : Address} {amount : I128} {u : Unit}
    (hrun : transferFrom client env spender from_ to_ amount h = .ok (u, h')) :
    ∃ md, h.storage.metadata = some md ∧ h'.storage.metadata = some md ∧
      Moving client env md.complianceContract (· = from_) h h' := by
  obtain ⟨-, hamount, md, hmd, -, x, hx, y, hy, -, -, newFromBal, newToBal, left, -, hto, -, hr⟩ :=
    transferFrom_ok.1 hrun
  cases hr
  have hm : Moving client env md.complianceContract (· = from_) h h := .refl h
  have hdebit := ((hm.ask hx).ask hy).write (v := newFromBal) (hm.asked hx) (.inl rfl)
  refine ⟨md, hmd, hmd, (hdebit.write (a := to_) (v := newToBal) ((hm.ask hx).asked hy) (.inr ?_)).congr rfl rfl⟩
  show (Book.balance (h.storage.balance.set from_ newFromBal) to_).val ≤ _
  omega

/-! ## What one call may move -/

omit [DecidableEq Address] in
/-- The compliance contract stored at a call from `s` to `s'`; the first one is stored by the call itself. -/
def storedCompliance (s s' : State Address) : Option Address :=
  (s.metadata.or s'.metadata).map AssetMetadata.complianceContract

/-- The call `op` may lower the balance of `a` by `d`: signed by `a`, or by a spender with an allowance for it. -/
def MayDebit (env : Env Address) (s : State Address) (op : Op Address) (a : Address) (d : Int) : Prop :=
  env.authorized a = true ∨
    ∃ spender to_ amount v, op = .transferFrom spender a to_ amount ∧ env.authorized spender = true ∧
      s.allowance.get (a, spender) = some v ∧ env.sequence ≤ v.expirationLedger ∧ d ≤ v.amount.val

/-- What a call may do to the balances, the supply and the stored compliance contract; of the other contracts it only
asks questions. -/
structure Gated (client : ComplianceClient Address X) (env : Env Address) (op : Op Address)
    (h h' : Contract Address X) : Prop where
  queried : Queried client env h.outside h'.outside
  moved : ∀ a, balance h'.storage a ≠ balance h.storage a →
    ∃ c, storedCompliance h.storage h'.storage = some c ∧ Asked client env h.outside c a
  debited : ∀ a, (balance h'.storage a).val < (balance h.storage a).val →
    MayDebit env h.storage op a ((balance h.storage a).val - (balance h'.storage a).val)
  minted : ∀ md md', h.storage.metadata = some md → h'.storage.metadata = some md' →
    md.totalSupply.val < md'.totalSupply.val → env.authorized md.admin = true
  pointed : ∀ md, h.storage.metadata = some md → ∃ md', h'.storage.metadata = some md' ∧
    (md'.complianceContract = md.complianceContract ∨ ∃ admin, op = .setCompliance admin md'.complianceContract)

omit [DecidableEq Address] in
theorem storedCompliance_of_some {s s' : State Address} {md : AssetMetadata Address} (hmd : s.metadata = some md) :
    storedCompliance s s' = some md.complianceContract := by simp [storedCompliance, hmd]

/-- A call that moves balances under the metadata `md` and stores at most another supply. -/
theorem Gated.ofMoving {op : Op Address} {md : AssetMetadata Address} {payer : Address → Prop} {supply : I128}
    (hmd : h.storage.metadata = some md) (hm : Moving client env md.complianceContract payer h h')
    (hmd' : h'.storage.metadata = some { md with totalSupply := supply })
    (hdebited : ∀ a, (balance h'.storage a).val < (balance h.storage a).val →
      MayDebit env h.storage op a ((balance h.storage a).val - (balance h'.storage a).val))
    (hminted : md.totalSupply.val < supply.val → env.authorized md.admin = true) : Gated client env op h h' := by
  refine ⟨hm.queried, ?_, hdebited, ?_, ?_⟩
  · intro a hne
    exact ⟨_, storedCompliance_of_some hmd, hm.moved a hne⟩
  · intro md₁ md₂ h₁ h₂ hlt
    rw [hmd] at h₁
    rw [hmd'] at h₂
    cases h₁; cases h₂
    exact hminted hlt
  · intro md₁ h₁
    rw [hmd] at h₁
    cases h₁
    exact ⟨_, hmd', .inl rfl⟩

/-- The same, when the payers have signed the call. -/
theorem Gated.ofSigned {op : Op Address} {md : AssetMetadata Address} {supply : I128}
    (hmd : h.storage.metadata = some md)
    (hm : Moving client env md.complianceContract (fun a => env.authorized a = true) h h')
    (hmd' : h'.storage.metadata = some { md with totalSupply := supply })
    (hminted : md.totalSupply.val < supply.val → env.authorized md.admin = true) : Gated client env op h h' :=
  .ofMoving hmd hm hmd' (fun a hlt => .inl (hm.debited a hlt)) hminted

/-- A `transfer_from` takes at most an unexpired allowance of its signer. -/
theorem transferFrom_debited {spender from_ to_ : Address} {amount : I128} {u : Unit}
    (hrun : transferFrom client env spender from_ to_ amount h = .ok (u, h')) :
    ∃ spender' to' amount' v, Op.transferFrom spender from_ to_ amount = .transferFrom spender' from_ to' amount' ∧
      env.authorized spender' = true ∧ h.storage.allowance.get (from_, spender') = some v ∧
      env.sequence ≤ v.expirationLedger ∧
      (balance h.storage from_).val - (balance h'.storage from_).val ≤ v.amount.val := by
  obtain ⟨hauth, hamount, md, hmd, -, x, -, y, -, ⟨hlive, hallowed⟩, -, newFromBal, newToBal, left,
    hfrom, hto, -, hr⟩ := transferFrom_ok.1 hrun
  cases hr
  have hleft : (balance h.storage from_).val - amount.val
      ≤ (Book.balance ((h.storage.balance.set from_ newFromBal).set to_ newToBal) from_).val := by
    rw [Book.balance_set]
    split
    · rename_i heq
      rw [← heq, Book.balance_set_self] at hto
      omega
    · rw [Book.balance_set_self]
      omega
  cases hget : h.storage.allowance.get (from_, spender) with
  | none =>
    simp [currentAllowance, hget] at hallowed
    omega
  | some v =>
    simp only [currentAllowance, hget, Option.getD_some] at hlive hallowed
    refine ⟨spender, to_, amount, v, rfl, hauth, hget, hlive, ?_⟩
    show _ - (Book.balance ((h.storage.balance.set from_ newFromBal).set to_ newToBal) from_).val ≤ _
    omega

theorem call_gated {op : Op Address} {u : Unit} (hrun : call client env op h = .ok (u, h')) :
    Gated client env op h h' := by
  by_cases hop : op.administrative = true
  · obtain ⟨hbal, ⟨md, md', hmd, hmd', hsupply, hpointed⟩, hout⟩ := call_administrative hop hrun
    have hsame : ∀ a, balance h'.storage a = balance h.storage a := fun a => by rw [balance, hbal, ← balance]
    refine ⟨?_, fun a hne => absurd (hsame a) hne, fun a hlt => absurd (hsame a ▸ hlt) (lt_irrefl _), ?_, ?_⟩
    · rcases hout with hout | ⟨compliance, who, hx⟩
      · exact hout ▸ .refl
      · exact .ask .refl hx
    · intro md₁ md₂ h₁ h₂ hlt
      rw [hmd] at h₁
      rw [hmd'] at h₂
      cases h₁; cases h₂
      rw [hsupply] at hlt
      exact absurd hlt (lt_irrefl _)
    · intro md₁ h₁
      rw [hmd] at h₁
      cases h₁
      exact ⟨md', hmd', hpointed⟩
  · cases op <;> first | exact absurd rfl hop | skip
    case initializeToken admin _ _ _ totalSupply _ compliance _ _ =>
      obtain ⟨hnone, hauth, -, -, -, -, -, x, hx, hr⟩ := initializeToken_ok.1 hrun
      cases hr
      have hm : Moving client env compliance (fun a => env.authorized a = true) h h := .refl h
      have hm' := (hm.ask hx).write (v := totalSupply) (hm.asked hx) (.inl hauth)
      have hno : ∀ md, h.storage.metadata ≠ some md := by simp [hnone]
      refine ⟨hm'.queried, fun a hne => ⟨_, by simp [storedCompliance, hnone], hm'.moved a hne⟩,
        fun a hlt => .inl (hm'.debited a hlt), fun md _ h₁ => absurd h₁ (hno md), fun md h₁ => absurd h₁ (hno md)⟩
    case transfer =>
      obtain ⟨hauth, hamount, md, hmd, -, x, hx, hsend⟩ := transfer_ok.1 hrun
      have hm : Moving client env md.complianceContract (fun a => env.authorized a = true) h h := .refl h
      obtain ⟨hm', hmd'⟩ := sendTo_moving hamount (hm.ask hx) (hm.asked hx) hauth hsend
      exact .ofSigned hmd hm' (hmd'.trans hmd) fun hlt => absurd hlt (lt_irrefl _)
    case transferBatch from_ transfers =>
      obtain ⟨hauth, md, hmd, -, x, hx, hloop⟩ := transferBatch_ok.1 hrun
      have hm : Moving client env md.complianceContract (fun a => env.authorized a = true) h h := .refl h
      obtain ⟨hm', hmd'⟩ := Call.forEach_rule (h := { h with outside := x })
        (P := fun h₁ => Moving client env md.complianceContract (fun a => env.authorized a = true) h h₁ ∧
          h₁.storage.metadata = some md)
        (fun p _ h₁ h₂ hP hround => by
          simp only [Call.bind_ok, checkAmount_ok] at hround
          obtain ⟨_, _, ⟨hamount, e⟩, hsend⟩ := hround
          cases e
          obtain ⟨hm₂, hmd₂⟩ := sendTo_moving hamount hP.1 (hm.asked hx) hauth hsend
          exact ⟨hm₂, hmd₂.trans hP.2⟩) ⟨hm.ask hx, hmd⟩ hloop
      exact .ofSigned hmd hm' hmd' fun hlt => absurd hlt (lt_irrefl _)
    case mint =>
      obtain ⟨md, hmd, hauth, rfl, hamount, -, n, h₁, hmint, hr⟩ := mint_ok.1 hrun
      cases hr
      exact .ofSigned hmd ((mintTo_moving hamount (.refl h) hmint).congr rfl rfl) rfl fun _ => hauth
    case mintBatch =>
      obtain ⟨md, hmd, hauth, rfl, -, n, h₁, hloop, hr⟩ := mintBatch_ok.1 hrun
      cases hr
      have hm := Call.foldEach_rule
        (P := fun _ h₁ => Moving client env md.complianceContract (fun a => env.authorized a = true) h h₁)
        (fun p _ b₁ h₁ b₂ h₂ hP hround => by
          simp only [Call.bind_ok, checkAmount_ok, Call.publish_ok, Call.pure_ok] at hround
          obtain ⟨_, _, ⟨hamount, e₁⟩, n, h₃, hmint, _, _, e₂, e₃⟩ := hround
          cases e₁; cases e₂; cases e₃
          exact (mintTo_moving hamount hP hmint).congr rfl rfl) (.refl h) hloop
      exact .ofSigned hmd (hm.congr rfl rfl) rfl fun _ => hauth
    case burn =>
      obtain ⟨hauth, hamount, md, hmd, -, x, hx, -, newFromBal, newSupply, -, hsupply, hr⟩ := burn_ok.1 hrun
      cases hr
      have hm : Moving client env md.complianceContract (fun a => env.authorized a = true) h h := .refl h
      have hm' := (hm.ask hx).write (v := newFromBal) (hm.asked hx) (.inl hauth)
      exact .ofSigned hmd (hm'.congr rfl rfl) rfl fun hlt => by omega
    case transferFrom spender from_ to_ amount =>
      obtain ⟨md, hmd, hmd', hm⟩ := transferFrom_moving hrun
      refine .ofMoving hmd hm hmd' ?_ fun hlt => absurd hlt (lt_irrefl _)
      intro a hlt
      obtain rfl := hm.debited a hlt
      exact .inr (transferFrom_debited hrun)

end StellarRwa.Token
