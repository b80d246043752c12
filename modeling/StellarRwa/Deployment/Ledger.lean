import StellarRwa.Lockup
import StellarRwa.Token.Allowance
import StellarRwa.Token.Overflow
import StellarRwa.Token.PostBalances
import StellarRwa.Dividend.Tokens

/-!
# The tokens around the dividend contract

The tokens and the compliance contracts of one chain, with the calls that the accounts and the dividend contract make of
them (`Chain`). In a `Ledger` the balances of every token are conserved and the dividend contract has approved nobody,
so its balances go down by its own transfers only. Hence the tokens of this repository are payment tokens of the kind
that the results about escrow ask for: this is proved of them here, not assumed (`exactTokens`).
-/

namespace StellarRwa.Deployment

open Lib

variable {Address : Type} [DecidableEq Address]

/-- The current ledger, the compliance contracts, and the storage and the events of every token. -/
structure Chain (Address : Type) where
  now : U32
  compliance : Fleet Address
  tokens : Storage Address (Token.Contract Address Unit)

namespace Chain

/-! ## Calls of the tokens and the compliance contracts -/

/-- The token at `p` among the compliance contracts. -/
def token (c : Chain Address) (p : Address) : Option (World Address) :=
  (c.tokens.get p).map fun k => k.among c.compliance

/-- The chain after a call of the token at `p` that ended in `w`. -/
def put (c : Chain Address) (p : Address) (w : World Address) : Chain Address :=
  { c with compliance := w.outside, tokens := c.tokens.set p w.alone }

/-- A call of the token at `p`; the host traps when there is none. -/
def callToken (c : Chain Address) (p : Address) (signed : Address → Bool) (op : Token.Op Address) :
    Option (Chain Address) :=
  match c.token p with
  | none => none
  | some w => ((Token.call isAllowedAt ⟨c.now, signed⟩ op).returned w).map fun r => c.put p r.2

/-- A call of the compliance contract at `k`. -/
def callCompliance (c : Chain Address) (k : Address) (signed : Address → Bool) (op : Compliance.Op Address) :
    Option (Chain Address) :=
  match c.compliance.get k with
  | none => none
  | some h =>
    ((Compliance.call ⟨c.now, signed⟩ op).returned h).map fun r => { c with compliance := c.compliance.set k r.2 }

/-- `AssetTokenClient::total_supply` of the token at `p`. -/
def totalSupply (c : Chain Address) (p : Address) : Option I128 :=
  match c.token p with
  | none => none
  | some w => ((Token.totalSupply : Token.M Address (Fleet Address) I128).returned w).map Prod.fst

/-- `AssetTokenClient::get_metadata().admin` of the token at `p`. -/
def assetAdmin (c : Chain Address) (p : Address) : Option Address :=
  match c.token p with
  | none => none
  | some w =>
    ((Token.getMetadata : Token.M Address (Fleet Address) _).returned w).map fun r => r.1.admin

/-- `TokenClient::transfer` of the token at `p`, authorized by the payer: it has signed the creation of a distribution,
or it is the calling contract itself. -/
def transfer (c : Chain Address) (p from_ to_ : Address) (amount : I128) : Option (Chain Address) :=
  c.callToken p (fun a => a = from_) (.transfer from_ to_ amount)

/-- The balance of `a` in the token at `p`. -/
def balance (c : Chain Address) (p a : Address) : Int :=
  ((c.tokens.get p).map fun k => (Token.balance k.storage a).val).getD 0

variable {c c' : Chain Address} {p q k a : Address} {w : World Address} {signed : Address → Bool}
  {op : Token.Op Address}

omit [DecidableEq Address] in
theorem token_eq_some [DecidableEq Address] : c.token p = some w ↔
    ∃ k, c.tokens.get p = some k ∧ w = k.among c.compliance := by
  simp [token, eq_comm]

theorem callToken_eq_some : c.callToken p signed op = some c' ↔
    ∃ w w', c.token p = some w ∧ Token.call isAllowedAt ⟨c.now, signed⟩ op w = .ok ((), w') ∧ c' = c.put p w' := by
  unfold callToken
  cases c.token p with
  | none => simp
  | some w =>
    simp only [Option.map_eq_some_iff, Call.returned_eq_some, Option.some.injEq]
    constructor
    · rintro ⟨⟨_, w'⟩, hrun, rfl⟩
      exact ⟨w, w', rfl, hrun, rfl⟩
    · rintro ⟨_, w', rfl, hrun, rfl⟩
      exact ⟨((), w'), hrun, rfl⟩

theorem callCompliance_eq_some {op : Compliance.Op Address} : c.callCompliance k signed op = some c' ↔
    ∃ h r h', c.compliance.get k = some h ∧ Compliance.call ⟨c.now, signed⟩ op h = .ok (r, h') ∧
      c' = { c with compliance := c.compliance.set k h' } := by
  unfold callCompliance
  cases c.compliance.get k with
  | none => simp
  | some h =>
    simp only [Option.map_eq_some_iff, Call.returned_eq_some, Option.some.injEq]
    constructor
    · rintro ⟨⟨r, h'⟩, hrun, rfl⟩
      exact ⟨h, r, h', rfl, hrun, rfl⟩
    · rintro ⟨_, r, h', rfl, hrun, rfl⟩
      exact ⟨(r, h'), hrun, rfl⟩

theorem balance_of_token (hw : c.token p = some w) (a : Address) : c.balance p a = (w.balance a).val := by
  obtain ⟨k, hk, rfl⟩ := token_eq_some.1 hw
  simp [balance, hk, World.balance, Host.among]

theorem balance_put (c : Chain Address) (p : Address) (w : World Address) (q a : Address) :
    (c.put p w).balance q a = if q = p then (w.balance a).val else c.balance q a := by
  unfold balance put
  rw [Storage.get_set]
  split <;> rfl

/-- What an account can do: let ledgers close, or call a token or a compliance contract. -/
inductive Act (Address : Type)
  | advance (n : U32)
  | token (p : Address) (signed : Address → Bool) (op : Token.Op Address)
  | compliance (k : Address) (signed : Address → Bool) (op : Compliance.Op Address)

/-- An act of the accounts. The contract at `this` is no account: it signs none of them. -/
def act (this : Address) (c : Chain Address) : Act Address → Option (Chain Address)
  | .advance n => if c.now ≤ n then some { c with now := n } else none
  | .token p signed op => if signed this then none else c.callToken p signed op
  | .compliance k signed op => if signed this then none else c.callCompliance k signed op

/-! ## Sound chains -/

/-- The tokens keep their books, and the contract at `this` has approved nobody to spend its balances. -/
structure Sound (this : Address) (c : Chain Address) : Prop where
  conserved : ∀ p k, c.tokens.get p = some k → Token.Conserved k.storage
  unspent : ∀ p k g, c.tokens.get p = some k → k.storage.allowance.get (this, g) = none

variable {this : Address}

theorem Sound.token (hs : c.Sound this) (hw : c.token p = some w) :
    Token.Conserved w.storage ∧ ∀ g, w.storage.allowance.get (this, g) = none := by
  obtain ⟨k, hk, rfl⟩ := token_eq_some.1 hw
  exact ⟨hs.conserved p k hk, fun g => hs.unspent p k g hk⟩

theorem Sound.put (hs : c.Sound this) (hconserved : Token.Conserved w.storage)
    (hunspent : ∀ g, w.storage.allowance.get (this, g) = none) : (c.put p w).Sound this := by
  constructor
  · intro q k hk
    rw [Chain.put, Storage.get_set] at hk
    split at hk
    · cases hk
      exact hconserved
    · exact hs.conserved q k hk
  · intro q k g hk
    rw [Chain.put, Storage.get_set] at hk
    split at hk
    · cases hk
      exact hunspent g
    · exact hs.unspent q k g hk

/-- A call that `this` does not sign, and any transfer, leaves `this` without approvals. -/
theorem Sound.callToken (hs : c.Sound this)
    (hself : signed this = true → ∃ from_ to_ amount, op = .transfer from_ to_ amount)
    (hcall : c.callToken p signed op = some c') : c'.Sound this := by
  obtain ⟨w, w', hw, hrun, rfl⟩ := callToken_eq_some.1 hcall
  obtain ⟨hconserved, hunspent⟩ := hs.token hw
  refine hs.put (Token.call_conserved hconserved hrun) fun g => ?_
  have hstep : (Token.token isAllowedAt).step w (.call ⟨c.now, signed⟩ op) = some ((), w') :=
    Call.returned_eq_some.2 hrun
  have hallowance := Token.step_allowance this g hstep
  rw [hunspent g] at hallowance
  generalize w'.storage.allowance.get (this, g) = v at hallowance
  cases hallowance with
  | kept _ _ => rfl
  | approved happroval hsigned _ =>
    obtain ⟨from_, to_, amount, rfl⟩ := hself hsigned
    cases happroval
  | spent _ _ _ hv _ _ _ => cases hv

theorem Sound.act (hs : c.Sound this) {a : Act Address} (hact : c.act this a = some c') : c'.Sound this := by
  cases a with
  | advance n =>
    simp only [Chain.act, Option.ite_none_right_eq_some, Option.some.injEq] at hact
    obtain ⟨-, rfl⟩ := hact
    exact ⟨hs.conserved, hs.unspent⟩
  | token p signed op =>
    simp only [Chain.act, Option.ite_none_left_eq_some, Bool.not_eq_true] at hact
    exact hs.callToken (fun hsigned => by cases hact.1.symm.trans hsigned) hact.2
  | compliance k signed op =>
    simp only [Chain.act, Option.ite_none_left_eq_some, Bool.not_eq_true] at hact
    obtain ⟨h, r, h', -, -, rfl⟩ := callCompliance_eq_some.1 hact.2
    exact ⟨hs.conserved, hs.unspent⟩

theorem Sound.transfer (hs : c.Sound this) {from_ to_ : Address} {amount : I128}
    (htransfer : c.transfer p from_ to_ amount = some c') : c'.Sound this :=
  hs.callToken (fun _ => ⟨from_, to_, amount, rfl⟩) htransfer

end Chain

/-! ## Ledgers -/

/-- A sound chain. -/
abbrev Ledger (this : Address) := { c : Chain Address // c.Sound this }

/-- The other contracts of the dividend contract at `this`, when all of them are contracts of this repository. -/
def tokens (this : Address) : Dividend.World Address (Ledger this) (Chain.Act Address) where
  totalSupply l p := l.val.totalSupply p
  assetAdmin l p := l.val.assetAdmin p
  transfer l p from_ to_ amount := (l.val.transfer p from_ to_ amount).pmap Subtype.mk fun _ h => l.property.transfer h
  act a l := (l.val.act this a).pmap Subtype.mk fun _ h => l.property.act h

/-! ## Transfers -/

section Transfers

variable {X : Type} {client : Token.ComplianceClient Address X} {env : Env Address} {h h' : Token.Contract Address X}
  {from_ to_ : Address} {amount : I128}

/-- A transfer moves the amount and no other balance. -/
theorem transfer_moves (hrun : Token.transfer client env from_ to_ amount h = .ok ((), h')) (a : Address) :
    (Token.balance h'.storage a).val = (Token.balance h.storage a).val - (if a = from_ then amount.val else 0) +
      if a = to_ then amount.val else 0 := by
  obtain ⟨-, -, md, -, -, x, -, hsend⟩ := Token.transfer_ok.1 hrun
  obtain ⟨y, -, -, ⟨rfl, hr⟩ | ⟨hne, newFromBal, newToBal, hfrom, hto, hr⟩⟩ := Token.sendTo_ok.1 hsend
  · cases hr
    by_cases ha : a = from_
    · simp [ha]
    · simp [ha]
  · cases hr
    rw [Token.balance_moved]
    by_cases hto' : a = to_
    · subst hto'
      simp [hto, Ne.symm hne]
    · by_cases hfrom' : a = from_
      · subst hfrom'
        simp [hfrom, hto']
      · simp [hto', hfrom']

/-- **When a transfer returns**: the payer has signed and has the amount, the token is not paused, and the compliance
contract allows the payer and then the recipient. No balance overflows, since no two exceed the supply. -/
theorem transfer_returns_iff (hs : Token.Conserved h.storage) :
    (∃ h', Token.transfer client env from_ to_ amount h = .ok ((), h')) ↔
      env.authorized from_ = true ∧ 0 < amount.val ∧ amount.val ≤ (Token.balance h.storage from_).val ∧
        ∃ md, h.storage.metadata = some md ∧ md.paused = false ∧
          ∃ x y, client env h.outside md.complianceContract from_ = some (true, x) ∧
            client env x md.complianceContract to_ = some (true, y) := by
  simp only [Token.transfer_ok, Token.sendTo_ok]
  constructor
  · rintro ⟨h', hsigned, hpos, md, hmd, hpaused, x, hx, y, hy, hfunds, -⟩
    exact ⟨hsigned, hpos, hfunds, md, hmd, hpaused, x, y, hx, hy⟩
  · rintro ⟨hsigned, hpos, hfunds, md, hmd, hpaused, x, y, hx, hy⟩
    by_cases hself : from_ = to_
    · exact ⟨_, hsigned, hpos, md, hmd, hpaused, x, hx, y, hy, hfunds, .inl ⟨hself, rfl⟩⟩
    · have hroom := hs.room hmd hself
      have hsolvent : 0 ≤ (Token.balance h.storage from_).val := hs.solvent from_
      have hsolvent' : 0 ≤ (Token.balance h.storage to_).val := hs.solvent to_
      have hmax := md.totalSupply.le_hi
      obtain ⟨newFromBal, hfrom⟩ : ∃ n : I128, n.val = (Token.balance h.storage from_).val - amount.val :=
        MInt.exists_val (by omega) (by omega)
      obtain ⟨newToBal, hto⟩ : ∃ n : I128, n.val = (Token.balance h.storage to_).val + amount.val :=
        MInt.exists_val (by omega) (by omega)
      exact ⟨_, hsigned, hpos, md, hmd, hpaused, x, hx, y, hy, hfunds,
        .inr ⟨hself, newFromBal, newToBal, hfrom, hto, rfl⟩⟩

end Transfers

/-! ## Payment tokens -/

/-- The balances of a ledger. -/
abbrev Ledger.balance {this : Address} (l : Ledger this) (p a : Address) : Int := l.val.balance p a

section Payments

variable {this : Address} {l l' : Ledger this} {p a from_ to_ : Address} {amount : I128}

omit [DecidableEq Address] in
theorem pmap_mk_eq_some {c : Option (Chain Address)} {P : Chain Address → Prop} {hc : ∀ c₁, c = some c₁ → P c₁}
    {s : Subtype P} : c.pmap Subtype.mk hc = some s ↔ c = some s.val := by
  cases c with
  | none => simp
  | some c => simp [Subtype.ext_iff]

theorem transfer_eq_some : (tokens this).transfer l p from_ to_ amount = some l' ↔
    l.val.transfer p from_ to_ amount = some l'.val := pmap_mk_eq_some

theorem act_eq_some {b : Chain.Act Address} : (tokens this).act b l = some l' ↔ l.val.act this b = some l'.val :=
  pmap_mk_eq_some

theorem Ledger.balance_nonneg (l : Ledger this) (p a : Address) : 0 ≤ l.balance p a := by
  show 0 ≤ l.val.balance p a
  unfold Chain.balance
  cases hk : l.val.tokens.get p with
  | none => exact le_rfl
  | some k => exact (l.property.conserved p k hk).solvent a

/-- What a transfer does to the balances of all tokens. -/
theorem transfer_balance (htransfer : l.val.transfer p from_ to_ amount = some l'.val) (q a : Address) :
    l'.balance q a = l.balance q a - (if q = p ∧ a = from_ then amount.val else 0) +
      if q = p ∧ a = to_ then amount.val else 0 := by
  obtain ⟨w, w', hw, hrun, hl'⟩ := Chain.callToken_eq_some.1 htransfer
  show l'.val.balance q a = l.val.balance q a - _ + _
  rw [hl', Chain.balance_put]
  by_cases hq : q = p
  · subst hq
    rw [if_pos rfl, Chain.balance_of_token hw]
    simpa [World.balance] using transfer_moves hrun a
  · simp [hq]

/-- What the accounts do never takes from the contract at `this`. -/
theorem act_keeps {b : Chain.Act Address} (hact : l.val.act this b = some l'.val) (q : Address) :
    l.balance q this ≤ l'.balance q this := by
  show l.val.balance q this ≤ l'.val.balance q this
  cases b with
  | advance n =>
    simp only [Chain.act, Option.ite_none_right_eq_some, Option.some.injEq] at hact
    rw [← hact.2]
    exact le_rfl
  | compliance k signed op =>
    simp only [Chain.act, Option.ite_none_left_eq_some] at hact
    obtain ⟨h, r, h', -, -, hl'⟩ := Chain.callCompliance_eq_some.1 hact.2
    rw [hl']
    exact le_rfl
  | token p signed op =>
    simp only [Chain.act, Option.ite_none_left_eq_some] at hact
    obtain ⟨w, w', hw, hrun, hl'⟩ := Chain.callToken_eq_some.1 hact.2
    rw [hl', Chain.balance_put]
    split
    · rename_i hq
      rw [hq, Chain.balance_of_token hw]
      by_contra hless
      -- a debit is signed by the payer or spends an allowance, and `this` gives neither
      rcases (Token.call_gated hrun).debited this (not_le.1 hless) with hsigned | ⟨_, _, _, v, -, -, hv, -, -⟩
      · exact hact.1 hsigned
      · cases ((l.property.token hw).2 _).symm.trans hv
    · exact le_rfl

/-- **The tokens of this repository are exact payment tokens**: a transfer moves the amount or fails, no balance is
negative, and nobody but the dividend contract lowers its balances. -/
theorem exactTokens (this : Address) : Dividend.ExactTokens (tokens this) this Ledger.balance where
  moves htransfer q a := transfer_balance (transfer_eq_some.1 htransfer) q a
  nonneg l p := l.balance_nonneg p this
  keeps hact q := act_keeps (act_eq_some.1 hact) q

end Payments

end StellarRwa.Deployment
