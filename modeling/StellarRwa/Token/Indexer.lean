import StellarRwa.Notices
import StellarRwa.Token.Valuation
import StellarRwa.Token.PostBalances

/-!
# Following the token by its events

The events of the token tell an indexer every balance and the supply, the roles, whether the token is paused, the
valuation and the compliance contract from their first change on, and what every owner approved last. The spender is not
in the transfer events, so of an allowance the indexer has an upper bound only.

The indexer reads strictly: it stops at a mint, a transfer, a burn or an approval while the token is paused, at a move
beyond the balance, at a balance that is not the one after the move, at a pause by anyone but the admin and the
guardian, and at a valuation that is not within the bound of the one before. It never stops (`token_followed`).
-/

namespace StellarRwa.Token

open Lib

variable {Address X : Type}

/-! ## The indexer -/

/-- What the events say about the token. -/
structure Picture (Address : Type) where
  roles : Roles Address
  guardian : Option Address
  paused : Bool
  totalSupply : Int
  valuation : Option I128
  complianceContract : Option Address
  balances : Address → Int
  allowances : Storage (Address × Address) AllowanceValue

namespace Picture

/-- Before any event. -/
def blank (Address : Type) : Picture Address := ⟨⟨none, none⟩, none, false, 0, none, none, fun _ => 0, ∅⟩

variable [DecidableEq Address]

/-- `n` more for `k`. -/
def credited (b : Address → Int) (k : Address) (n : Int) (a : Address) : Int := if a = k then b a + n else b a

/-- Initialized and not paused. -/
abbrev Active (p : Picture Address) : Prop := p.roles.admin ≠ none ∧ p.paused = false

def notice (p : Picture Address) (n : Notice Address) : Option (Picture Address) :=
  (p.roles.read n).map fun roles => { p with roles }

def mint (p : Picture Address) (to_ : Address) (amount : I128) : Option (Picture Address) :=
  if p.Active ∧ 0 ≤ amount.val then
    some { p with totalSupply := p.totalSupply + amount.val, balances := credited p.balances to_ amount.val }
  else none

def burn (p : Picture Address) (from_ : Address) (amount : I128) : Option (Picture Address) :=
  if p.Active ∧ 0 < amount.val ∧ amount.val ≤ p.balances from_ then
    some { p with totalSupply := p.totalSupply - amount.val, balances := credited p.balances from_ (-amount.val) }
  else none

/-- The balances after a move. -/
def moved (p : Picture Address) (from_ to_ : Address) (amount : I128) : Address → Int :=
  credited (credited p.balances from_ (-amount.val)) to_ amount.val

/-- A spender that pays the owner logs the balance of the owner between debit and credit. -/
def transfer (p : Picture Address) (from_ to_ : Address) (amount newFromBal newToBal : I128) :
    Option (Picture Address) :=
  if p.Active ∧ (0 < amount.val ∧ amount.val ≤ p.balances from_) ∧ newToBal.val = p.moved from_ to_ amount to_ ∧
      (from_ ≠ to_ → newFromBal.val = p.moved from_ to_ amount from_) then
    some { p with balances := p.moved from_ to_ amount }
  else none

def approve (p : Picture Address) (from_ spender : Address) (amount : I128) (expirationLedger : U32) :
    Option (Picture Address) :=
  if p.Active ∧ 0 ≤ amount.val then
    some { p with allowances := p.allowances.set (from_, spender) ⟨amount, expirationLedger⟩ }
  else none

/-- From the old valuation, if that is known, by at most half of it. -/
def revalue (p : Picture Address) (oldValuation newValuation : I128) : Option (Picture Address) :=
  if p.roles.admin ≠ none ∧ (p.valuation = none ∨ p.valuation = some oldValuation) ∧ 0 ≤ newValuation.val ∧
      (0 < oldValuation.val → 2 * |newValuation.val - oldValuation.val| ≤ oldValuation.val) then
    some { p with valuation := some newValuation }
  else none

/-- From the old compliance contract, if that is known. -/
def setcomp (p : Picture Address) (oldCompliance newCompliance : Address) : Option (Picture Address) :=
  if p.roles.admin ≠ none ∧ (p.complianceContract = none ∨ p.complianceContract = some oldCompliance) then
    some { p with complianceContract := some newCompliance }
  else none

def read (p : Picture Address) : Event Address → Option (Picture Address)
  | .genesis admin _ => p.notice (.init admin)
  | .mint to_ amount => p.mint to_ amount
  | .transfer from_ to_ amount newFromBal newToBal => p.transfer from_ to_ amount newFromBal newToBal
  | .burn from_ amount => p.burn from_ amount
  | .approve from_ spender amount expirationLedger => p.approve from_ spender amount expirationLedger
  | .pause caller =>
    if p.roles.admin = some caller ∨ p.guardian = some caller then some { p with paused := true } else none
  | .unpause admin => if p.roles.admin = some admin then some { p with paused := false } else none
  | .guardian guardian => if p.roles.admin ≠ none then some { p with guardian } else none
  | .valuation oldValuation newValuation => p.revalue oldValuation newValuation
  | .setcomp oldCompliance newCompliance => p.setcomp oldCompliance newCompliance
  | .proposed admin newAdmin => p.notice (.proposed admin newAdmin)
  | .cancelled admin => p.notice (.cancelled admin)
  | .setAdmin oldAdmin newAdmin => p.notice (.setAdmin oldAdmin newAdmin)

/-- The most that `spender` may still move. -/
def allowanceBound (p : Picture Address) (env : Env Address) (from_ spender : Address) : I128 :=
  match p.allowances.get (from_, spender) with
  | some v => if env.sequence ≤ v.expirationLedger then v.amount else 0
  | none => 0

end Picture

/-- The indexer of the token. -/
def indexer (Address : Type) [DecidableEq Address] : Indexer (Picture Address) (Event Address) where
  blank := Picture.blank Address
  read := Picture.read

/-! ## Pictures of the token -/

/-- The picture says what is so of the metadata: of the valuation and of the compliance contract from their first change
on, and nothing of the name, the symbol, the type, the description and the decimals, which are in no event. -/
structure Picture.Terms (p : Picture Address) (md : AssetMetadata Address) : Prop where
  roles : p.roles = ⟨some md.admin, md.pendingAdmin⟩
  guardian : p.guardian = md.guardian
  paused : p.paused = md.paused
  totalSupply : p.totalSupply = md.totalSupply.val
  valuation : ∀ v, p.valuation = some v → v = md.valuation
  complianceContract : ∀ c, p.complianceContract = some c → c = md.complianceContract

/-- What was approved, against what is left of it. -/
structure AllowanceValue.Bounds (v w : AllowanceValue) : Prop where
  amount : w.amount.val ≤ v.amount.val
  expirationLedger : w.expirationLedger = v.expirationLedger

variable [DecidableEq Address]

/-- The picture says what is so of the storage. -/
structure Picture.Shows (p : Picture Address) (s : State Address) : Prop where
  fresh : s.metadata = none → p = Picture.blank Address
  terms : ∀ md, s.metadata = some md → p.Terms md
  balances : ∀ a, p.balances a = (balance s a).val
  allowances : Storage.Related AllowanceValue.Bounds p.allowances s.allowance

variable {p : Picture Address} {s : State Address} {md md' : AssetMetadata Address}

theorem shows_fresh : (Picture.blank Address).Shows (State.fresh Address) where
  fresh _ := rfl
  terms md hmd := by cases hmd
  balances _ := rfl
  allowances := Storage.related_empty

/-- One account is written. -/
theorem credited_set {b : Address → Int} {book : Book Address} {k : Address} {v : I128} {n : Int}
    (hb : ∀ a, b a = (Book.balance book a).val) (hv : v.val = (Book.balance book k).val + n) (a : Address) :
    Picture.credited b k n a = (Book.balance (book.set k v) a).val := by
  rw [Picture.credited, Book.balance_set]
  split
  · rename_i ha
    rw [ha, hb, hv]
  · exact hb a

omit [DecidableEq Address] in
theorem Picture.Terms.initialized (ht : p.Terms md) : p.roles.admin ≠ none := by simp [ht.roles]

omit [DecidableEq Address] in
theorem Picture.Terms.active (ht : p.Terms md) (hactive : md.paused = false) : p.Active :=
  ⟨ht.initialized, ht.paused.trans hactive⟩

/-! ## Events that move balances -/

/-- The storage with the supply `n`. -/
def State.supplied (s : State Address) (md : AssetMetadata Address) (n : I128) : State Address :=
  { s with metadata := some { md with totalSupply := n } }

section Moves

variable {from_ to_ : Address} {amount newFromBal newToBal newSupply : I128}

/-- The supply and one balance are written. -/
theorem Picture.Shows.supplied (hp : p.Shows s) (hmd : s.metadata = some md) {n : Int} {k : Address} {v : I128}
    (hsupply : newSupply.val = md.totalSupply.val + n) (hv : v.val = (balance s k).val + n) :
    Picture.Shows { p with totalSupply := p.totalSupply + n, balances := Picture.credited p.balances k n }
      ({ s with balance := s.balance.set k v }.supplied md newSupply) where
  fresh hnone := by cases hnone
  terms md' hmd' := by
    cases hmd'
    have ht := hp.terms md hmd
    exact ⟨ht.roles, ht.guardian, ht.paused, by rw [ht.totalSupply, hsupply], ht.valuation, ht.complianceContract⟩
  balances := credited_set hp.balances hv
  allowances := hp.allowances

theorem Picture.Shows.mint (hp : p.Shows s) (hmd : s.metadata = some md) (hactive : md.paused = false)
    (hamount : 0 ≤ amount.val) (hsupply : newSupply.val = md.totalSupply.val + amount.val)
    (hto : newToBal.val = (balance s to_).val + amount.val) :
    ∃ p', p.read (.mint to_ amount) = some p' ∧
      p'.Shows ({ s with balance := s.balance.set to_ newToBal }.supplied md newSupply) :=
  ⟨_, if_pos ⟨(hp.terms md hmd).active hactive, hamount⟩, hp.supplied hmd hsupply hto⟩

theorem Picture.Shows.burn (hp : p.Shows s) (hmd : s.metadata = some md) (hactive : md.paused = false)
    (hamount : 0 < amount.val) (hfunds : amount.val ≤ (balance s from_).val)
    (hsupply : newSupply.val = md.totalSupply.val - amount.val)
    (hfrom : newFromBal.val = (balance s from_).val - amount.val) :
    ∃ p', p.read (.burn from_ amount) = some p' ∧
      p'.Shows ({ s with balance := s.balance.set from_ newFromBal }.supplied md newSupply) := by
  have hfits : amount.val ≤ p.balances from_ := by rwa [hp.balances]
  refine ⟨_, if_pos ⟨(hp.terms md hmd).active hactive, hamount, hfits⟩, ?_⟩
  apply hp.supplied hmd
  · rw [hsupply, sub_eq_add_neg]
  · rw [hfrom, sub_eq_add_neg]

/-- Tokens move: what the picture has afterwards is stored, and the event tells the balances. -/
theorem Picture.Shows.transfer {s' : State Address} (hp : p.Shows s) (hmd : s.metadata = some md)
    (hactive : md.paused = false) (hamount : 0 < amount.val) (hfunds : amount.val ≤ (balance s from_).val)
    (hmd' : s'.metadata = s.metadata) (hmoved : ∀ a, p.moved from_ to_ amount a = (balance s' a).val)
    (hto : newToBal = balance s' to_) (hfrom : from_ ≠ to_ → newFromBal = balance s' from_)
    (hallowance : Storage.Related AllowanceValue.Bounds p.allowances s'.allowance) :
    ∃ p', p.read (.transfer from_ to_ amount newFromBal newToBal) = some p' ∧ p'.Shows s' := by
  have hfits : amount.val ≤ p.balances from_ := by rwa [hp.balances]
  have hlogged : newToBal.val = p.moved from_ to_ amount to_ := by rw [hmoved, hto]
  have hlogged' : from_ ≠ to_ → newFromBal.val = p.moved from_ to_ amount from_ := by
    intro hne
    rw [hmoved, hfrom hne]
  refine ⟨_, if_pos ⟨(hp.terms md hmd).active hactive, ⟨hamount, hfits⟩, hlogged, hlogged'⟩, ?_, ?_, hmoved, hallowance⟩
  · intro hnone
    cases hmd.symm.trans (hmd'.symm.trans hnone)
  · intro md' h'
    have ht := hp.terms md' (hmd'.symm.trans h')
    exact ⟨ht.roles, ht.guardian, ht.paused, ht.totalSupply, ht.valuation, ht.complianceContract⟩

/-- Debit and credit of two balances that are read one after the other. -/
theorem Picture.Shows.moved (hp : p.Shows s) (hfrom : newFromBal.val = (balance s from_).val - amount.val)
    (hto : newToBal.val = (Book.balance (s.balance.set from_ newFromBal) to_).val + amount.val) (a : Address) :
    p.moved from_ to_ amount a = (balance (s.moved from_ newFromBal to_ newToBal) a).val := by
  apply credited_set ?_ hto
  apply credited_set hp.balances
  rw [← sub_eq_add_neg]
  exact hfrom

end Moves

/-! ## Calls that move balances -/

section Calls

variable {client : ComplianceClient Address X} {env : Env Address} {h h' : Contract Address X} {u : Unit}

/-- The events from `h` to `h'` turn the picture into one of the storage of `h'`. -/
abbrev Followed (p : Picture Address) (h h' : Contract Address X) : Prop :=
  (indexer Address).Follows Host.events (fun p (h : Contract Address X) => p.Shows h.storage) p h h'

theorem initializeToken_followed (hp : p.Shows h.storage) {admin : Address} {name symbol assetType : Bytes}
    {totalSupply : I128} {decimals : U32} {complianceContract : Address} {assetDescription : Bytes} {valuation : I128}
    (hrun : initializeToken client env admin name symbol assetType totalSupply decimals complianceContract
      assetDescription valuation h = .ok (u, h')) : Followed p h h' := by
  obtain ⟨hnone, -, ⟨hsupply, -⟩, -, -, -, -, x, -, hr⟩ := initializeToken_ok.1 hrun
  cases hr
  obtain rfl := hp.fresh hnone
  -- the genesis event names the admin, the mint event brings the supply
  let p₁ : Picture Address := { Picture.blank Address with roles := ⟨some admin, none⟩ }
  let md₀ : AssetMetadata Address := ⟨name, symbol, assetType, 0, decimals, admin, complianceContract,
    assetDescription, valuation, false, none, none⟩
  have hp₁ : p₁.Shows { h.storage with metadata := some md₀ } := by
    refine ⟨?_, ?_, hp.balances, hp.allowances⟩
    · intro hnone
      cases hnone
    · intro md hmd
      cases hmd
      exact ⟨rfl, rfl, rfl, rfl, by simp [p₁, Picture.blank], by simp [p₁, Picture.blank]⟩
  have hzero : (balance h.storage admin).val = 0 := (hp.balances admin).symm
  have hto : totalSupply.val = (balance h.storage admin).val + totalSupply.val := by rw [hzero, zero_add]
  have hnew : totalSupply.val = md₀.totalSupply.val + totalSupply.val := (zero_add _).symm
  obtain ⟨p₂, hread, hp₂⟩ := hp₁.mint rfl rfl hsupply hnew hto
  refine ⟨[.genesis admin totalSupply, .mint admin totalSupply], p₂, ?_, ?_, hp₂⟩
  · rw [List.append_assoc]
    rfl
  · rw [Indexer.readAll_cons]
    exact (Indexer.readAll_singleton _ _ _).trans hread

theorem sendTo_followed {from_ to_ : Address} {amount : I128} (hp : p.Shows h.storage)
    (hmd : h.storage.metadata = some md) (hactive : md.paused = false) (hamount : 0 < amount.val)
    (hrun : sendTo client env md from_ to_ amount h = .ok (u, h')) : Followed p h h' := by
  obtain ⟨x, -, hfunds, ⟨rfl, hr⟩ | ⟨hne, newFromBal, newToBal, hfrom, hto, hr⟩⟩ := sendTo_ok.1 hrun
  · cases hr
    have hmoved : ∀ a, p.moved from_ from_ amount a = (balance h.storage a).val := by
      intro a
      rw [← hp.balances, Picture.moved, Picture.credited, Picture.credited]
      split <;> omega
    obtain ⟨p', hread, hp'⟩ := hp.transfer hmd hactive hamount hfunds rfl hmoved rfl (absurd rfl ·) hp.allowances
    exact .one rfl hread hp'
  · cases hr
    have hto' : newToBal.val = (Book.balance (h.storage.balance.set from_ newFromBal) to_).val + amount.val := by
      rw [Book.balance_set_of_ne _ _ (Ne.symm hne)]
      exact hto
    have hlogged : newToBal = balance (h.storage.moved from_ newFromBal to_ newToBal) to_ := by
      rw [balance_moved, if_pos rfl]
    have hlogged' : from_ ≠ to_ → newFromBal = balance (h.storage.moved from_ newFromBal to_ newToBal) from_ := by
      intro hne
      rw [balance_moved, if_neg hne, if_pos rfl]
    have hkept : (h.storage.moved from_ newFromBal to_ newToBal).metadata = h.storage.metadata := rfl
    obtain ⟨p', hread, hp'⟩ :=
      hp.transfer hmd hactive hamount hfunds hkept (hp.moved hfrom hto') hlogged hlogged' hp.allowances
    exact .one rfl hread hp'

theorem sendEntries_followed {from_ : Address} {transfers : List (Address × I128)} (hp : p.Shows h.storage)
    (hmd : h.storage.metadata = some md) (hactive : md.paused = false)
    (hrun : Call.forEach transfers (fun p => do
      checkAmount p.2
      sendTo client env md from_ p.1 p.2) h = .ok ((), h')) : Followed p h h' := by
  have hall : h'.storage.metadata = some md ∧ Followed p h h' := by
    refine Call.forEach_rule (P := fun h₁ => h₁.storage.metadata = some md ∧ Followed p h h₁) ?_ ⟨hmd, .silent rfl hp⟩
      hrun
    rintro e - h₁ h₂ ⟨hmd₁, hfollowed⟩ hround
    simp only [Call.bind_ok, checkAmount_ok] at hround
    obtain ⟨_, _, ⟨hamount, e⟩, hsend⟩ := hround
    cases e
    refine ⟨(sendTo_terms hsend).metadata.trans hmd₁, ?_⟩
    apply hfollowed.trans
    intro p₁ hp₁
    exact sendTo_followed hp₁ hmd₁ hactive hamount hsend
  exact hall.2

theorem mint_followed {admin to_ : Address} {amount : I128} (hp : p.Shows h.storage)
    (hrun : mint client env admin to_ amount h = .ok (u, h')) : Followed p h h' := by
  obtain ⟨md, hmd, -, -, hamount, hactive, newSupply, h₁, hmint, hr⟩ := mint_ok.1 hrun
  cases hr
  obtain ⟨x, -, n, newToBal, hsupply, hto, hr⟩ := mintTo_ok.1 hmint
  cases hr
  obtain ⟨p', hread, hp'⟩ := hp.mint hmd hactive (le_of_lt hamount) hsupply hto
  exact .one rfl hread hp'

/-- While the loop runs, the supply that it carries is ahead of the one in the metadata. -/
theorem mintEntries_followed {recipients : List (Address × I128)} {newSupply : I128} (hp : p.Shows h.storage)
    (hmd : h.storage.metadata = some md) (hactive : md.paused = false)
    (hrun : Call.foldEach (mintEntry client env md) md.totalSupply recipients h = .ok (newSupply, h')) :
    (indexer Address).Follows Host.events
      (fun p (h : Contract Address X) => p.Shows (h.storage.supplied md newSupply)) p h h' := by
  refine Call.foldEach_rule (P := fun n h₁ => (indexer Address).Follows Host.events
    (fun p (h : Contract Address X) => p.Shows (h.storage.supplied md n)) p h h₁) ?_ (.silent rfl ?_) hrun
  · rintro e - n₁ h₁ n₂ h₂ ⟨es, p₁, hlog, hread, hp₁⟩ hround
    simp only [Call.bind_ok, checkAmount_ok, Call.publish_ok, Call.pure_ok] at hround
    obtain ⟨_, _, ⟨hamount, e₁⟩, n, h₃, hmint, _, _, e₂, e₃⟩ := hround
    cases e₁; cases e₂; cases e₃
    obtain ⟨x, -, n, newToBal, hsupply, hto, hr⟩ := mintTo_ok.1 hmint
    cases hr
    have hmd₁ : (h₁.storage.supplied md n₁).metadata = some { md with totalSupply := n₁ } := rfl
    obtain ⟨p₂, hread₂, hp₂⟩ := hp₁.mint hmd₁ hactive (le_of_lt hamount) hsupply hto
    refine ⟨es ++ [.mint e.1 e.2], p₂, ?_, ?_, hp₂⟩
    · rw [← List.append_assoc, ← hlog]
    · rw [Indexer.readAll_append, hread, Option.bind_some, Indexer.readAll_singleton]
      exact hread₂
  · have hsame : h.storage.supplied md md.totalSupply = h.storage := by
      rw [State.supplied, ← hmd]
    rw [hsame]
    exact hp

theorem burn_followed {from_ : Address} {amount : I128} (hp : p.Shows h.storage)
    (hrun : burn client env from_ amount h = .ok (u, h')) : Followed p h h' := by
  obtain ⟨-, hamount, md, hmd, hactive, x, -, hfunds, newFromBal, newSupply, hfrom, hsupply, hr⟩ := burn_ok.1 hrun
  cases hr
  obtain ⟨p', hread, hp'⟩ := hp.burn hmd hactive hamount hfunds hsupply hfrom
  exact .one rfl hread hp'

theorem approve_followed {from_ spender : Address} {amount : I128} {expirationLedger : U32} (hp : p.Shows h.storage)
    (hrun : approve env from_ spender amount expirationLedger h = .ok (u, h')) : Followed p h h' := by
  obtain ⟨-, hamount, md, hmd, hactive, -, hr⟩ := approve_ok.1 hrun
  cases hr
  have ht := hp.terms md hmd
  refine .one rfl (if_pos ⟨ht.active hactive, hamount⟩) ⟨?_, ?_, hp.balances, hp.allowances.set _ ⟨le_refl _, rfl⟩⟩
  · intro hnone
    cases hmd.symm.trans hnone
  · intro md' hmd'
    cases hmd.symm.trans hmd'
    exact ⟨ht.roles, ht.guardian, ht.paused, ht.totalSupply, ht.valuation, ht.complianceContract⟩

/-- What a spender has moved was approved. -/
theorem transferFrom_followed {spender from_ to_ : Address} {amount : I128} (hp : p.Shows h.storage)
    (hrun : transferFrom client env spender from_ to_ amount h = .ok (u, h')) : Followed p h h' := by
  obtain ⟨-, hamount, md, hmd, hactive, x, -, y, -, ⟨-, hallowed⟩, hfunds, newFromBal, newToBal, left, hfrom, hto,
    hleft, hr⟩ := transferFrom_ok.1 hrun
  cases hr
  obtain ⟨w, hw⟩ : ∃ w, h.storage.allowance.get (from_, spender) = some w := by
    cases hw : h.storage.allowance.get (from_, spender) with
    | some w => exact ⟨w, rfl⟩
    | none =>
      rw [currentAllowance, hw] at hallowed
      exact absurd hallowed (not_le.2 hamount)
  have hcurrent : currentAllowance h.storage from_ spender = w := by rw [currentAllowance, hw, Option.getD_some]
  rw [hcurrent] at hleft ⊢
  obtain ⟨v, hv, hbounds⟩ := hp.allowances.of_get hw
  have hspent : Storage.Related AllowanceValue.Bounds p.allowances
      (h.storage.allowance.set (from_, spender) ⟨left, w.expirationLedger⟩) := by
    rw [← Storage.set_of_get hv]
    apply hp.allowances.set
    refine ⟨?_, hbounds.expirationLedger⟩
    have hle := hbounds.amount
    show left.val ≤ v.amount.val
    omega
  have hlogged : newToBal = balance (h.storage.moved from_ newFromBal to_ newToBal) to_ := by
    rw [balance_moved, if_pos rfl]
  have hlogged' : from_ ≠ to_ → newFromBal = balance (h.storage.moved from_ newFromBal to_ newToBal) from_ := by
    intro hne
    rw [balance_moved, if_neg hne, if_pos rfl]
  have hkept : { h.storage.moved from_ newFromBal to_ newToBal with
      allowance := h.storage.allowance.set (from_, spender) ⟨left, w.expirationLedger⟩ }.metadata =
    h.storage.metadata := rfl
  obtain ⟨p', hread, hp'⟩ :=
    hp.transfer hmd hactive hamount hfunds hkept (hp.moved hfrom hto) hlogged hlogged' hspent
  exact .one rfl hread hp'

end Calls

/-! ## The administration -/

section Administration

variable {client : ComplianceClient Address X} {env : Env Address} {h h' : Contract Address X} {op : Op Address}
  {e : Event Address} {u : Unit}

/-- The storage with other metadata. -/
theorem Picture.Shows.terms_of {p' : Picture Address} (hp : p.Shows s) (ht : p'.Terms md')
    (hbalances : p'.balances = p.balances) (hallowances : p'.allowances = p.allowances) :
    p'.Shows { s with metadata := some md' } where
  fresh hnone := by cases hnone
  terms md₁ hmd₁ := by
    cases hmd₁
    exact ht
  balances := by
    rw [hbalances]
    exact hp.balances
  allowances := by
    rw [hallowances]
    exact hp.allowances

/-- The guard of the valuation. -/
def Event.Guarded : Event Address → Prop
  | .valuation oldValuation newValuation =>
    0 ≤ newValuation.val ∧
      (0 < oldValuation.val → 2 * |newValuation.val - oldValuation.val| ≤ oldValuation.val)
  | _ => True

/-- A call of the administration that logs a valuation has checked it. -/
theorem Rewrite.guarded (hr : Rewrite env md op md' e) (hmd : h.storage.metadata = some md)
    (hrun : call client env op h = .ok (u, h')) : e.Guarded := by
  cases hr with
  | updateValuation hsigned =>
    exact ((updateValuation_answered hmd hsigned).1 ⟨h', hrun⟩).imp_right fun hguard hold => (hguard hold).1
  | _ => trivial

theorem Picture.Shows.notice (hp : p.Shows s) (hmd : s.metadata = some md) {n : Notice Address}
    (hread : Roles.read ⟨some md.admin, md.pendingAdmin⟩ n = some ⟨some md'.admin, md'.pendingAdmin⟩)
    (hmd' : md' = { md with admin := md'.admin, pendingAdmin := md'.pendingAdmin }) :
    ∃ p', p.notice n = some p' ∧ p'.Shows { s with metadata := some md' } := by
  have ht := hp.terms md hmd
  refine ⟨{ p with roles := ⟨some md'.admin, md'.pendingAdmin⟩ }, ?_, hp.terms_of ?_ rfl rfl⟩
  · rw [Picture.notice, ht.roles, hread, Option.map_some]
  · rw [hmd']
    exact ⟨rfl, ht.guardian, ht.paused, ht.totalSupply, ht.valuation, ht.complianceContract⟩

omit [DecidableEq Address] in
/-- What is known of a field is unknown or right. -/
theorem known_or {α : Type} {o : Option α} {a : α} (h : ∀ b, o = some b → b = a) : o = none ∨ o = some a := by
  cases o with
  | none => exact .inl rfl
  | some b => exact .inr (congrArg some (h b rfl))

/-- Each rewriting of the metadata has its event. -/
theorem Picture.Shows.rewrite (hp : p.Shows s) (hmd : s.metadata = some md) (hr : Rewrite env md op md' e)
    (hguarded : e.Guarded) : ∃ p', p.read e = some p' ∧ p'.Shows { s with metadata := some md' } := by
  have ht := hp.terms md hmd
  have hadmin : p.roles.admin = some md.admin := by rw [ht.roles]
  cases hr with
  | pause hsigned hrole =>
    refine ⟨_, if_pos ?_, hp.terms_of ?_ rfl rfl⟩
    · rw [hadmin, ht.guardian]
      exact hrole.imp_left (congrArg some)
    · exact ⟨ht.roles, ht.guardian, rfl, ht.totalSupply, ht.valuation, ht.complianceContract⟩
  | unpause hsigned =>
    refine ⟨_, if_pos hadmin, hp.terms_of ?_ rfl rfl⟩
    exact ⟨ht.roles, ht.guardian, rfl, ht.totalSupply, ht.valuation, ht.complianceContract⟩
  | setGuardian hsigned =>
    refine ⟨_, if_pos ht.initialized, hp.terms_of ?_ rfl rfl⟩
    exact ⟨ht.roles, rfl, ht.paused, ht.totalSupply, ht.valuation, ht.complianceContract⟩
  | updateValuation hsigned =>
    refine ⟨_, if_pos ⟨ht.initialized, known_or ht.valuation, hguarded⟩, hp.terms_of ?_ rfl rfl⟩
    exact ⟨ht.roles, ht.guardian, ht.paused, ht.totalSupply, fun v hv => (Option.some.inj hv).symm,
      ht.complianceContract⟩
  | setCompliance hsigned =>
    refine ⟨_, if_pos ⟨ht.initialized, known_or ht.complianceContract⟩, hp.terms_of ?_ rfl rfl⟩
    exact ⟨ht.roles, ht.guardian, ht.paused, ht.totalSupply, ht.valuation, fun c hc => (Option.some.inj hc).symm⟩
  | proposeAdmin hsigned =>
    apply hp.notice hmd ?_ rfl
    exact Roles.read_proposed rfl
  | cancelAdminProposal hsigned hpending =>
    apply hp.notice hmd ?_ rfl
    exact Roles.read_cancelled rfl hpending
  | acceptAdmin hsigned hpending =>
    apply hp.notice hmd ?_ rfl
    exact Roles.read_setAdmin rfl hpending

end Administration

/-! ## Runs -/

section Runs

variable {client : ComplianceClient Address X} {env : Env Address} {h h' : Contract Address X} {op : Op Address}
  {u : Unit}

/-- **One answered call** is followed. -/
theorem call_followed (hp : p.Shows h.storage) (hrun : call client env op h = .ok (u, h')) : Followed p h h' := by
  by_cases hop : op.administrative = true
  · by_cases happrove : ∃ from_ spender amount expirationLedger, op = .approve from_ spender amount expirationLedger
    · obtain ⟨from_, spender, amount, expirationLedger, rfl⟩ := happrove
      exact approve_followed hp hrun
    · push Not at happrove
      obtain ⟨md, md', e, x, hmd, hrewrite, -, rfl⟩ := call_rewrite hop happrove hrun
      obtain ⟨p', hread, hp'⟩ := hp.rewrite hmd hrewrite (hrewrite.guarded hmd hrun)
      exact .one rfl hread hp'
  · cases op <;> first | exact absurd rfl hop | skip
    case initializeToken => exact initializeToken_followed hp hrun
    case transfer =>
      obtain ⟨-, hamount, md, hmd, hactive, x, -, hsend⟩ := transfer_ok.1 hrun
      have hfollowed : Followed p { h with outside := x } h' := sendTo_followed hp hmd hactive hamount hsend
      exact hfollowed
    case transferBatch =>
      obtain ⟨-, md, hmd, hactive, x, -, hloop⟩ := transferBatch_ok.1 hrun
      have hfollowed : Followed p { h with outside := x } h' := sendEntries_followed hp hmd hactive hloop
      exact hfollowed
    case mint => exact mint_followed hp hrun
    case mintBatch =>
      obtain ⟨md, hmd, -, -, hactive, n, h₁, hloop, hr⟩ := mintBatch_ok.1 hrun
      cases hr
      obtain ⟨es, p', hlog, hread, hp'⟩ := mintEntries_followed hp hmd hactive hloop
      exact ⟨es, p', hlog, hread, hp'⟩
    case burn => exact burn_followed hp hrun
    case transferFrom => exact transferFrom_followed hp hrun

/-- What the views return, from the picture; of the metadata the fields that are in events. -/
structure Picture.Tells (p : Picture Address) (h : Contract Address X) : Prop where
  metadata : ∀ md, (getMetadata : M Address X _) h = .ok (md, h) → p.Terms md
  noMetadata : p.roles.admin = none ↔ (getMetadata : M Address X _) h = .error (.error .notInitialized)
  totalSupply : ∀ n, (Token.totalSupply : M Address X _) h = .ok (n, h) → n.val = p.totalSupply
  pendingAdmin : ∀ o, (getPendingAdmin : M Address X _) h = .ok (o, h) → o = p.roles.pendingAdmin
  balance : ∀ a, (balance h.storage a).val = p.balances a
  allowance : ∀ (env : Env Address) (a b : Address),
    (Token.allowance env h.storage a b).val ≤ (p.allowanceBound env a b).val

theorem Picture.Shows.allowance_le (hp : p.Shows s) (env : Env Address) (a b : Address) :
    (allowance env s a b).val ≤ (p.allowanceBound env a b).val := by
  unfold allowance Picture.allowanceBound
  cases hw : s.allowance.get (a, b) with
  | none =>
    rw [(hp.allowances.none_iff (a, b)).2 hw]
  | some w =>
    obtain ⟨v, hv, hbounds⟩ := hp.allowances.of_get hw
    rw [hv]
    show (if _ then _ else _ : I128).val ≤ (if _ then _ else _ : I128).val
    rw [hbounds.expirationLedger]
    split
    · exact hbounds.amount
    · exact le_refl _

theorem Picture.Shows.tells (hp : p.Shows h.storage) : p.Tells h where
  metadata md hview := by
    obtain ⟨_, hmd, hr⟩ := metadata_ok.1 hview
    cases hr
    exact hp.terms _ hmd
  noMetadata := by
    have hview : (getMetadata : M Address X _) h = .error (.error .notInitialized) ↔ h.storage.metadata = none := by
      simp [getMetadata, metadata]
    rw [hview]
    constructor
    · intro hadmin
      cases hmd : h.storage.metadata with
      | none => rfl
      | some md => exact absurd hadmin (hp.terms md hmd).initialized
    · intro hnone
      rw [hp.fresh hnone]
      rfl
  totalSupply n hview := by
    simp only [Token.totalSupply, Call.bind_ok, metadata_ok, Call.pure_ok] at hview
    obtain ⟨_, _, ⟨_, hmd, e⟩, hr⟩ := hview
    cases e; cases hr
    exact (hp.terms _ hmd).totalSupply.symm
  pendingAdmin o hview := by
    simp only [getPendingAdmin, Call.bind_ok, metadata_ok, Call.pure_ok] at hview
    obtain ⟨_, _, ⟨_, hmd, e⟩, hr⟩ := hview
    cases e; cases hr
    rw [(hp.terms _ hmd).roles]
  balance a := (hp.balances a).symm
  allowance := hp.allowance_le

/-- **The events tell what the token holds.** In every run the indexer reads the whole log, whatever the compliance
contracts answer, so no event of a mint, a transfer, a burn or an approval is logged while the token is paused, every
pause is by the admin or the guardian of that moment, and each logged valuation follows from the last one within the
bound. From the picture that it has then it knows the supply, every balance, the admin, the pending admin, the guardian
and whether the token is paused, the valuation and the compliance contract once they have changed (`Terms`), and of
every allowance an upper bound. -/
theorem token_followed (client : ComplianceClient Address X) (x : X) (ls : List (Label Address X)) :
    let h := (token client).run (Contract.fresh Address x) ls
    ∃ p, (indexer Address).readAll (indexer Address).blank h.events = some p ∧ p.Tells h := by
  intro h
  have hrun : ∃ p, (indexer Address).readAll (indexer Address).blank h.events = some p ∧ p.Shows h.storage := by
    refine Indexer.run_followed (Q := fun (p : Picture Address) (h : Contract Address X) => p.Shows h.storage) rfl
      shows_fresh ?_ ls
    intro p h l u h' hp hstep
    cases l with
    | call env op => exact call_followed hp (Call.returned_eq_some.1 hstep)
    | others x =>
      cases hstep
      exact .silent rfl hp
  obtain ⟨p, hread, hp⟩ := hrun
  exact ⟨p, hread, hp.tells⟩

end Runs

end StellarRwa.Token
