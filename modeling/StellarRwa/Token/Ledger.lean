import StellarRwa.Token.Metadata

/-!
# The event log is a ledger

Every call that moves balances posts what it moved: `Posted` says that the events a call appends account for the change
of every balance and of the supply. Posts compose, so a batch posts what its entries post (`sendEntries_posted`,
`mintEntries_posted`), and over every run from deployment the balances and the supply are what the log sums to
(`events_account`).
-/

namespace StellarRwa.Token

open Lib

variable {Address X : Type} [DecidableEq Address] {client : ComplianceClient Address X} {env : Env Address}
  {h h' h'' : Contract Address X} {u : Unit}

/-! ## What an event accounts for -/

namespace Event

/-- The amount that the event mints to `a`. -/
def mintedTo (a : Address) : Event Address → Int
  | .mint to_ amount => if to_ = a then amount.val else 0
  | _ => 0

/-- The amount that the event burns of `a`. -/
def burnedFrom (a : Address) : Event Address → Int
  | .burn from_ amount => if from_ = a then amount.val else 0
  | _ => 0

/-- The amount that the event transfers to `a`. -/
def transferredTo (a : Address) : Event Address → Int
  | .transfer _ to_ amount _ _ => if to_ = a then amount.val else 0
  | _ => 0

/-- The amount that the event transfers from `a`. -/
def transferredFrom (a : Address) : Event Address → Int
  | .transfer from_ _ amount _ _ => if from_ = a then amount.val else 0
  | _ => 0

omit [DecidableEq Address] in
/-- The amount that the event mints. -/
def minted : Event Address → Int
  | .mint _ amount => amount.val
  | _ => 0

/-- The amount that the event burns. -/
def burned : Event Address → Int
  | .burn _ amount => amount.val
  | _ => 0

/-- What the event adds to the balance of `a`. -/
def credit (a : Address) (e : Event Address) : Int :=
  e.mintedTo a - e.burnedFrom a + e.transferredTo a - e.transferredFrom a

/-- What the event adds to the supply. -/
def issue (e : Event Address) : Int := e.minted - e.burned

end Event

/-- The sum of a weight over a log. -/
def summed (f : Event Address → Int) (es : List (Event Address)) : Int := (es.map f).sum

omit [DecidableEq Address] in
theorem summed_append (f : Event Address → Int) (es es' : List (Event Address)) :
    summed f (es ++ es') = summed f es + summed f es' := by
  simp [summed]

theorem summed_credit (a : Address) (es : List (Event Address)) : summed (Event.credit a) es =
    summed (Event.mintedTo a) es - summed (Event.burnedFrom a) es + summed (Event.transferredTo a) es -
      summed (Event.transferredFrom a) es := by
  induction es with
  | nil => rfl
  | cons e es ih =>
    simp only [summed, List.map_cons, List.sum_cons, Event.credit] at ih ⊢
    omega

omit [DecidableEq Address] in
theorem summed_issue (es : List (Event Address)) :
    summed Event.issue es = summed Event.minted es - summed Event.burned es := by
  induction es with
  | nil => rfl
  | cons e es ih =>
    simp only [summed, List.map_cons, List.sum_cons, Event.issue] at ih ⊢
    omega

/-! ## Posting -/

/-- From `h` to `h'` the log grew by events that account for every balance, and for `issued` new tokens. -/
def Posted (issued : Int) (h h' : Contract Address X) : Prop :=
  ∃ es, h'.events = h.events ++ es ∧ summed Event.issue es = issued ∧
    ∀ a, (balance h'.storage a).val = (balance h.storage a).val + summed (Event.credit a) es

theorem Posted.refl (h : Contract Address X) : Posted 0 h h := ⟨[], by simp, rfl, fun a => by simp [summed]⟩

theorem Posted.trans {m n : Int} (h₁ : Posted m h h') (h₂ : Posted n h' h'') : Posted (m + n) h h'' := by
  obtain ⟨es₁, hes₁, hm, hbal₁⟩ := h₁
  obtain ⟨es₂, hes₂, hn, hbal₂⟩ := h₂
  refine ⟨es₁ ++ es₂, by rw [hes₂, hes₁, List.append_assoc], by rw [summed_append, hm, hn], fun a => ?_⟩
  rw [hbal₂, hbal₁, summed_append, add_assoc]

/-- One event. -/
theorem Posted.one {e : Event Address} (he : h'.events = h.events ++ [e])
    (hbal : ∀ a, (balance h'.storage a).val = (balance h.storage a).val + e.credit a) : Posted e.issue h h' :=
  ⟨[e], he, by simp [summed], fun a => by rw [hbal a]; simp [summed]⟩

theorem sendTo_posted {md : AssetMetadata Address} {from_ to_ : Address} {amount : I128}
    (hrun : sendTo client env md from_ to_ amount h = .ok (u, h')) : Posted 0 h h' := by
  obtain ⟨x, -, -, ⟨rfl, hr⟩ | ⟨hne, newFromBal, newToBal, hfrom, hto, hr⟩⟩ := sendTo_ok.1 hrun
  · cases hr
    refine Posted.one (e := .transfer from_ from_ amount _ _) rfl fun a => ?_
    show (balance h.storage a).val = _
    simp [Event.credit, Event.mintedTo, Event.burnedFrom, Event.transferredTo, Event.transferredFrom]
  · cases hr
    refine Posted.one (e := .transfer from_ to_ amount _ _) rfl fun a => ?_
    show (Book.balance ((h.storage.balance.set from_ newFromBal).set to_ newToBal) a).val = _
    unfold balance at hfrom hto ⊢
    rw [Book.balance_set, Book.balance_set]
    simp only [Event.credit, Event.mintedTo, Event.burnedFrom, Event.transferredTo, Event.transferredFrom]
    by_cases h₁ : a = to_
    · subst h₁
      simp [hne, hto]
    · by_cases h₂ : a = from_
      · subst h₂
        simp [h₁, Ne.symm h₁, hfrom, sub_eq_add_neg]
      · simp [h₁, h₂, Ne.symm h₁, Ne.symm h₂]

theorem sendEntries_posted {md : AssetMetadata Address} {from_ : Address} {transfers : List (Address × I128)}
    (hrun : Call.forEach transfers (fun p => do
      checkAmount p.2
      sendTo client env md from_ p.1 p.2) h = .ok ((), h')) : Posted 0 h h' := by
  refine Call.forEach_rule (P := Posted 0 h) ?_ (.refl h) hrun
  intro p _ h₁ h₂ hposted hround
  simp only [Call.bind_ok, checkAmount_ok] at hround
  obtain ⟨_, _, ⟨-, e⟩, hsend⟩ := hround
  cases e
  exact hposted.trans (sendTo_posted hsend)

/-- A mint and its event, from the new supply and the new balance on. -/
theorem mintTo_posted {md : AssetMetadata Address} {supply newSupply : I128} {to_ : Address} {amount : I128}
    (hrun : mintTo client env md supply to_ amount h = .ok (newSupply, h'))
    (he : h''.events = h'.events ++ [.mint to_ amount]) (hbal : h''.storage.balance = h'.storage.balance) :
    Posted (newSupply.val - supply.val) h h'' := by
  obtain ⟨x, -, n, newToBal, hn, hto, hr⟩ := mintTo_ok.1 hrun
  cases hr
  have hissue : newSupply.val - supply.val = Event.issue (.mint to_ amount) := by
    simp only [Event.issue, Event.minted, Event.burned]
    omega
  rw [hissue]
  refine Posted.one he fun a => ?_
  unfold balance at hto ⊢
  rw [hbal, Book.balance_set]
  simp only [Event.credit, Event.mintedTo, Event.burnedFrom, Event.transferredTo, Event.transferredFrom]
  by_cases h₁ : a = to_
  · subst h₁
    simp [hto]
  · simp [h₁, Ne.symm h₁]

theorem mintEntries_posted {md : AssetMetadata Address} {supply newSupply : I128} {recipients : List (Address × I128)}
    (hrun : Call.foldEach (mintEntry client env md) supply recipients h = .ok (newSupply, h')) :
    Posted (newSupply.val - supply.val) h h' := by
  refine Call.foldEach_rule (P := fun n h₁ => Posted (n.val - supply.val) h h₁) ?_ ?_ hrun
  · intro p _ b₁ h₁ b₂ h₂ hposted hround
    simp only [Call.bind_ok, checkAmount_ok, Call.publish_ok, Call.pure_ok] at hround
    obtain ⟨_, _, ⟨-, e₁⟩, n, h₃, hmint, _, _, e₂, e₃⟩ := hround
    cases e₁; cases e₂; cases e₃
    have hsum : b₂.val - supply.val = b₁.val - supply.val + (b₂.val - b₁.val) := by omega
    rw [hsum]
    exact hposted.trans (mintTo_posted hmint rfl rfl)
  · rw [sub_self]
    exact .refl h

/-- The events of the administration account for nothing. -/
theorem Rewrite.silent {md md' : AssetMetadata Address} {op : Op Address} {e : Event Address}
    (hr : Rewrite env md op md' e) : e.issue = 0 ∧ ∀ a, e.credit a = 0 := by
  cases hr <;> exact ⟨rfl, fun _ => rfl⟩

/-! ## One call -/

theorem burn_posted {from_ : Address} {amount : I128} (hrun : burn client env from_ amount h = .ok (u, h')) :
    ∃ md md', h.storage.metadata = some md ∧ h'.storage.metadata = some md' ∧
      Posted (md'.totalSupply.val - md.totalSupply.val) h h' := by
  obtain ⟨-, -, md, hmd, -, x, -, -, newFromBal, newSupply, hfrom, hsupply, hr⟩ := burn_ok.1 hrun
  cases hr
  refine ⟨md, _, hmd, rfl, ?_⟩
  have hissue : newSupply.val - md.totalSupply.val = Event.issue (.burn from_ amount) := by
    simp only [Event.issue, Event.minted, Event.burned]
    omega
  rw [hissue]
  refine Posted.one rfl fun a => ?_
  show (Book.balance (h.storage.balance.set from_ newFromBal) a).val = _
  unfold balance at hfrom ⊢
  rw [Book.balance_set]
  simp only [Event.credit, Event.mintedTo, Event.burnedFrom, Event.transferredTo, Event.transferredFrom]
  by_cases h₁ : a = from_
  · subst h₁
    simp [hfrom, sub_eq_add_neg]
  · simp [h₁, Ne.symm h₁]

/-- Sender and recipient may coincide: the recipient's balance is read after the debit. -/
theorem transferFrom_posted {spender from_ to_ : Address} {amount : I128}
    (hrun : transferFrom client env spender from_ to_ amount h = .ok (u, h')) :
    Posted 0 h h' ∧ h'.storage.metadata = h.storage.metadata ∧ h.storage.metadata ≠ none := by
  obtain ⟨-, -, md, hmd, -, x, -, y, -, -, -, newFromBal, newToBal, left, hfrom, hto, -, hr⟩ :=
    transferFrom_ok.1 hrun
  cases hr
  refine ⟨Posted.one (e := .transfer from_ to_ amount _ _) rfl fun a => ?_, rfl, by simp [hmd]⟩
  show (Book.balance ((h.storage.balance.set from_ newFromBal).set to_ newToBal) a).val = _
  unfold balance at hfrom ⊢
  rw [Book.balance_set] at hto
  rw [Book.balance_set, Book.balance_set]
  simp only [Event.credit, Event.mintedTo, Event.burnedFrom, Event.transferredTo, Event.transferredFrom]
  by_cases h₁ : a = to_ <;> by_cases h₂ : a = from_
  · subst h₁ h₂
    rw [if_pos rfl] at hto ⊢
    simp only [if_pos]
    omega
  · subst h₁
    rw [if_neg h₂] at hto
    simp [Ne.symm h₂, hto]
  · subst h₂
    simp [h₁, Ne.symm h₁, hfrom, sub_eq_add_neg]
  · simp [h₁, h₂, Ne.symm h₁, Ne.symm h₂]

/-- **A call on an initialized token** posts the change of every balance and of the supply. -/
theorem call_posted {op : Op Address} {md : AssetMetadata Address} (hmd : h.storage.metadata = some md)
    (hrun : call client env op h = .ok (u, h')) :
    ∃ md', h'.storage.metadata = some md' ∧ Posted (md'.totalSupply.val - md.totalSupply.val) h h' := by
  have hsome : ∀ md₁, h.storage.metadata = some md₁ → md₁ = md := fun md₁ h₁ => Option.some.inj (h₁.symm.trans hmd)
  have hsame : ∀ {h₁ : Contract Address X}, Posted 0 h h₁ → h₁.storage.metadata = some md →
      ∃ md', h₁.storage.metadata = some md' ∧ Posted (md'.totalSupply.val - md.totalSupply.val) h h₁ :=
    fun hposted h₁ => ⟨md, h₁, by rwa [sub_self]⟩
  by_cases hop : op.administrative = true
  · by_cases happrove : ∃ from_ spender amount expirationLedger, op = .approve from_ spender amount expirationLedger
    · obtain ⟨from_, spender, amount, expirationLedger, rfl⟩ := happrove
      obtain ⟨-, -, md₁, -, -, -, hr⟩ := approve_ok.1 hrun
      cases hr
      exact hsame (Posted.one (e := .approve _ _ _ _) rfl fun a => (add_zero _).symm) hmd
    · push Not at happrove
      obtain ⟨md₁, md', e, x, hmd₁, hrewrite, -, rfl⟩ := call_rewrite hop happrove hrun
      obtain rfl := hsome md₁ hmd₁
      obtain ⟨hissue, hcredit⟩ := hrewrite.silent
      refine ⟨md', rfl, ?_⟩
      rw [hrewrite.kept.1, sub_self, ← hissue]
      refine Posted.one rfl fun a => ?_
      rw [hcredit a, add_zero]
      rfl
  · cases op <;> first | exact absurd rfl hop | skip
    case initializeToken =>
      have hnone := (initializeToken_ok.1 hrun).1
      cases hnone.symm.trans hmd
    case transfer =>
      obtain ⟨-, -, md₁, -, -, x, -, hsend⟩ := transfer_ok.1 hrun
      have hposted : Posted 0 { h with outside := x } h' := sendTo_posted hsend
      exact hsame hposted ((sendTo_terms hsend).metadata.trans hmd)
    case transferBatch =>
      obtain ⟨-, md₁, -, -, x, -, hloop⟩ := transferBatch_ok.1 hrun
      have hposted : Posted 0 { h with outside := x } h' := sendEntries_posted hloop
      exact hsame hposted ((sendEntries_terms hloop).metadata.trans hmd)
    case mint =>
      obtain ⟨md₁, hmd₁, -, -, -, -, n, h₁, hmint, hr⟩ := mint_ok.1 hrun
      cases hr
      obtain rfl := hsome md₁ hmd₁
      exact ⟨_, rfl, mintTo_posted hmint rfl rfl⟩
    case mintBatch =>
      obtain ⟨md₁, hmd₁, -, -, -, n, h₁, hloop, hr⟩ := mintBatch_ok.1 hrun
      cases hr
      obtain rfl := hsome md₁ hmd₁
      have hposted : Posted (n.val - md₁.totalSupply.val) h h₁ := mintEntries_posted hloop
      exact ⟨_, rfl, hposted⟩
    case burn =>
      obtain ⟨md₁, md', hmd₁, hmd', hposted⟩ := burn_posted hrun
      obtain rfl := hsome md₁ hmd₁
      exact ⟨md', hmd', hposted⟩
    case transferFrom =>
      obtain ⟨hposted, hmd', -⟩ := transferFrom_posted hrun
      exact hsame hposted (hmd'.trans hmd)

/-! ## Runs -/

/-- The storage against the log. -/
structure Accounted (h : Contract Address X) : Prop where
  balance : ∀ a, (balance h.storage a).val = summed (Event.credit a) h.events
  supply : ∀ md, h.storage.metadata = some md → md.totalSupply.val = summed Event.issue h.events
  fresh : h.storage.metadata = none → h.events = []

theorem accounted_fresh (x : X) : Accounted (Contract.fresh Address x) where
  balance a := by simp [Contract.fresh, State.fresh, Token.balance, Book.balance, summed]
  supply md hmd := by cases hmd
  fresh _ := rfl

theorem Posted.accounted {md md' : AssetMetadata Address} (ha : Accounted h) (hmd : h.storage.metadata = some md)
    (hmd' : h'.storage.metadata = some md') (hposted : Posted (md'.totalSupply.val - md.totalSupply.val) h h') :
    Accounted h' := by
  obtain ⟨es, hes, hissue, hbal⟩ := hposted
  refine ⟨fun a => ?_, fun md₁ hmd₁ => ?_, fun hnone => by cases hnone.symm.trans hmd'⟩
  · rw [hbal, ha.balance, hes, summed_append]
  · cases hmd₁.symm.trans hmd'
    have hold := ha.supply md hmd
    rw [hes, summed_append]
    omega

/-- **One answered call** keeps the storage on the log. -/
theorem call_accounted {op : Op Address} (ha : Accounted h) (hrun : call client env op h = .ok (u, h')) :
    Accounted h' := by
  cases hmd : h.storage.metadata with
  | some md =>
    obtain ⟨md', hmd', hposted⟩ := call_posted hmd hrun
    exact hposted.accounted ha hmd hmd'
  | none =>
    obtain ⟨admin, _, _, _, totalSupply, _, _, _, _, rfl⟩ := call_uninitialized hmd hrun
    obtain ⟨-, -, -, -, -, -, -, x, -, hr⟩ := initializeToken_ok.1 hrun
    cases hr
    have hfresh := ha.fresh hmd
    refine ⟨fun a => ?_, fun md₁ hmd₁ => ?_, fun hnone => by cases hnone⟩
    · have hzero := ha.balance a
      rw [hfresh] at hzero ⊢
      unfold Token.balance at hzero ⊢
      rw [Book.balance_set]
      by_cases h₁ : a = admin
      · subst h₁
        simp [summed, Event.credit, Event.mintedTo, Event.burnedFrom, Event.transferredTo, Event.transferredFrom]
      · rw [if_neg h₁]
        refine hzero.trans ?_
        simp [summed, Ne.symm h₁, Event.credit, Event.mintedTo, Event.burnedFrom, Event.transferredTo,
          Event.transferredFrom]
    · cases hmd₁
      simp [hfresh, summed, Event.issue, Event.minted, Event.burned]

theorem run_accounted (x : X) (ls : List (Label Address X)) :
    Accounted ((token client).run (Contract.fresh Address x) ls) := by
  refine System.invariant (accounted_fresh x) ?_ ls
  intro h l u h' ha hstep
  cases l with
  | call env op => exact call_accounted ha (Call.returned_eq_some.1 hstep)
  | others y =>
    cases hstep
    exact ⟨ha.balance, ha.supply, ha.fresh⟩

/-- **The event log is a complete ledger.** After any calls on a deployed token, every balance is what the log mints and
transfers to the address less what it burns and transfers from it, and the supply is what it mints less what it burns.
The genesis event counts for nothing, and a call that fails leaves no event. -/
theorem events_account (client : ComplianceClient Address X) (x : X) (ls : List (Label Address X)) :
    let h := (token client).run (Contract.fresh Address x) ls
    (∀ a, (balance h.storage a).val =
      summed (Event.mintedTo a) h.events - summed (Event.burnedFrom a) h.events +
        summed (Event.transferredTo a) h.events - summed (Event.transferredFrom a) h.events) ∧
      ∀ md, h.storage.metadata = some md →
        md.totalSupply.val = summed Event.minted h.events - summed Event.burned h.events := by
  intro h
  have ha : Accounted h := run_accounted x ls
  refine ⟨fun a => ?_, fun md hmd => ?_⟩
  · rw [ha.balance, summed_credit]
  · rw [ha.supply md hmd, summed_issue]

end StellarRwa.Token
