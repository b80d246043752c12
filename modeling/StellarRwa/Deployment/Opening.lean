import StellarRwa.Compliance.Clearing
import StellarRwa.Deployment.Escrow
import StellarRwa.Succession

/-!
# Opening the gate

A share that is due waits for the gate of the payment token (`claims_at_the_gate`). The gate is never shut for good: two
accounts, the admin of the token and the admin of its compliance contract, can open it at any time by calls that nothing
can refuse (`gate_opens`). Neither of them is the dividend contract, which has no key and so never takes an office
(`run_staffed`).
-/

namespace StellarRwa.Deployment

open Lib

variable {Address : Type} [DecidableEq Address] {this : Address}

/-! ## Offices -/

/-- The contract at `this` is the admin of no token and of no compliance contract. -/
structure Staffed (this : Address) (c : Chain Address) : Prop where
  token : ∀ p k, c.tokens.get p = some k → k.storage.office.holder ≠ some this
  compliance : ∀ k h, c.compliance.get k = some h → h.storage.roles.admin ≠ some this

section Offices

variable {c c' : Chain Address} {p k : Address} {signed : Address → Bool}

/-- Nobody takes the office of a token without signing, and a transfer concerns no office. -/
theorem Staffed.callToken {op : Token.Op Address} (hs : Staffed this c) (hself : signed this = true → op.act = none)
    (hcall : c.callToken p signed op = some c') : Staffed this c' := by
  obtain ⟨w, w', hw, hrun, rfl⟩ := Chain.callToken_eq_some.1 hcall
  obtain ⟨kt, hkt, rfl⟩ := Chain.token_eq_some.1 hw
  have hoffice := Token.call_office hrun
  have hbefore := hs.token p kt hkt
  constructor
  · intro q k hk
    rw [Chain.put, Storage.get_set] at hk
    split at hk
    · cases hk
      intro hholder
      rcases hoffice.holder_signed hholder with hold | hsigned
      · exact hbefore hold
      · rw [hself hsigned] at hoffice
        have hsame : w'.storage.office = kt.storage.office := by
          generalize hto : w'.storage.office = o at hoffice
          cases hoffice
          rfl
        exact hbefore (hsame ▸ hholder)
    · exact hs.token q k hk
  · intro q h hq
    have hsame := queried_sameStorage (Token.call_gated hrun).queried q
    rw [show w'.outside.get q = some h from hq, Option.map_some] at hsame
    obtain ⟨h₀, hq₀, hstorage⟩ := Option.map_eq_some_iff.1 hsame.symm
    rw [← hstorage]
    exact hs.compliance q h₀ hq₀

theorem Staffed.callCompliance {op : Compliance.Op Address} (hs : Staffed this c) (hself : signed this = false)
    (hcall : c.callCompliance k signed op = some c') : Staffed this c' := by
  obtain ⟨h, r, h', hk, hrun, rfl⟩ := Chain.callCompliance_eq_some.1 hcall
  refine ⟨hs.token, fun q h₁ hq => ?_⟩
  simp only [Storage.get_set] at hq
  split at hq
  · cases hq
    intro hholder
    rcases (Compliance.call_office hrun).holder_signed hholder with hold | hsigned
    · exact hs.compliance k h hk hold
    · cases hself.symm.trans hsigned
  · exact hs.compliance q h₁ hq

theorem Staffed.step {d d' : State this} {l : Label Address} {u : Unit} (hs : Staffed this d.ledger.val)
    (hstep : (deployment this).step d l = some (u, d')) : Staffed this d'.ledger.val := by
  have htouches := step_touches hstep
  generalize d'.ledger.val = c' at htouches ⊢
  cases htouches with
  | kept => exact hs
  | advanced _ => exact ⟨hs.token, hs.compliance⟩
  | called hself hcall => exact hs.callToken (fun hsigned => by cases hself.symm.trans hsigned) hcall
  | ruled hself hcall => exact hs.callCompliance hself hcall
  | paid _ _ htransfer => exact hs.callToken (fun _ => rfl) htransfer

/-- **The dividend contract never takes an office.** -/
theorem run_staffed (this : Address) (now : U32) (tokenAddresses compliance : List Address)
    (ls : List (Label Address)) :
    Staffed this ((deployment this).run (State.fresh this now tokenAddresses compliance) ls).ledger.val := by
  refine System.invariant (I := fun d => Staffed this d.ledger.val) ?_ (fun d l u d' hs hstep => hs.step hstep) ls
  constructor
  · intro p k hk
    simp only [State.fresh, Chain.fresh, Storage.get_ofKeys, Option.ite_none_right_eq_some, Option.some.injEq] at hk
    rw [← hk.2]
    simp [Token.Contract.fresh, Token.State.fresh, Token.State.office]
  · intro k h hk
    simp only [State.fresh, Chain.fresh, newFleet, Storage.get_ofKeys, Option.ite_none_right_eq_some,
      Option.some.injEq] at hk
    rw [← hk.2]
    simp [Compliance.Contract.fresh, Compliance.State.fresh]

end Offices

/-! ## Calls of one compliance contract -/

/-- Only `a` signs. -/
def only (a : Address) : Address → Bool := fun b => b = a

theorem only_this {a : Address} (ha : a ≠ this) : only a this = false := by
  simpa [only] using Ne.symm ha

/-- The compliance contract at `k`. -/
def State.compliance (d : State this) (k : Address) : Option (Compliance.Contract Address) :=
  d.ledger.val.compliance.get k

/-- What the calls `ops` of the compliance contract at `k` leave of a deployment. -/
structure Ruled (d : State this) (k : Address) (h : Compliance.Contract Address) (d' : State this) : Prop where
  ledger : d'.ledger.val = { d.ledger.val with compliance := d.ledger.val.compliance.set k h }
  registry : d'.registry = d.registry
  dividend : d'.dividend = d.dividend

/-- Calls that a compliance contract answers by itself are answered in a deployment. -/
theorem answers_compliance {signed : Address → Bool} {k : Address} (hself : signed this = false)
    (ops : List (Compliance.Op Address)) {d : State this} {h : Compliance.Contract Address}
    (hk : d.compliance k = some h)
    (hans : (Compliance.compliance Address).Answers h (Compliance.calls ⟨d.now, signed⟩ ops)) :
    (deployment this).Answers d (ops.map fun op => .act (.compliance k signed op)) ∧
      Ruled d k ((Compliance.compliance Address).run h (Compliance.calls ⟨d.now, signed⟩ ops))
        ((deployment this).run d (ops.map fun op => .act (.compliance k signed op))) := by
  induction ops generalizing d h with
  | nil => exact ⟨trivial, by simp [Storage.set_of_get hk], rfl, rfl⟩
  | cons op ops ih =>
    obtain ⟨r, h₁, hstep, hrest⟩ := hans
    have hcall : d.ledger.val.act this (.compliance k signed op) =
        some { d.ledger.val with compliance := d.ledger.val.compliance.set k h₁ } := by
      rw [Chain.act, if_neg (by simp [hself])]
      exact Chain.callCompliance_eq_some.2 ⟨h, r, h₁, hk, Call.returned_eq_some.1 hstep, rfl⟩
    let l₁ : Ledger this := ⟨_, d.ledger.property.act hcall⟩
    have hact : (deployment this).step d (.act (.compliance k signed op)) = some ((), { d with ledger := l₁ }) :=
      Option.map_eq_some_iff.2 ⟨l₁, act_eq_some.2 hcall, rfl⟩
    obtain ⟨hans, hled, hreg, hdiv⟩ :=
      ih (d := { d with ledger := l₁ }) (h := h₁) (Storage.get_set_self _ _ _) hrest
    simp only [Compliance.calls, List.map_cons, System.run_cons, System.exec_of_some hstep, System.exec_of_some hact]
    refine ⟨⟨_, _, hact, hans⟩, ?_, hreg, hdiv⟩
    rw [hled]
    simp only [l₁, Storage.set_set_self]
    rfl

/-! ## The gate -/

/-- The admin `a` of the token at `p` ends a pause, and the admin `b` of the compliance contract at `k` clears the
accounts. -/
def opening (p k a b : Address) (j : Bytes) (accounts : List Address) : List (Label Address) :=
  .act (.token p (only a) (.unpause a)) ::
    (Compliance.clearings b j accounts).map fun op => .act (.compliance k (only b) op)

section Opening

variable {d : State this} {p k b : Address} {w : World Address} {md : Token.AssetMetadata Address}
  {h : Compliance.Contract Address} {j : Bytes} {accounts : List Address}

/-- The first call of an opening: the token runs, and everything else is as it was. -/
theorem step_unpause (hs : Staffed this d.ledger.val) (hw : d.token p = some w) (hmd : w.storage.metadata = some md) :
    ∃ d' w', (deployment this).step d (.act (.token p (only md.admin) (.unpause md.admin))) = some ((), d') ∧
      d'.token p = some w' ∧ w'.storage.metadata = some { md with paused := false } ∧
      (∀ q a, d'.ledger.balance q a = d.ledger.balance q a) ∧ d'.now = d.now ∧
      d'.ledger.val.compliance = d.ledger.val.compliance ∧ d'.registry = d.registry ∧ d'.dividend = d.dividend := by
  obtain ⟨kt, hkt, rfl⟩ := Chain.token_eq_some.1 hw
  have hne : md.admin ≠ this := by
    intro hadmin
    have hmd' : kt.storage.metadata = some md := hmd
    exact hs.token p kt hkt (by simp [Token.State.office, hmd', hadmin])
  have hself : only md.admin this = false := only_this hne
  let w' := Token.rewritten (kt.among d.ledger.val.compliance) { md with paused := false } (.unpause md.admin)
  have hrun : Token.call isAllowedAt ⟨d.now, only md.admin⟩ (.unpause md.admin) (kt.among d.ledger.val.compliance) =
      .ok ((), w') := Token.unpause_ok.2 ⟨md, hmd, by simp [only], rfl, rfl⟩
  have hcall : d.ledger.val.act this (.token p (only md.admin) (.unpause md.admin)) = some (d.ledger.val.put p w') := by
    rw [Chain.act, if_neg (by simp [hself])]
    exact Chain.callToken_eq_some.2 ⟨_, _, hw, hrun, rfl⟩
  refine ⟨{ d with ledger := ⟨_, d.ledger.property.act hcall⟩ }, w',
    Option.map_eq_some_iff.2 ⟨_, act_eq_some.2 hcall, rfl⟩, ?_, rfl, fun q a => ?_, rfl, rfl, rfl, rfl⟩
  · exact Chain.token_eq_some.2 ⟨_, Storage.get_set_self _ _ _, rfl⟩
  · show (d.ledger.val.put p w').balance q a = d.ledger.val.balance q a
    rw [Chain.balance_put]
    split
    · rename_i hq
      rw [hq, Chain.balance_of_token hw]
      rfl
    · rfl

/-- The gate of the token at `p` is open for the accounts in `d'`, and that is all that has changed since `d`. -/
structure Opened (d : State this) (p : Address) (accounts : List Address) (d' : State this) : Prop where
  gate : ∃ w', d'.token p = some w' ∧ ∀ a ∈ accounts, ∀ c ∈ accounts, Opens w' d'.now a c
  balance : ∀ q a, d'.ledger.balance q a = d.ledger.balance q a
  now : d'.now = d.now
  registry : d'.registry = d.registry
  dividend : d'.dividend = d.dividend

/-- The calls of an opening are all answered, and the gate is open then. -/
theorem opening_answered (hs : Staffed this d.ledger.val) (hw : d.token p = some w)
    (hmd : w.storage.metadata = some md) (hk : d.compliance md.complianceContract = some h)
    (hb : h.storage.roles.admin = some b) (hj : Compliance.TwoLetters j)
    (hroom : Compliance.Room h.storage accounts.length) :
    (deployment this).Answers d (opening p md.complianceContract md.admin b j accounts) ∧
      Opened d p accounts ((deployment this).run d (opening p md.complianceContract md.admin b j accounts)) := by
  obtain ⟨d₁, w₁, hstep, hw₁, hmd₁, hbalance, hnow, hfleet, hreg, hdiv⟩ := step_unpause hs hw hmd
  have hself : only b this = false := only_this fun heq => hs.compliance _ h hk (heq ▸ hb)
  rw [State.compliance, ← hfleet] at hk
  have hsigned : (⟨d₁.now, only b⟩ : Env Address).authorized b = true := by simp [only]
  obtain ⟨hans, hpass⟩ := Compliance.clear_accounts hsigned hj accounts hb hroom
  obtain ⟨hans', hled, hreg', hdiv'⟩ := answers_compliance hself _ hk hans
  rw [opening, System.run_cons, System.exec_of_some hstep]
  generalize (deployment this).run d₁ _ = d₂ at hled hreg' hdiv' ⊢
  generalize (Compliance.compliance Address).run h _ = h₂ at hpass hled
  refine ⟨⟨_, _, hstep, hans'⟩, ?_, fun q a => ?_, ?_, hreg'.trans hreg, hdiv'.trans hdiv⟩
  · obtain ⟨kt, hkt, rfl⟩ := Chain.token_eq_some.1 hw₁
    have hw₂ : d₂.token p = some (kt.among d₂.ledger.val.compliance) := by
      refine Chain.token_eq_some.2 ⟨kt, ?_, rfl⟩
      rw [hled]
      exact hkt
    have hadmits : ∀ a ∈ accounts, Admits (kt.among d₂.ledger.val.compliance) d₂.now a := by
      intro a ha
      obtain ⟨h', hyes⟩ := hpass a ha d₂.now
      refine ⟨_, h₂, h', hmd₁, ?_, hyes⟩
      show d₂.ledger.val.compliance.get md.complianceContract = some h₂
      rw [hled]
      exact Storage.get_set_self _ _ _
    exact ⟨_, hw₂, fun a ha c hc => ⟨⟨_, hmd₁, rfl⟩, hadmits a ha, hadmits c hc⟩⟩
  · rw [← hbalance]
    show d₂.ledger.val.balance q a = d₁.ledger.val.balance q a
    rw [hled]
    rfl
  · rw [← hnow, State.now, hled]
    rfl

end Opening

/-- **The gate can be opened at any time.** In every run of a deployment, the admin of a token and the admin of its
compliance contract, neither of them the dividend contract, can let all accounts of a list pay each other by calls of
their own that are all answered, at the present ledger, as long as the list of the compliance contract has room for
them. These calls change no balance and nothing in the registry or the dividend contract. Then every share that is due
in the token to an account of the list, among which the dividend contract is, is paid to it by a timely claim. -/
theorem gate_opens (this : Address) (now : U32) (tokenAddresses compliance : List Address) (ls : List (Label Address)) :
    let d := (deployment this).run (State.fresh this now tokenAddresses compliance) ls
    ∀ p w md h b j accounts, d.token p = some w → w.storage.metadata = some md →
      d.compliance md.complianceContract = some h → h.storage.roles.admin = some b →
      Compliance.TwoLetters j → Compliance.Room h.storage accounts.length →
      let ls' := opening p md.complianceContract md.admin b j accounts
      let d' := (deployment this).run d ls'
      md.admin ≠ this ∧ b ≠ this ∧ (deployment this).Answers d ls' ∧ Opened d p accounts d' ∧
        (this ∈ accounts → ∀ id dist holder amount, holder ∈ accounts → d.dividend.storage.dist.get id = some dist →
          dist.completed = false → dist.paymentToken = p →
          (Dividend.claimable id holder d.dividendView).map Prod.fst = .ok amount → 0 < amount.val →
          (dist.deadline ≠ 0 → d.now ≤ dist.deadline) → ∀ signed : Address → Bool, signed holder = true →
          signed this = false →
          ∃ d'', (deployment this).step d' (.dividend signed (.claim id holder)) = some ((), d'') ∧
            d''.ledger.balance p holder = d.ledger.balance p holder + amount.val) := by
  intro d p w md h b j accounts hw hmd hk hb hj hroom ls' d'
  have hs : Staffed this d.ledger.val := run_staffed this now tokenAddresses compliance ls
  obtain ⟨hans, hopened⟩ := opening_answered (p := p) hs hw hmd hk hb hj hroom
  refine ⟨fun hadmin => ?_, fun heq => hs.compliance _ h hk (heq ▸ hb), hans, hopened, ?_⟩
  · obtain ⟨kt, hkt, rfl⟩ := Chain.token_eq_some.1 hw
    have hmd' : kt.storage.metadata = some md := hmd
    exact hs.token p kt hkt (by simp [Token.State.office, hmd', hadmin])
  · rintro hthis id dist holder amount hholder hd hopen rfl hview hpos hinTime signed hsigned hself
    have hheld : Held d' := by
      have hrun := run_held this now tokenAddresses compliance (ls ++ ls')
      rwa [System.run_append] at hrun
    have hdue := claimable_due hview hpos
    have hdividend : d'.dividend = d.dividend := hopened.dividend
    rw [← hdividend] at hd hdue
    obtain ⟨w', hw', hgate⟩ := hopened.gate
    have hinTime' : dist.deadline ≠ 0 → d'.now.val ≤ dist.deadline.val := by
      rw [show d'.now = d.now from hopened.now]
      exact hinTime
    obtain ⟨d'', hstep⟩ := (hheld.claim_iff hd hopen hinTime' hdue hsigned hself).2
      ⟨w', hw', hgate this hthis holder hholder⟩
    refine ⟨d'', hstep, ?_⟩
    have hne : holder ≠ this := by
      rintro rfl
      cases hself.symm.trans hsigned
    rw [claim_moves hd hdue hstep, hopened.balance]
    simp [hne]

/-- The admin 1 suspends the holder 2 and the dividend contract of `payRun`, and pauses the token. -/
def stuckRun : List (Label ℕ) :=
  payRun ++ [.act (.compliance 30 accounts (.suspend 1 2)), .act (.compliance 30 accounts (.suspend 1 9)),
    .act (.token 20 accounts (.pause 1))]

/-- The claim of 2 is refused, and after the opening it is paid. -/
theorem gate_opens_stuck :
    let d := (deployment 9).run (State.fresh 9 5 [20] [30]) stuckRun
    ((deployment 9).step d (.dividend accounts (.claim 1 2))).isNone ∧
      ∃ d'', (deployment 9).step ((deployment 9).run d (opening 20 30 1 1 [85, 83] [9, 2]))
          (.dividend accounts (.claim 1 2)) = some ((), d'') ∧
        d''.ledger.balance 20 2 = d.ledger.balance 20 2 + 30 := by
  intro d
  refine ⟨by decide +kernel, ?_⟩
  have htoken : ((d.token 20).bind fun w => w.storage.metadata.map fun md => (md.admin, md.complianceContract)) =
      some (1, 30) := by decide +kernel
  obtain ⟨w, hw, hsome⟩ := Option.bind_eq_some_iff.1 htoken
  obtain ⟨md, hmd, hfacts⟩ := Option.map_eq_some_iff.1 hsome
  obtain ⟨hadmin, hcontract⟩ := Prod.mk.inj hfacts
  have hcompliance : (d.compliance 30).map (fun h => (h.storage.roles.admin,
      (Compliance.getAllowlistCount h.storage).val, (Compliance.allowlistMeta h.storage).1.val)) =
      some (some 1, 3, 0) := by decide +kernel
  obtain ⟨h, hk, hfacts⟩ := Option.map_eq_some_iff.1 hcompliance
  simp only [Prod.mk.injEq] at hfacts
  obtain ⟨hb, hcount, hpages⟩ := hfacts
  have hrecord : (d.dividend.storage.dist.get 1).map (fun dist => (dist.completed, dist.paymentToken, dist.deadline)) =
      some (false, 20, 0) := by decide +kernel
  obtain ⟨dist, hd, hfacts⟩ := Option.map_eq_some_iff.1 hrecord
  simp only [Prod.mk.injEq] at hfacts
  obtain ⟨hopen, hpayment, hdeadline⟩ := hfacts
  have hview : (Dividend.claimable 1 2 d.dividendView).map Prod.fst = .ok 30 := by decide +kernel
  rw [← hcontract] at hk
  have hroom : Compliance.Room h.storage [9, 2].length := ⟨by rw [hcount]; decide, by rw [hpages]; decide⟩
  have hcode : Compliance.TwoLetters [85, 83] := by decide +kernel
  have hopening := gate_opens 9 5 [20] [30] stuckRun 20 w md h 1 [85, 83] [9, 2] hw hmd
  have hreached : (deployment 9).run (State.fresh 9 5 [20] [30]) stuckRun = d := rfl
  rw [hreached] at hopening
  obtain ⟨-, -, -, -, hpaid⟩ := hopening hk hb hcode hroom
  rw [hadmin, hcontract] at hpaid
  have hthirty : (30 : I128).val = 30 := by decide
  obtain ⟨d'', hstep, hbalance⟩ := hpaid (by simp) 1 dist 2 30 (by simp) hd hopen hpayment hview (by decide)
    (fun hno => absurd hdeadline hno) accounts rfl rfl
  rw [hthirty] at hbalance
  exact ⟨d'', hstep, hbalance⟩

end StellarRwa.Deployment
