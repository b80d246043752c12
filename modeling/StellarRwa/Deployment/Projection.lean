import StellarRwa.Deployment.Model

/-!
# A deployment seen from one contract

Seen from one of its contracts, a run of a deployment is a run of the system of that contract: of a token among the
compliance contracts (`Moves.token_seen`), where the calls of other tokens show as the questions they ask; of a
compliance contract (`Moves.compliance_seen`); of the registry; of the dividend contract among exact payment tokens. The
calls are made at ledgers that do not go back, and the dividend contract signs none of them but its own transfers. So
what holds of every such run of a contract by itself holds of it in a deployment (`deployment_refines`).
-/

namespace StellarRwa

open Lib

variable {Address : Type}

/-! ## The ledgers and the signatures of calls -/

def Network.Label.Signed : Network.Label Address → Address → Prop
  | .token env _, a => StellarRwa.Signed env a
  | .compliance _ env _, a => StellarRwa.Signed env a

/-- The ledger of a call; what the other contracts do has none. -/
def Registry.Label.sequence {X : Type} : Registry.Label Address X → Option U32
  | .call env _ => some env.sequence
  | .others _ => none

/-- The ledger of a call; what the other contracts do has none. -/
def Dividend.Label.sequence {A : Type} : Dividend.Label Address A → Option U32
  | .call env _ => some env.sequence
  | .others _ => none

namespace Deployment

variable [DecidableEq Address] {this : Address}

/-- A call that `this` signs is a transfer of its own. -/
def OwnTransfers (this : Address) (l : Network.Label Address) : Prop :=
  l.Signed this → ∃ env to_ amount, l = .token env (.transfer this to_ amount)

/-! ## Questions as calls -/

/-- Signatures do not matter to `is_allowed`. -/
theorem isAllowed_unsigned {env : Env Address} {a : Address} (h : Compliance.Contract Address) :
    Compliance.isAllowed (.unsigned env.sequence) a h = Compliance.isAllowed env a h := rfl

variable (this) in
/-- The questions of one call are calls of `is_allowed` that nobody signs, whatever token looks on. -/
theorem queried_network {env : Env Address} {x y : Fleet Address} (hq : Token.Queried isAllowedAt env x y)
    (k : Token.Contract Address Unit) : ∃ ks : List (Network.Label Address),
      (∀ l ∈ ks, l.sequence = env.sequence ∧ OwnTransfers this l) ∧
        (network Address).run (k.among x) ks = k.among y := by
  induction hq with
  | refl => exact ⟨[], by simp, rfl⟩
  | ask _ hz ih =>
    rename_i y z compliance who b _
    obtain ⟨ks, hks, hrun⟩ := ih
    obtain ⟨h, h', hh, hallowed, rfl⟩ := isAllowedAt_some hz
    have hstep : (network Address).step (k.among y) (.compliance compliance (.unsigned env.sequence) (.isAllowed who)) =
        some ((), k.among (y.set compliance h')) := by
      have hcall : (Compliance.compliance Address).step h (.unsigned env.sequence, .isAllowed who) =
          some (.bool b, h') := by
        refine Call.returned_eq_some.2 ?_
        simp [Compliance.call, isAllowed_unsigned, hallowed]
      simp [network, callCompliance, Host.among, hh, hcall]
    refine ⟨ks ++ [.compliance compliance (.unsigned env.sequence) (.isAllowed who)],
      forall_mem_concat hks ⟨rfl, ?_⟩, ?_⟩
    · intro hsigned
      cases hsigned
    · rw [System.run_append, hrun, System.run_singleton hstep]

/-- Those that concern the compliance contract at `k` are calls of it. -/
theorem queried_compliance {env : Env Address} {x y : Fleet Address} (hq : Token.Queried isAllowedAt env x y)
    {k : Address} {h : Compliance.Contract Address} (hk : x.get k = some h) :
    ∃ ks : List (Env Address × Compliance.Op Address),
      (∀ l ∈ ks, l.1.sequence = env.sequence ∧ ¬ Signed l.1 this) ∧
        y.get k = some ((Compliance.compliance Address).run h ks) := by
  induction hq with
  | refl => exact ⟨[], by simp, hk⟩
  | ask _ hz ih =>
    rename_i y z compliance who b _
    obtain ⟨ks, hks, hrun⟩ := ih
    obtain ⟨h₁, h₂, hh, hallowed, rfl⟩ := isAllowedAt_some hz
    by_cases hc : k = compliance
    · subst hc
      obtain rfl := Option.some.inj (hrun.symm.trans hh)
      have hstep : (Compliance.compliance Address).step ((Compliance.compliance Address).run h ks)
          (.unsigned env.sequence, .isAllowed who) = some (.bool b, h₂) := by
        refine Call.returned_eq_some.2 ?_
        simp [Compliance.call, isAllowed_unsigned, hallowed]
      refine ⟨ks ++ [(.unsigned env.sequence, .isAllowed who)], forall_mem_concat hks ⟨rfl, ?_⟩, ?_⟩
      · intro hsigned
        cases hsigned
      · rw [System.run_append, System.run_singleton hstep, Storage.get_set_self]
    · exact ⟨ks, hks, by rw [Storage.get_set_of_ne _ _ hc, hrun]⟩

/-! ## One call, seen from one contract -/

variable {c c' : Chain Address} {p k : Address} {w : World Address} {h : Compliance.Contract Address}

/-- Seen from the token at `p`. -/
theorem Moves.token_seen (hm : Moves this c c') (hw : c.token p = some w) : ∃ ks : List (Network.Label Address),
    (∀ l ∈ ks, l.sequence = c.now ∧ OwnTransfers this l) ∧ c'.token p = some ((network Address).run w ks) := by
  cases hm with
  | kept => exact ⟨[], by simp, hw⟩
  | advanced _ => exact ⟨[], by simp, hw⟩
  | called hself hq hrun =>
    rename_i q signed op v v'
    by_cases hp : p = q
    · subst hp
      obtain rfl := Option.some.inj (hw.symm.trans hq)
      have hstep : (network Address).step w (.token ⟨c.now, signed⟩ op) = some ((), v') := Call.returned_eq_some.2 hrun
      have hown : OwnTransfers this (.token ⟨c.now, signed⟩ op) := by
        intro hsigned
        obtain ⟨to_, amount, rfl⟩ := hself hsigned
        exact ⟨_, to_, amount, rfl⟩
      refine ⟨[.token ⟨c.now, signed⟩ op], by simpa [Network.Label.sequence] using hown, ?_⟩
      rw [System.run_singleton hstep]
      simp [Chain.token, Chain.put, Host.alone, Host.among]
    · obtain ⟨kp, hkp, rfl⟩ := Chain.token_eq_some.1 hw
      obtain ⟨kq, -, rfl⟩ := Chain.token_eq_some.1 hq
      obtain ⟨ks, hks, hseen⟩ := queried_network this (Token.call_gated hrun).queried kp
      refine ⟨ks, hks, ?_⟩
      rw [show kp.among c.compliance = kp.among (kq.among c.compliance).outside from rfl, hseen]
      simp [Chain.token, Chain.put, Storage.get_set_of_ne _ _ hp, hkp]
  | ruled hself hk hrun =>
    rename_i q signed op r h h'
    obtain ⟨kp, hkp, rfl⟩ := Chain.token_eq_some.1 hw
    have hstep : (network Address).step (kp.among c.compliance) (.compliance q ⟨c.now, signed⟩ op) =
        some ((), kp.among (c.compliance.set q h')) := by
      have hcall : (Compliance.compliance Address).step h (⟨c.now, signed⟩, op) = some (r, h') :=
        Call.returned_eq_some.2 hrun
      simp [network, callCompliance, Host.among, hk, hcall]
    have hown : OwnTransfers this (.compliance q ⟨c.now, signed⟩ op) := fun hsigned => by cases hself.symm.trans hsigned
    refine ⟨[.compliance q ⟨c.now, signed⟩ op], by simpa [Network.Label.sequence] using hown, ?_⟩
    rw [System.run_singleton hstep]
    simp [Chain.token, hkp]

/-- Seen from the compliance contract at `k`. -/
theorem Moves.compliance_seen (hm : Moves this c c') (hk : c.compliance.get k = some h) :
    ∃ ks : List (Env Address × Compliance.Op Address), (∀ l ∈ ks, l.1.sequence = c.now ∧ ¬ Signed l.1 this) ∧
      c'.compliance.get k = some ((Compliance.compliance Address).run h ks) := by
  cases hm with
  | kept => exact ⟨[], by simp, hk⟩
  | advanced _ => exact ⟨[], by simp, hk⟩
  | called _ hq hrun =>
    obtain ⟨kq, -, rfl⟩ := Chain.token_eq_some.1 hq
    exact queried_compliance (Token.call_gated hrun).queried hk
  | ruled hself hk' hrun =>
    rename_i k' signed op r h₁ h'
    by_cases hkk : k = k'
    · subst hkk
      obtain rfl := Option.some.inj (hk.symm.trans hk')
      have hstep : (Compliance.compliance Address).step h (⟨c.now, signed⟩, op) = some (r, h') :=
        Call.returned_eq_some.2 hrun
      refine ⟨[(⟨c.now, signed⟩, op)], by simp [Signed, hself], ?_⟩
      rw [System.run_singleton hstep]
      exact Storage.get_set_self _ _ _
    · exact ⟨[], by simp, by rw [System.run_nil, ← hk]; exact Storage.get_set_of_ne _ _ hkk⟩

variable {d d' : State this} {l : Label Address} {u : Unit}

/-- Seen from the registry. -/
theorem step_registry_seen (hstep : (deployment this).step d l = some (u, d')) :
    ∃ ks : List (Registry.Label Address (Ledger this)),
      (∀ k ∈ ks, (∀ t, k.sequence = some t → t = d.now) ∧ ¬ k.Signed this) ∧
        (Registry.registry assetAdmin).run d.registryView ks = d'.registryView := by
  have hothers : d'.registry = d.registry →
      (Registry.registry assetAdmin).run d.registryView [.others d'.ledger] = d'.registryView := by
    intro hsame
    rw [System.run_singleton (M := Registry.registry assetAdmin) rfl]
    simp [State.registryView, Host.among, hsame]
  have hsilent : ∀ k ∈ [Registry.Label.others d'.ledger],
      (∀ t, k.sequence = some t → t = d.now) ∧ ¬ k.Signed this := by
    simp [Registry.Label.sequence, Registry.Label.Signed]
  cases l with
  | act a => exact ⟨_, hsilent, hothers (step_act hstep).2.1⟩
  | dividend signed op => exact ⟨_, hsilent, hothers (step_dividend hstep).2.2⟩
  | registry signed op =>
    obtain ⟨hself, ⟨r, hrun⟩, -⟩ := step_registry hstep
    have hcall : (Registry.registry assetAdmin).step d.registryView (.call ⟨d.now, signed⟩ op) =
        some (r, d'.registryView) := Call.returned_eq_some.2 hrun
    refine ⟨[.call ⟨d.now, signed⟩ op], ?_, System.run_singleton hcall⟩
    simp [Registry.Label.sequence, Registry.Label.Signed, Signed, hself]

/-- Seen from the dividend contract. -/
theorem step_dividend_seen (hstep : (deployment this).step d l = some (u, d')) :
    ∃ ks : List (Dividend.Label Address (Chain.Act Address)),
      (∀ k ∈ ks, (∀ t, k.sequence = some t → t = d.now) ∧ ¬ k.Signed this) ∧
        (Dividend.dividend (tokens this) this).run d.dividendView ks = d'.dividendView := by
  cases l with
  | act a =>
    obtain ⟨hact, -, hsame⟩ := step_act hstep
    have hcall : (Dividend.dividend (tokens this) this).step d.dividendView (.others a) =
        some (.unit, d'.dividendView) := by
      simp [Dividend.dividend, State.dividendView, Host.among, act_eq_some.2 hact, hsame]
    refine ⟨[.others a], ?_, System.run_singleton hcall⟩
    simp [Dividend.Label.sequence, Dividend.Label.Signed]
  | registry signed op =>
    obtain ⟨-, ⟨r, hrun⟩, hsame⟩ := step_registry hstep
    have hledger : d'.ledger = d.ledger := Registry.call_outside hrun
    exact ⟨[], by simp, by simp [State.dividendView, hsame, hledger]⟩
  | dividend signed op =>
    obtain ⟨hself, ⟨r, hrun⟩, -⟩ := step_dividend hstep
    have hcall : (Dividend.dividend (tokens this) this).step d.dividendView (.call ⟨d.now, signed⟩ op) =
        some (r, d'.dividendView) := Call.returned_eq_some.2 hrun
    refine ⟨[.call ⟨d.now, signed⟩ op], ?_, System.run_singleton hcall⟩
    simp [Dividend.Label.sequence, Dividend.Label.Signed, Signed, hself]

/-! ## Runs -/

/-- The calls among `ks` that have a ledger are made at ledgers that do not go back, none after `now`. -/
structure InOrder {L : Type} (sequence : L → Option U32) (now : U32) (ks : List L) : Prop where
  ordered : (ks.filterMap sequence).Pairwise fun t t' => t ≤ t'
  past : ∀ t ∈ ks.filterMap sequence, t ≤ now

theorem now_le (hstep : (deployment this).step d l = some (u, d')) : d.now ≤ d'.now := (step_moves hstep).now_le

/-- The ledgers of a deployment, of calls that are seen from one of its contracts and of which each meets `G`. -/
def clock {L : Type} (sequence : L → Option U32) (G : L → Prop) : Schedule (State this) L :=
  (Schedule.timed State.now sequence).both (Schedule.each _ G)

section Clock

variable {L : Type} {sequence : L → Option U32} {G : L → Prop} {ks : List L}

theorem clock_fits (hstep : (deployment this).step d l = some (u, d'))
    (hks : ∀ k ∈ ks, (∀ t, sequence k = some t → t = d.now) ∧ G k) : (clock sequence G).Fits d ks d' :=
  ⟨Schedule.Timed.of_now (now_le hstep) fun k hk => (hks k hk).1, fun k hk => (hks k hk).2⟩

/-- Calls that all have a ledger. -/
theorem clock_fits_some {sequence : L → U32} (hstep : (deployment this).step d l = some (u, d'))
    (hks : ∀ k ∈ ks, sequence k = d.now ∧ G k) : (clock (fun k => some (sequence k)) G).Fits d ks d' := by
  refine clock_fits hstep fun k hk => ⟨fun t ht => ?_, (hks k hk).2⟩
  rw [← Option.some.inj ht]
  exact (hks k hk).1

theorem InOrder.of_clock (h : (clock sequence G).Fits d ks d') : InOrder sequence d'.now ks ∧ ∀ k ∈ ks, G k :=
  ⟨⟨h.1.ordered, fun t ht => (h.1.within t ht).2⟩, h.2⟩

end Clock

/-- A run, seen from the token at `p`. -/
theorem run_token_seen {w : World Address} (hw : d.token p = some w) (ls : List (Label Address)) :
    ∃ ks, (clock (fun l : Network.Label Address => some l.sequence) (OwnTransfers this)).Fits d ks
        ((deployment this).run d ls) ∧
      ((deployment this).run d ls).token p = some ((network Address).run w ks) := by
  refine System.simulate (Q := fun (d : State this) w => d.token p = some w) (N := network Address) _ ?_ hw ls
  intro d₁ l u d₂ w hw hstep
  obtain ⟨ks, hks, hseen⟩ := (step_moves hstep).token_seen hw
  exact ⟨ks, clock_fits_some hstep hks, hseen⟩

/-- A run, seen from the compliance contract at `k`. -/
theorem run_compliance_seen (hk : d.ledger.val.compliance.get k = some h) (ls : List (Label Address)) :
    ∃ ks, (clock (fun l : Env Address × Compliance.Op Address => some l.1.sequence) fun l => ¬ Signed l.1 this).Fits d
        ks ((deployment this).run d ls) ∧
      ((deployment this).run d ls).ledger.val.compliance.get k = some ((Compliance.compliance Address).run h ks) := by
  refine System.simulate (Q := fun (d : State this) h => d.ledger.val.compliance.get k = some h)
    (N := Compliance.compliance Address) _ ?_ hk ls
  intro d₁ l u d₂ h hk hstep
  obtain ⟨ks, hks, hseen⟩ := (step_moves hstep).compliance_seen hk
  exact ⟨ks, clock_fits_some hstep hks, hseen⟩

/-- A run, seen from the registry. -/
theorem run_registry_seen (d : State this) (ls : List (Label Address)) :
    ∃ ks, (clock Registry.Label.sequence fun k => ¬ k.Signed this).Fits d ks ((deployment this).run d ls) ∧
      ((deployment this).run d ls).registryView = (Registry.registry assetAdmin).run d.registryView ks := by
  refine System.simulate (Q := fun (d : State this) h => d.registryView = h) (N := Registry.registry assetAdmin) _ ?_
    rfl ls
  rintro d₁ l u d₂ _ rfl hstep
  obtain ⟨ks, hks, hseen⟩ := step_registry_seen hstep
  exact ⟨ks, clock_fits hstep hks, hseen.symm⟩

/-- A run, seen from the dividend contract, which signs nothing. -/
theorem run_dividend_seen (d : State this) (ls : List (Label Address)) :
    ∃ ks, (clock Dividend.Label.sequence fun k => ¬ k.Signed this).Fits d ks ((deployment this).run d ls) ∧
      ((deployment this).run d ls).dividendView = (Dividend.dividend (tokens this) this).run d.dividendView ks := by
  refine System.simulate (Q := fun (d : State this) h => d.dividendView = h) (N := Dividend.dividend (tokens this) this)
    _ ?_ rfl ls
  rintro d₁ l u d₂ _ rfl hstep
  obtain ⟨ks, hks, hseen⟩ := step_dividend_seen hstep
  exact ⟨ks, clock_fits hstep hks, hseen.symm⟩

/-- **A deployment refines its contracts.** However the accounts interleave their calls, and whatever the contracts call
of each other: the state of each token with the compliance contracts, of each compliance contract, of the registry and
of the dividend contract is one that the contract reaches in its own system, by calls at ledgers that do not go back. Of
the calls of a token the dividend contract signs its own transfers only, of the calls of the other contracts none. -/
theorem deployment_refines (this : Address) (now : U32) (tokenAddresses compliance : List Address)
    (ls : List (Label Address)) :
    let d₀ := State.fresh this now tokenAddresses compliance
    let d := (deployment this).run d₀ ls
    (∀ p ∈ tokenAddresses, ∃ ks, InOrder (fun l => some l.sequence) d.now ks ∧ (∀ l ∈ ks, OwnTransfers this l) ∧
      d.token p = some ((network Address).run (Token.Contract.fresh Address (newFleet compliance)) ks)) ∧
    (∀ k ∈ compliance, ∃ ks, InOrder (fun l => some l.1.sequence) d.now ks ∧ (∀ l ∈ ks, ¬ Signed l.1 this) ∧
      d.ledger.val.compliance.get k =
        some ((Compliance.compliance Address).run (Compliance.Contract.fresh Address) ks)) ∧
    (∃ ks, InOrder Registry.Label.sequence d.now ks ∧ (∀ k ∈ ks, ¬ k.Signed this) ∧
      d.registryView = (Registry.registry assetAdmin).run (Registry.Contract.fresh Address d₀.ledger) ks) ∧
    ∃ ks, InOrder Dividend.Label.sequence d.now ks ∧ (∀ k ∈ ks, ¬ k.Signed this) ∧
      d.dividendView = (Dividend.dividend (tokens this) this).run (Dividend.Contract.fresh Address d₀.ledger) ks := by
  intro d₀ d
  refine ⟨fun p hp => ?_, fun k hk => ?_, ?_, ?_⟩
  · have hfresh : d₀.token p = some (Token.Contract.fresh Address (newFleet compliance)) := by
      simp [d₀, State.token, State.fresh, Chain.token, Chain.fresh, Storage.get_ofKeys, hp, Host.among,
        Token.Contract.fresh]
    obtain ⟨ks, hks, hseen⟩ := run_token_seen hfresh ls
    obtain ⟨horder, hsigned⟩ := InOrder.of_clock hks
    exact ⟨ks, horder, hsigned, hseen⟩
  · have hfresh : d₀.ledger.val.compliance.get k = some (Compliance.Contract.fresh Address) := by
      simp [d₀, State.fresh, Chain.fresh, newFleet, Storage.get_ofKeys, hk]
    obtain ⟨ks, hks, hseen⟩ := run_compliance_seen hfresh ls
    obtain ⟨horder, hsigned⟩ := InOrder.of_clock hks
    exact ⟨ks, horder, hsigned, hseen⟩
  · obtain ⟨ks, hks, hseen⟩ := run_registry_seen d₀ ls
    obtain ⟨horder, hsigned⟩ := InOrder.of_clock hks
    exact ⟨ks, horder, hsigned, hseen⟩
  · obtain ⟨ks, hks, hseen⟩ := run_dividend_seen d₀ ls
    obtain ⟨horder, hsigned⟩ := InOrder.of_clock hks
    exact ⟨ks, horder, hsigned, hseen⟩

end Deployment

end StellarRwa
