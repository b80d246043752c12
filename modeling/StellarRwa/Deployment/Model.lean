import StellarRwa.Lib.Refinement
import StellarRwa.Deployment.Ledger
import StellarRwa.Registry.Spec
import StellarRwa.Dividend.Recovery

/-!
# A deployment

All contracts of the repository on one chain: tokens and compliance contracts at any addresses, one registry, and one
dividend contract at the address `this`. The registry and the dividend contract read the metadata of the tokens, the
dividend contract calls their `transfer`, and the tokens ask the compliance contracts. Every call is made at the current
ledger; ledgers only advance. `Moves` says what one answered call does to the tokens and the compliance contracts.
-/

namespace StellarRwa.Deployment

open Lib

variable {Address : Type} [DecidableEq Address]

/-- The state of all contracts. -/
structure State (this : Address) where
  ledger : Ledger this
  registry : Registry.Contract Address Unit
  dividend : Dividend.Contract Address Unit

/-- A call of the registry or of the dividend contract, or an act on the tokens and the compliance contracts. -/
inductive Label (Address : Type)
  | act (a : Chain.Act Address)
  | registry (signed : Address → Bool) (op : Registry.Op Address)
  | dividend (signed : Address → Bool) (op : Dividend.Op Address)

variable {this : Address}

/-- `AssetTokenClient::get_metadata().admin`, as the registry reads it. -/
def assetAdmin (l : Ledger this) (p : Address) : Option Address := l.val.assetAdmin p

namespace State

/-- The registry among the tokens. -/
def registryView (d : State this) : Registry.Contract Address (Ledger this) := d.registry.among d.ledger

/-- The dividend contract among the tokens. -/
def dividendView (d : State this) : Dividend.Contract Address (Ledger this) := d.dividend.among d.ledger

/-- The token at `p` among the compliance contracts. -/
def token (d : State this) (p : Address) : Option (World Address) := d.ledger.val.token p

/-- The ledger at which the next call is made. -/
def now (d : State this) : U32 := d.ledger.val.now

def callRegistry (d : State this) (signed : Address → Bool) (op : Registry.Op Address) : Option (State this) :=
  ((Registry.call assetAdmin ⟨d.now, signed⟩ op).returned d.registryView).map fun r =>
    { d with ledger := r.2.outside, registry := r.2.alone }

def callDividend (d : State this) (signed : Address → Bool) (op : Dividend.Op Address) : Option (State this) :=
  ((Dividend.call (tokens this) this ⟨d.now, signed⟩ op).returned d.dividendView).map fun r =>
    { d with ledger := r.2.outside, dividend := r.2.alone }

end State

/-- The deployment as a system of calls. The contract at `this` signs none of them: it has no key. -/
def deployment (this : Address) : System (State this) (Label Address) Unit where
  step d
    | .act a => ((tokens this).act a d.ledger).map fun l => ((), { d with ledger := l })
    | .registry signed op => if signed this then none else (d.callRegistry signed op).map fun d' => ((), d')
    | .dividend signed op => if signed this then none else (d.callDividend signed op).map fun d' => ((), d')

/-! ## A new deployment -/

/-- The compliance contracts at these addresses, just deployed. -/
def newFleet (compliance : List Address) : Fleet Address :=
  Storage.ofKeys compliance (Compliance.Contract.fresh Address)

/-- Tokens and compliance contracts at these addresses, just deployed. -/
def Chain.fresh (now : U32) (tokens compliance : List Address) : Chain Address where
  now
  compliance := newFleet compliance
  tokens := Storage.ofKeys tokens (Token.Contract.fresh Address ())

theorem Chain.sound_fresh (this : Address) (now : U32) (tokens compliance : List Address) :
    (Chain.fresh now tokens compliance).Sound this := by
  have hfresh : ∀ p k, (Chain.fresh now tokens compliance).tokens.get p = some k →
      k = Token.Contract.fresh Address () := by
    intro p k hk
    rw [Chain.fresh, Storage.get_ofKeys] at hk
    split at hk
    · exact (Option.some.inj hk).symm
    · cases hk
  constructor
  · intro p k hk
    rw [hfresh p k hk]
    exact Token.conserved_fresh
  · intro p k g hk
    rw [hfresh p k hk]
    exact Storage.get_empty _

/-- A new deployment. -/
def State.fresh (this : Address) (now : U32) (tokens compliance : List Address) : State this where
  ledger := ⟨Chain.fresh now tokens compliance, Chain.sound_fresh this now tokens compliance⟩
  registry := Registry.Contract.fresh Address ()
  dividend := Dividend.Contract.fresh Address ()

/-! ## What one call does -/

section Steps

variable {d d' : State this} {signed : Address → Bool} {u : Unit}

theorem step_act {a : Chain.Act Address} (hstep : (deployment this).step d (.act a) = some (u, d')) :
    d.ledger.val.act this a = some d'.ledger.val ∧ d'.registry = d.registry ∧ d'.dividend = d.dividend := by
  obtain ⟨l, hact, e⟩ := Option.map_eq_some_iff.1 hstep
  cases e
  exact ⟨act_eq_some.1 hact, rfl, rfl⟩

theorem step_registry {op : Registry.Op Address}
    (hstep : (deployment this).step d (.registry signed op) = some (u, d')) :
    signed this = false ∧ (∃ r, Registry.call assetAdmin ⟨d.now, signed⟩ op d.registryView = .ok (r, d'.registryView)) ∧
      d'.dividend = d.dividend := by
  simp only [deployment, Option.ite_none_left_eq_some, Bool.not_eq_true] at hstep
  obtain ⟨hself, hcall⟩ := hstep
  obtain ⟨d₁, hcall, e⟩ := Option.map_eq_some_iff.1 hcall
  cases e
  obtain ⟨⟨r, h'⟩, hrun, e⟩ := Option.map_eq_some_iff.1 hcall
  cases e
  exact ⟨hself, ⟨r, Call.returned_eq_some.1 hrun⟩, rfl⟩

theorem step_dividend {op : Dividend.Op Address}
    (hstep : (deployment this).step d (.dividend signed op) = some (u, d')) :
    signed this = false ∧
      (∃ r, Dividend.call (tokens this) this ⟨d.now, signed⟩ op d.dividendView = .ok (r, d'.dividendView)) ∧
      d'.registry = d.registry := by
  simp only [deployment, Option.ite_none_left_eq_some, Bool.not_eq_true] at hstep
  obtain ⟨hself, hcall⟩ := hstep
  obtain ⟨d₁, hcall, e⟩ := Option.map_eq_some_iff.1 hcall
  cases e
  obtain ⟨⟨r, h'⟩, hrun, e⟩ := Option.map_eq_some_iff.1 hcall
  cases e
  exact ⟨hself, ⟨r, Call.returned_eq_some.1 hrun⟩, rfl⟩

/-- A call of the registry, a call of a token or of a compliance contract, a call of the dividend contract with the
transfer it makes, from itself or from an account that has signed, or the passing of ledgers. -/
inductive Touches (this : Address) (c : Chain Address) : Label Address → Chain Address → Prop
  | kept {l : Label Address} : Touches this c l c
  | advanced {n : U32} (hn : c.now ≤ n) : Touches this c (.act (.advance n)) { c with now := n }
  | called {p : Address} {signed : Address → Bool} {op : Token.Op Address} {c' : Chain Address}
    (hself : signed this = false) (hcall : c.callToken p signed op = some c') :
    Touches this c (.act (.token p signed op)) c'
  | ruled {k : Address} {signed : Address → Bool} {op : Compliance.Op Address} {c' : Chain Address}
    (hself : signed this = false) (hcall : c.callCompliance k signed op = some c') :
    Touches this c (.act (.compliance k signed op)) c'
  | paid {signed : Address → Bool} {op : Dividend.Op Address} {p from_ to_ : Address} {amount : I128}
    {c' : Chain Address} (hself : signed this = false) (hpayer : from_ = this ∨ signed from_ = true)
    (htransfer : c.transfer p from_ to_ amount = some c') : Touches this c (.dividend signed op) c'

theorem step_touches {l : Label Address} (hstep : (deployment this).step d l = some (u, d')) :
    Touches this d.ledger.val l d'.ledger.val := by
  cases l with
  | act a =>
    have hact := (step_act hstep).1
    cases a with
    | advance n =>
      simp only [Chain.act, Option.ite_none_right_eq_some, Option.some.injEq] at hact
      rw [← hact.2]
      exact .advanced hact.1
    | token p signed op =>
      simp only [Chain.act, Option.ite_none_left_eq_some, Bool.not_eq_true] at hact
      exact .called hact.1 hact.2
    | compliance k signed op =>
      simp only [Chain.act, Option.ite_none_left_eq_some, Bool.not_eq_true] at hact
      exact .ruled hact.1 hact.2
  | registry signed op =>
    obtain ⟨-, ⟨r, hrun⟩, -⟩ := step_registry hstep
    have hsame : d'.ledger = d.ledger := Registry.call_outside hrun
    rw [hsame]
    exact .kept
  | dividend signed op =>
    obtain ⟨hself, ⟨r, hrun⟩, -⟩ := step_dividend hstep
    have heffect := Dividend.call_effect hrun
    obtain ⟨l', registry', dividend'⟩ := d'
    simp only [State.dividendView, Host.among] at heffect
    generalize dividend'.storage = s' at heffect
    cases heffect with
    | handover _ _ _ => exact .kept
    | initialized _ => exact .kept
    | opened _ hsigned _ _ _ _ _ htransfer => exact .paid hself (.inr hsigned.2) (transfer_eq_some.1 htransfer)
    | claimed _ _ _ _ _ _ _ htransfer => exact .paid hself (.inl rfl) (transfer_eq_some.1 htransfer)
    | reclaimed _ _ _ _ _ _ htransfer => exact .paid hself (.inl rfl) (transfer_eq_some.1 htransfer)
    | cancelled _ _ _ _ _ htransfer => exact .paid hself (.inl rfl) (transfer_eq_some.1 htransfer)

/-- What one answered call does to the tokens and the compliance contracts: nothing, unless it is a call of one of them,
by an account or by the dividend contract. The contract at `this` signs its own transfers and nothing else. -/
inductive Moves (this : Address) (c : Chain Address) : Chain Address → Prop
  | kept : Moves this c c
  | advanced {n : U32} (hn : c.now ≤ n) : Moves this c { c with now := n }
  | called {p : Address} {signed : Address → Bool} {op : Token.Op Address} {w w' : World Address}
    (hself : signed this = true → ∃ to_ amount, op = .transfer this to_ amount) (hw : c.token p = some w)
    (hrun : Token.call isAllowedAt ⟨c.now, signed⟩ op w = .ok ((), w')) : Moves this c (c.put p w')
  | ruled {k : Address} {signed : Address → Bool} {op : Compliance.Op Address} {r : Compliance.Ret}
    {h h' : Compliance.Contract Address} (hself : signed this = false) (hk : c.compliance.get k = some h)
    (hrun : Compliance.call ⟨c.now, signed⟩ op h = .ok (r, h')) :
    Moves this c { c with compliance := c.compliance.set k h' }

theorem Moves.of_callToken {c c' : Chain Address} {p : Address} {op : Token.Op Address}
    (hself : signed this = true → ∃ to_ amount, op = .transfer this to_ amount)
    (hcall : c.callToken p signed op = some c') : Moves this c c' := by
  obtain ⟨w, w', hw, hrun, rfl⟩ := Chain.callToken_eq_some.1 hcall
  exact .called hself hw hrun

theorem step_moves {l : Label Address} (hstep : (deployment this).step d l = some (u, d')) :
    Moves this d.ledger.val d'.ledger.val := by
  have htouches := step_touches hstep
  generalize d'.ledger.val = c' at htouches ⊢
  cases htouches with
  | kept => exact .kept
  | advanced hn => exact .advanced hn
  | called hself hcall => exact .of_callToken (fun hsigned => by cases hself.symm.trans hsigned) hcall
  | ruled hself hcall =>
    obtain ⟨h, r, h', hk, hrun, rfl⟩ := Chain.callCompliance_eq_some.1 hcall
    exact .ruled hself hk hrun
  | @paid _ _ _ from_ to_ amount _ _ _ htransfer =>
    refine .of_callToken (fun hpayer => ⟨to_, amount, ?_⟩) htransfer
    have hthis : this = from_ := by simpa using hpayer
    rw [hthis]

theorem Moves.now_le {c c' : Chain Address} (hm : Moves this c c') : c.now ≤ c'.now := by
  cases hm with
  | advanced hn => exact hn
  | _ => exact MInt.le_def.2 le_rfl

end Steps

end StellarRwa.Deployment
