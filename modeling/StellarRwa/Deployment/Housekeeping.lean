import StellarRwa.Compliance.Housekeeping
import StellarRwa.Deployment.Opening
import StellarRwa.Deployment.Twins

/-!
# Housekeeping in a deployment

Anybody who sees the tokens, the registry, the dividend contract and the answers of the compliance contracts cannot tell
whether expired records are pruned. Two deployments are `Alike` when they differ in indistinct compliance contracts
only. What is no call of a compliance contract is answered at both or at neither and leaves them alike (`step_alike`); a
call of a compliance contract may be answered at one only, but leaves them alike too (`exec_alike`), and a pruning of
one leaves it alike to the other (`prune_alike`). So a run is alike to the run without its prunings (`prune_unnoticed`).
-/

namespace StellarRwa.Deployment

open Lib

variable {Address : Type} [DecidableEq Address] {this : Address}

/-! ## Tokens -/

/-- Compliance contracts at the same addresses, indistinct from the ledger `t` on. -/
def FleetsAlike (t : U32) (x y : Fleet Address) : Prop :=
  Storage.Related (fun h k : Compliance.Contract Address => Compliance.Indistinct t h.storage k.storage) x y

/-- Their answers are the same. -/
theorem isAllowedAt_same {env : Env Address} {x y : Fleet Address} (hxy : FleetsAlike env.sequence x y)
    (c a : Address) :
    (isAllowedAt env y c a).map Prod.fst = (isAllowedAt env x c a).map Prod.fst := by
  have hc := hxy c
  unfold isAllowedAt
  generalize x.get c = h at hc ⊢
  generalize y.get c = k at hc ⊢
  cases hc with
  | none => rfl
  | @some h k hi =>
    have hanswer := Compliance.isAllowed_indistinct hi a
    dsimp only
    generalize Compliance.isAllowed env a h = r at hanswer ⊢
    generalize Compliance.isAllowed env a k = r' at hanswer ⊢
    cases r with
    | error f =>
      cases r' with
      | error f' => rfl
      | ok v => cases hanswer
    | ok u =>
      cases r' with
      | error f' => cases hanswer
      | ok v => exact congrArg some (Except.ok.inj hanswer)

theorem FleetsAlike.asked {env : Env Address} {x y x' y' : Fleet Address} {c a : Address} {b b' : Bool}
    (hxy : FleetsAlike env.sequence x y) (hx : isAllowedAt env x c a = some (b, x'))
    (hy : isAllowedAt env y c a = some (b', y')) : FleetsAlike env.sequence x' y' := by
  obtain ⟨h, h', hh, hrun, rfl⟩ := isAllowedAt_some hx
  obtain ⟨k, k', hk, hrun', rfl⟩ := isAllowedAt_some hy
  have hi := hxy c
  rw [hh, hk] at hi
  cases hi with
  | some hi =>
    refine hxy.set c ?_
    rw [(Compliance.isAllowed_ok hrun).1, (Compliance.isAllowed_ok hrun').1]
    exact hi

/-- A token cannot tell them apart. -/
theorem isAllowedAt_agrees (env : Env Address) (q : Address × Address) :
    Token.Agrees (FleetsAlike env.sequence) isAllowedAt env q := by
  intro x y hxy
  have hsame := isAllowedAt_same hxy q.1 q.2
  cases hx : isAllowedAt env x q.1 q.2 with
  | none => exact .inl ⟨rfl, by simpa [hx] using hsame⟩
  | some p =>
    obtain ⟨b, x'⟩ := p
    rw [hx, Option.map_some, Option.map_eq_some_iff] at hsame
    obtain ⟨⟨b', y'⟩, hy, rfl⟩ := hsame
    exact .inr ⟨b', x', y', rfl, hy, fun _ => hxy.asked hx hy⟩

/-- The same ledger and the same tokens among such compliance contracts. -/
structure Chain.Alike (c c' : Chain Address) : Prop where
  now : c'.now = c.now
  tokens : c'.tokens = c.tokens
  compliance : FleetsAlike c.now c.compliance c'.compliance

section Chains

variable {c c' : Chain Address} {p : Address} {signed : Address → Bool}

theorem Chain.totalSupply_eq (c : Chain Address) (p : Address) : c.totalSupply p =
    ((c.tokens.get p).bind fun k => k.storage.metadata).map fun md => md.totalSupply := by
  unfold Chain.totalSupply Chain.token
  cases c.tokens.get p with
  | none => rfl
  | some k =>
    ext n
    simp [Option.map_eq_some_iff, Call.returned_eq_some, Token.totalSupply, Token.metadata_ok, Host.among]

theorem Chain.assetAdmin_eq (c : Chain Address) (p : Address) : c.assetAdmin p =
    ((c.tokens.get p).bind fun k => k.storage.metadata).map fun md => md.admin := by
  unfold Chain.assetAdmin Chain.token
  cases c.tokens.get p with
  | none => rfl
  | some k =>
    ext n
    simp [Option.map_eq_some_iff, Call.returned_eq_some, Token.getMetadata, Token.metadata_ok, Host.among]

/-- A token call is answered at both or at neither. -/
theorem callToken_alike {op : Token.Op Address} (hc : c.Alike c') :
    Option.Rel Chain.Alike (c.callToken p signed op) (c'.callToken p signed op) := by
  unfold Chain.callToken Chain.token
  rw [hc.tokens, hc.now]
  cases hk : c.tokens.get p with
  | none => exact .none
  | some k =>
    have hend : Lib.Alike (FleetsAlike c.now) k.events k.events (Token.call isAllowedAt ⟨c.now, signed⟩ op)
        (k.among c.compliance) (k.among c'.compliance) :=
      Token.call_alike (twins_among k hc.compliance) fun q _ => isAllowedAt_agrees ⟨c.now, signed⟩ q
    refine rel_map hend.returned fun q r ⟨_, hfleets, halone⟩ => ⟨hc.now, ?_, hfleets⟩
    show c'.tokens.set p _ = c.tokens.set p _
    rw [hc.tokens, halone]

omit [DecidableEq Address] in
theorem rel_pmap_mk [DecidableEq Address] {o o' : Option (Chain Address)} {P : Chain Address → Prop}
    {ho : ∀ c, o = some c → P c} {ho' : ∀ c, o' = some c → P c} (hrel : Option.Rel Chain.Alike o o') :
    Option.Rel (fun s s' : Subtype P => s.val.Alike s'.val) (o.pmap Subtype.mk ho) (o'.pmap Subtype.mk ho') := by
  cases hrel with
  | none => exact .none
  | some hc => exact .some hc

/-- The dividend contract cannot tell them apart either. -/
theorem tokens_sees (this : Address) : Dividend.Sees (tokens this) fun l l' => l.val.Alike l'.val where
  totalSupply l l' hl p := by
    show l.val.totalSupply p = l'.val.totalSupply p
    rw [Chain.totalSupply_eq, Chain.totalSupply_eq, hl.tokens]
  assetAdmin l l' hl p := by
    show l.val.assetAdmin p = l'.val.assetAdmin p
    rw [Chain.assetAdmin_eq, Chain.assetAdmin_eq, hl.tokens]
  transfer l l' hl p from_ to_ amount := rel_pmap_mk (callToken_alike hl)

end Chains

/-! ## Deployments -/

/-- The same deployment but for its compliance contracts, which are indistinct from now on. -/
structure State.Alike (d d' : State this) : Prop where
  ledger : d.ledger.val.Alike d'.ledger.val
  registry : d'.registry = d.registry
  dividend : d'.dividend = d.dividend

theorem State.Alike.refl (d : State this) : d.Alike d := by
  refine ⟨⟨rfl, rfl, fun k => ?_⟩, rfl, rfl⟩
  cases d.ledger.val.compliance.get k with
  | none => exact .none
  | some h => exact .some (.refl _)

/-- A call of a compliance contract. -/
def Label.rules : Label Address → Bool
  | .act (.compliance ..) => true
  | _ => false

def Label.prunes : Label Address → Bool
  | .act (.compliance _ _ op) => op.prunes
  | _ => false

omit [DecidableEq Address] in
theorem Label.eq_of_rules {l : Label Address} (hl : l.rules = true) :
    ∃ k signed op, l = .act (.compliance k signed op) := by
  cases l with
  | act a =>
    cases a with
    | compliance k signed op => exact ⟨k, signed, op, rfl⟩
    | advance _ => cases hl
    | token _ _ _ => cases hl
  | registry _ _ => cases hl
  | dividend _ _ => cases hl

omit [DecidableEq Address] in
theorem Label.rules_of_prunes {l : Label Address} (hl : l.prunes = true) : l.rules = true := by
  cases l with
  | act a =>
    cases a with
    | compliance _ _ _ => rfl
    | advance _ => cases hl
    | token _ _ _ => cases hl
  | registry _ _ => cases hl
  | dividend _ _ => cases hl

section Steps

variable {d d' : State this} {l : Label Address} {signed : Address → Bool}

theorem callRegistry_alike {op : Registry.Op Address} (ha : d.Alike d') :
    Option.Rel State.Alike (d.callRegistry signed op) (d'.callRegistry signed op) := by
  obtain ⟨l, _, _⟩ := d
  obtain ⟨l', registry, dividend⟩ := d'
  obtain ⟨hl, rfl, rfl⟩ := ha
  have hend : Lib.Alike (fun l l' : Ledger this => l.val.Alike l'.val) registry.events registry.events
      (Registry.call assetAdmin ⟨l.val.now, signed⟩ op) (registry.among l) (registry.among l') :=
    Registry.call_alike (tokens_sees this).assetAdmin (twins_among registry hl)
  simp only [State.callRegistry, State.registryView, State.now]
  rw [hl.now]
  exact rel_map hend.returned fun q r hqr => ⟨hqr.2.1, hqr.2.2.symm, rfl⟩

theorem callDividend_alike {op : Dividend.Op Address} (ha : d.Alike d') :
    Option.Rel State.Alike (d.callDividend signed op) (d'.callDividend signed op) := by
  obtain ⟨l, _, _⟩ := d
  obtain ⟨l', registry, dividend⟩ := d'
  obtain ⟨hl, rfl, rfl⟩ := ha
  have hend : Lib.Alike (fun l l' : Ledger this => l.val.Alike l'.val) dividend.events dividend.events
      (Dividend.call (tokens this) this ⟨l.val.now, signed⟩ op) (dividend.among l) (dividend.among l') :=
    Dividend.call_alike (tokens_sees this) (twins_among dividend hl)
  simp only [State.callDividend, State.dividendView, State.now]
  rw [hl.now]
  exact rel_map hend.returned fun q r hqr => ⟨hqr.2.1, rfl, hqr.2.2.symm⟩

/-- **A call of a token, of the registry or of the dividend contract** is answered at both or at neither. -/
theorem step_alike (hl : l.rules = false) (ha : d.Alike d') :
    Option.Rel (fun p q => p.2.Alike q.2) ((deployment this).step d l) ((deployment this).step d' l) := by
  have hacted : ∀ {a : Chain.Act Address}, Option.Rel Chain.Alike (d.ledger.val.act this a) (d'.ledger.val.act this a) →
      Option.Rel (fun p q => p.2.Alike q.2) ((deployment this).step d (.act a))
        ((deployment this).step d' (.act a)) := by
    intro a hrel
    refine rel_map (r := fun l l' : Ledger this => l.val.Alike l'.val) (rel_pmap_mk hrel) fun l l' hl => ?_
    exact ⟨hl, ha.registry, ha.dividend⟩
  cases l with
  | act a =>
    cases a with
    | advance n =>
      refine hacted ?_
      rw [Chain.act, Chain.act, ha.ledger.now]
      split
      · rename_i hle
        exact .some ⟨rfl, ha.ledger.tokens, ha.ledger.compliance.imp fun _ _ hi => hi.later hle⟩
      · exact .none
    | token p signed op =>
      refine hacted ?_
      rw [Chain.act, Chain.act]
      split
      · exact .none
      · exact callToken_alike ha.ledger
    | compliance k signed op => cases hl
  | registry signed op =>
    simp only [deployment]
    split
    · exact .none
    · refine rel_map (callRegistry_alike ha) fun _ _ h => h
  | dividend signed op =>
    simp only [deployment]
    split
    · exact .none
    · refine rel_map (callDividend_alike ha) fun _ _ h => h

/-! ## Calls of compliance contracts -/

/-- The calls of a compliance contract that are not answered, signed by the contract at `this` or of no contract. -/
theorem step_unruled {k : Address} {op : Compliance.Op Address} (hno : signed this = true ∨ d.compliance k = none) :
    (deployment this).step d (.act (.compliance k signed op)) = none := by
  cases hstep : (deployment this).step d (.act (.compliance k signed op)) with
  | none => rfl
  | some p =>
    obtain ⟨u, d'⟩ := p
    have hact := (step_act hstep).1
    simp only [Chain.act, Option.ite_none_left_eq_some] at hact
    obtain ⟨h, r, h', hk, -⟩ := Chain.callCompliance_eq_some.1 hact.2
    rcases hno with hsigned | hnone
    · exact absurd hsigned hact.1
    · cases hnone.symm.trans hk

theorem Ruled.refl {k : Address} {h : Compliance.Contract Address} (hk : d.compliance k = some h) : Ruled d k h d :=
  ⟨by simp [Storage.set_of_get hk], rfl, rfl⟩

/-- A call of a compliance contract, answered or not. -/
theorem exec_ruled {k : Address} {h : Compliance.Contract Address} (hself : signed this = false)
    (hk : d.compliance k = some h) (op : Compliance.Op Address) :
    Ruled d k ((Compliance.compliance Address).exec h (⟨d.now, signed⟩, op))
      ((deployment this).exec d (.act (.compliance k signed op))) := by
  cases hstep : (deployment this).step d (.act (.compliance k signed op)) with
  | some p =>
    obtain ⟨u, d'⟩ := p
    obtain ⟨hact, hregistry, hdividend⟩ := step_act hstep
    simp only [Chain.act, Option.ite_none_left_eq_some] at hact
    obtain ⟨h₁, r, h', hk₁, hrun, hledger⟩ := Chain.callCompliance_eq_some.1 hact.2
    cases hk.symm.trans hk₁
    rw [System.exec_of_some hstep, System.exec_of_some (Call.returned_eq_some.2 hrun)]
    exact ⟨hledger, hregistry, hdividend⟩
  | none =>
    have hnone : (Compliance.compliance Address).step h (⟨d.now, signed⟩, op) = none := by
      cases hcall : (Compliance.compliance Address).step h (⟨d.now, signed⟩, op) with
      | none => rfl
      | some p =>
        obtain ⟨⟨_, _, hans, -⟩, -⟩ := answers_compliance hself [op] hk ⟨p.1, p.2, hcall, trivial⟩
        cases hstep.symm.trans hans
    rw [System.exec_of_none hstep, System.exec_of_none hnone]
    exact .refl hk

/-- Indistinct contracts put in place of others leave the deployments alike. -/
theorem Ruled.alike {k : Address} {h m : Compliance.Contract Address} {d₁ d₁' : State this} (hr : Ruled d k h d₁)
    (hr' : Ruled d' k m d₁') (ha : d.Alike d') (hi : Compliance.Indistinct d.now h.storage m.storage) :
    d₁.Alike d₁' := by
  refine ⟨?_, ?_, ?_⟩
  · rw [hr.ledger, hr'.ledger]
    exact ⟨ha.ledger.now, ha.ledger.tokens, ha.ledger.compliance.set k hi⟩
  · rw [hr.registry, hr'.registry, ha.registry]
  · rw [hr.dividend, hr'.dividend, ha.dividend]

/-! ## Room on the lists -/

/-- Every compliance contract has its pages in order and takes `n` more addresses. -/
def State.Orderly (d : State this) (n : ℕ) : Prop := ∀ k h, d.compliance k = some h → Compliance.Orderly h.storage n

/-- The addresses that a call approves. -/
def Label.approvals : Label Address → ℕ
  | .act (.compliance _ _ op) => op.approvals
  | _ => 0

/-- **A call of a compliance contract** leaves two deployments alike, whichever of them answers it. -/
theorem rule_alike {k : Address} {op : Compliance.Op Address} {n : ℕ} (hop : op.prunes = false) (ha : d.Alike d')
    (ho : d.Orderly (n + op.approvals)) (ho' : d'.Orderly (n + op.approvals)) :
    ((deployment this).exec d (.act (.compliance k signed op))).Alike
      ((deployment this).exec d' (.act (.compliance k signed op))) := by
  by_cases hno : signed this = true ∨ d.compliance k = none
  · have hno' : signed this = true ∨ d'.compliance k = none :=
      hno.imp_right fun hnone => (ha.ledger.compliance.none_iff k).1 hnone
    rw [System.exec_of_none (step_unruled hno), System.exec_of_none (step_unruled hno')]
    exact ha
  · obtain ⟨hself, hsome⟩ := not_or.1 hno
    obtain ⟨h, hk⟩ := Option.ne_none_iff_exists'.1 hsome
    obtain ⟨m, hm, hi⟩ := ha.ledger.compliance.get_of hk
    have hruled' : Ruled d' k _ _ := exec_ruled (Bool.not_eq_true _ ▸ hself) hm op
    rw [show d'.now = d.now from ha.ledger.now] at hruled'
    refine (exec_ruled (Bool.not_eq_true _ ▸ hself) hk op).alike hruled' ha ?_
    have hi' : Compliance.Indistinct (Env.mk d.now signed).sequence h.storage m.storage := hi
    exact Compliance.exec_indistinct hop hi' (ho k h hk).room (ho' k m hm).room

/-- **A pruning** of one of them leaves them alike. -/
theorem prune_alike {k : Address} {op : Compliance.Op Address} {n : ℕ} (hop : op.prunes = true) (ha : d.Alike d')
    (ho : d.Orderly n) : ((deployment this).exec d (.act (.compliance k signed op))).Alike d' := by
  by_cases hno : signed this = true ∨ d.compliance k = none
  · rw [System.exec_of_none (step_unruled hno)]
    exact ha
  · obtain ⟨hself, hsome⟩ := not_or.1 hno
    obtain ⟨h, hk⟩ := Option.ne_none_iff_exists'.1 hsome
    obtain ⟨m, hm, hi⟩ := ha.ledger.compliance.get_of hk
    refine (exec_ruled (Bool.not_eq_true _ ▸ hself) hk op).alike (.refl hm) ha ?_
    have hi' : Compliance.Indistinct (Env.mk d.now signed).sequence h.storage m.storage := hi
    exact (Compliance.exec_prune_indistinct hop (ho k h hk).paged).symm.trans hi'

/-! ## Room on the lists, over a run -/

/-- A token call asks, and that changes no list. -/
theorem callToken_sameRules {c c' : Chain Address} {p : Address} {op : Token.Op Address}
    (hcall : c.callToken p signed op = some c') (k : Address) :
    (c'.compliance.get k).map Host.storage = (c.compliance.get k).map Host.storage := by
  obtain ⟨w, w', hw, hrun, rfl⟩ := Chain.callToken_eq_some.1 hcall
  obtain ⟨kt, -, rfl⟩ := Chain.token_eq_some.1 hw
  exact queried_sameStorage (Token.call_gated hrun).queried k

theorem step_sameRules {u : Unit} (hl : l.rules = false) (hstep : (deployment this).step d l = some (u, d'))
    (k : Address) : (d'.compliance k).map Host.storage = (d.compliance k).map Host.storage := by
  have htouches := step_touches hstep
  unfold State.compliance
  generalize d'.ledger.val = c' at htouches ⊢
  cases htouches with
  | kept => rfl
  | advanced _ => rfl
  | called _ hcall => exact callToken_sameRules hcall k
  | ruled _ _ => cases hl
  | paid _ _ htransfer => exact callToken_sameRules htransfer k

theorem State.Orderly.mono {m n : ℕ} (ho : d.Orderly n) (hle : m ≤ n) : d.Orderly m :=
  fun k h hk => (ho k h hk).mono hle

/-- A call takes as much room as it approves addresses. -/
theorem exec_orderly {n : ℕ} (ho : d.Orderly (n + l.approvals)) : ((deployment this).exec d l).Orderly n := by
  have hkept : (deployment this).step d l = none → ((deployment this).exec d l).Orderly n := by
    intro hnone
    rw [System.exec_of_none hnone]
    exact ho.mono (Nat.le_add_right _ _)
  cases hl : l.rules with
  | false =>
    cases hstep : (deployment this).step d l with
    | none => exact hkept hstep
    | some p =>
      obtain ⟨u, d'⟩ := p
      rw [System.exec_of_some hstep]
      intro k h hk
      have hsame := step_sameRules hl hstep k
      rw [hk, Option.map_some] at hsame
      obtain ⟨h₀, hk₀, hstorage⟩ := Option.map_eq_some_iff.1 hsame.symm
      rw [← hstorage]
      exact ho.mono (Nat.le_add_right _ _) k h₀ hk₀
  | true =>
    obtain ⟨k, signed, op, rfl⟩ := Label.eq_of_rules hl
    by_cases hno : signed this = true ∨ d.compliance k = none
    · exact hkept (step_unruled hno)
    · obtain ⟨hself, hsome⟩ := not_or.1 hno
      obtain ⟨h, hk⟩ := Option.ne_none_iff_exists'.1 hsome
      have hruled := exec_ruled (Bool.not_eq_true _ ▸ hself) hk op
      intro q h₁ hq
      rw [State.compliance, hruled.ledger] at hq
      simp only [Storage.get_set] at hq
      split at hq
      · cases hq
        exact Compliance.exec_orderly (ho k h hk)
      · exact ho.mono (Nat.le_add_right _ _) q h₁ hq

end Steps

/-! ## Runs -/

/-- The addresses that the calls of a run approve. -/
def approvals (ls : List (Label Address)) : ℕ := (ls.map Label.approvals).sum

/-- Two deployments that are alike, with room for the approvals to come. -/
structure Housed (ls : List (Label Address)) (d d' : State this) : Prop where
  alike : d.Alike d'
  orderly : d.Orderly (approvals ls)
  orderly' : d'.Orderly (approvals ls)

section Runs

variable {d d' : State this} {l : Label Address} {ls : List (Label Address)}

omit [DecidableEq Address] in
theorem approvals_cons (l : Label Address) (ls : List (Label Address)) :
    approvals (l :: ls) = approvals ls + l.approvals := by
  simp [approvals, Nat.add_comm]

/-- A pruning of one. -/
theorem Housed.pruned (hh : Housed (l :: ls) d d') (hl : l.prunes = true) :
    Housed ls ((deployment this).exec d l) d' := by
  obtain ⟨halike, ho, ho'⟩ := hh
  rw [approvals_cons] at ho ho'
  refine ⟨?_, exec_orderly ho, ho'.mono (Nat.le_add_right _ _)⟩
  obtain ⟨k, signed, op, rfl⟩ := Label.eq_of_rules (Label.rules_of_prunes hl)
  exact prune_alike hl halike ho

/-- Any other call, of both. -/
theorem Housed.called (hh : Housed (l :: ls) d d') (hl : l.prunes = false) :
    Housed ls ((deployment this).exec d l) ((deployment this).exec d' l) := by
  obtain ⟨halike, ho, ho'⟩ := hh
  rw [approvals_cons] at ho ho'
  refine ⟨?_, exec_orderly ho, exec_orderly ho'⟩
  cases hrules : l.rules with
  | false =>
    have hback := step_alike hrules halike
    unfold System.exec
    generalize (deployment this).step d l = o at hback ⊢
    generalize (deployment this).step d' l = o' at hback ⊢
    cases hback with
    | none => exact halike
    | some h => exact h
  | true =>
    obtain ⟨k, signed, op, rfl⟩ := Label.eq_of_rules hrules
    exact rule_alike hl halike ho ho'

theorem orderly_fresh (this : Address) (now : U32) (tokenAddresses compliance : List Address) {n : ℕ}
    (hroom : n ≤ 2 ^ 32 - 1) : (State.fresh this now tokenAddresses compliance).Orderly n := by
  intro k h hk
  simp only [State.compliance, State.fresh, Chain.fresh, newFleet, Storage.get_ofKeys, Option.ite_none_right_eq_some,
    Option.some.injEq] at hk
  rw [← hk.2]
  refine ⟨Compliance.wellPaged_fresh, ?_, ?_⟩
  · simpa [Compliance.getAllowlistCount, Compliance.Contract.fresh, Compliance.State.fresh] using hroom
  · simpa [Compliance.allowlistMeta, Compliance.Contract.fresh, Compliance.State.fresh] using hroom

/-- **Pruning cannot be noticed.** Take any run of a deployment in which fewer than 2^32 addresses are approved, and the
same run without its prunings: the ledger, the tokens with their events, the registry and the dividend contract end up
the same; every compliance contract gives the same answer about every account, now and at any later ledger; and the next
call of a token, of the registry or of the dividend contract is answered after both or after neither. -/
theorem prune_unnoticed (this : Address) (now : U32) (tokenAddresses compliance : List Address)
    (ls : List (Label Address)) (hroom : approvals ls ≤ 2 ^ 32 - 1) :
    let d := (deployment this).run (State.fresh this now tokenAddresses compliance) ls
    let d' := (deployment this).run (State.fresh this now tokenAddresses compliance) (ls.filter fun l => !l.prunes)
    d'.now = d.now ∧ d'.ledger.val.tokens = d.ledger.val.tokens ∧ d'.registry = d.registry ∧ d'.dividend = d.dividend ∧
      (∀ env k a, d.now ≤ env.sequence → (isAllowedAt env d'.ledger.val.compliance k a).map Prod.fst =
        (isAllowedAt env d.ledger.val.compliance k a).map Prod.fst) ∧
      ∀ l : Label Address, l.rules = false →
        ((deployment this).step d' l).isSome = ((deployment this).step d l).isSome := by
  intro d d'
  have hfresh := orderly_fresh this now tokenAddresses compliance hroom
  have hhoused : Housed [] d d' :=
    System.purge_rule (Q := Housed) (fun hl hh => hh.pruned hl) (fun hl hh => hh.called hl) ⟨.refl _, hfresh, hfresh⟩
  obtain ⟨hledger, hregistry, hdividend⟩ := hhoused.alike
  refine ⟨hledger.now, hledger.tokens, hregistry, hdividend, fun env k a hle => ?_, fun l hl => ?_⟩
  · exact isAllowedAt_same (hledger.compliance.imp fun _ _ hi => hi.later hle) k a
  · have hback := step_alike hl hhoused.alike
    generalize (deployment this).step d l = o at hback ⊢
    generalize (deployment this).step d' l = o' at hback ⊢
    cases hback <;> rfl

/-- After `payRun` the holder 3 is approved until the ledger 50, its record is pruned at the ledger 60, and 1 pays 2. -/
def pruneRun : List (Label ℕ) :=
  payRun ++ [.act (.compliance 30 accounts (.addToAllowlist 1 3 [85, 83] 50)), .act (.advance 60),
    .act (.compliance 30 accounts (.pruneExpired 1 10)), .act (.token 20 accounts (.transfer 1 2 25))]

/-- The record is gone, without the pruning it would still be there, and the balance of 2 is the same. -/
theorem prune_unnoticed_gone :
    let d := (deployment 9).run (State.fresh 9 5 [20] [30]) pruneRun
    let d' := (deployment 9).run (State.fresh 9 5 [20] [30]) (pruneRun.filter fun l => !l.prunes)
    ((d.compliance 30).bind fun h => h.storage.record.get 3) = none ∧
      ((d'.compliance 30).bind fun h => h.storage.record.get 3).isSome = true ∧
      d.ledger.balance 20 2 = 125 ∧ d'.ledger.balance 20 2 = d.ledger.balance 20 2 := by
  intro d d'
  have hgone : ((d.compliance 30).bind fun h => h.storage.record.get 3) = none := by decide +kernel
  have hkept : ((d'.compliance 30).bind fun h => h.storage.record.get 3).isSome = true := by decide +kernel
  have hbalance : d.ledger.balance 20 2 = 125 := by decide +kernel
  obtain ⟨-, htokens, -⟩ := prune_unnoticed 9 5 [20] [30] pruneRun (by decide)
  refine ⟨hgone, hkept, hbalance, ?_⟩
  show d'.ledger.val.balance 20 2 = d.ledger.val.balance 20 2
  rw [Chain.balance, Chain.balance, htokens]

end Runs

end StellarRwa.Deployment
