import StellarRwa.Token.Metadata

/-!
# Allowances

A stored allowance is written by `approve`, signed by the owner, and by `transfer_from`, signed by the spender, and by
nothing else (`AllowanceStep`, `call_allowance`). So over every run an allowance is a budget: what the latest approval
granted, less what `transfer_from` has moved since, and nothing once the approval has expired (`allowance_budget`).
-/

namespace StellarRwa.Token

open Lib

variable {Address X : Type} [DecidableEq Address] {client : ComplianceClient Address X} {env : Env Address}
  {h h' : Contract Address X} {u : Unit}

/-- What the call approves for `spender` in the name of `owner`. -/
def Label.approval (owner spender : Address) : Label Address X → Option AllowanceValue
  | .call _ (.approve from_ spender' amount expirationLedger) =>
    if from_ = owner ∧ spender' = spender then some ⟨amount, expirationLedger⟩ else none
  | _ => none

/-- The ledger at which the call moves tokens of `owner` in the name of `spender`, and how many. -/
def Label.spending (owner spender : Address) : Label Address X → Option (U32 × I128)
  | .call env (.transferFrom spender' from_ _ amount) =>
    if from_ = owner ∧ spender' = spender then some (env.sequence, amount) else none
  | _ => none

/-- What the answered call approved. -/
abbrev Done.approval (o s : Address) (d : Done (Contract Address X) (Label Address X) Unit) : Option AllowanceValue :=
  d.label.approval o s

/-- The total that answered calls moved of the tokens of `owner` in the name of `spender`. -/
def moved (owner spender : Address) (tr : List (Done (Contract Address X) (Label Address X) Unit)) : Int :=
  (tr.filterMap fun d => (d.label.spending owner spender).map fun p => p.2.val).sum

/-! ## One call -/

/-- What a call does to a stored allowance. -/
inductive AllowanceStep (owner spender : Address) (l : Label Address X) (v : Option AllowanceValue) :
    Option AllowanceValue → Prop
  | kept (happroval : l.approval owner spender = none) (hspending : l.spending owner spender = none) :
    AllowanceStep owner spender l v v
  | approved {w : AllowanceValue} (happroval : l.approval owner spender = some w) (hsigned : l.SignedBy owner)
    (hnonneg : 0 ≤ w.amount.val) : AllowanceStep owner spender l v (some w)
  | spent {w : AllowanceValue} {sequence : U32} {amount left : I128} (happroval : l.approval owner spender = none)
    (hspending : l.spending owner spender = some (sequence, amount)) (hsigned : l.SignedBy spender) (hv : v = some w)
    (hlive : sequence.val ≤ w.expirationLedger.val) (hle : amount.val ≤ w.amount.val)
    (hleft : left.val = w.amount.val - amount.val) : AllowanceStep owner spender l v (some ⟨left, w.expirationLedger⟩)

theorem currentAllowance_of_pos {s : State Address} {o g : Address}
    (hpos : 0 < (currentAllowance s o g).amount.val) : s.allowance.get (o, g) = some (currentAllowance s o g) := by
  unfold currentAllowance at hpos ⊢
  cases hget : s.allowance.get (o, g) with
  | none =>
    rw [hget] at hpos
    exact absurd hpos (lt_irrefl _)
  | some v => rfl

theorem approve_allowance {from_ spender' : Address} {amount : I128} {expirationLedger : U32} (o s : Address)
    (hrun : (approve env from_ spender' amount expirationLedger : M Address X Unit) h = .ok (u, h')) :
    AllowanceStep o s (.call env (.approve from_ spender' amount expirationLedger) : Label Address X)
      (h.storage.allowance.get (o, s)) (h'.storage.allowance.get (o, s)) := by
  obtain ⟨hsigned, hnonneg, md, -, -, -, hr⟩ := approve_ok.1 hrun
  cases hr
  show AllowanceStep _ _ _ _ ((h.storage.allowance.set (from_, spender') ⟨amount, expirationLedger⟩).get (o, s))
  by_cases hpair : from_ = o ∧ spender' = s
  · obtain ⟨rfl, rfl⟩ := hpair
    rw [Storage.get_set_self]
    exact .approved (by simp [Label.approval]) hsigned hnonneg
  · rw [Storage.get_set_of_ne _ _ fun e => hpair ⟨(congrArg Prod.fst e).symm, (congrArg Prod.snd e).symm⟩]
    exact .kept (if_neg hpair) rfl

theorem transferFrom_allowance {spender' from_ to_ : Address} {amount : I128} (o s : Address)
    (hrun : transferFrom client env spender' from_ to_ amount h = .ok (u, h')) :
    AllowanceStep o s (.call env (.transferFrom spender' from_ to_ amount) : Label Address X)
      (h.storage.allowance.get (o, s)) (h'.storage.allowance.get (o, s)) := by
  obtain ⟨hsigned, hamount, md, -, -, x, -, y, -, ⟨hlive, hle⟩, -, newFromBal, newToBal, left, -, -, hleft, hr⟩ :=
    transferFrom_ok.1 hrun
  cases hr
  show AllowanceStep _ _ _ _ ((h.storage.allowance.set (from_, spender') ⟨left, _⟩).get (o, s))
  by_cases hpair : from_ = o ∧ spender' = s
  · obtain ⟨rfl, rfl⟩ := hpair
    have hstored := currentAllowance_of_pos (s := h.storage) (lt_of_lt_of_le hamount hle)
    rw [Storage.get_set_self]
    exact .spent rfl (by simp [Label.spending]) hsigned hstored hlive hle hleft
  · rw [Storage.get_set_of_ne _ _ fun e => hpair ⟨(congrArg Prod.fst e).symm, (congrArg Prod.snd e).symm⟩]
    exact .kept rfl (if_neg hpair)

/-- Every call but `approve` and `transfer_from` keeps the stored allowances. -/
theorem call_allowance_kept {op : Op Address}
    (happrove : ∀ from_ spender amount expirationLedger, op ≠ .approve from_ spender amount expirationLedger)
    (hspend : ∀ spender from_ to_ amount, op ≠ .transferFrom spender from_ to_ amount)
    (hrun : call client env op h = .ok (u, h')) : h'.storage.allowance = h.storage.allowance := by
  by_cases hop : op.administrative = true
  · obtain ⟨md, md', e, x, -, -, -, rfl⟩ := call_rewrite hop happrove hrun
    rfl
  · cases op <;> first | exact absurd rfl hop | skip
    case initializeToken =>
      obtain ⟨-, -, -, -, -, -, -, x, -, hr⟩ := initializeToken_ok.1 hrun
      cases hr
      rfl
    case transfer =>
      obtain ⟨-, -, md, -, -, x, -, hsend⟩ := transfer_ok.1 hrun
      exact (sendTo_terms hsend).allowance
    case transferBatch =>
      obtain ⟨-, md, -, -, x, -, hloop⟩ := transferBatch_ok.1 hrun
      exact (sendEntries_terms hloop).allowance
    case mint =>
      obtain ⟨md, -, -, -, -, -, n, h₁, hmint, hr⟩ := mint_ok.1 hrun
      cases hr
      exact (mintTo_terms hmint).1.allowance
    case mintBatch =>
      obtain ⟨md, -, -, -, -, n, h₁, hloop, hr⟩ := mintBatch_ok.1 hrun
      cases hr
      exact (mintEntries_terms hloop).1.allowance
    case burn =>
      obtain ⟨-, -, md, -, -, x, -, -, newFromBal, newSupply, -, -, hr⟩ := burn_ok.1 hrun
      cases hr
      rfl
    case transferFrom => exact absurd rfl (hspend _ _ _ _)

/-- **What an answered call does to a stored allowance.** -/
theorem step_allowance {l : Label Address X} (o s : Address) (hstep : (token client).step h l = some (u, h')) :
    AllowanceStep o s l (h.storage.allowance.get (o, s)) (h'.storage.allowance.get (o, s)) := by
  cases l with
  | others y =>
    cases hstep
    exact .kept rfl rfl
  | call env op =>
    have hrun := Call.returned_eq_some.1 hstep
    by_cases happrove : ∃ from_ spender amount expirationLedger, op = .approve from_ spender amount expirationLedger
    · obtain ⟨from_, spender, amount, expirationLedger, rfl⟩ := happrove
      exact approve_allowance o s hrun
    · by_cases hspend : ∃ spender from_ to_ amount, op = .transferFrom spender from_ to_ amount
      · obtain ⟨spender, from_, to_, amount, rfl⟩ := hspend
        exact transferFrom_allowance o s hrun
      · push Not at happrove hspend
        rw [call_allowance_kept happrove hspend hrun]
        cases op <;> first | exact .kept rfl rfl | skip
        case approve => exact absurd rfl (happrove _ _ _ _)
        case transferFrom => exact absurd rfl (hspend _ _ _ _)

/-! ## Runs -/

section Runs

variable {o s : Address} {tr : List (Done (Contract Address X) (Label Address X) Unit)}
  {d : Done (Contract Address X) (Label Address X) Unit}

@[simp] theorem moved_nil : moved o s ([] : List (Done (Contract Address X) (Label Address X) Unit)) = 0 := rfl

theorem moved_concat : moved o s (tr ++ [d]) = moved o s tr + ((d.label.spending o s).map fun p => p.2.val).getD 0 := by
  unfold moved
  rw [List.filterMap_append, List.sum_append]
  cases hd : d.label.spending o s <;> simp [hd]

/-- The latest approval and what happened since. -/
def lastApproval (o s : Address) (tr : List (Done (Contract Address X) (Label Address X) Unit)) :
    Option (AllowanceValue × List (Done (Contract Address X) (Label Address X) Unit)) :=
  since (Done.approval o s) tr

theorem lastApproval_concat (happroval : d.label.approval o s = none) :
    lastApproval o s (tr ++ [d]) = (lastApproval o s tr).map fun p => (p.1, p.2 ++ [d]) :=
  since_concat_of_none (f := Done.approval o s) happroval tr

/-- A stored allowance against the history of the calls. -/
structure Budget (o s : Address) (tr : List (Done (Contract Address X) (Label Address X) Unit)) (st : State Address) :
    Prop where
  granted : ∀ w tr₂, lastApproval o s tr = some (w, tr₂) →
    ∃ left : I128, st.allowance.get (o, s) = some ⟨left, w.expirationLedger⟩ ∧ 0 ≤ left.val ∧
      left.val = w.amount.val - moved o s tr₂ ∧
      ∀ d ∈ tr₂, ∀ sequence amount, d.label.spending o s = some (sequence, amount) → sequence ≤ w.expirationLedger
  ungranted : lastApproval o s tr = none →
    st.allowance.get (o, s) = none ∧ ∀ d ∈ tr, d.label.spending o s = none

theorem Budget.init :
    Budget o s ([] : List (Done (Contract Address X) (Label Address X) Unit)) (State.fresh Address) where
  granted w tr₂ h := by cases h
  ungranted _ := ⟨Storage.get_empty _, fun d hd => by cases hd⟩

/-- **One answered call** keeps the allowance on budget. -/
theorem Budget.step {st : State Address} (hb : Budget o s tr st)
    (hs : AllowanceStep o s d.label (st.allowance.get (o, s)) (d.post.storage.allowance.get (o, s))) :
    Budget o s (tr ++ [d]) d.post.storage := by
  generalize hv : st.allowance.get (o, s) = v at hs
  generalize hv' : d.post.storage.allowance.get (o, s) = v' at hs
  cases hs with
  | approved happroval hsigned hnonneg =>
    rename_i w
    have hgranted : lastApproval o s (tr ++ [d]) = some (w, []) :=
      since_concat_of_some (f := Done.approval o s) happroval tr
    constructor
    · intro w' tr₂ h
      cases hgranted.symm.trans h
      exact ⟨w.amount, hv', hnonneg, by simp, fun d hd => by cases hd⟩
    · intro h
      cases hgranted.symm.trans h
  | kept happroval hspending =>
    constructor
    · intro w tr₂ h
      rw [lastApproval_concat happroval] at h
      obtain ⟨⟨w', tr₃⟩, hold, e⟩ := Option.map_eq_some_iff.1 h
      cases e
      obtain ⟨left, hget, hnonneg, hleft, hlive⟩ := hb.granted w' tr₃ hold
      refine ⟨left, hv'.trans (hv.symm.trans hget), hnonneg, by simp [moved_concat, hspending, hleft], ?_⟩
      refine forall_mem_concat hlive fun sequence amount hsp => ?_
      cases hspending.symm.trans hsp
    · intro h
      rw [lastApproval_concat happroval] at h
      obtain ⟨hget, hnone⟩ := hb.ungranted (Option.map_eq_none_iff.1 h)
      exact ⟨hv'.trans (hv.symm.trans hget), forall_mem_concat hnone hspending⟩
  | spent happroval hspending hsigned hstored hlive hle hleft =>
    rename_i w sequence amount left
    constructor
    · intro w' tr₂ h
      rw [lastApproval_concat happroval] at h
      obtain ⟨⟨w'', tr₃⟩, hold, e⟩ := Option.map_eq_some_iff.1 h
      cases e
      obtain ⟨left', hget, hnonneg, hleft', hlive'⟩ := hb.granted w'' tr₃ hold
      obtain rfl : w = ⟨left', w''.expirationLedger⟩ := Option.some.inj (hstored.symm.trans (hv.symm.trans hget))
      have hnow : moved o s (tr₃ ++ [d]) = moved o s tr₃ + amount.val := by simp [moved_concat, hspending]
      have hle' : amount.val ≤ left'.val := hle
      have hleft'' : left.val = left'.val - amount.val := hleft
      refine ⟨left, hv', by omega, by show _ = w''.amount.val - moved o s (tr₃ ++ [d]); omega, ?_⟩
      refine forall_mem_concat hlive' fun sequence' amount' hsp => ?_
      cases hspending.symm.trans hsp
      exact MInt.le_def.2 hlive
    · intro h
      rw [lastApproval_concat happroval] at h
      obtain ⟨hget, -⟩ := hb.ungranted (Option.map_eq_none_iff.1 h)
      cases hstored.symm.trans (hv.symm.trans hget)

end Runs

theorem run_budget (x : X) (ls : List (Label Address X)) (o s : Address) :
    Budget o s ((token client).trace (Contract.fresh Address x) ls)
      ((token client).run (Contract.fresh Address x) ls).storage := by
  refine System.run_rule (P := fun tr (h : Contract Address X) => Budget o s tr h.storage) Budget.init ?_ ls
  intro tr h l u h' hb hstep
  exact Budget.step (d := ⟨h, l, u, h'⟩) hb (step_allowance o s hstep)

/-- **Allowances are budgets.** After any calls, the allowance that `o` last granted to `s` is what was approved less
what `s` has moved since, up to the expiration ledger, and zero afterwards; `s` never moved more than that, nor later.
With no approval it is zero and nothing was moved. Only `o` by `approve` and `s` by `transfer_from` ever change it. -/
theorem allowance_budget (client : ComplianceClient Address X) (x : X) (ls : List (Label Address X)) (o s : Address) :
    let tr := (token client).trace (Contract.fresh Address x) ls
    let st := ((token client).run (Contract.fresh Address x) ls).storage
    (∀ tr₁ d tr₂ amount expirationLedger, tr = tr₁ ++ d :: tr₂ →
      d.label.approval o s = some ⟨amount, expirationLedger⟩ → (∀ d' ∈ tr₂, d'.label.approval o s = none) →
        (∀ env : Env Address, (allowance env st o s).val =
          if env.sequence ≤ expirationLedger then amount.val - moved o s tr₂ else 0) ∧
        moved o s tr₂ ≤ amount.val ∧
        ∀ d' ∈ tr₂, ∀ sequence amount', d'.label.spending o s = some (sequence, amount') →
          sequence ≤ expirationLedger) ∧
      ((∀ d ∈ tr, d.label.approval o s = none) →
        (∀ env : Env Address, (allowance env st o s).val = 0) ∧ ∀ d ∈ tr, d.label.spending o s = none) ∧
      ∀ d ∈ tr, d.post.storage.allowance.get (o, s) ≠ d.pre.storage.allowance.get (o, s) →
        (d.label.approval o s ≠ none ∧ d.label.SignedBy o) ∨ (d.label.spending o s ≠ none ∧ d.label.SignedBy s) := by
  intro tr st
  have hb : Budget o s tr st := run_budget x ls o s
  refine ⟨?_, ?_, ?_⟩
  · intro tr₁ d tr₂ amount expirationLedger hsplit happroval hlast
    have hgranted : lastApproval o s tr = some (⟨amount, expirationLedger⟩, tr₂) := by
      rw [hsplit]
      exact since_append (f := Done.approval o s) happroval hlast tr₁
    obtain ⟨left, hget, hnonneg, hleft, hlive⟩ := hb.granted _ _ hgranted
    have hle : left.val = amount.val - moved o s tr₂ := hleft
    refine ⟨fun env => ?_, by omega, hlive⟩
    simp only [allowance, hget]
    split
    · exact hle
    · rfl
  · intro hno
    obtain ⟨hget, hnone⟩ := hb.ungranted (since_eq_none hno)
    exact ⟨fun env => by simp [allowance, hget], hnone⟩
  · intro d hd hne
    have hs := step_allowance o s (System.mem_trace hd).1
    generalize d.pre.storage.allowance.get (o, s) = v at hs hne
    generalize d.post.storage.allowance.get (o, s) = v' at hs hne
    cases hs with
    | kept _ _ => exact absurd rfl hne
    | approved happroval hsigned _ => exact .inl ⟨by simp [happroval], hsigned⟩
    | spent _ hspending hsigned _ _ _ _ => exact .inr ⟨by simp [hspending], hsigned⟩

end StellarRwa.Token
