import StellarRwa.Compliance.Bars
import StellarRwa.Token.Gated

/-!
# A token among compliance contracts

The two contracts put together: the token asks `is_allowed` of the compliance contract stored in its metadata, and
calls to the token and to the compliance contracts come in any order, at any ledgers. Asking changes the event logs of
the compliance contracts and nothing else (`Queried.sameStorage`), so an answer given in the middle of a call is the
answer at its start; a balance moves only where the gate says yes. A bar at the stored compliance contract outlasts
every call that does not re-approve the address (`World.Bars.step`), and so freezes its balance (`kyc_gate`).
-/

namespace StellarRwa

open Lib

variable {Address : Type} [DecidableEq Address]

/-- The compliance contracts, by address. -/
abbrev Fleet (Address : Type) := Storage Address (Compliance.Contract Address)

/-- `is_allowed` of the compliance contract at an address; a missing contract traps. -/
def isAllowedAt : Token.ComplianceClient Address (Fleet Address) := fun env fleet compliance who =>
  match fleet.get compliance with
  | none => none
  | some k =>
    match Compliance.isAllowed env who k with
    | .error _ => none
    | .ok (b, k') => some (b, fleet.set compliance k')

/-- The token and the compliance contracts around it. -/
abbrev World (Address : Type) := Token.Contract Address (Fleet Address)

namespace Network

inductive Label (Address : Type)
  | token (env : Env Address) (op : Token.Op Address)
  | compliance (contract : Address) (env : Env Address) (op : Compliance.Op Address)

end Network

/-- A call of the compliance contract at an address. -/
def callCompliance (w : World Address) (contract : Address) (env : Env Address) (op : Compliance.Op Address) :
    Option (Unit × World Address) :=
  match w.outside.get contract with
  | none => none
  | some k =>
    match (Compliance.compliance Address).step k (env, op) with
    | none => none
    | some (_, k') => some ((), { w with outside := w.outside.set contract k' })

/-- The two contracts as one system of calls. -/
def network (Address : Type) [DecidableEq Address] : System (World Address) (Network.Label Address) Unit where
  step w
    | .token env op => (Token.call isAllowedAt env op).returned w
    | .compliance contract env op => callCompliance w contract env op

/-! ## Questions change no storage -/

theorem isAllowedAt_some {env : Env Address} {x y : Fleet Address} {c a : Address} {b : Bool}
    (h : isAllowedAt env x c a = some (b, y)) :
    ∃ k k', x.get c = some k ∧ Compliance.isAllowed env a k = .ok (b, k') ∧ y = x.set c k' := by
  unfold isAllowedAt at h
  split at h
  · cases h
  · rename_i k hk
    split at h
    · cases h
    · rename_i b' k' hrun
      cases h
      exact ⟨k, k', hk, hrun, rfl⟩

theorem queried_sameStorage {env : Env Address} {x y : Fleet Address} (h : Token.Queried isAllowedAt env x y)
    (c : Address) : (y.get c).map Host.storage = (x.get c).map Host.storage := by
  induction h with
  | refl => rfl
  | ask _ hz ih =>
    obtain ⟨k, k', hk, hrun, rfl⟩ := isAllowedAt_some hz
    rw [← ih, Storage.get_set]
    split
    · rename_i hc
      rw [hc, hk, Option.map_some, Option.map_some, (Compliance.isAllowed_ok hrun).1]
    · rfl

/-- An address that passed in the middle of a call passes at its start. -/
theorem asked_allowed {env : Env Address} {x : Fleet Address} {c a : Address}
    (h : Token.Asked isAllowedAt env x c a) :
    ∃ k k', x.get c = some k ∧ Compliance.isAllowed env a k = .ok (true, k') := by
  obtain ⟨y, z, hy, hz⟩ := h
  obtain ⟨k₁, k₁', hk₁, hrun, -⟩ := isAllowedAt_some hz
  have hsame := queried_sameStorage hy c
  rw [hk₁, Option.map_some] at hsame
  obtain ⟨k, hk, hstorage⟩ := Option.map_eq_some_iff.1 hsame.symm
  have hyes := Compliance.isAllowed_true_iff.1 ⟨k₁', hrun⟩
  rw [← hstorage] at hyes
  obtain ⟨k', hrun'⟩ := Compliance.isAllowed_true_iff.2 hyes
  exact ⟨k, k', hk, hrun'⟩

/-! ## Runs -/

/-- The record of a call in a run. -/
abbrev Network.Record (Address : Type) := Done (World Address) (Network.Label Address) Unit

/-- The balance of `a` in the token. -/
def World.balance (w : World Address) (a : Address) : I128 := Token.balance w.storage a

/-- The call may change the balance of `a`: it is a token call, and the compliance contract stored at it says yes. -/
def Network.Passes (d : Network.Record Address) (a : Address) : Prop :=
  ∃ env op c k k', d.label = .token env op ∧ Token.storedCompliance d.pre.storage d.post.storage = some c ∧
    d.pre.outside.get c = some k ∧ Compliance.isAllowed env a k = .ok (true, k')

/-- The call may lower the balance of `a`: `a` signed it, or a signing spender has an allowance for the difference. -/
def Network.Debits (d : Network.Record Address) (a : Address) : Prop :=
  ∃ env op, d.label = .token env op ∧
    Token.MayDebit env d.pre.storage op a ((d.pre.balance a).val - (d.post.balance a).val)

/-- The compliance contract stored at the call, if it is a token call, has `a` suspended, removed, expired or in a
blocked jurisdiction. -/
def Network.Bars (d : Network.Record Address) (a : Address) : Prop :=
  ∀ env op c k, d.label = .token env op → Token.storedCompliance d.pre.storage d.post.storage = some c →
    d.pre.outside.get c = some k → Compliance.Barred k.storage env.sequence a

/-- A call of a compliance contract changes that contract and nothing else. -/
theorem callCompliance_some {w w' : World Address} {c : Address} {env : Env Address} {op : Compliance.Op Address}
    {u : Unit} (h : callCompliance w c env op = some (u, w')) :
    ∃ k r k', w.outside.get c = some k ∧ Compliance.call env op k = .ok (r, k') ∧
      w' = { w with outside := w.outside.set c k' } := by
  unfold callCompliance at h
  split at h
  · cases h
  · rename_i k hk
    split at h
    · cases h
    · rename_i r k' hcall
      cases h
      exact ⟨k, r, k', hk, Call.returned_eq_some.1 hcall, rfl⟩

/-- What one record of a run says. -/
theorem record_gated {d : Network.Record Address}
    (hd : (network Address).step d.pre d.label = some (d.result, d.post)) :
    (∀ a, d.post.balance a ≠ d.pre.balance a → Network.Passes d a) ∧
      (∀ a, (d.post.balance a).val < (d.pre.balance a).val → Network.Debits d a) ∧
      ∀ md md', d.pre.storage.metadata = some md → d.post.storage.metadata = some md' →
        md.totalSupply.val < md'.totalSupply.val →
        ∃ env op, d.label = .token env op ∧ env.authorized md.admin = true := by
  obtain ⟨pre, l, r, post⟩ := d
  cases l with
  | token env op =>
    have hg := Token.call_gated (Call.returned_eq_some.1 hd)
    refine ⟨fun a hne => ?_, fun a hlt => ⟨env, op, rfl, hg.debited a hlt⟩,
      fun md md' h₁ h₂ hlt => ⟨env, op, rfl, hg.minted md md' h₁ h₂ hlt⟩⟩
    obtain ⟨c, hc, hasked⟩ := hg.moved a hne
    obtain ⟨k, k', hk, hrun⟩ := asked_allowed hasked
    exact ⟨env, op, c, k, k', rfl, hc, hk, hrun⟩
  | compliance c env op =>
    have hsame : post.storage = pre.storage := by
      obtain ⟨k, r', k', -, -, hpost⟩ := callCompliance_some hd
      dsimp only at hpost
      rw [hpost]
    have hbal : ∀ a, post.balance a = pre.balance a := fun a => by rw [World.balance, hsame, ← World.balance]
    refine ⟨fun a hne => absurd (hbal a) hne, ?_, ?_⟩
    · intro a hlt
      rw [hbal] at hlt
      exact absurd hlt (lt_irrefl _)
    · intro md md' h₁ h₂ hlt
      rw [hsame, h₁] at h₂
      cases h₂
      exact absurd hlt (lt_irrefl _)

/-- A barred address does not pass. -/
theorem not_passes_of_bars {d : Network.Record Address} {a : Address} (hbar : Network.Bars d a) :
    ¬ Network.Passes d a := by
  rintro ⟨env, op, c, k, k', hl, hc, hk, hrun⟩
  exact (hbar env op c k hl hc hk).not_allowed ((Compliance.isAllowed_ok hrun).2.1 rfl)

/-- An address barred at every token call of a run keeps its balance. -/
theorem balance_eq_of_bars {w : World Address} {ls : List (Network.Label Address)} {a : Address}
    (hbars : ∀ d ∈ (network Address).trace w ls, Network.Bars d a) :
    ((network Address).run w ls).balance a = w.balance a := by
  refine System.run_eq_of_trace (fun w : World Address => w.balance a) fun d hd => ?_
  by_contra hne
  exact not_passes_of_bars (hbars d hd) ((record_gated (System.mem_trace hd).1).1 a hne)

/-! ## Bars that stay -/

/-- The stored compliance contract has `a` barred at ledger `t`. -/
def World.Bars (w : World Address) (t : U32) (a : Address) : Prop :=
  ∃ md k, w.storage.metadata = some md ∧ w.outside.get md.complianceContract = some k ∧
    Compliance.Barred k.storage t a

/-- The ledger of a call. -/
def Network.Label.sequence : Network.Label Address → U32
  | .token env _ => env.sequence
  | .compliance _ env _ => env.sequence

/-- The call may re-approve `a`: at the stored compliance contract, or by storing one that does not bar it. -/
def Network.Reapproves (d : Network.Record Address) (a : Address) : Prop :=
  match d.label with
  | .token env (.setCompliance _ compliance) =>
    ¬ ∃ k, d.pre.outside.get compliance = some k ∧ Compliance.Barred k.storage env.sequence a
  | .token _ _ => False
  | .compliance contract env op =>
    ∃ md k, d.pre.storage.metadata = some md ∧ md.complianceContract = contract ∧
      d.pre.outside.get contract = some k ∧ Compliance.Reapproves a k.storage (env, op)

section Bars

variable {w w' : World Address} {t t' : U32} {a : Address} {u : Unit}

theorem World.Bars.later (hb : w.Bars t a) (hle : t ≤ t') : w.Bars t' a := by
  obtain ⟨md, k, hmd, hk, hbar⟩ := hb
  exact ⟨md, k, hmd, hk, hbar.later hle⟩

/-- A state that bars `a` at the ledger of a call bars it at the call. -/
theorem World.Bars.record {d : Network.Record Address} (hb : d.pre.Bars d.label.sequence a) : Network.Bars d a := by
  obtain ⟨md, k, hmd, hk, hbar⟩ := hb
  intro env op c k' hl hc hk'
  rw [Token.storedCompliance_of_some hmd] at hc
  cases hc
  rw [hk] at hk'
  cases hk'
  rw [hl] at hbar
  exact hbar

theorem World.Bars.token {env : Env Address} {op : Token.Op Address}
    (hrun : Token.call isAllowedAt env op w = .ok (u, w')) (hb : w.Bars env.sequence a)
    (hno : ¬ Network.Reapproves ⟨w, .token env op, u, w'⟩ a) : w'.Bars env.sequence a := by
  obtain ⟨md, k, hmd, hk, hbar⟩ := hb
  have hg := Token.call_gated hrun
  have hsame := queried_sameStorage hg.queried
  -- questions leave the storage of every compliance contract as it was
  have hkept : ∀ c k₁, w.outside.get c = some k₁ → Compliance.Barred k₁.storage env.sequence a →
      ∃ k₂, w'.outside.get c = some k₂ ∧ Compliance.Barred k₂.storage env.sequence a := by
    intro c k₁ hk₁ hbar₁
    have hc := hsame c
    rw [hk₁, Option.map_some] at hc
    obtain ⟨k₂, hk₂, hstorage⟩ := Option.map_eq_some_iff.1 hc
    exact ⟨k₂, hk₂, hstorage ▸ hbar₁⟩
  obtain ⟨md', hmd', hpointed⟩ := hg.pointed md hmd
  rcases hpointed with hsame' | ⟨admin, rfl⟩
  · obtain ⟨k', hk', hbar'⟩ := hkept _ k hk hbar
    exact ⟨md', k', hmd', hsame' ▸ hk', hbar'⟩
  · obtain ⟨k₁, hk₁, hbar₁⟩ := not_not.1 hno
    obtain ⟨k', hk', hbar'⟩ := hkept _ k₁ hk₁ hbar₁
    exact ⟨md', k', hmd', hk', hbar'⟩

theorem World.Bars.compliance {c : Address} {env : Env Address} {op : Compliance.Op Address}
    (hstep : callCompliance w c env op = some (u, w')) (hb : w.Bars t a)
    (hno : ¬ Network.Reapproves ⟨w, .compliance c env op, u, w'⟩ a) : w'.Bars t a := by
  obtain ⟨md, k, hmd, hk, hbar⟩ := hb
  obtain ⟨k₁, r, k₂, hk₁, hcall, rfl⟩ := callCompliance_some hstep
  by_cases hc : md.complianceContract = c
  · rw [hc, hk₁] at hk
    cases hk
    refine ⟨md, k₂, hmd, ?_, ?_⟩
    · rw [hc]
      exact Storage.get_set_self _ _ _
    · exact Compliance.call_barred hcall (fun h => hno ⟨md, k, hmd, hc, hk₁, h⟩) hbar
  · exact ⟨md, k, hmd, (Storage.get_set_of_ne _ _ hc).trans hk, hbar⟩

/-- **One call** that does not re-approve `a` leaves it barred. -/
theorem World.Bars.step {l : Network.Label Address} (hb : w.Bars l.sequence a)
    (hstep : (network Address).step w l = some (u, w')) (hno : ¬ Network.Reapproves ⟨w, l, u, w'⟩ a) :
    w'.Bars l.sequence a := by
  cases l with
  | token env op => exact hb.token (Call.returned_eq_some.1 hstep) hno
  | compliance c env op => exact hb.compliance hstep hno

/-- **A part of a run** in which no call re-approves `a` bars it at every call. -/
theorem World.Bars.run {ls : List (Network.Label Address)} (hb : w.Bars t a)
    (htime : (t :: ls.map Network.Label.sequence).Pairwise (· ≤ ·))
    (hno : ∀ d ∈ (network Address).trace w ls, ¬ Network.Reapproves d a) :
    ∀ d ∈ (network Address).trace w ls, Network.Bars d a := by
  induction ls generalizing w t with
  | nil =>
    intro d hd
    cases hd
  | cons l ls ih =>
    rw [List.map_cons, List.pairwise_cons] at htime
    have hnow := hb.later (htime.1 _ List.mem_cons_self)
    cases hstep : (network Address).step w l with
    | none =>
      rw [System.trace_cons_of_none _ hstep] at hno ⊢
      exact ih hnow htime.2 hno
    | some p =>
      obtain ⟨u, w'⟩ := p
      rw [System.trace_cons_of_some _ hstep] at hno ⊢
      intro d hd
      rcases List.mem_cons.1 hd with rfl | hd
      · exact hnow.record
      · have hnext := hnow.step hstep (hno _ List.mem_cons_self)
        exact ih hnext htime.2 (fun d hd => hno d (List.mem_cons_of_mem _ hd)) d hd

end Bars

/-- **The KYC gate over whole runs.** Whatever compliance contracts there are at the start and however the calls of a
token and of them interleave: a balance changes only in a token call at which the stored compliance contract allows
its owner; it goes down only when the owner signed or a signing spender had an unexpired allowance for it; the supply
goes up only when the admin signed. An address that the stored compliance contract bars at every token call of a part
of the run keeps its balance over that part; and one that it bars at some ledger keeps its balance from there, as long
as no call re-approves it. -/
theorem kyc_gate (fleet : Fleet Address) (ls : List (Network.Label Address)) :
    let w := (network Address).run (Token.Contract.fresh Address fleet) ls
    (∀ d ∈ (network Address).trace (Token.Contract.fresh Address fleet) ls,
      (∀ a, d.post.balance a ≠ d.pre.balance a → Network.Passes d a) ∧
        (∀ a, (d.post.balance a).val < (d.pre.balance a).val → Network.Debits d a) ∧
        ∀ md md', d.pre.storage.metadata = some md → d.post.storage.metadata = some md' →
          md.totalSupply.val < md'.totalSupply.val →
          ∃ env op, d.label = .token env op ∧ env.authorized md.admin = true) ∧
      ∀ (ls' : List (Network.Label Address)) (a : Address),
        ((∀ d ∈ (network Address).trace w ls', Network.Bars d a) →
          ((network Address).run w ls').balance a = w.balance a) ∧
        ∀ t, w.Bars t a → (t :: ls'.map Network.Label.sequence).Pairwise (· ≤ ·) →
          (∀ d ∈ (network Address).trace w ls', ¬ Network.Reapproves d a) →
          ((network Address).run w ls').balance a = w.balance a := by
  intro w
  refine ⟨fun d hd => record_gated (System.mem_trace hd).1, fun ls' a => ⟨balance_eq_of_bars, ?_⟩⟩
  intro t hb htime hno
  exact balance_eq_of_bars (hb.run htime hno)

end StellarRwa
