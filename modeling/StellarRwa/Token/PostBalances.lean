import StellarRwa.Lockup

/-!
# The balances in transfer events

A transfer event carries the balances of both sides after the move, computed from local variables. They are the stored
ones for every entry of `transfer` and `transfer_batch`, self-transfers included, and for `transfer_from` between two
addresses. `transfer_from` to the owner itself publishes its balance after the debit although the credit has followed
(`post_balances_iff`).
-/

namespace StellarRwa.Token

open Lib

variable {Address X : Type} [DecidableEq Address] {client : ComplianceClient Address X} {env : Env Address}
  {h h' : Contract Address X}

/-- A transfer event that carries the balances of both sides in `s`. -/
def Truthful (s : State Address) (e : Event Address) : Prop :=
  ∃ from_ to_ amount, e = .transfer from_ to_ amount (balance s from_) (balance s to_)

/-- The entry points that publish transfer events. -/
def Op.transfers : Op Address → Bool
  | .transfer .. | .transferBatch .. | .transferFrom .. => true
  | _ => false

/-- The call cut off after its first `n` entries; only a batch has more than one. -/
def Op.firstEntries (n : ℕ) : Op Address → Op Address
  | .transferBatch from_ entries => .transferBatch from_ (entries.take n)
  | op => op

/-- The events that a call published. -/
def published (d : Done (Contract Address X) (Label Address X) Unit) : List (Event Address) :=
  d.post.events.drop d.pre.events.length

/-- Each transfer event of the call carries the balances stored right after the move of its entry, which is where the
call cut off after that entry ends. -/
def PostBalances (client : ComplianceClient Address X) (d : Done (Contract Address X) (Label Address X) Unit) : Prop :=
  ∀ env op, d.label = .call env op → op.transfers = true → ∀ i e, (published d)[i]? = some e →
    ∃ h, call client env (op.firstEntries (i + 1)) d.pre = .ok ((), h) ∧ Truthful h.storage e

/-- The call spends an allowance of `a` on `a` itself. -/
def Label.spendsOnOwner (l : Label Address X) : Prop :=
  ∃ env spender a amount, l = .call env (.transferFrom spender a a amount)

/-! ## One move -/

section Move

theorem truthful_iff {s : State Address} {from_ to_ : Address} {amount newFromBal newToBal : I128} :
    Truthful s (.transfer from_ to_ amount newFromBal newToBal) ↔
      newFromBal = balance s from_ ∧ newToBal = balance s to_ := by
  constructor
  · rintro ⟨_, _, _, he⟩
    rw [Event.transfer.injEq] at he
    obtain ⟨rfl, rfl, -, hfrom, hto⟩ := he
    exact ⟨hfrom, hto⟩
  · rintro ⟨rfl, rfl⟩
    exact ⟨from_, to_, amount, rfl⟩

variable {from_ to_ spender : Address} {amount : I128} {u : Unit}

theorem balance_moved (s : State Address) (j : Address) (x : I128) (k : Address) (y : I128) (a : Address) :
    balance (s.moved j x k y) a = if a = k then y else if a = j then x else balance s a := by
  unfold balance State.moved
  rw [Book.balance_set, Book.balance_set]

theorem sendTo_truthful {md : AssetMetadata Address} (hrun : sendTo client env md from_ to_ amount h = .ok (u, h')) :
    ∃ e, h'.events = h.events ++ [e] ∧ Truthful h'.storage e := by
  obtain ⟨x, -, -, ⟨rfl, hr⟩ | ⟨hne, newFromBal, newToBal, -, -, hr⟩⟩ := sendTo_ok.1 hrun
  · cases hr
    exact ⟨_, rfl, truthful_iff.2 ⟨rfl, rfl⟩⟩
  · cases hr
    refine ⟨_, rfl, truthful_iff.2 ?_⟩
    rw [balance_moved, balance_moved, if_neg hne, if_pos rfl, if_pos rfl]
    exact ⟨rfl, rfl⟩

theorem transfer_truthful (hrun : transfer client env from_ to_ amount h = .ok (u, h')) :
    ∃ e, h'.events = h.events ++ [e] ∧ Truthful h'.storage e := by
  obtain ⟨-, -, md, -, -, x, -, hsend⟩ := transfer_ok.1 hrun
  obtain ⟨e, he, htrue⟩ := sendTo_truthful hsend
  exact ⟨e, he, htrue⟩

/-- In the name of the owner the event is truthful exactly when the owner is not the recipient. -/
theorem transferFrom_truthful_iff (hrun : transferFrom client env spender from_ to_ amount h = .ok (u, h')) :
    ∃ e, h'.events = h.events ++ [e] ∧ (Truthful h'.storage e ↔ from_ ≠ to_) := by
  obtain ⟨-, hamount, md, -, -, x, -, y, -, -, -, newFromBal, newToBal, left, -, hto, -, hr⟩ := transferFrom_ok.1 hrun
  cases hr
  have hmoved : ∀ a, balance { h.storage.moved from_ newFromBal to_ newToBal with
      allowance := h.storage.allowance.set (from_, spender)
        ⟨left, (currentAllowance h.storage from_ spender).expirationLedger⟩ } a
      = if a = to_ then newToBal else if a = from_ then newFromBal else balance h.storage a := balance_moved _ _ _ _ _
  refine ⟨_, rfl, ?_⟩
  rw [truthful_iff, hmoved, hmoved, if_pos rfl]
  constructor
  · rintro ⟨hfrom, -⟩ rfl
    -- the credit has followed the debit that the event shows
    rw [if_pos rfl] at hfrom
    rw [Book.balance_set_self, ← hfrom] at hto
    omega
  · intro hne
    rw [if_neg hne, if_pos rfl]
    exact ⟨rfl, rfl⟩

end Move

/-! ## One call -/

/-- The loop of `transfer_batch`: each event is truthful where the loop over the entries so far ends. -/
theorem sends_truthful {md : AssetMetadata Address} {from_ : Address} {entries : List (Address × I128)} {u : Unit}
    (hrun : Call.forEach entries (fun p => do
      checkAmount p.2
      sendTo client env md from_ p.1 p.2) h = .ok (u, h')) :
    ∃ es, h'.events = h.events ++ es ∧ ∀ i e, es[i]? = some e →
      ∃ k, Call.forEach (entries.take (i + 1)) (fun p => do
        checkAmount p.2
        sendTo client env md from_ p.1 p.2) h = .ok ((), k) ∧ Truthful k.storage e := by
  induction entries generalizing h with
  | nil =>
    rw [Call.forEach_nil, Call.pure_ok] at hrun
    cases hrun
    exact ⟨[], (List.append_nil _).symm, fun i e he => by cases he⟩
  | cons p entries ih =>
    rw [Call.forEach_cons, Call.bind_ok] at hrun
    obtain ⟨_, h₁, hround, hloop⟩ := hrun
    have hsend := hround
    simp only [Call.bind_ok, checkAmount_ok] at hsend
    obtain ⟨_, _, ⟨-, e⟩, hsend⟩ := hsend
    cases e
    obtain ⟨e₁, he₁, htrue⟩ := sendTo_truthful hsend
    obtain ⟨es, hes, hrest⟩ := ih hloop
    refine ⟨e₁ :: es, by rw [hes, he₁, List.append_assoc, List.singleton_append], fun i e he => ?_⟩
    cases i with
    | zero =>
      cases he
      refine ⟨h₁, ?_, htrue⟩
      rw [List.take_succ_cons, List.take_zero, Call.forEach_cons, Call.bind_ok]
      exact ⟨(), h₁, hround, rfl⟩
    | succ i =>
      obtain ⟨k, hk, hktrue⟩ := hrest i e he
      refine ⟨k, ?_, hktrue⟩
      rw [List.take_succ_cons, Call.forEach_cons, Call.bind_ok]
      exact ⟨(), h₁, hround, hk⟩

theorem transferBatch_truthful {from_ : Address} {entries : List (Address × I128)} {u : Unit}
    (hrun : transferBatch client env from_ entries h = .ok (u, h')) :
    ∃ es, h'.events = h.events ++ es ∧ ∀ i e, es[i]? = some e →
      ∃ k, transferBatch client env from_ (entries.take (i + 1)) h = .ok ((), k) ∧ Truthful k.storage e := by
  obtain ⟨hsigned, md, hmd, hpaused, x, hx, hloop⟩ := transferBatch_ok.1 hrun
  obtain ⟨es, hes, htrue⟩ := sends_truthful hloop
  refine ⟨es, hes, fun i e he => ?_⟩
  obtain ⟨k, hk, hktrue⟩ := htrue i e he
  exact ⟨k, transferBatch_ok.2 ⟨hsigned, md, hmd, hpaused, x, hx, hk⟩, hktrue⟩

section Record

variable {op : Op Address} {es : List (Event Address)} {e : Event Address} {u : Unit}

/-- A call that publishes one event. -/
theorem postBalances_single (hrun : call client env op h = .ok (u, h')) (hop : op.transfers = true)
    (hfirst : op.firstEntries 1 = op) (he : h'.events = h.events ++ [e]) :
    PostBalances client ⟨h, .call env op, u, h'⟩ ↔ Truthful h'.storage e := by
  have hpub : published (⟨h, .call env op, u, h'⟩ : Done (Contract Address X) (Label Address X) Unit) = [e] := by
    rw [published, he, List.drop_left]
  constructor
  · intro hpost
    obtain ⟨k, hk, htrue⟩ := hpost env op rfl hop 0 e (by rw [hpub]; rfl)
    rw [hfirst, hrun] at hk
    cases hk
    exact htrue
  · rintro htrue env' op' hl - i e' he'
    cases hl
    rw [hpub] at he'
    obtain ⟨rfl, rfl⟩ : i = 0 ∧ e = e' := by
      cases i with
      | zero => exact ⟨rfl, Option.some.inj he'⟩
      | succ i => cases he'
    exact ⟨h', hfirst.symm ▸ hrun, htrue⟩

/-- **One call**: its events carry the stored balances exactly when it does not spend an allowance of an address on
that address itself. -/
theorem call_postBalances_iff {d : Done (Contract Address X) (Label Address X) Unit}
    (hstep : (token client).step d.pre d.label = some (d.result, d.post)) :
    PostBalances client d ↔ ¬ d.label.spendsOnOwner := by
  obtain ⟨h, l, u, h'⟩ := d
  cases l with
  | others x => exact iff_of_true (fun env op hl => by cases hl) (by rintro ⟨_, _, _, _, hl⟩; cases hl)
  | call env op =>
    have hrun : call client env op h = .ok (u, h') := Call.returned_eq_some.1 hstep
    by_cases hop : op.transfers = true
    · cases op <;> first | cases hop; done | skip
      case transfer from_ to_ amount =>
        obtain ⟨e, he, htrue⟩ := transfer_truthful hrun
        rw [postBalances_single hrun rfl rfl he]
        exact iff_of_true htrue (by rintro ⟨_, _, _, _, hl⟩; cases hl)
      case transferBatch from_ entries =>
        obtain ⟨es, hes, htrue⟩ := transferBatch_truthful hrun
        refine iff_of_true ?_ (by rintro ⟨_, _, _, _, hl⟩; cases hl)
        intro env' op' hl _ i e he
        cases hl
        rw [published, hes, List.drop_left] at he
        exact htrue i e he
      case transferFrom spender from_ to_ amount =>
        obtain ⟨e, he, htrue⟩ := transferFrom_truthful_iff hrun
        rw [postBalances_single hrun rfl rfl he, htrue, not_iff_not]
        constructor
        · rintro rfl
          exact ⟨env, spender, from_, amount, rfl⟩
        · rintro ⟨_, _, _, _, hl⟩
          cases hl
          rfl
    · refine iff_of_true ?_ ?_
      · intro env' op' hl hop'
        cases hl
        exact absurd hop' hop
      · rintro ⟨_, _, _, _, hl⟩
        cases hl
        exact hop rfl

end Record

/-- **The balances in transfer events.** In every run, the transfer events of a call carry the balances stored right
after the moves they tell of, if and only if the call is not a `transfer_from` whose owner is its recipient. -/
theorem post_balances_iff (client : ComplianceClient Address X) (x : X) (ls : List (Label Address X)) :
    ∀ d ∈ (token client).trace (Contract.fresh Address x) ls, PostBalances client d ↔ ¬ d.label.spendsOnOwner :=
  fun _ hd => call_postBalances_iff (System.mem_trace hd).1

/-- 1 holds 100 and lets 2 spend 50. -/
def allowedRun : List (Label ℕ (Fleet ℕ)) :=
  [.call (Env.signed 10) (.initializeToken 0 [65] [65] [65] 100 0 9 [65] 0),
    .call (Env.signed 10) (.mint 0 1 100), .call (Env.signed 10) (.approve 1 2 50 30)]

/-- 2 spends 30 of 1 on 0. -/
def otherSpending : Label ℕ (Fleet ℕ) := .call (Env.signed 20) (.transferFrom 2 1 0 30)

/-- The event of that call carries the stored balances. -/
theorem post_balances_other :
    ∃ d ∈ (token isAllowedAt).trace (Contract.fresh ℕ (lockupWorld mintedRun).outside) (allowedRun ++ [otherSpending]),
      d.label = otherSpending ∧ PostBalances isAllowedAt d := by
  have hsome : ((token isAllowedAt).step ((token isAllowedAt).run
      (Contract.fresh ℕ (lockupWorld mintedRun).outside) allowedRun) otherSpending).isSome = true := by decide +kernel
  obtain ⟨⟨u, h'⟩, hstep⟩ := Option.isSome_iff_exists.1 hsome
  refine ⟨_, System.mem_trace_last hstep, rfl, ?_⟩
  refine (post_balances_iff isAllowedAt _ _ _ (System.mem_trace_last hstep)).2 ?_
  rintro ⟨_, _, _, _, hl⟩
  cases hl

/-- 2 spends 30 of 1 on 1. -/
def ownerSpending : Label ℕ (Fleet ℕ) := .call (Env.signed 20) (.transferFrom 2 1 1 30)

/-- The event shows a balance of 70, and 100 are stored. -/
theorem post_balance_astray :
    let h₀ : Contract ℕ (Fleet ℕ) := Contract.fresh ℕ (lockupWorld mintedRun).outside
    (¬ ∀ d ∈ (token isAllowedAt).trace h₀ (allowedRun ++ [ownerSpending]), PostBalances isAllowedAt d) ∧
      ((token isAllowedAt).run h₀ (allowedRun ++ [ownerSpending])).events.getLast? = some (.transfer 1 1 30 70 100) ∧
      balance ((token isAllowedAt).run h₀ (allowedRun ++ [ownerSpending])).storage 1 = 100 := by
  intro h₀
  refine ⟨fun hall => ?_, by decide +kernel, by decide +kernel⟩
  have hsome : ((token isAllowedAt).step ((token isAllowedAt).run h₀ allowedRun) ownerSpending).isSome = true := by
    decide +kernel
  obtain ⟨⟨u, h'⟩, hstep⟩ := Option.isSome_iff_exists.1 hsome
  exact (call_postBalances_iff hstep).1 (hall _ (System.mem_trace_last hstep)) ⟨_, _, _, _, rfl⟩

end StellarRwa.Token
