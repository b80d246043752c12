import StellarRwa.Token.Batches
import StellarRwa.Fuzz.Harness
import Mathlib.Algebra.BigOperators.Fin
import Mathlib.Algebra.Order.BigOperators.Group.Finset

/-!
# The fuzz target of `transfer_batch`

`fuzz/fuzz_targets/asset_token_transfer_batch.rs` carries its own `transfer_batch` over an array of balances and asserts
on its results. The contract refines it: on a token that holds the balances of the array, whose compliance contract
answers as the array `compliant` says, both succeed together and then agree on every balance, and both fail together
with the same error (`transferBatch_mirrored`). And no input of the fuzz target makes one of its assertions fail or one
of its sums overflow (`checkOne_passes`).
-/

namespace StellarRwa.Fuzz

open Lib

/-- `ACCOUNTS`. -/
abbrev accounts : Nat := 8

/-- `MAX_ENTRIES`. -/
abbrev maxEntries : Nat := 16

/-- `i128::MAX as u128 / ACCOUNTS as u128`. -/
abbrev balanceCap : Int := 170141183460469231731687303715884105727 / 8

/-- `u128`. -/
abbrev U128 := MInt 0 340282366920938463463374607431768211455

/-- The errors of the fuzz target. -/
inductive Error
  | paused | senderNotCompliant | recipientNotCompliant | invalidAmount | insufficientBalance | overflow
deriving DecidableEq, Repr

/-- The error of the contract that the fuzz target means. -/
def Error.code : Error → Token.Error
  | .paused => .paused
  | .senderNotCompliant => .senderNotCompliant
  | .recipientNotCompliant => .recipientNotCompliant
  | .invalidAmount => .invalidAmount
  | .insufficientBalance => .insufficientBalance
  | .overflow => .overflow

/-- The in-memory ledger. The source has `ACCOUNTS` accounts, here any type `K` of them. -/
structure Ledger (K : Type) where
  balances : K → I128
  compliant : K → Bool
  paused : Bool

section Mirror

variable {K : Type} [DecidableEq K]

/-- One round of the loop of `transfer_batch`. -/
def move (from_ : K) (next : Ledger K) (entry : K × I128) : Except (Fault Error) (Ledger K) :=
  if entry.2 ≤ 0 then .error (.error .invalidAmount)
  else if next.compliant entry.1 = false then .error (.error .recipientNotCompliant)
  else if next.balances from_ < entry.2 then .error (.error .insufficientBalance)
  else if from_ = entry.1 then .ok next
  else do
    let newTo ← okOr ((next.balances entry.1).checkedAdd entry.2) (.error .overflow)
    let newFrom ← okOr ((next.balances from_).checkedSub entry.2) .trap
    pure { next with balances := Function.update (Function.update next.balances from_ newFrom) entry.1 newTo }

def moves (from_ : K) : Ledger K → List (K × I128) → Except (Fault Error) (Ledger K)
  | next, [] => .ok next
  | next, entry :: transfers => do
    let next' ← move from_ next entry
    moves from_ next' transfers

def transferBatch (ledger : Ledger K) (from_ : K) (transfers : List (K × I128)) : Except (Fault Error) (Ledger K) :=
  if ledger.paused = true then .error (.error .paused)
  else if ledger.compliant from_ = false then .error (.error .senderNotCompliant)
  else moves from_ ledger transfers

end Mirror

/-! ## The fuzz target -/

inductive EdgeAmount
  | zero | one | minusOne | min | max
  | raw (v : I128)
deriving DecidableEq, Repr

def EdgeAmount.value : EdgeAmount → I128
  | .zero => 0
  | .one => 1
  | .minusOne => ⟨-1, by decide, by decide⟩
  | .min => ⟨-170141183460469231731687303715884105728, by decide, by decide⟩
  | .max => ⟨170141183460469231731687303715884105727, by decide, by decide⟩
  | .raw v => v

structure Entry where
  to_ : UInt8
  amount : EdgeAmount
deriving DecidableEq, Repr

structure Input where
  paused : Bool
  compliant : Fin accounts → Bool
  balances : Fin accounts → U128
  from_ : UInt8
  transfers : List Entry

/-- `n as usize % ACCOUNTS`. -/
def account (n : UInt8) : Fin accounts := Fin.ofNat accounts n.toNat

/-- `(b % BALANCE_CAP) as i128`. -/
def capped (b : U128) : I128 :=
  ⟨b.val % balanceCap, le_trans (by decide) (Int.emod_nonneg b.val (by decide)),
    le_trans (Int.emod_lt_of_pos b.val (by decide)).le (by decide)⟩

def Input.ledger (input : Input) : Ledger (Fin accounts) where
  balances i := capped (input.balances i)
  compliant := input.compliant
  paused := input.paused

def Input.entries (input : Input) : List (Fin accounts × I128) :=
  (input.transfers.take maxEntries).map fun e => (account e.to_, e.amount.value)

def supply (balances : Fin accounts → I128) : Except String I128 := sumFrom 0 (List.ofFn balances)

/-- `check_one`: the text of the panic, if there is one. -/
def checkOne (input : Input) : Except String Unit :=
  match transferBatch input.ledger (account input.from_) input.entries with
  | .error .trap => .error "attempt to subtract with overflow"
  | .error (.error _) => .ok ()
  | .ok after => do
    assert (input.ledger.paused = false) "batch succeeded while paused"
    assert (∀ e ∈ input.entries, 0 < e.2) "batch succeeded with a non-positive amount"
    assert (∀ e ∈ input.entries, input.ledger.compliant e.1 = true) "batch succeeded with a non-compliant recipient"
    assert (∀ i, 0 ≤ after.balances i) "batch produced a negative balance"
    let supplyBefore ← supply input.ledger.balances
    let supplyAfter ← supply after.balances
    assert (supplyBefore = supplyAfter) "transfer_batch changed total supply"
    if ∀ e ∈ input.entries, e.1 = account input.from_ then
      assert (after.balances = input.ledger.balances) "self-transfer batch changed balances"
    else pure ()

/-! ## One entry -/

section Entry

variable {K : Type} [DecidableEq K] {ledger next : Ledger K} {from_ : K} {entry : K × I128}

/-- The ends of a round. -/
inductive Outcome (from_ : K) (ledger : Ledger K) (entry : K × I128) : Except (Fault Error) (Ledger K) → Prop
  | amount (hamount : entry.2.val ≤ 0) : Outcome from_ ledger entry (.error (.error .invalidAmount))
  | recipient (hamount : 0 < entry.2.val) (hrefused : ledger.compliant entry.1 = false) :
    Outcome from_ ledger entry (.error (.error .recipientNotCompliant))
  | funds (hamount : 0 < entry.2.val) (hallowed : ledger.compliant entry.1 = true)
    (hfunds : (ledger.balances from_).val < entry.2.val) :
    Outcome from_ ledger entry (.error (.error .insufficientBalance))
  | self (hamount : 0 < entry.2.val) (hallowed : ledger.compliant entry.1 = true)
    (hfunds : entry.2.val ≤ (ledger.balances from_).val) (hself : from_ = entry.1) :
    Outcome from_ ledger entry (.ok ledger)
  | overflow (hamount : 0 < entry.2.val) (hallowed : ledger.compliant entry.1 = true)
    (hfunds : entry.2.val ≤ (ledger.balances from_).val) (hne : from_ ≠ entry.1)
    (hover : (ledger.balances entry.1).checkedAdd entry.2 = none) :
    Outcome from_ ledger entry (.error (.error .overflow))
  | moved {newFrom newTo : I128} (hamount : 0 < entry.2.val) (hallowed : ledger.compliant entry.1 = true)
    (hfunds : entry.2.val ≤ (ledger.balances from_).val) (hne : from_ ≠ entry.1)
    (hfrom : newFrom.val = (ledger.balances from_).val - entry.2.val)
    (hto : newTo.val = (ledger.balances entry.1).val + entry.2.val) :
    Outcome from_ ledger entry (.ok { ledger with
      balances := Function.update (Function.update ledger.balances from_ newFrom) entry.1 newTo })

/-- A round ends in one of these ways; the subtraction does not trap, since it follows the check of the balance. -/
theorem move_outcome (from_ : K) (ledger : Ledger K) (entry : K × I128) :
    Outcome from_ ledger entry (move from_ ledger entry) := by
  by_cases hamount : entry.2.val ≤ 0
  · rw [move, if_pos (by exact hamount)]
    exact .amount hamount
  · have hpos := not_le.1 hamount
    rw [move, if_neg (by exact hamount)]
    cases hallowed : ledger.compliant entry.1 with
    | false => exact .recipient hpos hallowed
    | true =>
      rw [if_neg (by simp)]
      by_cases hfunds : (ledger.balances from_).val < entry.2.val
      · rw [if_pos (by exact hfunds)]
        exact .funds hpos hallowed hfunds
      · rw [if_neg (by exact hfunds)]
        by_cases hself : from_ = entry.1
        · rw [if_pos hself]
          exact .self hpos hallowed (not_lt.1 hfunds) hself
        · rw [if_neg hself]
          cases hto : (ledger.balances entry.1).checkedAdd entry.2 with
          | none => exact .overflow hpos hallowed (not_lt.1 hfunds) hself hto
          | some newTo =>
            have hlo := (ledger.balances from_).le_hi
            obtain ⟨newFrom, hfrom⟩ : ∃ v : I128, v.val = (ledger.balances from_).val - entry.2.val :=
              MInt.exists_val (by omega) (by omega)
            rw [bind_of_ok (okOr_ok.2 rfl), bind_of_ok (okOr_ok.2 (MInt.checkedSub_eq_some.2 hfrom))]
            exact .moved hpos hallowed (not_lt.1 hfunds) hself hfrom (MInt.checkedAdd_eq_some.1 hto)

/-- What an accepted entry passed, and what it did. -/
theorem move_ok (hmove : move from_ ledger entry = .ok next) :
    0 < entry.2.val ∧ ledger.compliant entry.1 = true ∧ entry.2.val ≤ (ledger.balances from_).val ∧
      ((from_ = entry.1 ∧ next = ledger) ∨
        (from_ ≠ entry.1 ∧ ∃ newFrom newTo : I128, newFrom.val = (ledger.balances from_).val - entry.2.val ∧
          newTo.val = (ledger.balances entry.1).val + entry.2.val ∧
          next = { ledger with
            balances := Function.update (Function.update ledger.balances from_ newFrom) entry.1 newTo })) := by
  have houtcome := hmove ▸ move_outcome from_ ledger entry
  cases houtcome with
  | self hamount hallowed hfunds hself => exact ⟨hamount, hallowed, hfunds, .inl ⟨hself, rfl⟩⟩
  | moved hamount hallowed hfunds hne hfrom hto =>
    exact ⟨hamount, hallowed, hfunds, .inr ⟨hne, _, _, hfrom, hto, rfl⟩⟩

/-! ## A batch -/

variable {transfers : List (K × I128)}

/-- What an accepted batch passed and kept. -/
structure Accepted (from_ : K) (transfers : List (K × I128)) (ledger next : Ledger K) : Prop where
  positive : ∀ e ∈ transfers, 0 < e.2.val
  allowed : ∀ e ∈ transfers, ledger.compliant e.1 = true
  compliant : next.compliant = ledger.compliant
  nonneg : (∀ k, 0 ≤ (ledger.balances k).val) → ∀ k, 0 ≤ (next.balances k).val
  self : (∀ e ∈ transfers, e.1 = from_) → next = ledger

omit [DecidableEq K] in
theorem Accepted.none : Accepted from_ [] ledger ledger :=
  ⟨by simp, by simp, rfl, fun h => h, fun _ => rfl⟩

theorem Accepted.cons {middle : Ledger K} (hmove : move from_ ledger entry = .ok middle)
    (hrest : Accepted from_ transfers middle next) : Accepted from_ (entry :: transfers) ledger next := by
  obtain ⟨hamount, hallowed, hfunds, hcase⟩ := move_ok hmove
  have hcompliant : middle.compliant = ledger.compliant := by
    rcases hcase with ⟨-, rfl⟩ | ⟨-, _, _, -, -, rfl⟩
    · rfl
    · rfl
  refine ⟨?_, ?_, hrest.compliant.trans hcompliant, fun hpos => hrest.nonneg ?_, fun hself => ?_⟩
  · simpa [hamount] using hrest.positive
  · simpa [hallowed, hcompliant] using hrest.allowed
  · rcases hcase with ⟨-, rfl⟩ | ⟨-, newFrom, newTo, hfrom, hto, rfl⟩
    · exact hpos
    · intro k
      have hk := hpos k
      have hcredited := hpos entry.1
      simp only [Function.update_apply]
      split
      · omega
      · split <;> omega
  · rcases hcase with ⟨-, rfl⟩ | ⟨hne, -⟩
    · exact hrest.self fun e he => hself e (List.mem_cons_of_mem _ he)
    · exact absurd (hself entry List.mem_cons_self).symm hne

theorem moves_accepted (hmoves : moves from_ ledger transfers = .ok next) :
    Accepted from_ transfers ledger next := by
  induction transfers generalizing ledger with
  | nil =>
    cases hmoves
    exact .none
  | cons entry transfers ih =>
    rw [moves, bind_ok] at hmoves
    obtain ⟨middle, hmove, hrest⟩ := hmoves
    exact .cons hmove (ih hrest)

theorem transferBatch_ok : transferBatch ledger from_ transfers = .ok next ↔
    ledger.paused = false ∧ ledger.compliant from_ = true ∧ moves from_ ledger transfers = .ok next := by
  unfold transferBatch
  split
  · rename_i hpaused
    simp [hpaused]
  · rename_i hpaused
    split
    · rename_i hsender
      simp [hsender]
    · rename_i hsender
      simp [hpaused, hsender]

theorem moves_no_trap : moves from_ ledger transfers ≠ .error .trap := by
  induction transfers generalizing ledger with
  | nil => simp [moves]
  | cons entry transfers ih =>
    rw [moves]
    cases hmove : move from_ ledger entry with
    | error f =>
      rw [bind_of_error rfl]
      have houtcome := hmove ▸ move_outcome from_ ledger entry
      cases houtcome <;> simp
    | ok middle =>
      rw [bind_of_ok rfl]
      exact ih

theorem transferBatch_no_trap : transferBatch ledger from_ transfers ≠ .error .trap := by
  unfold transferBatch
  split
  · simp
  · split
    · simp
    · exact moves_no_trap

/-! ## Conservation -/

variable [Fintype K]

/-- The sum of all balances. -/
def total (balances : K → I128) : Int := ∑ k, (balances k).val

theorem total_update (balances : K → I128) (k : K) (v : I128) :
    total (Function.update balances k v) = total balances - (balances k).val + v.val := by
  have hrest := Finset.sum_eq_add_sum_sdiff_singleton_of_mem (Finset.mem_univ k) fun j => (balances j).val
  have hupdate :
      (fun j => (Function.update balances k v j).val) = Function.update (fun j => (balances j).val) k v.val :=
    funext fun j => Function.apply_update (fun _ => MInt.val) balances k v j
  simp only [total, hupdate, Finset.sum_update_of_mem (Finset.mem_univ k)]
  omega

theorem move_total (hmove : move from_ ledger entry = .ok next) : total next.balances = total ledger.balances := by
  obtain ⟨-, -, -, ⟨-, rfl⟩ | ⟨hne, newFrom, newTo, hfrom, hto, rfl⟩⟩ := move_ok hmove
  · rfl
  · rw [total_update, total_update, Function.update_of_ne (Ne.symm hne)]
    omega

theorem moves_total (hmoves : moves from_ ledger transfers = .ok next) :
    total next.balances = total ledger.balances := by
  induction transfers generalizing ledger with
  | nil =>
    cases hmoves
    rfl
  | cons entry transfers ih =>
    rw [moves, bind_ok] at hmoves
    obtain ⟨middle, hmove, hrest⟩ := hmoves
    exact (ih hrest).trans (move_total hmove)

end Entry

/-! ## No input fails an assertion -/

section Target

variable {balances : Fin accounts → I128}

theorem supply_ok (hpos : ∀ i, 0 ≤ (balances i).val)
    (hfits : total balances ≤ 170141183460469231731687303715884105727) :
    ∃ s, supply balances = .ok s ∧ s.val = total balances := by
  have hsum : ((List.ofFn balances).map MInt.val).sum = total balances := by
    rw [List.map_ofFn, List.sum_ofFn]
    rfl
  have hfits' : (0 : I128).val + ((List.ofFn balances).map MInt.val).sum ≤ 170141183460469231731687303715884105727 := by
    rw [hsum, MInt.val_zero, zero_add]
    exact hfits
  obtain ⟨s, hs, hval⟩ := sumFrom_ok (List.forall_mem_ofFn_iff.2 hpos) le_rfl hfits'
  exact ⟨s, hs, by rw [hval, hsum, MInt.val_zero, zero_add]⟩

theorem capped_nonneg (b : U128) : 0 ≤ (capped b).val := Int.emod_nonneg b.val (by decide)

theorem capped_lt (b : U128) : (capped b).val < balanceCap := Int.emod_lt_of_pos b.val (by decide)

/-- `BALANCE_CAP` keeps the sum of all balances within `i128`. -/
theorem total_capped (input : Input) : total input.ledger.balances ≤ 170141183460469231731687303715884105727 := by
  have hsum : total input.ledger.balances ≤ Finset.univ.card • balanceCap :=
    Finset.sum_le_card_nsmul _ _ _ fun i _ => (capped_lt (input.balances i)).le
  exact hsum.trans (by decide)

/-- **No input of the fuzz target fails.** Whatever the flags, the balances, the sender and the transfers, neither an
assertion on an accepted batch nor the sum of the balances before or after it panics, and nor does the subtraction in
the mirror. -/
theorem checkOne_passes (input : Input) : checkOne input = .ok () := by
  have hpos : ∀ i, 0 ≤ (input.ledger.balances i).val := fun i => capped_nonneg _
  unfold checkOne
  split
  · rename_i htrap
    exact absurd htrap transferBatch_no_trap
  · rfl
  · rename_i after hbatch
    obtain ⟨hpaused, -, hmoves⟩ := transferBatch_ok.1 hbatch
    have haccepted := moves_accepted hmoves
    have htotal := moves_total hmoves
    have hpositive : ∀ e ∈ input.entries, 0 < e.2 := haccepted.positive
    have hafter : ∀ i, 0 ≤ after.balances i := haccepted.nonneg hpos
    obtain ⟨s, hs, hval⟩ := supply_ok hpos (total_capped input)
    obtain ⟨s', hs', hval'⟩ := supply_ok hafter (htotal ▸ total_capped input)
    obtain rfl : s = s' := MInt.ext (by rw [hval, hval', htotal])
    rw [bind_of_ok (assert_of hpaused), bind_of_ok (assert_of hpositive),
      bind_of_ok (assert_of haccepted.allowed), bind_of_ok (assert_of hafter), bind_of_ok hs, bind_of_ok hs',
      bind_of_ok (assert_of rfl)]
    split
    · rename_i hself
      rw [haccepted.self hself]
      exact assert_of rfl
    · rfl

end Target

/-! ## The contract does what the mirror does -/

section Refinement

variable {Address X K : Type} {client : Token.ComplianceClient Address X} {env : Env Address} {who : K → Address}

/-- The compliance contract at `c` answers about the accounts as the array says, however often it is asked. -/
def Answers (client : Token.ComplianceClient Address X) (env : Env Address) (who : K → Address) (c : Address) (x : X)
    (compliant : K → Bool) : Prop :=
  ∀ y, Token.Questioned client env c x y → ∀ k, (client env y c (who k)).map Prod.fst = some (compliant k)

theorem Answers.ask {c : Address} {x y : X} {compliant : K → Bool} {k : K} {b : Bool}
    (hanswers : Answers client env who c x compliant) (hy : Token.Questioned client env c x y)
    (hk : compliant k = b) : ∃ z, client env y c (who k) = some (b, z) ∧ Token.Questioned client env c x z := by
  obtain ⟨⟨b', z⟩, hz, hb⟩ := Option.map_eq_some_iff.1 (hanswers y hy k)
  obtain rfl : b' = b := Eq.trans hb hk
  exact ⟨z, hz, .ask hy hz⟩

variable [DecidableEq Address]

/-- A token in the middle of the batch, and the ledger of the mirror at that point; `s` is the storage of the token
before the batch. -/
structure Mirrored (client : Token.ComplianceClient Address X) (env : Env Address) (who : K → Address)
    (md : Token.AssetMetadata Address) (x : X) (s : Token.State Address) (ledger : Ledger K)
    (h : Token.Contract Address X) : Prop where
  answers : Answers client env who md.complianceContract x ledger.compliant
  outside : Token.Questioned client env md.complianceContract x h.outside
  metadata : h.storage.metadata = some md
  allowance : h.storage.allowance = s.allowance
  held : ∀ k, Token.balance h.storage (who k) = ledger.balances k
  others : ∀ a, (∀ k, who k ≠ a) → Token.balance h.storage a = Token.balance s a

/-- Both succeed, in states that mirror each other, or both fail with the same error. -/
inductive Agree (client : Token.ComplianceClient Address X) (env : Env Address) (who : K → Address)
    (md : Token.AssetMetadata Address) (x : X) (s : Token.State Address) :
    Except (Fault Error) (Ledger K) → Except (Fault Token.Error) (Unit × Token.Contract Address X) → Prop
  | returned {next : Ledger K} {h : Token.Contract Address X} (hmirrored : Mirrored client env who md x s next h) :
    Agree client env who md x s (.ok next) (.ok ((), h))
  | failed (e : Error) : Agree client env who md x s (.error (.error e)) (.error (.error e.code))

variable [DecidableEq K] {md : Token.AssetMetadata Address} {x : X} {s : Token.State Address} {ledger : Ledger K}
  {h : Token.Contract Address X} {from_ : K} {entry : K × I128} {transfers : List (K × I128)}

/-- The loop body of the contract on an entry of the mirror. -/
def entryOf (client : Token.ComplianceClient Address X) (env : Env Address) (who : K → Address)
    (md : Token.AssetMetadata Address) (from_ : K) (entry : K × I128) : Token.M Address X Unit := do
  Token.checkAmount entry.2
  Token.sendTo client env md (who from_) (who entry.1) entry.2

omit [DecidableEq K] in
/-- The debit of an entry that passed the checks. -/
theorem debited (hamount : 0 < entry.2.val) (hfunds : entry.2.val ≤ (ledger.balances from_).val) :
    ∃ newFrom : I128, newFrom.val = (ledger.balances from_).val - entry.2.val := by
  have hhi := (ledger.balances from_).le_hi
  exact MInt.exists_val (by omega) (by omega)

theorem round_agrees (hwho : Function.Injective who) (hm : Mirrored client env who md x s ledger h) :
    Agree client env who md x s (move from_ ledger entry) (entryOf client env who md from_ entry h) := by
  have houtcome := move_outcome from_ ledger entry
  generalize move from_ ledger entry = r at houtcome ⊢
  have hheld := hm.held
  cases houtcome with
  | amount hamount =>
    have hfail : entryOf client env who md from_ entry h = .error (.error .invalidAmount) := by
      simp [entryOf, Token.checkAmount, MInt.le_def, hamount]
    rw [hfail]
    exact .failed .invalidAmount
  | recipient hamount hrefused =>
    obtain ⟨y, hno, -⟩ := hm.answers.ask hm.outside hrefused
    have hfail : entryOf client env who md from_ entry h = .error (.error .recipientNotCompliant) := by
      simp [entryOf, Token.sendTo, hamount, hno]
    rw [hfail]
    exact .failed .recipientNotCompliant
  | funds hamount hallowed hfunds =>
    obtain ⟨y, hyes, -⟩ := hm.answers.ask hm.outside hallowed
    have hfail : entryOf client env who md from_ entry h = .error (.error .insufficientBalance) := by
      simp [entryOf, Token.sendTo, hamount, hyes, hheld, MInt.lt_def, hfunds]
    rw [hfail]
    exact .failed .insufficientBalance
  | self hamount hallowed hfunds hself =>
    obtain ⟨y, hyes, hy⟩ := hm.answers.ask hm.outside hallowed
    have hcovered : entry.2.val ≤ (Token.balance h.storage (who from_)).val := by rwa [hheld]
    have hreturn := Token.sendTo_ok.2 ⟨y, hyes, hcovered, .inl ⟨congrArg who hself, rfl⟩⟩
    rw [entryOf, Call.bind_eq_of_ok (Token.checkAmount_ok.2 ⟨hamount, rfl⟩), hreturn]
    exact .returned { hm with outside := hy }
  | overflow hamount hallowed hfunds hne hover =>
    obtain ⟨y, hyes, -⟩ := hm.answers.ask hm.outside hallowed
    obtain ⟨newFrom, hfrom⟩ := debited hamount hfunds
    have hdebit : (ledger.balances from_).checkedSub entry.2 = some newFrom := MInt.checkedSub_eq_some.2 hfrom
    have hfail : entryOf client env who md from_ entry h = .error (.error .overflow) := by
      simp [entryOf, Token.sendTo, hamount, hyes, hheld, MInt.lt_def, hfunds, hwho.eq_iff, hne, hdebit, hover,
        -MInt.checkedAdd_eq_none, -MInt.checkedSub_eq_some]
    rw [hfail]
    exact .failed .overflow
  | moved hamount hallowed hfunds hne hfrom hto =>
    obtain ⟨y, hyes, hy⟩ := hm.answers.ask hm.outside hallowed
    rw [← hheld] at hfunds hfrom hto
    have hreturn := Token.sendTo_ok.2 ⟨y, hyes, hfunds, .inr ⟨fun e => hne (hwho e), _, _, hfrom, hto, rfl⟩⟩
    rw [entryOf, Call.bind_eq_of_ok (Token.checkAmount_ok.2 ⟨hamount, rfl⟩), hreturn]
    refine .returned { hm with outside := hy, held := fun k => ?_, others := fun a ha => ?_ }
    · simp only [Token.balance, Token.State.moved, Book.balance_set, hwho.eq_iff, Function.update_apply]
      split
      · rfl
      · split
        · rfl
        · exact hheld k
    · rw [← hm.others a ha]
      simp only [Token.balance, Token.State.moved]
      rw [Book.balance_set_of_ne _ _ (Ne.symm (ha _)), Book.balance_set_of_ne _ _ (Ne.symm (ha _))]

theorem rounds_agree (hwho : Function.Injective who) (hm : Mirrored client env who md x s ledger h) :
    Agree client env who md x s (moves from_ ledger transfers)
      (Call.forEach transfers (entryOf client env who md from_) h) := by
  induction transfers generalizing ledger h with
  | nil => exact .returned hm
  | cons entry transfers ih =>
    have hround : Agree client env who md x s (move from_ ledger entry) _ := round_agrees hwho hm
    rw [moves, Call.forEach_cons]
    generalize hmove : move from_ ledger entry = r at hround
    generalize hrun : entryOf client env who md from_ entry h = r' at hround
    cases hround with
    | returned hnext =>
      rw [bind_of_ok rfl, Call.bind_eq_of_ok hrun]
      exact ih hnext
    | failed e =>
      rw [bind_of_error rfl, Call.bind_eq_of_error hrun]
      exact .failed e

/-- The transfers of the mirror, as the contract gets them. -/
def named (who : K → Address) (transfers : List (K × I128)) : List (Address × I128) :=
  transfers.map fun entry => (who entry.1, entry.2)

omit [DecidableEq K] in
theorem forEach_named : Call.forEach (named who transfers) (fun p => do
      Token.checkAmount p.2
      Token.sendTo client env md (who from_) p.1 p.2) = Call.forEach transfers (entryOf client env who md from_) := by
  induction transfers with
  | nil => rfl
  | cons entry transfers ih =>
    rw [Call.forEach_cons, ← ih]
    rfl

theorem transferBatch_agrees (hwho : Function.Injective who) (hm : Mirrored client env who md x s ledger h)
    (hpaused : md.paused = ledger.paused) (hsigned : env.authorized (who from_) = true) :
    Agree client env who md x s (transferBatch ledger from_ transfers)
      (Token.transferBatch client env (who from_) (named who transfers) h) := by
  rw [Token.transferBatch, Call.bind_eq_of_ok (Call.requireAuth_ok.2 ⟨hsigned, rfl⟩),
    Call.bind_eq_of_ok (Token.metadata_ok.2 ⟨md, hm.metadata, rfl⟩)]
  unfold transferBatch
  split
  · rename_i hp
    rw [Call.bind_eq_of_error (Call.panicIf_error.2 ⟨hpaused.trans hp, rfl⟩)]
    exact .failed .paused
  · rename_i hp
    rw [← hpaused] at hp
    rw [Call.bind_eq_of_ok (Call.panicIf_ok.2 ⟨hp, rfl⟩), forEach_named]
    split
    · rename_i hrefused
      obtain ⟨y, hno, -⟩ := hm.answers.ask hm.outside hrefused
      have hfail : Token.requireCompliant client env md.complianceContract (who from_) .senderNotCompliant h =
          .error (.error .senderNotCompliant) := by
        simp [hno]
      rw [Call.bind_eq_of_error hfail]
      exact .failed .senderNotCompliant
    · rename_i hallowed
      obtain ⟨y, hyes, hy⟩ := hm.answers.ask hm.outside (Bool.not_eq_false _ ▸ hallowed)
      rw [Call.bind_eq_of_ok (Token.requireCompliant_ok.2 ⟨y, hyes, rfl⟩)]
      exact rounds_agree hwho { hm with outside := hy }

omit [DecidableEq K] in
/-- Two that agree are answered together. -/
theorem Agree.ok_iff {r : Except (Fault Error) (Ledger K)}
    {r' : Except (Fault Token.Error) (Unit × Token.Contract Address X)} (hagree : Agree client env who md x s r r') :
    (∃ h', r' = .ok ((), h')) ↔ ∃ next, r = .ok next := by
  cases hagree with
  | returned _ => simp
  | failed _ => simp

/-- **`transfer_batch` of the contract is the `transfer_batch` of the fuzz target.** Name the accounts of the mirror by
different addresses, and take a token that holds their balances and is paused as the mirror is, with a compliance
contract that answers about them as the mirror's flags say. A batch signed by the sender is then answered exactly when
the mirror accepts it, fails with the error that the mirror returns, and an answered batch leaves the balances of the
mirror, all other balances, the metadata and the allowances as they were. Both accept the same prefixes of the batch, so
they fail at the same entry. -/
theorem transferBatch_mirrored (hwho : Function.Injective who) (hmd : h.storage.metadata = some md)
    (hpaused : md.paused = ledger.paused) (hheld : ∀ k, Token.balance h.storage (who k) = ledger.balances k)
    (hanswers : Answers client env who md.complianceContract h.outside ledger.compliant)
    (hsigned : env.authorized (who from_) = true) (transfers : List (K × I128)) :
    (∀ next, transferBatch ledger from_ transfers = .ok next →
      ∃ h', Token.transferBatch client env (who from_) (named who transfers) h = .ok ((), h') ∧
        (∀ k, Token.balance h'.storage (who k) = next.balances k) ∧
        (∀ a, (∀ k, who k ≠ a) → Token.balance h'.storage a = Token.balance h.storage a) ∧
        h'.storage.metadata = h.storage.metadata ∧ h'.storage.allowance = h.storage.allowance) ∧
    (∀ h', Token.transferBatch client env (who from_) (named who transfers) h = .ok ((), h') →
      ∃ next, transferBatch ledger from_ transfers = .ok next) ∧
    (∀ e, transferBatch ledger from_ transfers = .error (.error e) →
      Token.transferBatch client env (who from_) (named who transfers) h = .error (.error e.code)) ∧
    (∀ f, Token.transferBatch client env (who from_) (named who transfers) h = .error f →
      ∃ e, f = .error e.code ∧ transferBatch ledger from_ transfers = .error (.error e)) ∧
    ∀ n, (∃ h', Token.transferBatch client env (who from_) (named who (transfers.take n)) h = .ok ((), h')) ↔
      ∃ next, transferBatch ledger from_ (transfers.take n) = .ok next := by
  have hstart : Mirrored client env who md h.outside h.storage ledger h :=
    ⟨hanswers, .refl, hmd, rfl, hheld, fun _ _ => rfl⟩
  have hagree : Agree client env who md h.outside h.storage (transferBatch ledger from_ transfers) _ :=
    transferBatch_agrees hwho hstart hpaused hsigned
  have hprefix : ∀ n,
      (∃ h', Token.transferBatch client env (who from_) (named who (transfers.take n)) h = .ok ((), h')) ↔
        ∃ next, transferBatch ledger from_ (transfers.take n) = .ok next :=
    fun n => (transferBatch_agrees hwho hstart hpaused hsigned).ok_iff
  generalize transferBatch ledger from_ transfers = r at hagree
  generalize Token.transferBatch client env (who from_) (named who transfers) h = r' at hagree
  cases hagree with
  | @returned next h' hm =>
    refine ⟨fun next' e => ?_, fun h'' _ => ⟨next, rfl⟩, by simp, by simp, hprefix⟩
    cases e
    exact ⟨h', rfl, hm.held, hm.others, hm.metadata.trans hmd.symm, hm.allowance⟩
  | failed e =>
    refine ⟨by simp, by simp, fun e' he => ?_, fun f hf => ⟨e, ?_, rfl⟩, hprefix⟩
    · cases he
      rfl
    · cases hf
      rfl

end Refinement

/-- Account 1 holds 100, and the compliance contract refuses account 3. -/
def pool : Ledger (Fin accounts) := ⟨fun k => if k = 1 then 100 else 0, fun k => k ≠ 3, false⟩

/-- A token that holds the balances of `pool`, at address `k` that of account `k`. -/
def pooled : Token.Contract ℕ Unit := ⟨⟨some Token.mintedMetadata, (∅ : Book ℕ).set 1 100, ∅⟩, (), []⟩

/-- 1 sends 10 and 90 to 0 with 5 to itself in between, and then not a unit to 3. -/
theorem transferBatch_mirrored_pool : ∃ h',
    Token.transferBatch (fun _ x _ who => some (who ≠ 3, x)) (Env.signed 20) 1 [(0, 10), (1, 5), (0, 90)] pooled =
        .ok ((), h') ∧ Token.balance h'.storage 0 = 100 ∧
      Token.transferBatch (fun _ x _ who => some (who ≠ 3, x)) (Env.signed 20) 1 [(0, 10), (3, 1)] pooled =
        .error (.error .recipientNotCompliant) := by
  have hanswers : Answers (fun _ x _ who => some (who ≠ 3, x)) (Env.signed 20) (Fin.val : Fin accounts → ℕ)
      Token.mintedMetadata.complianceContract pooled.outside pool.compliant := by
    intro y _
    show ∀ k : Fin accounts, some (decide (k.val ≠ 3)) = some (pool.compliant k)
    decide
  have hpaused : Token.mintedMetadata.paused = pool.paused := rfl
  have hheld : ∀ k : Fin accounts, Token.balance pooled.storage k.val = pool.balances k := by decide
  have hsigned : (Env.signed 20).authorized (1 : Fin accounts).val = true := rfl
  obtain ⟨hreturns, -⟩ := transferBatch_mirrored Fin.val_injective rfl hpaused hheld hanswers hsigned
    [(0, 10), (1, 5), (0, 90)]
  obtain ⟨-, -, hfails, -⟩ := transferBatch_mirrored Fin.val_injective rfl hpaused hheld hanswers hsigned
    [(0, 10), (3, 1)]
  obtain ⟨next, hnext⟩ : ∃ next, transferBatch pool (1 : Fin accounts) [(0, 10), (1, 5), (0, 90)] = .ok next := ⟨_, rfl⟩
  obtain ⟨h', hrun, hheld', -⟩ := hreturns next hnext
  refine ⟨h', hrun, (hheld' 0).trans ?_, hfails .recipientNotCompliant (by rfl)⟩
  cases hnext
  decide

end StellarRwa.Fuzz
