import StellarRwa.Dividend.Lifecycle
import StellarRwa.Dividend.Tokens

/-!
# The escrow

All distributions with one payment token share one balance of the contract. A call that spends takes from it exactly
what it takes from the remaining amount of its own distribution (`Effect.spent`), so the balance is the sum of what
the open distributions are owed plus what others have sent (`escrow_solvent`).
-/

namespace StellarRwa.Dividend

open Lib

variable {Address X A : Type}

/-- What is left of a distribution: nothing once it is completed, else `total_amount - distributed`. -/
def Distribution.remaining (d : Distribution Address) : Int :=
  if d.completed = true then 0 else d.totalAmount.val - d.distributed.val

/-- An open distribution keeps what it has not distributed. -/
theorem remaining_of_open {d : Distribution Address} (hopen : d.completed = false) :
    d.remaining = d.totalAmount.val - d.distributed.val := by
  simp [Distribution.remaining, hopen]

theorem remaining_claimed {d : Distribution Address} {distributed : I128} (hle : distributed.val ≤ d.totalAmount.val) :
    (d.claimed distributed).remaining = d.totalAmount.val - distributed.val := by
  by_cases hall : d.totalAmount.val ≤ distributed.val
  · have hcompleted : (d.claimed distributed).completed = true := decide_eq_true hall
    rw [Distribution.remaining, if_pos hcompleted]
    omega
  · have hopen : (d.claimed distributed).completed = false := decide_eq_false hall
    rw [remaining_of_open hopen]
    rfl

variable [DecidableEq Address]

/-- What the distribution `d` is owed of the balance of `token`. -/
def Distribution.owed (token : Address) (d : Distribution Address) : Int :=
  if d.paymentToken = token then d.remaining else 0

/-- What the open distributions together are owed of the balance of `token`. -/
def owed (s : State Address) (token : Address) : Int := s.dist.sum fun _ d => d.owed token

/-! ## Spending -/

variable {w : World Address X A} {this : Address} {env : Env Address} {s s' : State Address} {x x' : X}
  {op : Op Address} {u : Ret} {id : U64} {tr : List (Answered Address X A)} {t : Terms Address}
  {d : Distribution Address}

/-- The remaining amount is never negative. -/
theorem Stage.remaining_nonneg (h : Stage t id s d) : 0 ≤ d.remaining := by
  cases h with
  | @opened distributed _ _ _ hlt =>
    show 0 ≤ t.totalAmount.val - distributed.val
    omega
  | paid _ _ => exact le_refl 0
  | cancelled _ _ _ => exact le_refl 0

/-- `amount` is taken out of what remains of the distribution `id` and transferred to `to_`. -/
structure Spending (w : World Address X A) (this : Address) (s : State Address) (x : X) (s' : State Address) (x' : X)
    (id : U64) (d d' : Distribution Address) (to_ : Address) (amount : I128) : Prop where
  record : s.dist.get id = some d
  opened : d.completed = false
  written : s'.dist = s.dist.set id d'
  token : d'.paymentToken = d.paymentToken
  total : d'.totalAmount = d.totalAmount
  transfer : w.transfer x d.paymentToken this to_ amount = some x'
  left : 0 ≤ d'.remaining
  taken : amount.val = d.remaining - d'.remaining

/-- **A call that spends** takes what it transfers, to the holder or to the admin, out of its own distribution. -/
theorem Effect.spent (hl : Lifecycle tr s) (heffect : Effect w this env s x op u s' x')
    (hspends : op.spends = some id) :
    ∃ d d' to_ amount, Spending w this s x s' x' id d d' to_ amount ∧
      ((op = .claim id to_ ∧ Due s id to_ amount) ∨ (op.sweeps = some id ∧ s.roles.admin = some to_)) := by
  cases heffect with
  | handover hop _ _ => cases hop.spends.symm.trans hspends
  | initialized _ => cases hspends
  | opened hop _ _ _ _ _ _ _ => cases (Op.spends_of_offer hop).symm.trans hspends
  | @claimed _ holder d amount distributed _ _ hd hopen _ hdue hdistributed hle htransfer =>
    cases hspends
    have hafter := remaining_claimed hle
    refine ⟨d, d.claimed distributed, holder, amount, ⟨hd, hopen, rfl, rfl, rfl, htransfer, ?_, ?_⟩, .inl ⟨rfl, hdue⟩⟩
    · omega
    · rw [hafter, remaining_of_open hopen]
      omega
  | @reclaimed _ admin d remaining _ hadmin _ hd hopen _ hremaining htransfer =>
    cases hspends
    refine ⟨d, _, admin, remaining, ⟨hd, hopen, rfl, rfl, rfl, htransfer, le_refl 0, ?_⟩, .inr ⟨rfl, hadmin⟩⟩
    rw [remaining_of_open hopen, hremaining]
    exact (Int.sub_zero _).symm
  | @cancelled _ admin d _ hadmin _ hd hopen hnone htransfer =>
    cases hspends
    obtain ⟨t, -, hst⟩ := hl.exists_terms hd
    have hzero : d.distributed.val = 0 := by
      have hpaid := (hst.stage.of_open hopen).2.2.1
      have hnonneg : 0 ≤ t.paid (hasClaimed s id) := Terms.paid_nonneg
      omega
    refine ⟨d, _, admin, d.totalAmount, ⟨hd, hopen, rfl, rfl, rfl, htransfer, le_refl 0, ?_⟩, .inr ⟨rfl, hadmin⟩⟩
    rw [remaining_of_open hopen, hzero]
    exact (Int.sub_zero _).symm.trans (Int.sub_zero _).symm

/-- A call that neither creates nor spends leaves the records and the other contracts alone. -/
theorem Effect.idle (heffect : Effect w this env s x op u s' x') (hoffer : op.offer = none)
    (hspends : op.spends = none) : s'.dist = s.dist ∧ x' = x := by
  cases heffect with
  | handover _ _ _ => exact ⟨rfl, rfl⟩
  | initialized _ => exact ⟨rfl, rfl⟩
  | opened hop _ _ _ _ _ _ _ => cases hoffer.symm.trans hop
  | claimed _ _ _ _ _ _ _ _ => cases hspends
  | reclaimed _ _ _ _ _ _ _ => cases hspends
  | cancelled _ _ _ _ _ _ => cases hspends

/-- A call that creates opens a record under the next id, against a transfer from the funder. -/
theorem Effect.created {admin : Address} {o : Offer Address} (heffect : Effect w this env s x op u s' x')
    (hoffer : op.offer = some (admin, o)) :
    ∃ id sum, id.val = (s.counter.getD 0).val + 1 ∧ s' = s.opened (o.record id env.sequence) o.eligible sum ∧
      w.transfer x o.paymentToken admin this o.totalAmount = some x' := by
  cases heffect with
  | handover hop _ _ => cases hop.offer.symm.trans hoffer
  | initialized _ => cases hoffer
  | opened hop _ _ _ _ _ hid htransfer =>
    cases Option.some.inj (hoffer.symm.trans hop)
    exact ⟨_, _, hid, rfl, htransfer⟩
  | claimed _ _ _ _ _ _ _ _ => cases hoffer
  | reclaimed _ _ _ _ _ _ _ => cases hoffer
  | cancelled _ _ _ _ _ _ => cases hoffer

/-! ## What is owed -/

theorem owed_opened {token : Address} {o : Offer Address} {sum : I128} {n : U32} (hl : Lifecycle tr s)
    (hid : id.val = (s.counter.getD 0).val + 1) :
    owed (s.opened (o.record id n) o.eligible sum) token =
      owed s token + if token = o.paymentToken then o.totalAmount.val else 0 := by
  have hnew : s.dist.get id = none := hl.ids.get_next hid
  have hremaining : (o.record id n).remaining = o.totalAmount.val := Int.sub_zero _
  have hweight : (o.record id n).owed token = if token = o.paymentToken then o.totalAmount.val else 0 := by
    rw [Distribution.owed, hremaining]
    exact if_congr eq_comm rfl rfl
  rw [← hweight]
  exact Storage.sum_set_of_none _ _ hnew

theorem Spending.owed {d' : Distribution Address} {to_ : Address} {amount : I128} (token : Address)
    (h : Spending w this s x s' x' id d d' to_ amount) :
    owed s' token = Dividend.owed s token - if token = d.paymentToken then amount.val else 0 := by
  have hsum := Storage.sum_set_of_some (fun _ d => Distribution.owed token d) d' h.record
  have hweight : d'.owed token = d.owed token - if token = d.paymentToken then amount.val else 0 := by
    rw [Distribution.owed, Distribution.owed, h.token, h.taken]
    by_cases ht : d.paymentToken = token
    · rw [if_pos ht, if_pos ht, if_pos ht.symm]
      omega
    · rw [if_neg ht, if_neg ht, if_neg (Ne.symm ht)]
      rfl
  rw [Dividend.owed, h.written, hsum, hweight, Dividend.owed]
  omega

/-- What remains of one distribution is part of what is owed. -/
theorem Lifecycle.remaining_le_owed (hl : Lifecycle tr s) (hd : s.dist.get id = some d) :
    d.remaining ≤ Dividend.owed s d.paymentToken := by
  have hnonneg : ∀ id' d', s.dist.get id' = some d' → 0 ≤ d'.owed d.paymentToken := by
    intro id' d' hd'
    obtain ⟨t, -, hst⟩ := hl.exists_terms hd'
    unfold Distribution.owed
    split
    · exact hst.stage.remaining_nonneg
    · exact le_refl 0
  have hle := Storage.le_sum (f := fun _ d' => Distribution.owed d.paymentToken d') hnonneg hd
  rwa [Distribution.owed, if_pos rfl] at hle

/-! ## Calls that keep away from the contract itself -/

/-- The call does not make `this` an admin, a funder or a listed holder. -/
def Op.Avoids (this : Address) : Op Address → Prop
  | .initializeDividend admin => admin ≠ this
  | .createDistribution admin _ _ _ eligible => admin ≠ this ∧ ∀ b, (this, b) ∉ eligible
  | .createDistributionDeadline admin _ _ _ eligible _ => admin ≠ this ∧ ∀ b, (this, b) ∉ eligible
  | .acceptAdmin newAdmin => newAdmin ≠ this
  | _ => True

/-- The label does not make `this` an admin, a funder or a listed holder. -/
def Label.Avoids (this : Address) : Label Address A → Prop
  | .call _ op => op.Avoids this
  | .others _ => True

omit [DecidableEq Address] in
theorem Op.avoids_offer {admin : Address} {o : Offer Address} (h : op.Avoids this) (ho : op.offer = some (admin, o)) :
    admin ≠ this ∧ ∀ b, (this, b) ∉ o.eligible := by
  cases op <;> cases ho
  · exact h
  · exact h

/-- What a record says others sent to the contract at `this`. -/
def gift (balance : X → Address → Address → Int) (this token : Address) (r : Answered Address X A) : Int :=
  match r.label with
  | .call _ _ => 0
  | .others _ => balance r.post.outside token this - balance r.pre.outside token this

/-- What the contract at `this` received outside its own calls: what it had when the run began, and what others sent. -/
def received (balance : X → Address → Address → Int) (this token : Address) (x : X) (tr : List (Answered Address X A)) :
    Int :=
  balance x token this + (tr.map (gift balance this token)).sum

/-- A call on behalf of `id` was paid out of what remained of `id`, and changed no other distribution. -/
def PaidByOwn (balance : X → Address → Address → Int) (this : Address) (r : Answered Address X A) (id : U64) : Prop :=
  ∃ d d', r.pre.storage.dist.get id = some d ∧ r.post.storage.dist.get id = some d' ∧ 0 ≤ d'.remaining ∧
    (∀ token, balance r.post.outside token this =
      balance r.pre.outside token this - if token = d.paymentToken then d.remaining - d'.remaining else 0) ∧
    ∀ id', id' ≠ id → r.post.storage.dist.get id' = r.pre.storage.dist.get id'

/-! ## The invariant -/

/-- The balance of the contract at `this`, against its storage and the history of answered calls. -/
structure Backed (balance : X → Address → Address → Int) (this : Address) (x : X) (tr : List (Answered Address X A))
    (h : Contract Address X) : Prop where
  lifecycle : Lifecycle tr h.storage
  admin : ∀ a, h.storage.roles.admin = some a → a ≠ this
  listed : ∀ id o, Created tr id o → ∀ b, (this, b) ∉ o.eligible
  covered : ∀ token, balance h.outside token this = owed h.storage token + received balance this token x tr
  gifts : ∀ token, 0 ≤ received balance this token x tr
  own : ∀ r ∈ tr, ∀ id, r.label.spends = some id → PaidByOwn balance this r id

variable {balance : X → Address → Address → Int} {h h' : Contract Address X} {x₀ : X} {l : Label Address A}
  {token to_ : Address} {amount : I128} {r : Answered Address X A}

omit [DecidableEq Address] in
theorem received_concat :
    received balance this token x₀ (tr ++ [r]) = received balance this token x₀ tr + gift balance this token r := by
  simp [received, add_assoc]

theorem backed_fresh (hw : ExactTokens w this balance) :
    Backed balance this x₀ ([] : List (Answered Address X A)) (Contract.fresh Address x₀) where
  lifecycle := lifecycle_fresh
  admin a ha := by cases ha
  listed id o ho := absurd ho not_created_nil
  covered token := by simp [owed, received, Contract.fresh, State.fresh]
  gifts token := by simpa [received] using hw.nonneg x₀ token
  own r hr := by cases hr

/-- Whoever is paid is not the contract itself. -/
theorem Backed.payee_ne (hb : Backed balance this x₀ tr h)
    (hpayee : (op = .claim id to_ ∧ Due h.storage id to_ amount) ∨
      (op.sweeps = some id ∧ h.storage.roles.admin = some to_))
    (hd : h.storage.dist.get id = some d) (hopen : d.completed = false) : to_ ≠ this := by
  rcases hpayee with ⟨-, hdue⟩ | ⟨-, hadmin⟩
  · obtain ⟨t, hcreated, hst⟩ := hb.lifecycle.exists_terms hd
    obtain ⟨hsnapshot, hsupply, -, -⟩ := hst.stage.of_open hopen
    obtain ⟨b, hmem, -, -⟩ := hdue.share hd hst.stage.terms.1 hsnapshot hsupply
    rintro rfl
    exact hb.listed id _ hcreated b hmem
  · exact hb.admin to_ hadmin

theorem Spending.paidByOwn {d' : Distribution Address} (hw : ExactTokens w this balance)
    (hs : Spending w this h.storage h.outside h'.storage h'.outside id d d' to_ amount) (hne : to_ ≠ this) :
    PaidByOwn balance this (⟨h, l, u, h'⟩ : Answered Address X A) id := by
  refine ⟨d, d', hs.record, ?_, hs.left, ?_, ?_⟩
  · rw [hs.written, Storage.get_set_self]
  · intro token
    rw [hw.sent hs.transfer hne, hs.taken]
  · intro id' hid'
    rw [hs.written, Storage.get_set_of_ne _ _ hid']

/-- The admin stays away from the address of the contract. -/
theorem Effect.admin_ne (heffect : Effect w this env s x op u s' x') (havoids : op.Avoids this)
    (hadmin : ∀ a, s.roles.admin = some a → a ≠ this) : ∀ a, s'.roles.admin = some a → a ≠ this := by
  cases heffect with
  | handover _ _ hadmin' =>
    rcases hadmin' with hr | ⟨b, rfl, hr⟩
    · exact fun a ha => hadmin a (hr ▸ ha)
    · exact fun a ha => Option.some.inj (hr.symm.trans ha) ▸ havoids
  | initialized _ => exact fun a ha => Option.some.inj ha ▸ havoids
  | opened _ _ _ _ _ _ _ _ => exact hadmin
  | claimed _ _ _ _ _ _ _ _ => exact hadmin
  | reclaimed _ _ _ _ _ _ _ => exact hadmin
  | cancelled _ _ _ _ _ _ => exact hadmin

/-- What a call does to the balance of the contract, it does to what is owed, as long as the contract neither pays nor
funds itself. -/
theorem Effect.balance_eq (hw : ExactTokens w this balance) (hl : Lifecycle tr s)
    (heffect : Effect w this env s x op u s' x')
    (hpayee : ∀ {id d d' to_ amount}, Spending w this s x s' x' id d d' to_ amount →
      ((op = .claim id to_ ∧ Due s id to_ amount) ∨ (op.sweeps = some id ∧ s.roles.admin = some to_)) → to_ ≠ this)
    (hfunder : ∀ {admin o}, op.offer = some (admin, o) → admin ≠ this) (token : Address) :
    balance x' token this - owed s' token = balance x token this - owed s token := by
  cases hspends : op.spends with
  | some id =>
    obtain ⟨d, d', to_, amount, hs, hto⟩ := heffect.spent hl hspends
    rw [hw.sent hs.transfer (hpayee hs hto), hs.owed token]
    omega
  | none =>
    cases hoffer : op.offer with
    | none =>
      obtain ⟨hdist, hx⟩ := heffect.idle hoffer hspends
      rw [hx, owed, hdist, owed]
    | some p =>
      obtain ⟨admin, o⟩ := p
      obtain ⟨id, sum, hid, hs', htransfer⟩ := heffect.created hoffer
      rw [hw.got htransfer (hfunder hoffer), hs', owed_opened hl hid]
      omega

theorem Backed.balance_call (hw : ExactTokens w this balance) (hb : Backed balance this x₀ tr h)
    (heffect : Effect w this env h.storage h.outside op u h'.storage h'.outside) (havoids : op.Avoids this)
    (token : Address) :
    balance h'.outside token this - owed h'.storage token = balance h.outside token this - owed h.storage token :=
  heffect.balance_eq hw hb.lifecycle (fun hs hto => hb.payee_ne hto hs.record hs.opened)
    (fun hoffer => (Op.avoids_offer havoids hoffer).1) token

theorem Backed.call (hw : ExactTokens w this balance) (hb : Backed balance this x₀ tr h)
    (heffect : Effect w this env h.storage h.outside op u h'.storage h'.outside) (havoids : op.Avoids this) :
    Backed balance this x₀ (tr ++ [⟨h, .call env op, u, h'⟩]) h' := by
  refine ⟨hb.lifecycle.call heffect, heffect.admin_ne havoids hb.admin, ?_, ?_, ?_, ?_⟩
  · intro id o ho b
    rcases created_concat.1 ho with ho | ⟨-, hoffer⟩
    · exact hb.listed id o ho b
    · obtain ⟨p, hp, hpo⟩ := Option.map_eq_some_iff.1 hoffer
      exact hpo ▸ (Op.avoids_offer havoids hp).2 b
  · intro token
    have hmove := hb.balance_call hw heffect havoids token
    have hcovered := hb.covered token
    rw [received_concat]
    show _ = _ + (_ + 0)
    omega
  · intro token
    rw [received_concat]
    exact (Int.add_zero _).symm ▸ hb.gifts token
  · refine forall_mem_concat hb.own fun id hspends => ?_
    obtain ⟨d, d', to_, amount, hs, hpayee⟩ := heffect.spent hb.lifecycle hspends
    exact hs.paidByOwn hw (hb.payee_ne hpayee hs.record hs.opened)

/-- **One answered call** keeps the balance backed. -/
theorem Backed.step (hw : ExactTokens w this balance) (hb : Backed balance this x₀ tr h)
    (hstep : (dividend w this).step h l = some (u, h')) (havoids : l.Avoids this) :
    Backed balance this x₀ (tr ++ [⟨h, l, u, h'⟩]) h' := by
  cases l with
  | call env op => exact hb.call hw (call_effect (Call.returned_eq_some.1 hstep)) havoids
  | others a =>
    have hlife := hb.lifecycle.step hstep
    obtain ⟨x, hact, hx⟩ := Option.map_eq_some_iff.1 hstep
    cases hx
    refine ⟨hlife, hb.admin, fun id o ho => hb.listed id o ?_, ?_, ?_, ?_⟩
    · exact (created_concat_of_none rfl).1 ho
    · intro token
      have hcovered := hb.covered token
      rw [received_concat]
      show balance x token this =
        owed h.storage token + (_ + (balance x token this - balance h.outside token this))
      omega
    · intro token
      have hgifts := hb.gifts token
      have hkeeps := hw.keeps hact token
      rw [received_concat]
      show 0 ≤ _ + (balance x token this - balance h.outside token this)
      omega
    · refine forall_mem_concat hb.own fun id hspends => ?_
      cases hspends

/-- **Every run** that keeps away from the address of the contract keeps its balance backed. -/
theorem run_backed (hw : ExactTokens w this balance) (x : X) (ls : List (Label Address A))
    (havoids : ∀ r ∈ (dividend w this).trace (Contract.fresh Address x) ls, r.label.Avoids this) :
    Backed balance this x ((dividend w this).trace (Contract.fresh Address x) ls)
      ((dividend w this).run (Contract.fresh Address x) ls) :=
  System.run_rule_on (G := fun r : Answered Address X A => r.label.Avoids this) (backed_fresh hw)
    (fun _ _ _ _ _ havoids hb hstep => hb.step hw hstep havoids) ls havoids

/-- **Escrow solvency.** With payment tokens that move exactly the amount or fail, and the address of the contract
never an admin, a funder or a listed holder, after every run the balance of each token is what the open distributions
are owed plus what the contract was sent from outside, which is not negative; and every call on behalf of one
distribution was paid out of what remained of that distribution. -/
theorem escrow_solvent (hw : ExactTokens w this balance) (x : X) (ls : List (Label Address A))
    (havoids : ∀ r ∈ (dividend w this).trace (Contract.fresh Address x) ls, r.label.Avoids this) :
    let tr := (dividend w this).trace (Contract.fresh Address x) ls
    let h := (dividend w this).run (Contract.fresh Address x) ls
    (∀ token, balance h.outside token this = owed h.storage token + received balance this token x tr ∧
        owed h.storage token ≤ balance h.outside token this) ∧
      ∀ r ∈ tr, ∀ id, r.label.spends = some id → PaidByOwn balance this r id := by
  intro tr h
  have hb : Backed balance this x tr h := run_backed hw x ls havoids
  refine ⟨fun token => ⟨hb.covered token, ?_⟩, hb.own⟩
  have hcovered := hb.covered token
  have hgifts := hb.gifts token
  omega

/-- The contract 9 is sent 5 of token 20; the admin 1 escrows 100 for 2 and 3 by the weights 1 and 2, and 2 claims. -/
def sharedRun : List (Label ℕ (ℕ × ℕ × ℕ)) :=
  [.others (20, 1, 100), .others (20, 9, 5), .call (.signed 0) (.initializeDividend 1),
    .call (.signed 0) (.createDistribution 1 10 20 100 [(2, 1), (3, 2)]),
    .call (.signed 0) (.claim 1 2)]

theorem escrow_solvent_shared :
    let h := (dividend (Ledgers.world 1 1) 9).run (Contract.fresh ℕ ∅) sharedRun
    Ledgers.balance h.outside 20 9 = 67 + 5 := by
  intro h
  have howed : owed h.storage 20 = 67 := by decide +kernel
  have hreceived : received Ledgers.balance 9 20 ∅
      ((dividend (Ledgers.world 1 1) 9).trace (Contract.fresh ℕ ∅) sharedRun) = 5 := by decide +kernel
  rw [← howed, ← hreceived]
  refine ((escrow_solvent (Ledgers.exact 1 1 9) ∅ sharedRun fun r hr => ?_).1 20).1
  have hl : ∀ l ∈ sharedRun, l.Avoids 9 := by simp [sharedRun, Label.Avoids, Op.Avoids]
  exact hl _ (System.label_mem hr)

end StellarRwa.Dividend
