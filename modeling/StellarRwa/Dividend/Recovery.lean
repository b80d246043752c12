import StellarRwa.Dividend.Accounting
import StellarRwa.Dividend.Claims
import StellarRwa.Succession

/-!
# Ways out of escrow

The escrow of an open distribution has three ways out: it is cancelled while nothing was claimed, it is reclaimed after
a deadline that some ledger is past, or the holders claim all of it, which takes whole shares that all can be claimed
(`Recoverable`). Where one of them is open, claims, a reclaim or a cancellation empty the escrow (`Covered.recover`);
where none is, no calls at all complete the distribution (`Stranded.run`). What rounding loses of a distribution without
a deadline stays in escrow for good (`dust_stranded`).
-/

namespace StellarRwa.Dividend

open Lib

variable {Address X A : Type} [DecidableEq Address]

/-! ## Signatures -/

section Signatures

variable {w : World Address X A} {this a to_ : Address} {env : Env Address} {s s' : State Address} {x x' : X}
  {op : Op Address} {u : Ret} {id : U64} {amount : I128} {o : Offer Address}

/-- Whoever is paid has signed the call. -/
theorem Effect.payee_signed (heffect : Effect w this env s x op u s' x')
    (hpayee : (op = .claim id to_ ∧ Due s id to_ amount) ∨ (op.sweeps = some id ∧ s.roles.admin = some to_)) :
    Signed env to_ := by
  rcases hpayee with ⟨rfl, -⟩ | ⟨hsweeps, hadmin⟩
  · cases heffect with
    | handover hop _ _ => cases hop
    | opened hop _ _ _ _ _ _ _ => cases hop
    | claimed hsigned _ _ _ _ _ _ _ => exact hsigned
  · cases heffect with
    | handover hop _ _ => cases op <;> first | (cases hsweeps; done) | cases hop
    | initialized _ => cases hsweeps
    | opened hop _ _ _ _ _ _ _ => cases op <;> first | (cases hsweeps; done) | cases hop
    | claimed _ _ _ _ _ _ _ _ => cases hsweeps
    | reclaimed hadmin' hsigned _ _ _ _ _ => exact Option.some.inj (hadmin'.symm.trans hadmin) ▸ hsigned
    | cancelled hadmin' hsigned _ _ _ _ => exact Option.some.inj (hadmin'.symm.trans hadmin) ▸ hsigned

/-- Whoever funds a distribution has signed its creation. -/
theorem Effect.funder_signed (heffect : Effect w this env s x op u s' x') (hoffer : op.offer = some (a, o)) :
    Signed env a := by
  cases heffect with
  | handover hop _ _ => cases hop.offer.symm.trans hoffer
  | initialized _ => cases hoffer
  | opened hop hsigned _ _ _ _ _ _ =>
    cases Option.some.inj (hoffer.symm.trans hop)
    exact hsigned.2
  | claimed _ _ _ _ _ _ _ _ => cases hoffer
  | reclaimed _ _ _ _ _ _ _ => cases hoffer
  | cancelled _ _ _ _ _ _ => cases hoffer

end Signatures

/-- A call at ledger `sequence` that everyone but `this` has signed. -/
def besides (this : Address) (sequence : U32) : Env Address := ⟨sequence, fun a => a ≠ this⟩

theorem signed_besides {this a : Address} {n : U32} : Signed (besides this n) a ↔ a ≠ this := by
  simp [Signed, besides]

/-! ## The balance covers what is owed -/

section Covered

/-- The contract is not its own admin, and its balance covers what the open distributions are owed. -/
structure Covered (balance : X → Address → Address → Int) (this : Address) (tr : List (Answered Address X A))
    (h : Contract Address X) : Prop where
  lifecycle : Lifecycle tr h.storage
  admin : ∀ a, h.storage.roles.admin = some a → a ≠ this
  covered : ∀ token, owed h.storage token ≤ balance h.outside token this

variable {w : World Address X A} {this : Address} {balance : X → Address → Address → Int}
  {tr : List (Answered Address X A)} {h h' : Contract Address X} {x : X} {l : Label Address A} {u : Ret} {id : U64}
  {d : Distribution Address}

theorem covered_fresh (hw : ExactTokens w this balance) :
    Covered balance this ([] : List (Answered Address X A)) (Contract.fresh Address x) where
  lifecycle := lifecycle_fresh
  admin a ha := by cases ha
  covered token := by simpa [owed, Contract.fresh, State.fresh] using hw.nonneg x token

/-- **One answered call** that the contract does not sign itself keeps the balance covering what is owed. -/
theorem Covered.step (hw : ExactTokens w this balance) (hc : Covered balance this tr h)
    (hstep : (dividend w this).step h l = some (u, h')) (hself : ¬ l.Signed this) :
    Covered balance this (tr ++ [⟨h, l, u, h'⟩]) h' := by
  refine ⟨hc.lifecycle.step hstep, ?_, ?_⟩
  · intro a ha
    rcases ((adminship w this).step hstep).holder_signed ha with hbefore | hsigned
    · exact hc.admin a hbefore
    · rintro rfl
      exact hself hsigned
  · intro token
    have hcovered := hc.covered token
    cases l with
    | call env op =>
      have heffect := call_effect (Call.returned_eq_some.1 hstep)
      have hmove := heffect.balance_eq hw hc.lifecycle
        (fun _ hto e => hself (e ▸ heffect.payee_signed hto)) (fun hoffer e => hself (e ▸ heffect.funder_signed hoffer))
        token
      omega
    | others a =>
      obtain ⟨x, hact, e⟩ := Option.map_eq_some_iff.1 hstep
      cases e
      have hkeeps := hw.keeps hact token
      exact le_trans hcovered hkeeps

/-- **Every run** that the contract does not sign itself keeps the balance covering what is owed. -/
theorem run_covered (hw : ExactTokens w this balance) (x : X) (ls : List (Label Address A))
    (hself : ∀ r ∈ (dividend w this).trace (Contract.fresh Address x) ls, ¬ r.label.Signed this) :
    Covered balance this ((dividend w this).trace (Contract.fresh Address x) ls)
      ((dividend w this).run (Contract.fresh Address x) ls) :=
  System.run_rule_on (G := fun r : Answered Address X A => ¬ r.label.Signed this) (covered_fresh hw)
    (fun _ _ _ _ _ hself hc hstep => hc.step hw hstep hself) ls hself

theorem Covered.covers (hc : Covered balance this tr h) (hd : h.storage.dist.get id = some d) :
    d.remaining ≤ balance h.outside d.paymentToken this :=
  le_trans (hc.lifecycle.remaining_le_owed hd) (hc.covered _)

/-- Where there is a distribution there is an admin, and it is not the contract. -/
theorem Covered.exists_admin (hc : Covered balance this tr h) (hd : h.storage.dist.get id = some d) :
    ∃ a, h.storage.roles.admin = some a ∧ a ≠ this := by
  cases hadmin : h.storage.roles.admin with
  | none =>
    rw [hc.lifecycle.unopened hadmin] at hd
    cases hd
  | some a => exact ⟨a, rfl, hc.admin a hadmin⟩

end Covered

/-! ## Shares that are lost -/

namespace Terms

variable {t : Terms Address} {f : Address → Bool}

/-- Some of the total is left while a share is not whole, or one that is not zero was not paid. -/
theorem paid_lt (hpos : 0 < t.supply.val) (h : ¬ t.weights.Exact t.totalAmount.val ∨
    ∃ e ∈ t.eligible, f e.1 = false ∧ 0 < t.share e.2) : t.paid f < t.totalAmount.val := by
  refine Weights.paid_lt t.pos.le (by rwa [weights_total]) (h.imp_right ?_)
  rintro ⟨e, he, hf, hshare⟩
  exact ⟨_, mem_weights he, hf, share_eq t ▸ hshare⟩

omit [DecidableEq Address] in
/-- When every share is whole and some of the total is left, it is due to somebody who was not paid. -/
theorem exists_unpaid (hpos : 0 < t.supply.val) (h : t.weights.Exact t.totalAmount.val)
    (hlt : t.paid f < t.totalAmount.val) : ∃ e ∈ t.eligible, f e.1 = false ∧ 0 < t.share e.2 := by
  obtain ⟨e, he, hf, hshare⟩ := Weights.exists_unpaid t.pos.le (by rwa [weights_total]) h hlt
  obtain ⟨e', he', rfl⟩ := List.mem_map.1 he
  exact ⟨e', he', hf, (share_eq t).symm ▸ hshare⟩

end Terms

/-- The distribution `id` can be emptied: nothing was claimed yet, or a ledger is past its deadline, or every share is
whole and those that were not paid can be claimed, none of them by the contract itself. -/
def Recoverable (this : Address) (s : State Address) (id : U64) (d : Distribution Address) : Prop :=
  d.distributed = 0 ∨ (d.deadline ≠ 0 ∧ d.deadline.val < 2 ^ 32 - 1) ∨
    ∃ snap, s.snapshot.get id = some snap ∧
      (∀ e ∈ snap, (loadSupply s id).val ∣ d.totalAmount.val * e.2.val) ∧
      ∀ e ∈ snap, hasClaimed s id e.1 = false → 0 < e.2.val →
        e.1 ≠ this ∧ d.totalAmount.val * e.2.val ≤ 2 ^ 127 - 1

section Stranded

/-- The open distribution with the terms `t` cannot be emptied: something was claimed, it has no deadline that a ledger
is past, and a share is not whole or one that is left cannot be claimed. -/
structure Stranded (this : Address) (tr : List (Answered Address X A)) (t : Terms Address) (id : U64)
    (s : State Address) (d : Distribution Address) : Prop where
  record : s.dist.get id = some d
  standing : Standing tr t id s d
  opened : d.completed = false
  begun : 0 < d.distributed.val
  endless : d.deadline = 0 ∨ 2 ^ 32 - 1 ≤ d.deadline.val
  lost : ¬ t.weights.Exact t.totalAmount.val ∨ ∃ e ∈ t.eligible, hasClaimed s id e.1 = false ∧ 0 < t.share e.2 ∧
    (e.1 = this ∨ 2 ^ 127 - 1 < t.totalAmount.val * e.2.val)

variable {w : World Address X A} {this : Address} {tr : List (Answered Address X A)} {r : Answered Address X A}
  {h h' : Contract Address X} {l : Label Address A} {u : Ret} {id : U64} {s : State Address} {d : Distribution Address}
  {t : Terms Address} {env : Env Address} {holder : Address} {amount distributed : I128}

/-- What was paid is the sum of positive shares, so some weight is positive. -/
theorem Standing.supply_pos (hst : Standing tr t id s d) (hopen : d.completed = false)
    (hbegun : 0 < d.distributed.val) :
    0 < t.supply.val := by
  by_contra hno
  have hpaid := (hst.stage.of_open hopen).2.2.1
  have hzero : t.paid (hasClaimed s id) = 0 := by
    refine Weights.paid_eq_zero fun a => ?_
    by_contra ha
    obtain ⟨b, -, hshare⟩ := hst.marked a (by simpa using ha)
    exact hno (Terms.pos_of_share_pos hshare).1
  omega

/-- A claim leaves a stranded distribution stranded. -/
theorem Stranded.claimed (hs : Stranded this tr t id s d) (hsigned : Signed env holder) (hself : ¬ Signed env this)
    (hdue : Due s id holder amount) (hdistributed : distributed.val = d.distributed.val + amount.val)
    (hle : distributed.val ≤ d.totalAmount.val) :
    Stranded this (tr ++ [r]) t id ((s.marked id holder).written id (d.claimed distributed))
      (d.claimed distributed) := by
  obtain ⟨htotal, -, -⟩ := hs.standing.stage.terms
  obtain ⟨hsnapshot, hsupply, hbefore, -⟩ := hs.standing.stage.of_open hs.opened
  obtain ⟨b, hmem, hamount, hshare⟩ := hdue.share hs.record htotal hsnapshot hsupply
  have hflags : ∀ a, hasClaimed ((s.marked id holder).written id (d.claimed distributed)) id a =
      if a = holder then true else hasClaimed s id a := fun a => by simp [hasClaimed_marked]
  have hpaid : distributed.val = t.paid (hasClaimed ((s.marked id holder).written id (d.claimed distributed)) id) := by
    rw [Terms.paid_mark hmem hdue.unclaimed (by simp [hflags]) fun c hc => by simp [hflags, hc]]
    omega
  have hlost : ¬ t.weights.Exact t.totalAmount.val ∨ ∃ e ∈ t.eligible,
      hasClaimed ((s.marked id holder).written id (d.claimed distributed)) id e.1 = false ∧ 0 < t.share e.2 ∧
        (e.1 = this ∨ 2 ^ 127 - 1 < t.totalAmount.val * e.2.val) := by
    refine hs.lost.imp_right ?_
    rintro ⟨e, he, hflag, hpos, hbad⟩
    have hne : e.1 ≠ holder := by
      rintro rfl
      rcases hbad with rfl | hover
      · exact hself hsigned
      · have hfits := hdue.fits hs.record htotal hsnapshot he
        omega
    exact ⟨e, he, by rw [hflags, if_neg hne, hflag], hpos, hbad⟩
  have hlt : distributed.val < d.totalAmount.val := by
    rw [hpaid, htotal]
    refine Terms.paid_lt (hs.standing.supply_pos hs.opened hs.begun) (hlost.imp_right ?_)
    rintro ⟨e, he, hflag, hpos, -⟩
    exact ⟨e, he, hflag, hpos⟩
  refine ⟨Storage.get_set_self _ _ _, hs.standing.claimed hs.record hs.opened hdue hdistributed hle,
    decide_eq_false (not_le.2 hlt), ?_, hs.endless, hlost⟩
  have hbegun := hs.begun
  show 0 < distributed.val
  omega

/-- **One answered call** that the contract does not sign itself leaves a stranded distribution stranded. -/
theorem Stranded.step (hl : Lifecycle tr h.storage) (hs : Stranded this tr t id h.storage d)
    (hstep : (dividend w this).step h l = some (u, h')) (hself : ¬ l.Signed this) :
    ∃ d', Stranded this (tr ++ [⟨h, l, u, h'⟩]) t id h'.storage d' := by
  have hkept : Same id h.storage h'.storage → ∃ d', Stranded this (tr ++ [⟨h, l, u, h'⟩]) t id h'.storage d' := by
    intro hsame
    refine ⟨d, hsame.dist.trans hs.record, hs.standing.same hsame, hs.opened, hs.begun, hs.endless, ?_⟩
    simpa only [hsame.claimed] using hs.lost
  cases l with
  | others a =>
    obtain ⟨x, -, e⟩ := Option.map_eq_some_iff.1 hstep
    cases e
    exact hkept ⟨rfl, rfl, rfl, fun _ => rfl⟩
  | call env op =>
    have heffect := call_effect (Call.returned_eq_some.1 hstep)
    by_cases hspends : op.spends = some id
    · obtain ⟨s', x', events'⟩ := h'
      cases heffect with
      | handover hop _ _ => cases hop.spends.symm.trans hspends
      | initialized _ => cases hspends
      | opened hop _ _ _ _ _ _ _ => cases (Op.spends_of_offer hop).symm.trans hspends
      | claimed hsigned hd _ _ hdue hdistributed hle _ =>
        cases hspends
        obtain rfl := Option.some.inj (hs.record.symm.trans hd)
        exact ⟨_, hs.claimed hsigned hself hdue hdistributed hle⟩
      | reclaimed _ _ hd _ hdeadline _ _ =>
        cases hspends
        obtain rfl := Option.some.inj (hs.record.symm.trans hd)
        have hlast := env.sequence.le_hi
        rcases hs.endless with hno | hno
        · exact absurd hno hdeadline.1
        · omega
      | cancelled _ _ hd _ hnone _ =>
        cases hspends
        obtain rfl := Option.some.inj (hs.record.symm.trans hd)
        have hbegun := hs.begun
        omega
    · exact hkept (heffect.same hl hs.record hspends)

/-- **No run** that the contract does not sign itself completes a stranded distribution. -/
theorem Stranded.run (hl : Lifecycle tr h.storage) (hs : Stranded this tr t id h.storage d)
    (ls : List (Label Address A))
    (hself : ∀ r ∈ (dividend w this).trace h ls, ¬ r.label.Signed this) :
    ∃ d', ((dividend w this).run h ls).storage.dist.get id = some d' ∧ d'.completed = false := by
  suffices hall : Lifecycle (tr ++ (dividend w this).trace h ls) ((dividend w this).run h ls).storage ∧
      ∃ d', Stranded this (tr ++ (dividend w this).trace h ls) t id ((dividend w this).run h ls).storage d' by
    obtain ⟨-, d', hs'⟩ := hall
    exact ⟨d', hs'.record, hs'.opened⟩
  refine System.run_rule_on (G := fun r : Answered Address X A => ¬ r.label.Signed this)
    (P := fun tr' (h' : Contract Address X) => Lifecycle (tr ++ tr') h'.storage ∧
      ∃ d', Stranded this (tr ++ tr') t id h'.storage d') ⟨by simpa using hl, d, by simpa using hs⟩ ?_ ls hself
  rintro tr' h₁ l u h₂ hno ⟨hl₁, d₁, hs₁⟩ hstep
  exact ⟨by simpa using hl₁.step hstep, by simpa using hs₁.step hl₁ hstep hno⟩

/-- An open distribution that cannot be emptied is stranded. -/
theorem Standing.stranded (hst : Standing tr t id s d) (hd : s.dist.get id = some d) (hopen : d.completed = false)
    (hno : ¬ Recoverable this s id d) : Stranded this tr t id s d := by
  obtain ⟨htotal, -, -⟩ := hst.stage.terms
  obtain ⟨hsnapshot, hsupply, hpaid, -⟩ := hst.stage.of_open hopen
  have hload : loadSupply s id = t.supply := by rw [loadSupply, hsupply, Option.getD_some]
  unfold Recoverable at hno
  push Not at hno
  obtain ⟨hbegun, hendless, hlost⟩ := hno
  have hpos : 0 < d.distributed.val := by
    refine lt_of_le_of_ne ?_ fun e => hbegun (MInt.eq_zero_iff.2 e.symm)
    exact hpaid ▸ Terms.paid_nonneg
  refine ⟨hd, hst, hopen, hpos, ?_, ?_⟩
  · by_cases hzero : d.deadline = 0
    · exact .inl hzero
    · exact .inr (hendless hzero)
  · by_cases hexact : t.weights.Exact t.totalAmount.val
    · have hdvd := Terms.exact_iff.1 hexact
      obtain ⟨e, he, hflag, hb, hbad⟩ := hlost t.eligible hsnapshot (by rwa [hload, htotal])
      have hsupplyPos := hst.supply_pos hopen hpos
      -- a whole share of a positive balance is positive
      have hshare : 0 < t.share e.2 := by
        have hproduct : 0 < t.totalAmount.val * e.2.val := mul_pos t.pos hb
        rw [Offer.share, t.sum_eq]
        exact Int.ediv_pos_of_pos_of_dvd hproduct hsupplyPos.le (hdvd e he)
      refine .inr ⟨e, he, hflag, hshare, ?_⟩
      by_cases hthis : e.1 = this
      · exact .inl hthis
      · exact .inr (htotal ▸ hbad hthis)
    · exact .inl hexact

end Stranded

/-! ## Emptying the escrow -/

/-- The ledger of a call. -/
def Label.ledger : Label Address A → Option U32
  | .call env _ => some env.sequence
  | .others _ => none

/-- Claims, reclaims and cancellations of `id`, at ledgers that start at `now` and only advance, none of them signed by
the contract itself. -/
structure Exits (this : Address) (now : U32) (id : U64) (ls : List (Label Address A)) : Prop where
  spends : ∀ l ∈ ls, l.spends = some id
  unsigned : ∀ l ∈ ls, ¬ l.Signed this
  ordered : (now :: ls.filterMap Label.ledger).Pairwise (· ≤ ·)

section Recovery

variable {w : World Address X A} {this : Address} {balance : X → Address → Address → Int}
  {tr : List (Answered Address X A)} {h h' : Contract Address X} {id : U64} {d : Distribution Address}
  {t : Terms Address} {now n : U32}

/-- Calls at one ledger. -/
theorem exits_at {ls : List (Label Address A)} (hn : now ≤ n)
    (h : ∀ l ∈ ls, ∃ op, op.spends = some id ∧ l = .call (besides this n) op) : Exits this now id ls := by
  refine ⟨fun l hl => ?_, fun l hl hsigned => ?_, ?_⟩
  · obtain ⟨op, hspends, rfl⟩ := h l hl
    exact hspends
  · obtain ⟨op, -, rfl⟩ := h l hl
    exact absurd rfl (signed_besides.1 hsigned)
  · have hledger : ∀ m ∈ ls.filterMap Label.ledger, m = n := by
      intro m hm
      obtain ⟨l, hl, hm⟩ := List.mem_filterMap.1 hm
      obtain ⟨op, -, rfl⟩ := h l hl
      exact (Option.some.inj hm).symm
    refine List.pairwise_cons.2 ⟨fun m hm => hledger m hm ▸ hn, ?_⟩
    rw [List.eq_replicate_of_mem hledger, List.pairwise_replicate]
    exact .inr (MInt.le_def.2 le_rfl)

/-- The call that completes the distribution is a way out by itself. -/
theorem exit_of_call (op : Op Address) {u : Ret} (hn : now ≤ n) (hspends : op.spends = some id)
    (hrun : call w this (besides this n) op h = .ok (u, h')) (hd : h'.storage.dist.get id = some d)
    (hdone : d.completed = true) :
    ∃ ls : List (Label Address A), Exits this now id ls ∧
      ∃ d', ((dividend w this).run h ls).storage.dist.get id = some d' ∧ d'.completed = true := by
  have hstep : (dividend w this).step h (.call (besides this n) op) = some (u, h') := Call.returned_eq_some.2 hrun
  refine ⟨[.call (besides this n) op], exits_at hn fun l hl => ⟨op, hspends, List.mem_singleton.1 hl⟩, d, ?_, hdone⟩
  rw [System.run_cons, System.exec_of_some hstep, System.run_nil, hd]

/-- Before the first claim the admin can cancel. -/
theorem Covered.cancel (hw : LiveTokens w this balance) (hc : Covered balance this tr h)
    (hd : h.storage.dist.get id = some d) (hopen : d.completed = false) (hnone : d.distributed = 0) (now : U32) :
    ∃ ls : List (Label Address A), Exits this now id ls ∧
      ∃ d', ((dividend w this).run h ls).storage.dist.get id = some d' ∧ d'.completed = true := by
  obtain ⟨a, hadmin, hne⟩ := hc.exists_admin hd
  obtain ⟨t, -, hst⟩ := hc.lifecycle.exists_terms hd
  have hpos : 0 < d.totalAmount.val := hst.stage.terms.1 ▸ t.pos
  have hcovers := hc.covers hd
  rw [remaining_of_open hopen, hnone, MInt.val_zero, Int.sub_zero] at hcovers
  obtain ⟨x, htransfer⟩ := hw.pays a hpos.le hcovers
  have hcancel : (cancelDistribution w this (besides this now) a id : M Address X Unit) h = .ok ((), _) :=
    cancelDistribution_ok.2
      ⟨hadmin, signed_besides.2 hne, d, hd, by rw [hnone, MInt.val_zero], hopen, x, htransfer, rfl⟩
  exact exit_of_call (.cancelDistribution a id) (MInt.le_def.2 le_rfl) rfl
    (Call.bind_ok.2 ⟨_, _, hcancel, rfl⟩) (Storage.get_set_self _ _ _) rfl

/-- After a deadline that some ledger is past the admin can reclaim. -/
theorem Covered.reclaim (hw : LiveTokens w this balance) (hc : Covered balance this tr h)
    (hd : h.storage.dist.get id = some d) (hopen : d.completed = false)
    (hdeadline : d.deadline ≠ 0 ∧ d.deadline.val < 2 ^ 32 - 1) (now : U32) :
    ∃ ls : List (Label Address A), Exits this now id ls ∧
      ∃ d', ((dividend w this).run h ls).storage.dist.get id = some d' ∧ d'.completed = true := by
  obtain ⟨a, hadmin, hne⟩ := hc.exists_admin hd
  obtain ⟨t, -, hst⟩ := hc.lifecycle.exists_terms hd
  obtain ⟨-, -, hpaid, hlt⟩ := hst.stage.of_open hopen
  have hlow : 0 ≤ t.paid (hasClaimed h.storage id) := Terms.paid_nonneg
  have hcovers := hc.covers hd
  rw [remaining_of_open hopen] at hcovers
  rw [← hst.stage.terms.1] at hlt
  have hhi := d.totalAmount.le_hi
  -- the first ledger from `now` on that is past the deadline
  obtain ⟨n, hnow, hpast⟩ : ∃ n : U32, now ≤ n ∧ d.deadline.val < n.val := by
    have hlo := d.deadline.lo_le
    by_cases hlater : d.deadline.val < now.val
    · exact ⟨now, MInt.le_def.2 le_rfl, hlater⟩
    · obtain ⟨n, hn⟩ : ∃ n : U32, n.val = d.deadline.val + 1 := MInt.exists_val (by omega) (by omega)
      exact ⟨n, MInt.le_def.2 (by omega), by omega⟩
  obtain ⟨remaining, hremaining⟩ : ∃ n : I128, n.val = d.totalAmount.val - d.distributed.val :=
    MInt.exists_val (by omega) (by omega)
  obtain ⟨x, htransfer⟩ : ∃ x, w.transfer h.outside d.paymentToken this a remaining = some x :=
    hw.pays a (by omega) (by omega)
  have hreclaim : (reclaimUnclaimed w this (besides this n) a id : M Address X I128) h = .ok (remaining, _) :=
    reclaimUnclaimed_ok.2
      ⟨hadmin, signed_besides.2 hne, d, hd, hdeadline.1, hpast, hopen, remaining, hremaining, by omega, x, htransfer,
        rfl⟩
  exact exit_of_call (.reclaimUnclaimed a id) hnow rfl
    (Call.bind_ok.2 ⟨_, _, hreclaim, rfl⟩) (Storage.get_set_self _ _ _) rfl

/-- The open distribution with the terms `t` can be claimed empty at the ledger `now`. -/
structure Payable (balance : X → Address → Address → Int) (this : Address) (now : U32) (t : Terms Address) (id : U64)
    (tr : List (Answered Address X A)) (h : Contract Address X) (d : Distribution Address) : Prop where
  covered : Covered balance this tr h
  record : h.storage.dist.get id = some d
  standing : Standing tr t id h.storage d
  opened : d.completed = false
  inTime : t.deadline ≠ 0 → now.val ≤ t.deadline.val
  pos : 0 < t.supply.val
  exact : t.weights.Exact t.totalAmount.val
  payable : ∀ e ∈ t.eligible, hasClaimed h.storage id e.1 = false → 0 < e.2.val →
    e.1 ≠ this ∧ t.totalAmount.val * e.2.val ≤ 2 ^ 127 - 1

/-- What is left of the distribution `id`. -/
def left (id : U64) (h : Contract Address X) : ℕ := ((h.storage.dist.get id).map fun d => d.remaining.toNat).getD 0

omit [DecidableEq Address] in
theorem left_eq (hd : h.storage.dist.get id = some d) : left id h = d.remaining.toNat := by
  rw [left, hd]
  rfl

/-- Somebody can claim, and either that was the last claim or there is less left to claim. -/
theorem Payable.step (hw : LiveTokens w this balance) (hp : Payable balance this now t id tr h d) :
    ∃ op h', op.spends = some id ∧ (dividend w this).step h (.call (besides this now) op) = some (.unit, h') ∧
      ((∃ d', h'.storage.dist.get id = some d' ∧ d'.completed = true) ∨
        (∃ (tr' : List (Answered Address X A)) (d' : Distribution Address), Payable balance this now t id tr' h' d') ∧
          left id h' < left id h) := by
  obtain ⟨hc, hd, hst, hopen, hinTime, hpos, hexact, hpayable⟩ := hp
  obtain ⟨hsnapshot, hsupply, hpaid, hlt⟩ := hst.stage.of_open hopen
  obtain ⟨⟨holder, b⟩, hmem, hflag, hshare⟩ := Terms.exists_unpaid hpos hexact (hpaid ▸ hlt)
  obtain ⟨hne, hfits⟩ := hpayable _ hmem hflag (Terms.pos_of_share_pos hshare).2
  obtain ⟨amount, h', hclaim, -, -⟩ := hst.claim hw hd hopen (hc.covers hd)
    ⟨hmem, hshare, hfits, signed_besides.2 hne, hinTime⟩ hflag
  have hrun : call w this (besides this now) (.claim id holder) h = .ok (.unit, h') :=
    Call.bind_ok.2 ⟨_, _, hclaim, rfl⟩
  have hstep : (dividend w this).step h (.call (besides this now) (.claim id holder)) = some (.unit, h') :=
    Call.returned_eq_some.2 hrun
  have hself : ¬ (Label.call (besides this now) (.claim id holder) : Label Address A).Signed this :=
    fun hsigned => signed_besides.1 hsigned rfl
  refine ⟨.claim id holder, h', rfl, hstep, ?_⟩
  have hc' := hc.step hw.toExactTokens hstep hself
  obtain ⟨-, d₁, hd₁, -, -, amount, hdue, x', -, distributed, hdistributed, hle, hr⟩ := claim_ok.1 hclaim
  obtain rfl := Option.some.inj (hd.symm.trans hd₁)
  obtain rfl := (Prod.mk.inj hr).2
  have hd' : ((h.storage.marked id holder).written id (d.claimed distributed)).dist.get id =
      some (d.claimed distributed) := Storage.get_set_self _ _ _
  by_cases hdone : (d.claimed distributed).completed = true
  · exact .inl ⟨_, hd', hdone⟩
  · refine .inr ⟨⟨_, _, hc', hd', hst.claimed hd hopen hdue hdistributed hle, by simpa using hdone, hinTime, hpos,
      hexact, fun e he hunpaid => hpayable e he ?_⟩, ?_⟩
    · rw [hasClaimed_written, hasClaimed_marked] at hunpaid
      split at hunpaid
      · cases hunpaid
      · exact hunpaid
    · have hamount : 0 < amount.val := hdue.pos
      rw [left_eq hd, remaining_of_open hopen]
      refine lt_of_eq_of_lt (left_eq hd') ?_
      rw [remaining_claimed hle]
      omega

/-- The holders can claim the distribution empty. -/
theorem Payable.drain (hw : LiveTokens w this balance) (hp : Payable balance this now t id tr h d) :
    ∃ ls : List (Label Address A), Exits this now id ls ∧
      ∃ d', ((dividend w this).run h ls).storage.dist.get id = some d' ∧ d'.completed = true := by
  obtain ⟨ls, hls, hdone⟩ := System.progress (M := dividend w this)
    (G := fun l => ∃ op, op.spends = some id ∧ l = .call (besides this now) op)
    (I := fun h =>
      ∃ (tr : List (Answered Address X A)) (d : Distribution Address), Payable balance this now t id tr h d)
    (Q := fun h => ∃ d : Distribution Address, h.storage.dist.get id = some d ∧ d.completed = true) (left id)
    (fun h₁ ⟨tr₁, d₁, hp₁⟩ => by
      obtain ⟨op, h₂, hspends, hstep, hnext⟩ := hp₁.step hw
      exact ⟨_, _, h₂, ⟨op, hspends, rfl⟩, hstep, hnext⟩) ⟨tr, d, hp⟩
  exact ⟨ls, exits_at (MInt.le_def.2 le_rfl) hls, hdone⟩

/-- **A distribution that can be emptied is emptied** by claims, a reclaim or a cancellation. -/
theorem Covered.recover (hw : LiveTokens w this balance) (hc : Covered balance this tr h)
    (hd : h.storage.dist.get id = some d) (hopen : d.completed = false) (hr : Recoverable this h.storage id d)
    (now : U32) :
    ∃ ls : List (Label Address A), Exits this now id ls ∧
      ∃ d', ((dividend w this).run h ls).storage.dist.get id = some d' ∧ d'.completed = true := by
  by_cases hnone : d.distributed = 0
  · exact hc.cancel hw hd hopen hnone now
  by_cases hdeadline : d.deadline ≠ 0 ∧ d.deadline.val < 2 ^ 32 - 1
  · exact hc.reclaim hw hd hopen hdeadline now
  obtain ⟨snap, hsnap, hdvd, hpayable⟩ := (hr.resolve_left hnone).resolve_left hdeadline
  obtain ⟨t, -, hst⟩ := hc.lifecycle.exists_terms hd
  obtain ⟨htotal, -, hsame⟩ := hst.stage.terms
  obtain ⟨hsnapshot, hsupply, hpaid, -⟩ := hst.stage.of_open hopen
  obtain rfl : t.eligible = snap := Option.some.inj (hsnapshot.symm.trans hsnap)
  have hload : loadSupply h.storage id = t.supply := by rw [loadSupply, hsupply, Option.getD_some]
  rw [htotal] at hdvd hpayable
  rw [hload] at hdvd
  have hbegun : 0 < d.distributed.val :=
    lt_of_le_of_ne (hpaid ▸ Terms.paid_nonneg) fun e => hnone (MInt.eq_zero_iff.2 e.symm)
  refine Payable.drain hw
    ⟨hc, hd, hst, hopen, fun hne => ?_, hst.supply_pos hopen hbegun, Terms.exact_iff.2 hdvd, hpayable⟩
  -- no ledger is past the deadline
  have hlast := now.le_hi
  rw [← hsame] at hne ⊢
  have hlate : ¬ d.deadline.val < 2 ^ 32 - 1 := fun hlt => hdeadline ⟨hne, hlt⟩
  omega

end Recovery

/-! ## Runs -/

section Runs

variable {w : World Address X A} {this : Address} {balance : X → Address → Address → Int}

/-- The log changes nothing about what the tokens do. -/
theorem LiveTokens.recorded (hw : LiveTokens w this balance) : LiveTokens w.recorded this fun x => balance x.1 where
  moves {x x' token from_ to_ amount} h := by
    obtain ⟨x₁, hx₁, rfl⟩ := Option.map_eq_some_iff.1 h
    exact hw.moves hx₁
  nonneg x := hw.nonneg x.1
  keeps {a x x'} h := by
    obtain ⟨x₁, hx₁, rfl⟩ := Option.map_eq_some_iff.1 h
    exact hw.keeps hx₁
  pays {x token amount} to_ h₁ h₂ := by
    obtain ⟨x₁, hx₁⟩ := hw.pays to_ h₁ h₂
    exact ⟨_, Option.map_eq_some_iff.2 ⟨x₁, hx₁, rfl⟩⟩

/-- After the calls `ls`, claims, a reclaim or a cancellation from the ledger `now` on complete the distribution `id`,
and then all of its total has left the escrow on its behalf. -/
def Escapes (w : World Address X A) (this : Address) (x : X) (ls : List (Label Address A)) (now : U32) (id : U64) :
    Prop :=
  ∃ exits, Exits this now id exits ∧
    ∃ d, ((dividend w.recorded this).run (Contract.fresh Address (x, [])) (ls ++ exits)).storage.dist.get id = some d ∧
      d.completed = true ∧
      paidOut id ((dividend w.recorded this).trace (Contract.fresh Address (x, [])) (ls ++ exits)) = d.totalAmount.val

variable {x : X} {ls : List (Label Address A)} {id : U64} {d : Distribution Address}

/-- No run completes an open distribution that cannot be emptied. -/
theorem never_completed
    (hd : ((dividend w this).run (Contract.fresh Address x) ls).storage.dist.get id = some d)
    (hopen : d.completed = false)
    (hno : ¬ Recoverable this ((dividend w this).run (Contract.fresh Address x) ls).storage id d)
    (ls' : List (Label Address A))
    (hself : ∀ r ∈ (dividend w this).trace ((dividend w this).run (Contract.fresh Address x) ls) ls',
      ¬ r.label.Signed this) :
    ∃ d', ((dividend w this).run (Contract.fresh Address x) (ls ++ ls')).storage.dist.get id = some d' ∧
      d'.completed = false := by
  have hl := run_lifecycle w this x ls
  obtain ⟨t, -, hst⟩ := hl.exists_terms hd
  rw [System.run_append]
  exact (hst.stranded hd hopen hno).run hl ls' hself

/-- An open distribution that cannot be emptied does not escape. -/
theorem not_escapes
    (hd : ((dividend w.recorded this).run (Contract.fresh Address (x, [])) ls).storage.dist.get id = some d)
    (hopen : d.completed = false)
    (hno : ¬ Recoverable this ((dividend w.recorded this).run (Contract.fresh Address (x, [])) ls).storage id d)
    (now : U32) : ¬ Escapes w this x ls now id := by
  rintro ⟨exits, hexits, d₁, hd₁, hdone, -⟩
  obtain ⟨d₂, hd₂, hopen₂⟩ := never_completed hd hopen hno exits fun r hr => hexits.unsigned _ (System.label_mem hr)
  obtain rfl := Option.some.inj (hd₁.symm.trans hd₂)
  cases hdone.symm.trans hopen₂

/-- **The way out of escrow.** In every reachable state, with payment tokens that pay what the contract has, the escrow
of an open distribution can be emptied if and only if nothing of it was claimed yet, or it has a deadline that some
ledger is past, or every share of the frozen list is whole and all that were not paid can be claimed. Otherwise no calls
at all ever complete it. The contract itself signs no call. -/
theorem escrow_recoverable (hw : LiveTokens w this balance) (x : X) (ls : List (Label Address A))
    (hself : ∀ r ∈ (dividend w.recorded this).trace (Contract.fresh Address (x, [])) ls, ¬ r.label.Signed this)
    (now : U32) :
    let h := (dividend w.recorded this).run (Contract.fresh Address (x, [])) ls
    ∀ id d, h.storage.dist.get id = some d → d.completed = false →
      (Escapes w this x ls now id ↔ Recoverable this h.storage id d) ∧
      (¬ Recoverable this h.storage id d →
        ∀ ls', (∀ r ∈ (dividend w.recorded this).trace h ls', ¬ r.label.Signed this) →
          ∃ d', ((dividend w.recorded this).run h ls').storage.dist.get id = some d' ∧ d'.completed = false) := by
  intro h id d hd hopen
  refine ⟨⟨fun hescapes => ?_, fun hr => ?_⟩, fun hno ls' hself' => ?_⟩
  · by_contra hno
    exact not_escapes hd hopen hno now hescapes
  · have hc := run_covered hw.recorded.toExactTokens (x, []) ls hself
    obtain ⟨exits, hexits, d', hd', hdone⟩ := hc.recover hw.recorded hd hopen hr now
    rw [← System.run_append] at hd'
    refine ⟨exits, hexits, d', hd', hdone, ?_⟩
    have hpaid := (run_accounted w this x (ls ++ exits)).spent id d' hd'
    rwa [Distribution.remaining, if_pos hdone, Int.sub_zero] at hpaid
  · obtain ⟨d', hd', hopen'⟩ := never_completed hd hopen hno ls' hself'
    exact ⟨d', by rwa [System.run_append] at hd', hopen'⟩

/-- The admin 1 of the contract 9 escrows 100 until the ledger 5 for 2 and 3 by the weights 1 and 2, and 2 claims. -/
def deadlineRun : List (Label ℕ (ℕ × ℕ × ℕ)) :=
  [.others (20, 1, 100), .call (besides 9 0) (.initializeDividend 1),
    .call (besides 9 0) (.createDistributionDeadline 1 10 20 100 [(2, 1), (3, 2)] 5),
    .call (besides 9 1) (.claim 1 2)]

theorem escrow_recoverable_deadline : Escapes (Ledgers.world 1 1) 9 ∅ deadlineRun 2 1 := by
  have hself : ∀ l ∈ deadlineRun, ¬ l.Signed 9 := by simp [deadlineRun, Label.Signed, signed_besides]
  have hrecord : (((dividend (Ledgers.world 1 1).recorded 9).run
      (Contract.fresh ℕ (∅, [])) deadlineRun).storage.dist.get 1).map
        (fun d => (d.completed, decide (d.deadline ≠ 0 ∧ d.deadline.val < 2 ^ 32 - 1))) = some (false, true) := by
    decide +kernel
  obtain ⟨d, hd, hfacts⟩ := Option.map_eq_some_iff.1 hrecord
  obtain ⟨hopen, hdeadline⟩ := Prod.mk.inj hfacts
  exact ((escrow_recoverable (Ledgers.live 1 1 9) ∅ deadlineRun (fun r hr => hself _ (System.label_mem hr)) 2
    1 d hd hopen).1).2 (.inr (.inl (of_decide_eq_true hdeadline)))

/-- The same without a deadline, and both holders claim: 33 and 66 of the 100. -/
def dustRun : List (Label ℕ (ℕ × ℕ × ℕ)) :=
  [.others (20, 1, 100), .call (besides 9 0) (.initializeDividend 1),
    .call (besides 9 0) (.createDistribution 1 10 20 100 [(2, 1), (3, 2)]),
    .call (besides 9 1) (.claim 1 2), .call (besides 9 1) (.claim 1 3)]

/-- The last unit of `dustRun` does not get out of escrow, at no ledger. -/
theorem dust_stranded :
    LiveTokens (Ledgers.world 1 1) (9 : ℕ) Ledgers.balance ∧
      (∃ d, ((dividend (Ledgers.world 1 1).recorded 9).run
        (Contract.fresh ℕ (∅, [])) dustRun).storage.dist.get 1 = some d ∧ d.completed = false) ∧
      ∀ now, ¬ Escapes (Ledgers.world 1 1) 9 ∅ dustRun now 1 := by
  have hrecord : (((dividend (Ledgers.world 1 1).recorded 9).run
      (Contract.fresh ℕ (∅, [])) dustRun).storage.dist.get 1).map
        (fun d => (d.completed, d.distributed, d.deadline, d.totalAmount)) = some (false, 99, 0, 100) := by
    decide +kernel
  have hsnapshot : ((dividend (Ledgers.world 1 1).recorded 9).run
      (Contract.fresh ℕ (∅, [])) dustRun).storage.snapshot.get 1 = some [(2, 1), (3, 2)] := by decide +kernel
  have hsupply : loadSupply ((dividend (Ledgers.world 1 1).recorded 9).run
      (Contract.fresh ℕ (∅, [])) dustRun).storage 1 = 3 := by decide +kernel
  obtain ⟨d, hd, hfacts⟩ := Option.map_eq_some_iff.1 hrecord
  simp only [Prod.mk.injEq] at hfacts
  obtain ⟨hopen, hdistributed, hdeadline, htotal⟩ := hfacts
  refine ⟨Ledgers.live 1 1 9, ⟨d, hd, hopen⟩, not_escapes hd hopen ?_⟩
  rintro (hnone | ⟨hsome, -⟩ | ⟨snap, hsnap, hdvd, -⟩)
  · rw [hdistributed] at hnone
    exact absurd hnone (by decide)
  · exact hsome hdeadline
  · obtain rfl := Option.some.inj (hsnapshot.symm.trans hsnap)
    have hthird := hdvd (2, 1) (by simp)
    rw [hsupply, htotal] at hthird
    exact absurd hthird (by decide)

end Runs

end StellarRwa.Dividend
