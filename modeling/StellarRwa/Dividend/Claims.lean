import StellarRwa.Dividend.Escrow

/-!
# Claims

As long as a distribution is neither reclaimed nor cancelled, every listed holder with a positive share can claim it,
once, and is paid exactly that share (`Live.claim`): what the others were paid leaves room for it, so the distribution
is not completed and the escrow suffices. Which holders are paid by a list of claims does not depend on its order
(`Claimed`), and with that neither does what the claims leave behind (`claims_never_blocked`).
-/

namespace StellarRwa.Dividend

open Lib

variable {Address X A : Type} [DecidableEq Address]

/-- `holder`, listed with the balance `b`, may claim by a call at `env`: the share is positive and its product fits, the
call is signed, and it is in time. -/
structure Entitled (o : Offer Address) (env : Env Address) (holder : Address) (b : I128) : Prop where
  listed : (holder, b) ∈ o.eligible
  share : 0 < o.share b
  fits : o.totalAmount.val * b.val ≤ 2 ^ 127 - 1
  signed : env.authorized holder = true
  inTime : o.deadline ≠ 0 → env.sequence.val ≤ o.deadline.val

variable {w : World Address X A} {this : Address} {balance : X → Address → Address → Int} {x₀ : X}
  {tr : List (Answered Address X A)} {h h' : Contract Address X} {id : U64} {t : Terms Address} {env : Env Address}
  {holder : Address} {b : I128}

/-- A distribution with the terms `t` that was neither reclaimed nor cancelled, in a reachable state. -/
structure Live (balance : X → Address → Address → Int) (this : Address) (x₀ : X) (tr : List (Answered Address X A))
    (h : Contract Address X) (id : U64) (t : Terms Address) (d : Distribution Address) : Prop where
  backed : Backed balance this x₀ tr h
  created : Created tr id t.toOffer
  unswept : ¬ Swept tr id
  record : h.storage.dist.get id = some d
  standing : Standing tr t id h.storage d

variable {d : Distribution Address}

theorem Live.distributed (hl : Live balance this x₀ tr h id t d) :
    d.distributed.val = t.paid (hasClaimed h.storage id) := (hl.standing.unswept hl.unswept).2

/-- While a listed holder with a positive share has not claimed, the distribution is open. -/
theorem Live.opened (hl : Live balance this x₀ tr h id t d) (hmem : (holder, b) ∈ t.eligible) (hshare : 0 < t.share b)
    (hflag : hasClaimed h.storage id holder = false) : d.completed = false := by
  have hroom := Terms.paid_add_le hmem hflag
  have hdistributed := hl.distributed
  have hcancelled := (hl.standing.unswept hl.unswept).1
  have hstage := hl.standing.stage
  cases hstage with
  | opened _ _ _ _ => rfl
  | paid _ _ =>
    have hall : t.totalAmount.val = t.paid (hasClaimed h.storage id) := hdistributed
    omega
  | cancelled _ _ _ => cases hcancelled

/-- The escrow covers what remains of every distribution. -/
theorem Backed.covers (hb : Backed balance this x₀ tr h) (hd : h.storage.dist.get id = some d) :
    d.remaining ≤ balance h.outside d.paymentToken this := by
  have howed := hb.lifecycle.remaining_le_owed hd
  have hcovered := hb.covered d.paymentToken
  have hgifts := hb.gifts d.paymentToken
  omega

/-- A claim of an entitled holder who was not paid yet returns when the transfer of the share does, and transfers
exactly the share. -/
theorem Standing.claim_of_pays (hst : Standing tr t id h.storage d) (hd : h.storage.dist.get id = some d)
    (hopen : d.completed = false) (he : Entitled t.toOffer env holder b)
    (hflag : hasClaimed h.storage id holder = false)
    (hpays : ∀ amount : I128, amount.val = t.share b →
      ∃ x', w.transfer h.outside t.paymentToken this holder amount = some x') :
    ∃ amount h', Dividend.claim w this env id holder h = .ok ((), h') ∧ amount.val = t.share b ∧
      w.transfer h.outside t.paymentToken this holder amount = some h'.outside := by
  obtain ⟨htotal, htoken, hdeadline⟩ := hst.stage.terms
  obtain ⟨hsnapshot, hsupply, hdistributed, -⟩ := hst.stage.of_open hopen
  obtain ⟨amount, hdue, hamount⟩ := due_of_share hd htotal hsnapshot hsupply hflag he.listed he.share he.fits
  have hpos := he.share
  have hroom := Terms.paid_add_le he.listed hflag
  have hpaid : 0 ≤ t.paid (hasClaimed h.storage id) := Terms.paid_nonneg
  have hfits := t.totalAmount.le_hi
  obtain ⟨x', htransfer⟩ := hpays amount hamount
  refine ⟨amount, _, claim_ok.2 ⟨he.signed, d, hd, hopen, hdeadline ▸ he.inTime, amount, hdue, x', htoken ▸ htransfer,
    ⟨d.distributed.val + amount.val, by omega, by omega⟩, rfl, ?_, rfl⟩, hamount, htransfer⟩
  show d.distributed.val + amount.val ≤ d.totalAmount.val
  rw [htotal]
  omega

/-- The escrow pays the share when it covers what remains of the distribution. -/
theorem Standing.claim (hw : LiveTokens w this balance) (hst : Standing tr t id h.storage d)
    (hd : h.storage.dist.get id = some d) (hopen : d.completed = false)
    (hcovers : d.remaining ≤ balance h.outside d.paymentToken this) (he : Entitled t.toOffer env holder b)
    (hflag : hasClaimed h.storage id holder = false) :
    ∃ amount h', Dividend.claim w this env id holder h = .ok ((), h') ∧ amount.val = t.share b ∧
      w.transfer h.outside t.paymentToken this holder amount = some h'.outside := by
  refine hst.claim_of_pays hd hopen he hflag fun amount hamount => ?_
  obtain ⟨htotal, htoken, -⟩ := hst.stage.terms
  obtain ⟨-, -, hdistributed, -⟩ := hst.stage.of_open hopen
  have hpos := he.share
  have hroom := Terms.paid_add_le he.listed hflag
  rw [remaining_of_open hopen, htotal, htoken] at hcovers
  exact hw.pays holder (by omega) (by omega)

/-- **A claim of an entitled holder who was not paid yet returns**, and transfers exactly the share. -/
theorem Live.claim (hw : LiveTokens w this balance) (hl : Live balance this x₀ tr h id t d)
    (he : Entitled t.toOffer env holder b) (hflag : hasClaimed h.storage id holder = false) :
    ∃ amount h', Dividend.claim w this env id holder h = .ok ((), h') ∧ amount.val = t.share b ∧
      w.transfer h.outside t.paymentToken this holder amount = some h'.outside :=
  hl.standing.claim hw hl.record (hl.opened he.listed he.share hflag) (hl.backed.covers hl.record) he hflag

/-- A claim that returns was made by an entitled holder who was not paid yet, and leaves the distribution live. -/
theorem Live.step {u : Ret} (hw : LiveTokens w this balance) (hl : Live balance this x₀ tr h id t d)
    (hstep : (dividend w this).step h (.call env (.claim id holder)) = some (u, h')) :
    ∃ d' b amount, Live balance this x₀ (tr ++ [⟨h, .call env (.claim id holder), u, h'⟩]) h' id t d' ∧
      Entitled t.toOffer env holder b ∧ hasClaimed h.storage id holder = false ∧
      (∀ a, hasClaimed h'.storage id a = if a = holder then true else hasClaimed h.storage id a) ∧
      amount.val = t.share b ∧ w.transfer h.outside t.paymentToken this holder amount = some h'.outside := by
  have hbacked := hl.backed.step hw.toExactTokens hstep trivial
  obtain ⟨htotal, htoken, hdeadline⟩ := hl.standing.stage.terms
  have hrun := Call.returned_eq_some.1 hstep
  simp only [call, Call.bind_ok, Call.pure_ok] at hrun
  obtain ⟨_, _, hclaim, hu⟩ := hrun
  cases hu
  obtain ⟨hsigned, d₁, hd₁, hopen, hinTime, amount, hdue, x', htransfer, distributed, hdistributed, hle, hr⟩ :=
    claim_ok.1 hclaim
  obtain rfl : d = d₁ := Option.some.inj (hl.record.symm.trans hd₁)
  cases hr
  obtain ⟨hsnapshot, hsupply, -, -⟩ := hl.standing.stage.of_open hopen
  obtain ⟨b, hmem, hamount, hshare⟩ := hdue.share hl.record htotal hsnapshot hsupply
  have hfits := hdue.fits hl.record htotal hsnapshot hmem
  refine ⟨d.claimed distributed, b, amount, ⟨hbacked, ?_, ?_, ?_, ?_⟩,
    ⟨hmem, hshare, hfits, hsigned, hdeadline ▸ hinTime⟩, hdue.unclaimed, ?_, hamount, htoken ▸ htransfer⟩
  · exact created_concat.2 (.inl hl.created)
  · exact fun hswept => hl.unswept ((swept_concat.1 hswept).resolve_right (by simp [Label.sweeps, Op.sweeps]))
  · exact Storage.get_set_self _ _ _
  · exact hl.standing.claimed hl.record hopen hdue hdistributed hle
  · intro a
    simp [hasClaimed_marked]

/-! ## Lists of claims -/

/-- The calls of the holders listed in `cs` that claim the distribution `id`. -/
def claims (id : U64) (cs : List (Env Address × Address)) : List (Label Address A) :=
  cs.map fun c => .call c.1 (.claim id c.2)

/-- What the claims `cs` do to a live distribution: who is marked as paid, and what everybody is paid. -/
structure Claimed (balance : X → Address → Address → Int) (this : Address) (id : U64) (t : Terms Address)
    (cs : List (Env Address × Address)) (h h' : Contract Address X) : Prop where
  marked : ∀ a, hasClaimed h'.storage id a = true ↔
    hasClaimed h.storage id a = true ∨ ∃ c ∈ cs, c.2 = a ∧ ∃ b, Entitled t.toOffer c.1 a b
  paid : ∀ p a, a ≠ this → balance h'.outside p a = balance h.outside p a +
    if p = t.paymentToken ∧ hasClaimed h'.storage id a = true ∧ hasClaimed h.storage id a = false then
      t.share (balanceIn t.eligible a) else 0
  own : ∀ p, balance h'.outside p this = balance h.outside p this -
    if p = t.paymentToken then t.paid (hasClaimed h'.storage id) - t.paid (hasClaimed h.storage id) else 0

theorem claimed_nil : Claimed balance this id t [] h h where
  marked a := by simp
  paid p a _ := by
    have hno : ¬ (p = t.paymentToken ∧ hasClaimed h.storage id a = true ∧ hasClaimed h.storage id a = false) := by
      rintro ⟨-, h₁, h₂⟩
      cases h₁.symm.trans h₂
    rw [if_neg hno, Int.add_zero]
  own p := by simp

variable {h₀ : Contract Address X} {cs : List (Env Address × Address)}

/-- A claim that is not answered comes from somebody who is not entitled or was paid already. -/
theorem Claimed.unanswered (hw : LiveTokens w this balance) (hl : Live balance this x₀ tr h id t d)
    (hc : Claimed balance this id t cs h₀ h) (hstep : (dividend w this).step h (.call env (.claim id holder)) = none) :
    Claimed balance this id t (cs ++ [(env, holder)]) h₀ h := by
  have hblocked : ∀ b, Entitled t.toOffer env holder b → hasClaimed h.storage id holder = true := by
    intro b he
    by_contra hflag
    obtain ⟨amount, h', hclaim, -, -⟩ := hl.claim hw he (by simpa using hflag)
    have hcall : call w this env (.claim id holder) h = .ok (.unit, h') := by simp [call, hclaim]
    cases hstep.symm.trans (Call.returned_eq_some.2 hcall)
  refine ⟨fun a => ?_, hc.paid, hc.own⟩
  rw [hc.marked]
  constructor
  · rintro (hmarked | ⟨c, hmem, hrest⟩)
    · exact .inl hmarked
    · exact .inr ⟨c, List.mem_append_left _ hmem, hrest⟩
  · rintro (hmarked | ⟨c, hmem, rfl, b, he⟩)
    · exact .inl hmarked
    · rcases List.mem_append.1 hmem with hmem | hmem
      · exact .inr ⟨c, hmem, rfl, b, he⟩
      · obtain rfl := List.mem_singleton.1 hmem
        exact (hc.marked holder).1 (hblocked b he)

/-- A claim that is answered pays its share and marks its holder. -/
theorem Claimed.answered {amount : I128} (hw : LiveTokens w this balance) (hc : Claimed balance this id t cs h₀ h)
    (hne : holder ≠ this) (he : Entitled t.toOffer env holder b) (hflag : hasClaimed h.storage id holder = false)
    (hflags : ∀ a, hasClaimed h'.storage id a = if a = holder then true else hasClaimed h.storage id a)
    (hamount : amount.val = t.share b)
    (htransfer : w.transfer h.outside t.paymentToken this holder amount = some h'.outside) :
    Claimed balance this id t (cs ++ [(env, holder)]) h₀ h' := by
  have hbefore : hasClaimed h₀.storage id holder = false := by
    by_contra hmarked
    cases hflag.symm.trans ((hc.marked holder).2 (.inl (by simpa using hmarked)))
  refine ⟨?_, ?_, ?_⟩
  · intro a
    rw [hflags]
    split
    · rename_i heq
      subst heq
      exact iff_of_true rfl (.inr ⟨(env, a), by simp, rfl, b, he⟩)
    · rename_i hneq
      rw [hc.marked]
      refine or_congr_right ⟨?_, ?_⟩
      · rintro ⟨c, hmem, hrest⟩
        exact ⟨c, List.mem_append_left _ hmem, hrest⟩
      · rintro ⟨c, hmem, rfl, hrest⟩
        rcases List.mem_append.1 hmem with hmem | hmem
        · exact ⟨c, hmem, rfl, hrest⟩
        · obtain rfl := List.mem_singleton.1 hmem
          exact absurd rfl hneq
  · intro p a ha
    rw [hw.moves htransfer, hc.paid p a ha, hflags]
    by_cases heq : a = holder
    · subst heq
      have hbalance : balanceIn t.eligible a = b := balanceIn_of_mem t.listed.distinct he.listed
      by_cases hp : p = t.paymentToken <;> simp [hp, ha, hflag, hbefore, hbalance, hamount]
    · simp [heq, ha]
  · intro p
    have hpaid : t.paid (hasClaimed h'.storage id) = t.paid (hasClaimed h.storage id) + t.share b :=
      Terms.paid_mark he.listed hflag (by simp [hflags]) fun c hc => by simp [hflags, hc]
    rw [hw.sent htransfer hne, hc.own p, hpaid, hamount]
    split <;> omega

/-- One more claim. -/
theorem Live.claimed_concat (hw : LiveTokens w this balance) (hl : Live balance this x₀ tr h id t d)
    (hc : Claimed balance this id t cs h₀ h) (c : Env Address × Address) :
    ∃ (tr' : List (Answered Address X A)) (d' : Distribution Address),
      Live balance this x₀ tr' ((dividend w this).exec h (.call c.1 (.claim id c.2))) id t d' ∧
        Claimed balance this id t (cs ++ [c]) h₀ ((dividend w this).exec h (.call c.1 (.claim id c.2))) := by
  obtain ⟨env, holder⟩ := c
  cases hstep : (dividend w this).step h (.call env (.claim id holder)) with
  | none =>
    rw [System.exec_of_none hstep]
    exact ⟨tr, d, hl, hc.unanswered hw hl hstep⟩
  | some p =>
    obtain ⟨u, h'⟩ := p
    rw [System.exec_of_some hstep]
    obtain ⟨d', b, amount, hl', he, hflag, hflags, hamount, htransfer⟩ := hl.step hw hstep
    have hne : holder ≠ this := by
      rintro rfl
      exact hl.backed.listed id _ hl.created b he.listed
    exact ⟨_, d', hl', hc.answered hw hne he hflag hflags hamount htransfer⟩

/-- A list of claims keeps the distribution live. -/
theorem Live.run (hw : LiveTokens w this balance) (hl : Live balance this x₀ tr h id t d)
    (cs : List (Env Address × Address)) :
    ∃ (tr' : List (Answered Address X A)) (d' : Distribution Address),
      Live balance this x₀ tr' ((dividend w this).run h (claims id cs)) id t d' ∧
        Claimed balance this id t cs h ((dividend w this).run h (claims id cs)) := by
  induction cs using List.reverseRecOn with
  | nil => exact ⟨tr, d, hl, claimed_nil⟩
  | append_singleton cs c ih =>
    obtain ⟨tr₁, d₁, hl₁, hc₁⟩ := ih
    rw [claims, List.map_append, System.run_append]
    exact hl₁.claimed_concat hw hc₁ c

/-- The record of a live distribution, from what was distributed. -/
theorem Live.eq_record (hl : Live balance this x₀ tr h id t d) :
    d = t.record id d.distributed (decide (t.totalAmount ≤ d.distributed)) false := by
  have hcancelled := (hl.standing.unswept hl.unswept).1
  have hstage := hl.standing.stage
  cases hstage with
  | @opened distributed _ _ _ hlt =>
    have hno : ¬ t.totalAmount ≤ distributed := not_le.2 hlt
    simp [Terms.record, hno]
  | paid _ _ =>
    simp [Terms.record]
  | cancelled _ _ _ => cases hcancelled

/-- What a list of claims leaves behind depends only on who is marked in the end. -/
theorem Live.outcome_eq {tr₁ tr₂ : List (Answered Address X A)} {h₁ h₂ : Contract Address X}
    {d₁ d₂ : Distribution Address} {cs₁ cs₂ : List (Env Address × Address)} (hl₁ : Live balance this x₀ tr₁ h₁ id t d₁)
    (hl₂ : Live balance this x₀ tr₂ h₂ id t d₂) (hc₁ : Claimed balance this id t cs₁ h h₁)
    (hc₂ : Claimed balance this id t cs₂ h h₂)
    (hflags : hasClaimed h₁.storage id = hasClaimed h₂.storage id) :
    d₁ = d₂ ∧ ∀ p a, balance h₁.outside p a = balance h₂.outside p a := by
  constructor
  · have hdistributed : d₁.distributed = d₂.distributed :=
      MInt.val_inj.1 (by rw [hl₁.distributed, hl₂.distributed, hflags])
    rw [hl₁.eq_record, hl₂.eq_record, hdistributed]
  · intro p a
    by_cases ha : a = this
    · rw [ha, hc₁.own p, hc₂.own p, hflags]
    · rw [hc₁.paid p a ha, hc₂.paid p a ha, hflags]

/-- **Nobody can block or take away a claim.** In every reachable state, with payment tokens that pay what the
contract has, for every distribution that was created and neither reclaimed nor cancelled: the claim of every entitled
holder who has not claimed yet returns and pays exactly the share; and two orders of the same claims leave the same
record, the same flags and the same balances. -/
theorem claims_never_blocked (hw : LiveTokens w this balance) (x : X) (ls : List (Label Address A))
    (havoids : ∀ r ∈ (dividend w this).trace (Contract.fresh Address x) ls, r.label.Avoids this) {id : U64}
    {o : Offer Address} (hcreated : Created ((dividend w this).trace (Contract.fresh Address x) ls) id o)
    (hunswept : ¬ Swept ((dividend w this).trace (Contract.fresh Address x) ls) id) :
    let h := (dividend w this).run (Contract.fresh Address x) ls
    (∀ env holder b, Entitled o env holder b → hasClaimed h.storage id holder = false →
        ∃ amount h', claim w this env id holder h = .ok ((), h') ∧ amount.val = o.share b ∧
          w.transfer h.outside o.paymentToken this holder amount = some h'.outside ∧
          balance h'.outside o.paymentToken holder = balance h.outside o.paymentToken holder + o.share b) ∧
      ∀ cs₁ cs₂ : List (Env Address × Address), cs₁.Perm cs₂ →
        let h₁ := (dividend w this).run h (claims id cs₁)
        let h₂ := (dividend w this).run h (claims id cs₂)
        h₁.storage.dist.get id = h₂.storage.dist.get id ∧
          (∀ a, hasClaimed h₁.storage id a = hasClaimed h₂.storage id a) ∧
          ∀ p a, balance h₁.outside p a = balance h₂.outside p a := by
  intro h
  have hb := run_backed hw.toExactTokens x ls havoids
  obtain ⟨t, rfl, d, hd, hst⟩ := hb.lifecycle.standing id o hcreated
  have hl : Live balance this x _ h id t d := ⟨hb, hcreated, hunswept, hd, hst⟩
  constructor
  · intro env holder b he hflag
    obtain ⟨amount, h', hclaim, hamount, htransfer⟩ := hl.claim hw he hflag
    have hne : holder ≠ this := by
      rintro rfl
      exact hb.listed id _ hcreated b he.listed
    refine ⟨amount, h', hclaim, hamount, htransfer, ?_⟩
    rw [hw.moves htransfer, hamount]
    simp [hne]
  · intro cs₁ cs₂ hperm h₁ h₂
    obtain ⟨tr₁, d₁, hl₁, hc₁⟩ := hl.run hw cs₁
    obtain ⟨tr₂, d₂, hl₂, hc₂⟩ := hl.run hw cs₂
    have hflags : ∀ a, hasClaimed h₁.storage id a = hasClaimed h₂.storage id a := by
      intro a
      rw [Bool.eq_iff_iff, hc₁.marked, hc₂.marked]
      simp only [hperm.mem_iff]
    obtain ⟨hrecord, hbalance⟩ := hl₁.outcome_eq hl₂ hc₁ hc₂ (funext hflags)
    exact ⟨by rw [hl₁.record, hl₂.record, hrecord], hflags, hbalance⟩

/-- The terms of the distribution of `sharedRun`. -/
def sharedOffer : Offer ℕ := ⟨10, 20, 100, [(2, 1), (3, 2)], 0⟩

theorem claims_never_blocked_shared :
    let h := (dividend (Ledgers.world 1 1) 9).run (Contract.fresh ℕ ∅) sharedRun
    ∃ (amount : I128) (h' : Contract ℕ (Ledgers ℕ)),
      claim (Ledgers.world 1 1) 9 (.signed 1) 1 3 h = .ok ((), h') ∧ amount.val = 66 ∧
      Ledgers.balance h'.outside 20 3 = 66 := by
  intro h
  have havoids : ∀ l ∈ sharedRun, l.Avoids 9 := by simp [sharedRun, Label.Avoids, Op.Avoids]
  have hcreated : Created ((dividend (Ledgers.world 1 1) 9).trace (Contract.fresh ℕ ∅) sharedRun) 1 sharedOffer := by
    unfold Created
    decide +kernel
  have hunswept : ¬ Swept ((dividend (Ledgers.world 1 1) 9).trace (Contract.fresh ℕ ∅) sharedRun) 1 := by
    unfold Swept
    decide +kernel
  have hflag : hasClaimed h.storage 1 3 = false := by decide +kernel
  have hempty : Ledgers.balance h.outside 20 3 = 0 := by decide +kernel
  have he : Entitled sharedOffer (.signed 1) 3 2 :=
    ⟨by decide, by decide, by decide, rfl, fun hno => absurd rfl hno⟩
  obtain ⟨amount, h', hclaim, hamount, -, hbalance⟩ := (claims_never_blocked (Ledgers.live 1 1 9) ∅ sharedRun
    (fun r hr => havoids _ (System.label_mem hr)) hcreated hunswept).1 _ _ _ he hflag
  have hshare : sharedOffer.share 2 = 66 := by decide
  refine ⟨amount, h', hclaim, hamount.trans hshare, ?_⟩
  rw [← hshare, ← Int.zero_add (sharedOffer.share _), ← hempty]
  exact hbalance

end StellarRwa.Dividend
