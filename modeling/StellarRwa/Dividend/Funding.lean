import StellarRwa.Dividend.Accounting

/-!
# Where the escrow comes from and where it returns to

A creation pulls the total of its distribution from the address that asks for it, which may be the admin of the
contract or the admin of the asset token. A claim pays its holder, but a sweep pays whoever is the admin of the contract
by then, and the record does not say who funded it. So the money goes home exactly as long as the admin who sweeps
is the one who funded (`escrow_homeward`), and a distribution funded by the admin of the asset token does not
(`escrow_astray`).
-/

namespace StellarRwa.Dividend

open Lib

variable {Address X A : Type}

/-! ## What a history says -/

/-- Who asks for a creation. -/
def Label.funder : Label Address A → Option Address
  | .call _ op => op.offer.map Prod.fst
  | .others _ => none

/-- `a` asked for the creation of the distribution `id`. -/
def Funder (tr : List (Answered Address X A)) (id : U64) (a : Address) : Prop :=
  ∃ r ∈ tr, r.result = .id id ∧ r.label.funder = some a

/-- The transfers that the creation of `id` made. -/
def fundings (tr : List (Logged Address X A)) (id : U64) : List (Transfer Address) :=
  (tr.filter fun r => r.result = .id id).flatMap transfers

/-- Every call on behalf of `id` paid a holder the share of the frozen list, or paid back where the funds came from. -/
def Homeward (this : Address) (tr : List (Logged Address X A)) (id : U64) : Prop :=
  ∀ r ∈ tr, r.label.spends = some id →
    (∃ holder, r.label.claimant = some (id, holder) ∧ PaidShare this tr r id holder) ∨
      ∃ f ∈ fundings tr id, ∃ amount, transfers r = [⟨f.token, this, f.from_, amount⟩]

section History

variable {tr : List (Answered Address X A)} {r : Answered Address X A} {id : U64} {a : Address}

theorem funder_concat : Funder (tr ++ [r]) id a ↔ Funder tr id a ∨ r.result = .id id ∧ r.label.funder = some a := by
  simp [Funder, or_and_right, exists_or]

/-- What somebody asked to create was created. -/
theorem Funder.created (h : Funder tr id a) : ∃ o, Created tr id o := by
  obtain ⟨r, hr, hid, hfunder⟩ := h
  cases hlabel : r.label with
  | call env op =>
    rw [hlabel] at hfunder
    obtain ⟨p, hp, -⟩ := Option.map_eq_some_iff.1 hfunder
    exact ⟨p.2, r, hr, hid, by simp [hlabel, Label.offer, hp]⟩
  | others a => simp [hlabel, Label.funder] at hfunder

/-- A call that spends claims or sweeps. -/
theorem Label.spends_eq_some {l : Label Address A} :
    l.spends = some id ↔ (∃ holder, l.claimant = some (id, holder)) ∨ l.sweeps = some id := by
  cases l with
  | others a => simp [Label.spends, Label.claimant, Label.sweeps]
  | call env op =>
    cases op <;> simp [Label.spends, Label.claimant, Label.sweeps, Op.spends, Op.sweeps]

theorem Label.claimant_of_sweeps {l : Label Address A} (h : l.sweeps = some id) : l.claimant = none := by
  cases l with
  | others a => rfl
  | call env op => cases op <;> first | rfl | cases h

end History

section Fundings

variable {tr : List (Logged Address X A)} {r : Logged Address X A} {id : U64}

theorem fundings_concat_of_eq (h : r.result = .id id) : fundings (tr ++ [r]) id = fundings tr id ++ transfers r := by
  simp [fundings, List.filter_append, h]

theorem fundings_concat_of_ne (h : r.result ≠ .id id) : fundings (tr ++ [r]) id = fundings tr id := by
  simp [fundings, List.filter_append, h]

end Fundings

/-! ## One call -/

section Calls

variable [DecidableEq Address] {w : World Address X A} {this : Address} {env : Env Address} {s s' : State Address}
  {x x' : X} {op : Op Address} {id : U64}

/-- A call that returns an id pulled the total from whoever asked for it. -/
theorem Effect.funded (heffect : Effect w this env s x op (.id id) s' x') :
    ∃ a o, op.offer = some (a, o) ∧ id.val = (s.counter.getD 0).val + 1 ∧
      w.transfer x o.paymentToken a this o.totalAmount = some x' := by
  cases heffect with
  | opened hop _ _ _ _ _ hid htransfer => exact ⟨_, _, hop, hid, htransfer⟩

end Calls

/-! ## The invariant -/

section Invariant

variable [DecidableEq Address]

/-- The transfers in and out of escrow, against the history of answered calls. -/
structure Funded (this : Address) (tr : List (Logged Address X A)) (s : State Address) : Prop where
  lifecycle : Lifecycle tr s
  pulled : ∀ id o, Created tr id o →
    ∃ a, (∀ b, Funder tr id b ↔ b = a) ∧ fundings tr id = [⟨o.paymentToken, a, this, o.totalAmount⟩]
  unpulled : ∀ id, (∀ o, ¬ Created tr id o) → fundings tr id = []
  swept : ∀ r ∈ tr, ∀ id, r.label.sweeps = some id → ∃ o a amount, Created tr id o ∧
    r.pre.storage.roles.admin = some a ∧ transfers r = [⟨o.paymentToken, this, a, amount⟩]

variable {w : World Address X A} {this : Address} {tr : List (Logged Address X A)} {r : Logged Address X A}
  {h h' : Contract Address (X × List (Transfer Address))} {l : Label Address A} {u : Ret} {env : Env Address}
  {op : Op Address} {id : U64}

theorem funded_fresh : Funded this ([] : List (Logged Address X A)) (State.fresh Address) where
  lifecycle := lifecycle_fresh
  pulled id o ho := absurd ho not_created_nil
  unpulled id _ := rfl
  swept r hr := by cases hr

/-- Whoever sweeps is paid as the admin of that moment. -/
theorem Lifecycle.swept_to (hl : Lifecycle tr h.storage)
    (heffect : Effect w.recorded this env h.storage h.outside op u h'.storage h'.outside)
    (hsweeps : op.sweeps = some id) :
    ∃ o a amount, Created tr id o ∧ h.storage.roles.admin = some a ∧
      transfers (⟨h, .call env op, u, h'⟩ : Logged Address X A) = [⟨o.paymentToken, this, a, amount⟩] := by
  have hspends : op.spends = some id := by cases op <;> first | exact hsweeps | cases hsweeps
  obtain ⟨d, d', to_, amount, hs, hpayee⟩ := heffect.spent hl hspends
  obtain ⟨t, hcreated, hst⟩ := hl.exists_terms hs.record
  rcases hpayee with ⟨rfl, -⟩ | ⟨-, hadmin⟩
  · cases hsweeps
  · refine ⟨t.toOffer, to_, amount, hcreated, hadmin, ?_⟩
    exact hst.stage.terms.2.1 ▸ transfers_of_transfer hs.transfer

theorem Funded.swept_concat (hf : Funded this tr h.storage)
    (hnow : ∀ id, r.label.sweeps = some id → ∃ o a amount, Created tr id o ∧ r.pre.storage.roles.admin = some a ∧
      transfers r = [⟨o.paymentToken, this, a, amount⟩]) :
    ∀ r' ∈ tr ++ [r], ∀ id, r'.label.sweeps = some id → ∃ o a amount, Created (tr ++ [r]) id o ∧
      r'.pre.storage.roles.admin = some a ∧ transfers r' = [⟨o.paymentToken, this, a, amount⟩] := by
  intro r' hr' id hsweeps
  obtain ⟨o, a, amount, hcreated, hrest⟩ := forall_mem_concat hf.swept hnow r' hr' id hsweeps
  exact ⟨o, a, amount, created_concat.2 (.inl hcreated), hrest⟩

/-- A call that creates nothing pulls nothing. -/
theorem Funded.kept (hf : Funded this tr h.storage) (hl : Lifecycle (tr ++ [r]) h'.storage)
    (hno : ∀ id, r.result ≠ .id id)
    (hnow : ∀ id, r.label.sweeps = some id → ∃ o a amount, Created tr id o ∧ r.pre.storage.roles.admin = some a ∧
      transfers r = [⟨o.paymentToken, this, a, amount⟩]) : Funded this (tr ++ [r]) h'.storage := by
  have hcreated : ∀ id o, Created (tr ++ [r]) id o ↔ Created tr id o := fun id o => by
    simp [created_concat, hno id]
  have hfunder : ∀ id b, Funder (tr ++ [r]) id b ↔ Funder tr id b := fun id b => by
    simp [funder_concat, hno id]
  refine ⟨hl, ?_, ?_, hf.swept_concat hnow⟩
  · intro id o ho
    simp only [hfunder, fundings_concat_of_ne (hno id)]
    exact hf.pulled id o ((hcreated id o).1 ho)
  · intro id hid
    rw [fundings_concat_of_ne (hno id)]
    exact hf.unpulled id fun o ho => hid o ((hcreated id o).2 ho)

/-- A creation pulls the total of its distribution, once. -/
theorem Funded.created {a : Address} {o : Offer Address} (hf : Funded this tr h.storage)
    (hl : Lifecycle (tr ++ [r]) h'.storage) (hfresh : ∀ o, ¬ Created tr id o) (hresult : r.result = .id id)
    (hoffer : r.label.offer = some o) (hfunder : r.label.funder = some a) (hsweeps : r.label.sweeps = none)
    (htransfers : transfers r = [⟨o.paymentToken, a, this, o.totalAmount⟩]) :
    Funded this (tr ++ [r]) h'.storage := by
  refine ⟨hl, ?_, ?_, hf.swept_concat fun _ hid => by cases hsweeps.symm.trans hid⟩
  · intro id' o' ho'
    by_cases hid : id' = id
    · subst hid
      have ho : r.label.offer = some o' := ((created_concat.1 ho').resolve_left (hfresh o')).2
      obtain rfl : o = o' := Option.some.inj (hoffer.symm.trans ho)
      refine ⟨a, fun b => ?_, ?_⟩
      · rw [funder_concat]
        constructor
        · rintro (hb | ⟨-, hb⟩)
          · obtain ⟨o₁, ho₁⟩ := hb.created
            exact absurd ho₁ (hfresh o₁)
          · exact Option.some.inj (hb.symm.trans hfunder)
        · rintro rfl
          exact .inr ⟨hresult, hfunder⟩
      · rw [fundings_concat_of_eq hresult, hf.unpulled id' hfresh, htransfers, List.nil_append]
    · have hne : r.result ≠ .id id' := fun e => hid (Ret.id.inj (e.symm.trans hresult))
      have hbefore : Created tr id' o' := (created_concat.1 ho').resolve_right fun e => hne e.1
      simp only [funder_concat, hne, false_and, or_false, fundings_concat_of_ne hne]
      exact hf.pulled id' o' hbefore
  · intro id' hno
    have hne : r.result ≠ .id id' := by
      intro e
      exact hno o (created_concat.2 (.inr ⟨e, hoffer⟩))
    rw [fundings_concat_of_ne hne]
    exact hf.unpulled id' fun o₁ ho₁ => hno o₁ (created_concat.2 (.inl ho₁))

theorem Funded.call (hf : Funded this tr h.storage)
    (heffect : Effect w.recorded this env h.storage h.outside op u h'.storage h'.outside) :
    Funded this (tr ++ [⟨h, .call env op, u, h'⟩]) h'.storage := by
  have hl := hf.lifecycle.call heffect
  have hkept : (∀ id, u ≠ .id id) → Funded this (tr ++ [⟨h, .call env op, u, h'⟩]) h'.storage := by
    intro hno
    exact hf.kept hl hno fun id hsweeps => hf.lifecycle.swept_to heffect hsweeps
  cases u with
  | unit => exact hkept fun id => nofun
  | amount remaining => exact hkept fun id => nofun
  | id id =>
    obtain ⟨a, o, hop, hid, htransfer⟩ := heffect.funded
    have hnew := hf.lifecycle.ids.get_next hid
    refine hf.created (r := ⟨h, .call env op, .id id, h'⟩) hl (fun o₁ ho₁ => ?_) rfl (by simp [Label.offer, hop])
      (by simp [Label.funder, hop]) ?_ (transfers_of_transfer htransfer)
    · obtain ⟨-, -, d, hd, -⟩ := hf.lifecycle.standing id o₁ ho₁
      cases hnew.symm.trans hd
    · show op.sweeps = none
      cases op <;> first | rfl | cases hop

/-- **One answered call** keeps the transfers in order. -/
theorem Funded.step (hf : Funded this tr h.storage)
    (hstep : (dividend w.recorded this).step h l = some (u, h')) :
    Funded this (tr ++ [⟨h, l, u, h'⟩]) h'.storage := by
  cases l with
  | call env op => exact hf.call (call_effect (Call.returned_eq_some.1 hstep))
  | others a =>
    have hl := hf.lifecycle.step hstep
    obtain ⟨x, -, hx⟩ := Option.map_eq_some_iff.1 hstep
    cases hx
    exact hf.kept hl (fun id => nofun) fun id hsweeps => by cases hsweeps

/-- **Every run** keeps the transfers in order. -/
theorem run_funded (w : World Address X A) (this : Address) (x : X) (ls : List (Label Address A)) :
    Funded this ((dividend w.recorded this).trace (Contract.fresh Address (x, [])) ls)
      ((dividend w.recorded this).run (Contract.fresh Address (x, [])) ls).storage :=
  System.run_rule (P := fun tr (h : Contract Address (X × List (Transfer Address))) => Funded this tr h.storage)
    funded_fresh (fun _ _ _ _ _ hf hstep => hf.step hstep) ls

/-- **Escrow goes home exactly when the admin who sweeps funded it.** In every run, the creation of a distribution is
one transfer, of its total from whoever asked for it; and every transfer out of escrow on its behalf goes to a holder
who claims the share of the frozen list or back to that funder, if and only if every call that reclaimed or cancelled it
was made while the funder was the admin. -/
theorem escrow_homeward (w : World Address X A) (this : Address) (x : X) (ls : List (Label Address A)) (id : U64) :
    let tr := (dividend w.recorded this).trace (Contract.fresh Address (x, [])) ls
    (∀ o, Created tr id o →
        ∃ a, Funder tr id a ∧ fundings tr id = [⟨o.paymentToken, a, this, o.totalAmount⟩]) ∧
      (Homeward this tr id ↔
        ∀ r ∈ tr, r.label.sweeps = some id → ∀ a, Funder tr id a → r.pre.storage.roles.admin = some a) := by
  intro tr
  have hf : Funded this tr _ := run_funded w this x ls
  refine ⟨fun o ho => ?_, fun hhome r hr hsweeps a ha => ?_, fun hsame r hr hspends => ?_⟩
  · obtain ⟨a, hfunder, hfundings⟩ := hf.pulled id o ho
    exact ⟨a, (hfunder a).2 rfl, hfundings⟩
  · obtain ⟨o, admin, amount, hcreated, hadmin, htransfers⟩ := hf.swept r hr id hsweeps
    obtain ⟨b, hfunder, hfundings⟩ := hf.pulled id o hcreated
    obtain rfl := (hfunder a).1 ha
    rcases hhome r hr (Label.spends_eq_some.2 (.inr hsweeps)) with ⟨holder, hclaim, -⟩ | ⟨f, hmem, amount', hback⟩
    · cases (Label.claimant_of_sweeps hsweeps).symm.trans hclaim
    · rw [hfundings] at hmem
      obtain rfl := List.mem_singleton.1 hmem
      obtain ⟨-, -, hto, -⟩ := Transfer.mk.inj (List.singleton_inj.1 (htransfers.symm.trans hback))
      exact hadmin.trans (congrArg some hto)
  · rcases Label.spends_eq_some.1 hspends with ⟨holder, hclaim⟩ | hsweeps
    · exact .inl ⟨holder, hclaim, (run_accounted w this x ls).shares r hr id holder hclaim⟩
    · obtain ⟨o, admin, amount, hcreated, hadmin, htransfers⟩ := hf.swept r hr id hsweeps
      obtain ⟨b, hfunder, hfundings⟩ := hf.pulled id o hcreated
      obtain rfl : admin = b := Option.some.inj (hadmin.symm.trans (hsame r hr hsweeps b ((hfunder b).2 rfl)))
      exact .inr ⟨_, hfundings ▸ List.mem_singleton_self _, amount, htransfers⟩

/-- The admin 2 of the asset token 10 escrows 100 for 3, and the admin 1 of the contract 9 cancels. -/
def cancelledRun : List (Label ℕ (ℕ × ℕ × ℕ)) :=
  [.others (20, 2, 100), .call (.signed 0) (.initializeDividend 1),
    .call (.signed 0) (.createDistribution 2 10 20 100 [(3, 1)]),
    .call (.signed 0) (.cancelDistribution 1 1)]

/-- The refund of `cancelledRun` goes to 1, who funded nothing. -/
theorem escrow_astray :
    ¬ Homeward 9 ((dividend (Ledgers.world 1 2).recorded 9).trace (Contract.fresh ℕ (∅, [])) cancelledRun) 1 := by
  intro hhome
  have hfundings :
      fundings ((dividend (Ledgers.world 1 2).recorded 9).trace (Contract.fresh ℕ (∅, [])) cancelledRun) 1 =
      [⟨20, 2, 9, 100⟩] := by decide +kernel
  have hsweep : ∃ r ∈ (dividend (Ledgers.world 1 2).recorded 9).trace (Contract.fresh ℕ (∅, [])) cancelledRun,
      r.label.sweeps = some 1 ∧ transfers r = [⟨20, 9, 1, 100⟩] := by decide +kernel
  obtain ⟨r, hr, hsweeps, htransfers⟩ := hsweep
  rcases hhome r hr (Label.spends_eq_some.2 (.inr hsweeps)) with ⟨holder, hclaim, -⟩ | ⟨f, hmem, amount, hback⟩
  · cases (Label.claimant_of_sweeps hsweeps).symm.trans hclaim
  · rw [hfundings] at hmem
    obtain rfl := List.mem_singleton.1 hmem
    obtain ⟨-, -, hto, -⟩ := Transfer.mk.inj (List.singleton_inj.1 (htransfers.symm.trans hback))
    cases hto

end Invariant

end StellarRwa.Dividend
