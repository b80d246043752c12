import StellarRwa.Dividend.Lifecycle

/-!
# The phases of a distribution

What a reader of the storage sees of the lifecycle, in terms of the storage alone: every id up to the counter is in one
of three phases (`Phase`). As the shares never sum past the total, a claim never ends in `OverDistributed`, and its
running total never overflows (`lifecycle_phases`).
-/

namespace StellarRwa.Dividend

open Lib

variable {Address X A : Type} [DecidableEq Address] {w : World Address X A} {this : Address}

/-- The record `d` of the distribution `id` is open, paid or cancelled, and the other entries agree with it. -/
inductive Phase (s : State Address) (id : U64) (d : Distribution Address) : Prop
  | opened {snap : List (Address × I128)} {supply : I128} (hflags : d.completed = false ∧ d.cancelled = false)
    (hsnap : s.snapshot.get id = some snap) (hsupply : s.supply.get id = some supply)
    (hsum : supply.val = (snap.map fun e => e.2.val).sum) (hdistinct : (snap.map Prod.fst).Nodup)
    (hclaimed : ∀ a, hasClaimed s id a = true → a ∈ snap.map Prod.fst)
    (hdistributed : d.distributed.val = (snap.map fun e =>
      if hasClaimed s id e.1 then d.totalAmount.val * e.2.val / supply.val else 0).sum)
    (hlt : d.distributed < d.totalAmount)
  | paid (hflags : d.completed = true ∧ d.cancelled = false) (hdistributed : d.distributed = d.totalAmount)
    (hsnap : s.snapshot.get id = none) (hsupply : s.supply.get id = none)
  | cancelled (hflags : d.completed = true ∧ d.cancelled = true) (hdistributed : d.distributed = 0)
    (hclaimed : ∀ a, hasClaimed s id a = false) (hsnap : s.snapshot.get id = none) (hsupply : s.supply.get id = none)

omit [DecidableEq Address] in
/-- The shares of the marked holders, in terms of the list alone. -/
theorem Terms.paid_eq (t : Terms Address) (f : Address → Bool) : t.paid f =
    (t.eligible.map fun e => if f e.1 then t.totalAmount.val * e.2.val / t.supply.val else 0).sum := by
  rw [Terms.paid, Weights.paid]
  simp only [Weights.share, t.weights_total]
  simp only [Terms.weights, List.map_map, Function.comp_def]

theorem Standing.phase {tr : List (Answered Address X A)} {t : Terms Address} {id : U64} {s : State Address}
    {d : Distribution Address} (h : Standing tr t id s d) :
    d.id = id ∧ (0 ≤ d.distributed ∧ d.distributed ≤ d.totalAmount) ∧ Phase s id d := by
  obtain ⟨hstage, hmarked, -⟩ := h
  cases hstage with
  | opened hsnap hsupply hdistributed hlt =>
    refine ⟨rfl, ⟨?_, le_of_lt hlt⟩, ?_⟩
    · rw [MInt.le_def, MInt.val_zero]
      exact hdistributed ▸ Terms.paid_nonneg
    · refine .opened ⟨rfl, rfl⟩ hsnap hsupply t.listed.sum t.listed.distinct (fun a ha => ?_)
        (hdistributed.trans (t.paid_eq _)) hlt
      obtain ⟨b, hmem, -⟩ := hmarked a ha
      exact List.mem_map.2 ⟨_, hmem, rfl⟩
  | paid hsnap hsupply => exact ⟨rfl, ⟨le_of_lt t.pos, MInt.le_def.2 le_rfl⟩, .paid ⟨rfl, rfl⟩ rfl hsnap hsupply⟩
  | cancelled hsnap hsupply hnone =>
    exact ⟨rfl, ⟨MInt.le_def.2 le_rfl, le_of_lt t.pos⟩, .cancelled ⟨rfl, rfl⟩ rfl hnone hsnap hsupply⟩

/-! ## When a claim fails -/

section Faults

variable {env : Env Address} {h : Contract Address X} {id : U64} {holder : Address} {f : Fault Error}

omit [DecidableEq Address] in
theorem transfer_error {token from_ to_ : Address} {amount : I128} :
    (transfer w token from_ to_ amount : M Address X Unit) h = .error f ↔
      w.transfer h.outside token from_ to_ amount = none ∧ .trap = f := by
  simp [transfer]

omit [DecidableEq Address] in
theorem clear_error : ¬ (clear id : M Address X Unit) h = .error f := by simp [clear]

theorem claimable_error (hrun : (claimable id holder : M Address X I128) h = .error f) :
    (f = .error .distributionNotFound ∧
        (h.storage.dist.get id = none ∨ 0 < (loadSupply h.storage id).val ∧ h.storage.snapshot.get id = none)) ∨
      f = .error .arithmeticOverflow ∨ f = .trap := by
  simp only [claimable, Call.bind_error, load_error, Call.storage_error, Call.ite_error, Call.pure_error,
    Call.unwrapOrElse_error, Call.orTrap_error, snapshotBalance_error, load_ok, Call.storage_ok, snapshotBalance_ok,
    Call.unwrapOrElse_ok, false_or, and_false] at hrun
  rcases hrun with ⟨hnone, e⟩ | ⟨d, _, ⟨_, hd, e₁⟩, _, _, e₂, -, hsupply, hrest⟩
  · exact .inl ⟨e.symm, .inl hnone⟩
  · cases e₁; cases e₂
    rcases hrest with ⟨hnone, e⟩ | ⟨basis, _, -, hbasis, ⟨-, e⟩ | ⟨_, _, -, -, e⟩⟩
    · exact .inl ⟨e.symm, .inr ⟨not_le.1 fun hle => hsupply (MInt.le_def.2 hle), hnone⟩⟩
    · exact .inr (.inl e.symm)
    · exact .inr (.inr e.symm)

/-- The faults of a claim after the share is known: the guards before it, the transfer, and the running total. -/
theorem claim_error (hrun : (claim w this env id holder : M Address X Unit) h = .error f) :
    f = .trap ∨ f ∈ ([.distributionNotFound, .nothingToClaim, .deadlinePassed, .alreadyClaimed].map Fault.error) ∨
      (claimable id holder : M Address X I128) h = .error f ∨
      ∃ d amount, h.storage.dist.get id = some d ∧ d.completed = false ∧ Due h.storage id holder amount ∧
        ∀ distributed : I128, distributed.val = d.distributed.val + amount.val →
          d.totalAmount.val < distributed.val := by
  simp only [claim, Call.bind_error, Call.requireAuth_error, load_error, Call.panicIf_error, Call.storage_error,
    Call.update_error, transfer_error, Call.unwrapOrElse_error, Call.ite_error, Call.pure_error, Call.publish_error,
    clear_error, Call.requireAuth_ok, load_ok, Call.panicIf_ok, Call.storage_ok, Call.update_ok, transfer_ok,
    Call.unwrapOrElse_ok, false_or, or_false, exists_false, and_false] at hrun
  rcases hrun with ⟨-, e⟩ | ⟨_, _, ⟨-, e₁⟩, hrun⟩
  · exact .inl e.symm
  cases e₁
  rcases hrun with ⟨-, e⟩ | ⟨d, _, ⟨_, hd, e₁⟩, hrun⟩
  · exact .inr (.inl (by simp [← e]))
  cases e₁
  rcases hrun with ⟨-, e⟩ | ⟨_, _, ⟨hopen, e₁⟩, hrun⟩
  · exact .inr (.inl (by simp [← e]))
  cases e₁
  rcases hrun with ⟨-, e⟩ | ⟨_, _, ⟨-, e₁⟩, _, _, e₂, hrun⟩
  · exact .inr (.inl (by simp [← e]))
  cases e₁; cases e₂
  rcases hrun with ⟨-, e⟩ | ⟨_, _, ⟨-, e₁⟩, hrun⟩
  · exact .inr (.inl (by simp [← e]))
  cases e₁
  rcases hrun with hrun | ⟨amount, _, hclaimable, hrun⟩
  · exact .inr (.inr (.inl hrun))
  rcases hrun with ⟨-, e⟩ | ⟨_, _, ⟨hpos, e₁⟩, _, _, e₂, hrun⟩
  · exact .inr (.inl (by simp [← e]))
  cases e₁; cases e₂
  rcases hrun with ⟨-, e⟩ | ⟨_, _, ⟨x, -, e₁⟩, hrun⟩
  · exact .inl e.symm
  cases e₁
  have hdue := (claimable_pos.1 ⟨hclaimable, not_le.1 fun hle => hpos (MInt.le_def.2 hle)⟩).1
  refine .inr (.inr (.inr ⟨d, amount, hd, by simpa using hopen, hdue, fun distributed hsum => ?_⟩))
  rcases hrun with ⟨hnone, -⟩ | ⟨distributed', _, ⟨_, hsome, e₁⟩, hrun⟩
  · cases hnone.symm.trans (MInt.checkedAdd_eq_some.2 hsum)
  · cases e₁
    obtain rfl : distributed = distributed' := Option.some.inj ((MInt.checkedAdd_eq_some.2 hsum).symm.trans hsome)
    exact hrun.1

end Faults

/-! ## Runs -/

section Runs

variable {tr : List (Answered Address X A)} {h : Contract Address X} {id : U64} {holder : Address} {amount : I128}
  {d : Distribution Address}

/-- What is due to a holder of an open distribution still fits under its total. -/
theorem Lifecycle.room (hl : Lifecycle tr h.storage) (hd : h.storage.dist.get id = some d) (hopen : d.completed = false)
    (hdue : Due h.storage id holder amount) : d.distributed.val + amount.val ≤ d.totalAmount.val := by
  obtain ⟨t, -, hst⟩ := hl.exists_terms hd
  obtain ⟨htotal, -, -⟩ := hst.stage.terms
  obtain ⟨hsnapshot, hsupply, hdistributed, -⟩ := hst.stage.of_open hopen
  obtain ⟨b, hmem, hshare, -⟩ := hdue.share hd htotal hsnapshot hsupply
  rw [hdistributed, hshare, htotal]
  exact Terms.paid_add_le hmem hdue.unclaimed

/-- A claim gets no further than its share with a fault of its own. -/
theorem Lifecycle.claim_error (hl : Lifecycle tr h.storage) {env : Env Address} {e : Error}
    (he : e ∉ [.distributionNotFound, .nothingToClaim, .deadlinePassed, .alreadyClaimed])
    (hrun : (claim w this env id holder : M Address X Unit) h = .error (.error e)) :
    (claimable id holder : M Address X I128) h = .error (.error e) := by
  rcases Dividend.claim_error hrun with htrap | hguard | hshare | ⟨d, amount, hd, hopen, hdue, hover⟩
  · cases htrap
  · obtain ⟨e', he', heq⟩ := List.mem_map.1 hguard
    cases heq
    exact absurd he' he
  · exact hshare
  · have hroom := hl.room hd hopen hdue
    obtain ⟨t, -, hst⟩ := hl.exists_terms hd
    obtain ⟨-, ⟨hpos, -⟩, -⟩ := hst.phase
    have hamount : 0 < amount.val := hdue.pos
    have hlow : 0 ≤ d.distributed.val := hpos
    have hhi := d.totalAmount.le_hi
    have hlt := hover ⟨d.distributed.val + amount.val, by omega, by omega⟩ rfl
    exact absurd hroom (not_le.2 hlt)

/-- A view of an id in use finds its distribution. -/
theorem Lifecycle.claimable_found (hl : Lifecycle tr h.storage) (hd : h.storage.dist.get id = some d) :
    (claimable id holder : M Address X I128) h ≠ .error (.error .distributionNotFound) := by
  intro hrun
  obtain ⟨t, -, hst⟩ := hl.exists_terms hd
  rcases claimable_error hrun with ⟨-, hnone | ⟨hpos, hnone⟩⟩ | hother | hother
  · cases hnone.symm.trans hd
  · have hzero : h.storage.supply.get id = none → ¬ 0 < (loadSupply h.storage id).val := fun hs => by
      simp [loadSupply, hs]
    cases hst.stage with
    | opened hsnapshot _ _ _ => cases hnone.symm.trans hsnapshot
    | paid _ hsupply => exact hzero hsupply hpos
    | cancelled _ hsupply _ => exact hzero hsupply hpos
  · cases hother
  · cases hother

end Runs

/-- **The phases of a distribution.** In every reachable state every id up to the counter has its record, which is open,
paid or cancelled with all other entries in step. So a claim never ends in `OverDistributed`, and in an overflow only
where the share itself overflows, never in the running total; and a view of an existing id never ends in
`DistributionNotFound`. -/
theorem lifecycle_phases (w : World Address X A) (this : Address) (x : X) (ls : List (Label Address A)) :
    let h := (dividend w this).run (Contract.fresh Address x) ls
    (∀ id : U64, 1 ≤ id.val → id.val ≤ (h.storage.counter.getD 0).val →
      ∃ d, h.storage.dist.get id = some d ∧ d.id = id ∧ (0 ≤ d.distributed ∧ d.distributed ≤ d.totalAmount) ∧
        Phase h.storage id d) ∧
      (∀ env id holder, (claim w this env id holder : M Address X Unit) h ≠ .error (.error .overDistributed)) ∧
      (∀ env id holder, (claim w this env id holder : M Address X Unit) h = .error (.error .arithmeticOverflow) →
        (claimable id holder : M Address X I128) h = .error (.error .arithmeticOverflow)) ∧
      ∀ (id : U64) (holder : Address), 1 ≤ id.val → id.val ≤ (h.storage.counter.getD 0).val →
        (claimable id holder : M Address X I128) h ≠ .error (.error .distributionNotFound) := by
  intro h
  have hl : Lifecycle ((dividend w this).trace (Contract.fresh Address x) ls) h.storage := run_lifecycle w this x ls
  refine ⟨fun id hlo hhi => ?_, fun env id holder hrun => ?_, fun env id holder hrun => ?_, fun id holder hlo hhi => ?_⟩
  · obtain ⟨d, hd⟩ := (hl.ids id).2 ⟨hlo, hhi⟩
    obtain ⟨t, -, hst⟩ := hl.exists_terms hd
    exact ⟨d, hd, hst.phase⟩
  · rcases claimable_error (hl.claim_error (by decide) hrun) with ⟨hno, -⟩ | hno | hno
    · cases hno
    · cases hno
    · cases hno
  · exact hl.claim_error (by decide) hrun
  · obtain ⟨d, hd⟩ := (hl.ids id).2 ⟨hlo, hhi⟩
    exact hl.claimable_found hd

end StellarRwa.Dividend
