import StellarRwa.Dividend.Escrow

/-!
# What is paid out on behalf of a distribution

`World.recorded` keeps a log of the transfers of the payment tokens. Over a whole run, what left the escrow on behalf
of a distribution is its total less what remains of it, each address is paid by at most one claim, the share of the
frozen list, and a completed distribution is never touched again (`lifetime_accounting`).
-/

namespace StellarRwa.Dividend

open Lib

variable {Address X A : Type}

/-! ## The log of transfers -/

/-- A transfer of a payment token. -/
structure Transfer (Address : Type) where
  token : Address
  from_ : Address
  to_ : Address
  amount : I128
deriving DecidableEq

/-- The same other contracts, with a log of the transfers that succeeded. -/
def World.recorded (w : World Address X A) : World Address (X × List (Transfer Address)) A where
  totalSupply x := w.totalSupply x.1
  assetAdmin x := w.assetAdmin x.1
  transfer x token from_ to_ amount :=
    (w.transfer x.1 token from_ to_ amount).map fun x' => (x', x.2 ++ [⟨token, from_, to_, amount⟩])
  act a x := (w.act a x.1).map fun x' => (x', x.2)

/-- An answered call among recorded contracts. -/
abbrev Logged (Address X A : Type) := Answered Address (X × List (Transfer Address)) A

/-- The transfers that a call made. -/
def transfers (r : Logged Address X A) : List (Transfer Address) := r.post.outside.2.drop r.pre.outside.2.length

theorem transfers_of_transfer {w : World Address X A} {h h' : Contract Address (X × List (Transfer Address))}
    {l : Label Address A} {u : Ret} {token from_ to_ : Address} {amount : I128}
    (htransfer : w.recorded.transfer h.outside token from_ to_ amount = some h'.outside) :
    transfers (⟨h, l, u, h'⟩ : Logged Address X A) = [⟨token, from_, to_, amount⟩] := by
  obtain ⟨x', -, hx'⟩ := Option.map_eq_some_iff.1 htransfer
  simp [transfers, ← hx']

/-- The distribution and the holder of a claim. -/
def Label.claimant : Label Address A → Option (U64 × Address)
  | .call _ (.claim id holder) => some (id, holder)
  | _ => none

theorem Label.claimant_eq_some {l : Label Address A} {id : U64} {holder : Address} :
    l.claimant = some (id, holder) ↔ ∃ env, l = .call env (.claim id holder) := by
  constructor
  · intro h
    cases l with
    | others a => cases h
    | call env op =>
      cases op <;> cases h
      exact ⟨env, rfl⟩
  · rintro ⟨env, rfl⟩
    rfl

/-- What a call transferred out of escrow on behalf of `id`. -/
def sentFor (id : U64) (r : Logged Address X A) : Int :=
  if r.label.spends = some id then ((transfers r).map fun m => m.amount.val).sum else 0

/-- What was ever transferred out of escrow on behalf of `id`. -/
def paidOut (id : U64) (tr : List (Logged Address X A)) : Int := (tr.map (sentFor id)).sum

theorem paidOut_concat (id : U64) (tr : List (Logged Address X A)) (r : Logged Address X A) :
    paidOut id (tr ++ [r]) = paidOut id tr + sentFor id r := by
  simp [paidOut]

theorem sentFor_of_ne {id : U64} {r : Logged Address X A} (h : r.label.spends ≠ some id) : sentFor id r = 0 := if_neg h

/-! ## One call -/

section Calls

variable [DecidableEq Address] {w : World Address X A} {this : Address} {env : Env Address} {s s' : State Address}
  {x x' : X} {op : Op Address} {u : Ret} {id : U64} {d : Distribution Address} {tr : List (Answered Address X A)}

/-- A flag that is set stays set. -/
theorem Effect.marked (heffect : Effect w this env s x op u s' x') {a : Address} (hflag : hasClaimed s id a = true) :
    hasClaimed s' id a = true := by
  cases heffect with
  | handover _ _ _ => exact hflag
  | initialized _ => exact hflag
  | opened _ _ _ _ _ _ _ _ => exact hflag
  | claimed _ _ _ _ _ _ _ _ =>
    rw [hasClaimed_written, hasClaimed_marked]
    split
    · rfl
    · exact hflag
  | reclaimed _ _ _ _ _ _ _ => exact hflag
  | cancelled _ _ _ _ _ _ => exact hflag

/-- A call that does not spend on behalf of a distribution leaves all of it as it is. -/
theorem Effect.same (hl : Lifecycle tr s) (heffect : Effect w this env s x op u s' x') (hd : s.dist.get id = some d)
    (hspends : op.spends ≠ some id) : Same id s s' := by
  cases heffect with
  | handover _ _ _ => exact ⟨rfl, rfl, rfl, fun _ => rfl⟩
  | initialized _ => exact ⟨rfl, rfl, rfl, fun _ => rfl⟩
  | @opened _ _ o sum id' _ _ _ _ _ _ _ hid _ =>
    have hne : id ≠ id' := by
      rintro rfl
      cases (hl.ids.get_next hid).symm.trans hd
    exact same_opened s o.eligible sum hne
  | claimed _ _ _ _ _ _ _ _ =>
    exact same_marked_written _ _ _ fun e => hspends (congrArg some e.symm)
  | reclaimed _ _ _ _ _ _ _ => exact same_written _ _ fun e => hspends (congrArg some e.symm)
  | cancelled _ _ _ _ _ _ => exact same_written _ _ fun e => hspends (congrArg some e.symm)

/-- A call on behalf of another distribution leaves a record alone. -/
theorem Effect.record_eq (hl : Lifecycle tr s) (heffect : Effect w this env s x op u s' x')
    (hd : s.dist.get id = some d) (hspends : op.spends ≠ some id) : s'.dist.get id = some d :=
  (heffect.same hl hd hspends).dist.trans hd

/-- All of a new distribution remains. -/
theorem Effect.record_new (hl : Lifecycle tr s) (heffect : Effect w this env s x op u s' x')
    (hnone : s.dist.get id = none) (hd : s'.dist.get id = some d) : d.remaining = d.totalAmount.val := by
  cases hsome : op.spends with
  | some id' =>
    obtain ⟨d₁, d₂, to_, amount, hs, -⟩ := heffect.spent hl hsome
    have hne : id ≠ id' := by
      rintro rfl
      cases hnone.symm.trans hs.record
    rw [hs.written, Storage.get_set_of_ne _ _ hne, hnone] at hd
    cases hd
  | none =>
    cases hoffer : op.offer with
    | none =>
      rw [(heffect.idle hoffer hsome).1, hnone] at hd
      cases hd
    | some p =>
      obtain ⟨id', sum, -, rfl, -⟩ := heffect.created hoffer
      have hget : (s.dist.set id' (p.2.record id' env.sequence)).get id = some d := hd
      rw [Storage.get_set] at hget
      split at hget
      · cases hget
        exact Int.sub_zero _
      · cases hnone.symm.trans hget

/-- Nothing is spent on behalf of a completed distribution. -/
theorem Effect.spends_ne (hl : Lifecycle tr s) (heffect : Effect w this env s x op u s' x')
    (hd : s.dist.get id = some d) (hcompleted : d.completed = true) : op.spends ≠ some id := by
  intro hspends
  obtain ⟨d₁, d₂, to_, amount, hs, -⟩ := heffect.spent hl hspends
  obtain rfl : d = d₁ := Option.some.inj (hd.symm.trans hs.record)
  cases hcompleted.symm.trans hs.opened

end Calls

/-! ## The books -/

section Books

variable [DecidableEq Address]

/-- A claim of `holder` on `id` made one transfer: the share of the frozen list. -/
def PaidShare (this : Address) (tr : List (Logged Address X A)) (r : Logged Address X A) (id : U64) (holder : Address) :
    Prop :=
  ∃ o b amount, Created tr id o ∧ (holder, b) ∈ o.eligible ∧ amount.val = o.share b ∧
    transfers r = [⟨o.paymentToken, this, holder, amount⟩]

/-- The history of transfers, against the storage. -/
structure Accounted (this : Address) (tr : List (Logged Address X A)) (s : State Address) : Prop where
  lifecycle : Lifecycle tr s
  spent : ∀ id d, s.dist.get id = some d → paidOut id tr = d.totalAmount.val - d.remaining
  unspent : ∀ id, s.dist.get id = none → paidOut id tr = 0
  marked : ∀ id holder, (id, holder) ∈ tr.filterMap (fun r => r.label.claimant) → hasClaimed s id holder = true
  once : (tr.filterMap fun r => r.label.claimant).Nodup
  shares : ∀ r ∈ tr, ∀ id holder, r.label.claimant = some (id, holder) → PaidShare this tr r id holder

variable {w : World Address X A} {this : Address} {tr : List (Logged Address X A)} {r : Logged Address X A}
  {h h' : Contract Address (X × List (Transfer Address))} {l : Label Address A} {u : Ret} {env : Env Address}
  {op : Op Address} {id : U64} {d : Distribution Address}

theorem accounted_fresh : Accounted this ([] : List (Logged Address X A)) (State.fresh Address) where
  lifecycle := lifecycle_fresh
  spent id d hd := by simp [State.fresh] at hd
  unspent id _ := rfl
  marked id holder hmem := by cases hmem
  once := List.nodup_nil
  shares r hr := by cases hr

omit [DecidableEq Address] in
theorem PaidShare.concat {holder : Address} {r' : Logged Address X A} (h : PaidShare this tr r id holder) :
    PaidShare this (tr ++ [r']) r id holder := by
  obtain ⟨o, b, amount, hcreated, hrest⟩ := h
  exact ⟨o, b, amount, created_concat.2 (.inl hcreated), hrest⟩

/-- What a call sends on behalf of `id` is what it takes from what remains of `id`. -/
theorem Effect.sentFor (hl : Lifecycle tr h.storage)
    (heffect : Effect w.recorded this env h.storage h.outside op u h'.storage h'.outside)
    (hspends : op.spends = some id) :
    ∃ d d', h.storage.dist.get id = some d ∧ h'.storage.dist.get id = some d' ∧ d'.totalAmount = d.totalAmount ∧
      sentFor id (⟨h, .call env op, u, h'⟩ : Logged Address X A) = d.remaining - d'.remaining := by
  obtain ⟨d, d', to_, amount, hs, -⟩ := heffect.spent hl hspends
  refine ⟨d, d', hs.record, by rw [hs.written, Storage.get_set_self], hs.total, ?_⟩
  have hlabel : (Label.call env op : Label Address A).spends = some id := hspends
  rw [Dividend.sentFor, if_pos hlabel, transfers_of_transfer hs.transfer, ← hs.taken]
  simp

/-- A claim that is answered is the first of its holder, and pays the share of the frozen list. -/
theorem Effect.paidShare {holder : Address} (hl : Lifecycle tr h.storage)
    (heffect : Effect w.recorded this env h.storage h.outside (.claim id holder) u h'.storage h'.outside) :
    hasClaimed h.storage id holder = false ∧ hasClaimed h'.storage id holder = true ∧
      PaidShare this tr (⟨h, .call env (.claim id holder), u, h'⟩ : Logged Address X A) id holder := by
  obtain ⟨s', x', events'⟩ := h'
  cases heffect with
  | handover hop _ _ => cases hop
  | opened hop _ _ _ _ _ _ _ => cases hop
  | @claimed _ _ d amount distributed _ hsigned hd hopen hdeadline hdue hdistributed hle htransfer =>
    obtain ⟨t, hcreated, hst⟩ := hl.exists_terms hd
    obtain ⟨hsnapshot, hsupply, -, -⟩ := hst.stage.of_open hopen
    obtain ⟨htotal, htoken, -⟩ := hst.stage.terms
    obtain ⟨b, hmem, hamount, -⟩ := hdue.share hd htotal hsnapshot hsupply
    have hmarked : hasClaimed ((h.storage.marked id holder).written id (d.claimed distributed)) id holder = true := by
      rw [hasClaimed_written, hasClaimed_marked, if_pos ⟨rfl, rfl⟩]
    refine ⟨hdue.unclaimed, hmarked, t.toOffer, b, amount, hcreated, hmem, hamount, ?_⟩
    exact htoken ▸ transfers_of_transfer htransfer

/-- What was paid out stays the total less what remains. -/
theorem Accounted.spent_call (ha : Accounted this tr h.storage)
    (heffect : Effect w.recorded this env h.storage h.outside op u h'.storage h'.outside)
    (hd : h'.storage.dist.get id = some d) :
    paidOut id (tr ++ [⟨h, .call env op, u, h'⟩]) = d.totalAmount.val - d.remaining := by
  rw [paidOut_concat]
  by_cases hspends : op.spends = some id
  · obtain ⟨d₁, d₂, hd₁, hd₂, htotal, hsent⟩ := heffect.sentFor ha.lifecycle hspends
    obtain rfl : d = d₂ := Option.some.inj (hd.symm.trans hd₂)
    rw [hsent, ha.spent id d₁ hd₁, htotal]
    omega
  · rw [sentFor_of_ne (r := ⟨h, .call env op, u, h'⟩) hspends, Int.add_zero]
    cases hbefore : h.storage.dist.get id with
    | some d₁ =>
      have hd₁ := heffect.record_eq ha.lifecycle hbefore hspends
      obtain rfl : d = d₁ := Option.some.inj (hd.symm.trans hd₁)
      exact ha.spent id d hbefore
    | none =>
      -- the record is new, and all of it remains
      rw [ha.unspent id hbefore, heffect.record_new ha.lifecycle hbefore hd]
      omega

theorem Accounted.call (ha : Accounted this tr h.storage)
    (heffect : Effect w.recorded this env h.storage h.outside op u h'.storage h'.outside) :
    Accounted this (tr ++ [⟨h, .call env op, u, h'⟩]) h'.storage := by
  refine ⟨ha.lifecycle.call heffect, fun id d hd => ha.spent_call heffect hd, ?_, ?_, ?_, ?_⟩
  · intro id hnone
    have hspends : op.spends ≠ some id := by
      intro hspends
      obtain ⟨-, d', -, hd', -⟩ := heffect.sentFor ha.lifecycle hspends
      cases hnone.symm.trans hd'
    have hbefore : h.storage.dist.get id = none := by
      by_contra hne
      obtain ⟨d, hd⟩ := Option.ne_none_iff_exists'.1 hne
      cases hnone.symm.trans (heffect.record_eq ha.lifecycle hd hspends)
    rw [paidOut_concat, ha.unspent id hbefore, sentFor_of_ne (r := ⟨h, .call env op, u, h'⟩) hspends]
    rfl
  · intro id holder hmem
    rw [List.filterMap_append, List.mem_append] at hmem
    rcases hmem with hmem | hmem
    · exact heffect.marked (ha.marked id holder hmem)
    · obtain ⟨r, hr, hclaim⟩ := List.mem_filterMap.1 hmem
      obtain rfl := List.mem_singleton.1 hr
      obtain ⟨env', hl⟩ := Label.claimant_eq_some.1 hclaim
      cases hl
      exact (heffect.paidShare ha.lifecycle).2.1
  · rw [List.filterMap_append]
    refine List.nodup_append.2 ⟨ha.once, ?_, ?_⟩
    · cases hclaim : (Label.call env op : Label Address A).claimant <;> simp [hclaim]
    · rintro ⟨id, holder⟩ hbefore _ hnow rfl
      obtain ⟨r, hr, hclaim⟩ := List.mem_filterMap.1 hnow
      obtain rfl := List.mem_singleton.1 hr
      obtain ⟨env', hl⟩ := Label.claimant_eq_some.1 hclaim
      cases hl
      cases (heffect.paidShare ha.lifecycle).1.symm.trans (ha.marked id holder hbefore)
  · refine forall_mem_concat (fun r hr id holder hclaim => (ha.shares r hr id holder hclaim).concat) ?_
    intro id holder hclaim
    obtain ⟨env', hl⟩ := Label.claimant_eq_some.1 hclaim
    cases hl
    exact (heffect.paidShare ha.lifecycle).2.2.concat

theorem Accounted.others {a : A} (ha : Accounted this tr h.storage) (hs : h'.storage = h.storage)
    (hlife : Lifecycle (tr ++ [⟨h, .others a, u, h'⟩]) h'.storage) :
    Accounted this (tr ++ [⟨h, .others a, u, h'⟩]) h'.storage := by
  have hsent : ∀ id, paidOut id (tr ++ [(⟨h, .others a, u, h'⟩ : Logged Address X A)]) = paidOut id tr := fun id => by
    rw [paidOut_concat, sentFor_of_ne (by simp [Label.spends]), Int.add_zero]
  have hclaims : (tr ++ [(⟨h, .others a, u, h'⟩ : Logged Address X A)]).filterMap (fun r => r.label.claimant) =
      tr.filterMap fun r => r.label.claimant := by simp [Label.claimant]
  refine ⟨hlife, ?_, ?_, ?_, ?_, ?_⟩
  · intro id d hd
    rw [hsent]
    exact ha.spent id d (hs ▸ hd)
  · intro id hnone
    rw [hsent]
    exact ha.unspent id (hs ▸ hnone)
  · intro id holder hmem
    rw [hs]
    exact ha.marked id holder (hclaims ▸ hmem)
  · exact hclaims ▸ ha.once
  · refine forall_mem_concat (fun r hr id holder hclaim => (ha.shares r hr id holder hclaim).concat) ?_
    intro id holder hclaim
    cases hclaim

/-- **One answered call** keeps the books. -/
theorem Accounted.step (ha : Accounted this tr h.storage)
    (hstep : (dividend w.recorded this).step h l = some (u, h')) :
    Accounted this (tr ++ [⟨h, l, u, h'⟩]) h'.storage := by
  cases l with
  | call env op => exact ha.call (call_effect (Call.returned_eq_some.1 hstep))
  | others a =>
    have hlife := ha.lifecycle.step hstep
    obtain ⟨x, -, hx⟩ := Option.map_eq_some_iff.1 hstep
    cases hx
    exact ha.others rfl hlife

/-- **Every run** keeps the books. -/
theorem run_accounted (w : World Address X A) (this : Address) (x : X) (ls : List (Label Address A)) :
    Accounted this ((dividend w.recorded this).trace (Contract.fresh Address (x, [])) ls)
      ((dividend w.recorded this).run (Contract.fresh Address (x, [])) ls).storage :=
  System.run_rule (P := fun tr (h : Contract Address (X × List (Transfer Address))) => Accounted this tr h.storage)
    accounted_fresh (fun _ _ _ _ _ ha hstep => ha.step hstep) ls

/-- Once a distribution is completed, no call spends on its behalf or changes its record. -/
theorem completed_frozen {tr : List (Answered Address X A)} {w : World Address X A} {h : Contract Address X}
    (hl : Lifecycle tr h.storage) (hd : h.storage.dist.get id = some d) (hcompleted : d.completed = true)
    (ls : List (Label Address A)) :
    ((dividend w this).run h ls).storage.dist.get id = some d ∧
      ∀ r ∈ (dividend w this).trace h ls, r.label.spends ≠ some id := by
  suffices hall : Lifecycle (tr ++ (dividend w this).trace h ls) ((dividend w this).run h ls).storage ∧
      ((dividend w this).run h ls).storage.dist.get id = some d ∧
      ∀ r ∈ (dividend w this).trace h ls, r.label.spends ≠ some id from hall.2
  refine System.run_rule (P := fun tr' (h' : Contract Address X) => Lifecycle (tr ++ tr') h'.storage ∧
    h'.storage.dist.get id = some d ∧ ∀ r ∈ tr', r.label.spends ≠ some id) ⟨by simpa using hl, hd, by simp⟩ ?_ ls
  rintro tr' h₁ l u h₂ ⟨hl₁, hd₁, hno⟩ hstep
  have hnow : l.spends ≠ some id ∧ h₂.storage.dist.get id = some d := by
    cases l with
    | call env op =>
      have heffect := call_effect (Call.returned_eq_some.1 hstep)
      have hspends := heffect.spends_ne hl₁ hd₁ hcompleted
      exact ⟨hspends, heffect.record_eq hl₁ hd₁ hspends⟩
    | others a =>
      obtain ⟨x, -, hx⟩ := Option.map_eq_some_iff.1 hstep
      cases hx
      exact ⟨by simp [Label.spends], hd₁⟩
  exact ⟨by simpa using hl₁.step hstep, hnow.2, forall_mem_concat hno hnow.1⟩

/-- **Lifetime accounting.** After every run, for every distribution: what was transferred out of escrow on its behalf
is at most its total, all of it once the distribution is completed and `distributed` until then; no address is paid by
two claims of it; every claim paid the share of the one list frozen at creation; and once it is completed, no later
call spends on its behalf or changes its record. -/
theorem lifetime_accounting (w : World Address X A) (this : Address) (x : X) (ls ls' : List (Label Address A)) :
    let M := dividend w.recorded this
    let tr := M.trace (Contract.fresh Address (x, [])) ls
    let h := M.run (Contract.fresh Address (x, [])) ls
    (∀ id d, h.storage.dist.get id = some d →
        (∀ o, Created tr id o → d.totalAmount = o.totalAmount) ∧ paidOut id tr ≤ d.totalAmount.val ∧
          (d.completed = true → paidOut id tr = d.totalAmount.val) ∧
          (d.completed = false → paidOut id tr = d.distributed.val)) ∧
      (tr.filterMap fun r => r.label.claimant).Nodup ∧
      (∀ r ∈ tr, ∀ id holder, r.label.claimant = some (id, holder) →
        ∃ o, (∀ o', Created tr id o' ↔ o' = o) ∧ ∃ b, (holder, b) ∈ o.eligible ∧
          ∃ amount, amount.val = o.totalAmount.val * b.val / (o.eligible.map fun e => e.2.val).sum ∧
            transfers r = [⟨o.paymentToken, this, holder, amount⟩]) ∧
      ∀ id d, h.storage.dist.get id = some d → d.completed = true →
        (M.run h ls').storage.dist.get id = some d ∧ ∀ r ∈ M.trace h ls', r.label.spends ≠ some id := by
  intro M tr h
  have ha : Accounted this tr h.storage := run_accounted w this x ls
  refine ⟨?_, ha.once, ?_, ?_⟩
  · intro id d hd
    obtain ⟨t, hcreated, hst⟩ := ha.lifecycle.exists_terms hd
    have hleft := hst.stage.remaining_nonneg
    have hspent := ha.spent id d hd
    refine ⟨?_, by omega, ?_, ?_⟩
    · intro o ho
      rw [ha.lifecycle.unique id o _ ho hcreated]
      exact hst.stage.terms.1
    · intro hcompleted
      have hzero : d.remaining = 0 := if_pos hcompleted
      omega
    · intro hopen
      have hremaining := remaining_of_open hopen
      omega
  · intro r hr id holder hclaim
    obtain ⟨o, b, amount, hcreated, hmem, hamount, htransfers⟩ := ha.shares r hr id holder hclaim
    refine ⟨o, fun o' => ⟨fun ho' => ha.lifecycle.unique id o' o ho' hcreated, ?_⟩, b, hmem, amount, hamount,
      htransfers⟩
    rintro rfl
    exact hcreated
  · intro id d hd hcompleted
    exact completed_frozen ha.lifecycle hd hcompleted ls'

theorem lifetime_accounting_shared :
    paidOut 1 ((dividend (Ledgers.world 1 1).recorded 9).trace (Contract.fresh ℕ (∅, [])) sharedRun) = 33 := by
  have hrecord : (((dividend (Ledgers.world 1 1).recorded 9).run (Contract.fresh ℕ (∅, [])) sharedRun).storage.dist.get
      1).map (fun d => (d.completed, d.distributed.val)) = some (false, 33) := by decide +kernel
  obtain ⟨d, hd, hopen⟩ := Option.map_eq_some_iff.1 hrecord
  obtain ⟨hopen, hdistributed⟩ := Prod.mk.inj hopen
  have hpaid := ((lifetime_accounting (Ledgers.world 1 1) 9 ∅ sharedRun []).1 1 d hd).2.2.2 hopen
  exact hpaid.trans hdistributed

end Books

end StellarRwa.Dividend
