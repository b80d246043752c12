import StellarRwa.Dividend.Model
import Mathlib.Algebra.Order.BigOperators.Group.List

/-!
# What the dividend calls do

Each entry point returns exactly under its guards, in the state it names (`claim_ok`, `reclaimUnclaimed_ok`, ...).
`Effect` is the inversion lemma for all of them (`call_effect`): a call changes the roles, opens a distribution
against a transfer to the contract, or writes the record of one open distribution against a transfer from it.
-/

namespace StellarRwa.Dividend

open Lib

variable {Address X A : Type}

@[simp] theorem administered_roles : (administered Address).roles = State.roles := rfl

@[simp] theorem administered_setRoles (r : Roles Address) (s : State Address) :
    (administered Address).setRoles r s = { s with roles := r } := rfl

variable {w : World Address X A} {this : Address} {env : Env Address} {h h' : Contract Address X}

theorem initializeDividend_ok {admin : Address} {r : Unit × Contract Address X} :
    (initializeDividend env admin : M Address X Unit) h = .ok r ↔
      h.storage.roles.admin = none ∧ env.authorized admin = true ∧
      ((), { h with
        storage := { h.storage with roles := { h.storage.roles with admin := some admin }, counter := some 0 }
        events := h.events ++ [.init admin] }) = r := by
  simp [initializeDividend]

@[simp] theorem load_ok {id : U64} {r : Distribution Address × Contract Address X} :
    (load id : M Address X _) h = .ok r ↔ ∃ d, h.storage.dist.get id = some d ∧ (d, h) = r := by
  simp [load]

theorem load_error {id : U64} {f : Fault Error} :
    (load id : M Address X _) h = .error f ↔ h.storage.dist.get id = none ∧ .error .distributionNotFound = f := by
  simp [load]

@[simp] theorem transfer_ok {token from_ to_ : Address} {amount : I128} {r : Unit × Contract Address X} :
    (transfer w token from_ to_ amount : M Address X Unit) h = .ok r ↔
      ∃ x, w.transfer h.outside token from_ to_ amount = some x ∧ ((), { h with outside := x }) = r := by
  simp only [transfer, Call.invoke_ok, Option.map_eq_some_iff]
  constructor
  · rintro ⟨_, _, ⟨x, hx, e⟩, hr⟩
    cases e
    exact ⟨_, hx, hr⟩
  · rintro ⟨x, hx, hr⟩
    exact ⟨(), x, ⟨x, hx, rfl⟩, hr⟩

@[simp] theorem clear_ok {id : U64} {r : Unit × Contract Address X} :
    (clear id : M Address X Unit) h = .ok r ↔
      ((), { h with
        storage := { h.storage with snapshot := h.storage.snapshot.remove id, supply := h.storage.supply.remove id } })
        = r := by
  simp [clear]

/-! ## The records -/

/-- The record `d` written at `id`; the frozen list goes with a completed one. -/
def State.written (s : State Address) (id : U64) (d : Distribution Address) : State Address :=
  { s with
    dist := s.dist.set id d
    snapshot := if d.completed then s.snapshot.remove id else s.snapshot
    supply := if d.completed then s.supply.remove id else s.supply }

theorem written_dist (s : State Address) (d : Distribution Address) (id id' : U64) :
    (s.written id d).dist.get id' = if id' = id then some d else s.dist.get id' := Storage.get_set _ _ _ _

theorem written_completed (id : U64) (s : State Address) {d : Distribution Address} (h : d.completed = true) :
    (s.written id d).snapshot.get id = none ∧ (s.written id d).supply.get id = none := by
  simp [State.written, h]

theorem written_open (id : U64) (s : State Address) {d : Distribution Address} (h : d.completed = false) :
    (s.written id d).snapshot = s.snapshot ∧ (s.written id d).supply = s.supply := by
  simp [State.written, h]

variable [DecidableEq Address]

/-- `holder` marked as paid. -/
def State.marked (s : State Address) (id : U64) (holder : Address) : State Address :=
  { s with claimed := s.claimed.set (id, holder) true }

/-- The record `d` opened for the frozen list `eligible`. -/
def State.opened (s : State Address) (d : Distribution Address) (eligible : List (Address × I128)) (sum : I128) :
    State Address :=
  { s with
    counter := some d.id
    dist := s.dist.set d.id d
    assetIds := s.assetIds.set d.assetToken ((s.assetIds.get d.assetToken).getD [] ++ [d.id])
    supply := s.supply.set d.id sum
    snapshot := s.snapshot.set d.id eligible }

/-! ## Creation -/

/-- A list with a new entry in front, for an address that it does not list and that was not seen. -/
theorem unseen_cons {e : Address × I128} {l : List (Address × I128)} {seen : Storage Address Unit} :
    ((∀ e' ∈ e :: l, 0 ≤ e'.2.val ∧ seen.get e'.1 = none) ∧ ((e :: l).map Prod.fst).Nodup) ↔
      (0 ≤ e.2.val ∧ seen.get e.1 = none) ∧
        (∀ e' ∈ l, 0 ≤ e'.2.val ∧ (seen.set e.1 ()).get e'.1 = none) ∧ (l.map Prod.fst).Nodup := by
  have hset : ∀ e' : Address × I128, (seen.set e.1 ()).get e'.1 = none ↔ e'.1 ≠ e.1 ∧ seen.get e'.1 = none := by
    intro e'
    rw [Storage.get_set]
    split <;> simp_all
  simp only [List.forall_mem_cons, List.map_cons, List.nodup_cons, hset]
  constructor
  · rintro ⟨⟨he, hl⟩, hnot, hnd⟩
    refine ⟨he, fun e' he' => ⟨(hl e' he').1, ?_, (hl e' he').2⟩, hnd⟩
    intro heq
    exact hnot (List.mem_map.2 ⟨e', he', heq⟩)
  · rintro ⟨he, hl, hnd⟩
    refine ⟨⟨he, fun e' he' => ⟨(hl e' he').1, (hl e' he').2.2⟩⟩, fun hmem => ?_, hnd⟩
    obtain ⟨e', he', heq⟩ := List.mem_map.1 hmem
    exact (hl e' he').2.1 heq

theorem tally_ok {acc : I128} {seen : Storage Address Unit} {e : Address × I128}
    {r : (I128 × Storage Address Unit) × Contract Address X} :
    (tally (acc, seen) e : M Address X _) h = .ok r ↔
      (0 ≤ e.2.val ∧ seen.get e.1 = none) ∧ ∃ sum : I128, sum.val = acc.val + e.2.val ∧
        ((sum, seen.set e.1 ()), h) = r := by
  simp [tally, MInt.lt_def, Storage.has_eq_false, and_assoc]

/-- The loop over `eligible` accepts the lists of distinct new addresses with non-negative balances whose sum fits. -/
theorem tally_loop : ∀ {l : List (Address × I128)} {acc : I128} {seen : Storage Address Unit}
    {r : (I128 × Storage Address Unit) × Contract Address X},
    Call.foldEach tally (acc, seen) l h = .ok r ↔
      ((∀ e ∈ l, 0 ≤ e.2.val ∧ seen.get e.1 = none) ∧ (l.map Prod.fst).Nodup) ∧
      ∃ sum : I128, sum.val = acc.val + (l.map fun e => e.2.val).sum ∧
        ((sum, l.foldl (fun seen e => seen.set e.1 ()) seen), h) = r
  | [], acc, seen, r => by
    simp only [Call.foldEach_nil, Call.pure_ok, List.not_mem_nil, false_implies, implies_true, List.map_nil,
      List.nodup_nil, List.sum_nil, Int.add_zero, List.foldl_nil, true_and]
    constructor
    · exact fun hr => ⟨acc, rfl, hr⟩
    · rintro ⟨sum, hsum, hr⟩
      rwa [MInt.val_inj.1 hsum] at hr
  | e :: l, acc, seen, r => by
    rw [Call.foldEach_cons, Call.bind_ok, unseen_cons]
    simp only [tally_ok, List.map_cons, List.sum_cons, List.foldl_cons]
    constructor
    · rintro ⟨_, _, ⟨he, sum₁, hsum₁, e₁⟩, hloop⟩
      cases e₁
      obtain ⟨hl, sum, hsum, hr⟩ := tally_loop.1 hloop
      exact ⟨⟨he, hl⟩, sum, by omega, hr⟩
    · rintro ⟨⟨he, hl⟩, sum, hsum, hr⟩
      -- the sum so far fits because the rest only adds to it
      have hrest : 0 ≤ (l.map fun e => e.2.val).sum := by
        refine List.sum_nonneg fun n hn => ?_
        obtain ⟨e', he', rfl⟩ := List.mem_map.1 hn
        exact (hl.1 e' he').1
      have hlo := acc.lo_le
      have hhi := sum.le_hi
      refine ⟨_, _, ⟨he, ⟨acc.val + e.2.val, by omega, by omega⟩, rfl, rfl⟩, tally_loop.2 ⟨hl, sum, ?_, hr⟩⟩
      rw [hsum, add_assoc]

/-- Signed by the admin, or by the admin of the asset token. -/
def SignedFor (w : World Address X A) (env : Env Address) (s : State Address) (x : X) (admin assetToken : Address) :
    Prop :=
  (∃ stored, s.roles.admin = some stored ∧ (admin = stored ∨ w.assetAdmin x assetToken = some admin)) ∧
    env.authorized admin = true

/-- The lists that creation accepts. -/
structure Listed (eligible : List (Address × I128)) (sum : I128) : Prop where
  distinct : (eligible.map Prod.fst).Nodup
  nonneg : ∀ e ∈ eligible, 0 ≤ e.2.val
  sum : sum.val = (eligible.map fun e => e.2.val).sum

/-- The loop of a creation, from the start. -/
theorem tally_listed {eligible : List (Address × I128)} {r : (I128 × Storage Address Unit) × Contract Address X} :
    Call.foldEach tally (0, ∅) eligible h = .ok r ↔
      ∃ sum, Listed eligible sum ∧ ((sum, eligible.foldl (fun seen e => seen.set e.1 ()) ∅), h) = r := by
  simp only [tally_loop, Storage.get_empty, and_true, MInt.val_zero, Int.zero_add]
  constructor
  · rintro ⟨⟨hnonneg, hdistinct⟩, sum, hsum, hr⟩
    exact ⟨sum, ⟨hdistinct, hnonneg, hsum⟩, hr⟩
  · rintro ⟨sum, hlisted, hr⟩
    exact ⟨⟨hlisted.nonneg, hlisted.distinct⟩, sum, hlisted.sum, hr⟩

theorem createDistributionDeadline_ok {admin assetToken paymentToken : Address} {totalAmount : I128}
    {eligible : List (Address × I128)} {deadline : U32} {r : U64 × Contract Address X} :
    (createDistributionDeadline w this env admin assetToken paymentToken totalAmount eligible deadline :
        M Address X U64) h = .ok r ↔
      SignedFor w env h.storage h.outside admin assetToken ∧ 0 < totalAmount.val ∧
      (deadline ≠ 0 → env.sequence.val ≤ deadline.val) ∧
      ∃ n, w.totalSupply h.outside assetToken = some n ∧ 0 < n.val ∧ eligible ≠ [] ∧
      ∃ sum, Listed eligible sum ∧
      ∃ x, w.transfer h.outside paymentToken admin this totalAmount = some x ∧
      ∃ id : U64, id.val = (h.storage.counter.getD 0).val + 1 ∧
        (id, { h with
          storage := h.storage.opened
            ⟨id, assetToken, paymentToken, totalAmount, 0, env.sequence, false, deadline, false⟩ eligible sum
          outside := x
          events := h.events ++ [.created admin id totalAmount] }) = r := by
  simp [createDistributionDeadline, SignedFor, tally_listed, State.opened, MInt.le_def, MInt.lt_def, and_assoc]

/-! ## Claims -/

/-- `amount` is due to `holder`: the share of the snapshot balance, and positive. -/
def Due (s : State Address) (id : U64) (holder : Address) (amount : I128) : Prop :=
  ∃ d, s.dist.get id = some d ∧ hasClaimed s id holder = false ∧ 0 < (loadSupply s id).val ∧
    ∃ snap, s.snapshot.get id = some snap ∧ 0 < (balanceIn snap holder).val ∧
    ∃ product : I128, product.val = d.totalAmount.val * (balanceIn snap holder).val ∧
      product.checkedDiv (loadSupply s id) = some amount ∧ 0 < amount.val

theorem Due.unclaimed {s : State Address} {id : U64} {holder : Address} {amount : I128}
    (hdue : Due s id holder amount) :
    hasClaimed s id holder = false := by
  obtain ⟨d, -, hflag, -⟩ := hdue
  exact hflag

theorem Due.pos {s : State Address} {id : U64} {holder : Address} {amount : I128} (hdue : Due s id holder amount) :
    0 < amount.val := by
  obtain ⟨d, -, -, -, snap, -, -, product, -, -, hamount⟩ := hdue
  exact hamount

@[simp] theorem snapshotBalance_ok {id : U64} {holder : Address} {r : I128 × Contract Address X} :
    (snapshotBalance id holder : M Address X I128) h = .ok r ↔
      ∃ snap, h.storage.snapshot.get id = some snap ∧ (balanceIn snap holder, h) = r := by
  simp [snapshotBalance]

theorem snapshotBalance_error {id : U64} {holder : Address} {f : Fault Error} :
    (snapshotBalance id holder : M Address X I128) h = .error f ↔
      h.storage.snapshot.get id = none ∧ .error .distributionNotFound = f := by
  simp [snapshotBalance]

theorem claimable_pos {id : U64} {holder : Address} {r : I128 × Contract Address X} :
    (claimable id holder : M Address X I128) h = .ok r ∧ 0 < r.1.val ↔ Due h.storage id holder r.1 ∧ r.2 = h := by
  obtain ⟨amount, h₁⟩ := r
  simp only [claimable, Call.bind_ok, load_ok, Call.storage_ok, Call.ite_ok, Call.pure_ok, snapshotBalance_ok,
    Call.unwrapOrElse_ok, Call.orTrap_ok, MInt.le_def, MInt.val_zero, not_le, MInt.checkedMul_eq_some]
  constructor
  · rintro ⟨⟨_, _, ⟨d, hd, e₁⟩, _, _, e₂, hrest⟩, hpos⟩
    cases e₁; cases e₂
    rcases hrest with ⟨_, e⟩ | ⟨hflag, ⟨_, e⟩ | ⟨hsupply, _, _, ⟨snap, hsnap, e₃⟩, hrest⟩⟩
    · cases e
      exact absurd hpos (lt_irrefl _)
    · cases e
      exact absurd hpos (lt_irrefl _)
    · cases e₃
      rcases hrest with ⟨_, e⟩ | ⟨hbasis, _, _, ⟨product, hproduct, e₄⟩, _, hdiv, e₅⟩
      · cases e
        exact absurd hpos (lt_irrefl _)
      · cases e₄; cases e₅
        exact ⟨⟨_, hd, by simpa using hflag, hsupply, snap, hsnap, hbasis, _, hproduct, hdiv, hpos⟩, rfl⟩
  · rintro ⟨⟨d, hd, hflag, hsupply, snap, hsnap, hbasis, product, hproduct, hdiv, hpos⟩, rfl⟩
    refine ⟨⟨_, _, ⟨d, hd, rfl⟩, _, _, rfl, .inr ⟨by simp [hflag], .inr ⟨hsupply, _, _, ⟨snap, hsnap, rfl⟩, .inr
      ⟨hbasis, _, _, ⟨product, hproduct, rfl⟩, _, hdiv, rfl⟩⟩⟩⟩, hpos⟩

/-- The record after `amount` more was paid to a holder. -/
def Distribution.claimed (d : Distribution Address) (distributed : I128) : Distribution Address :=
  { d with distributed, completed := decide (d.totalAmount ≤ distributed) }

theorem claim_ok {id : U64} {holder : Address} {r : Unit × Contract Address X} :
    (claim w this env id holder : M Address X Unit) h = .ok r ↔
      env.authorized holder = true ∧ ∃ d, h.storage.dist.get id = some d ∧ d.completed = false ∧
      (d.deadline ≠ 0 → env.sequence.val ≤ d.deadline.val) ∧
      ∃ amount, Due h.storage id holder amount ∧
      ∃ x, w.transfer h.outside d.paymentToken this holder amount = some x ∧
      ∃ distributed : I128, distributed.val = d.distributed.val + amount.val ∧
        distributed.val ≤ d.totalAmount.val ∧
        ((), { h with
          storage := (h.storage.marked id holder).written id (d.claimed distributed)
          outside := x
          events := h.events ++ [.claim holder id amount] }) = r := by
  simp only [claim, Call.bind_ok, Call.requireAuth_ok, load_ok, Call.panicIf_ok, Call.storage_ok, Call.update_ok,
    transfer_ok, Call.unwrapOrElse_ok, Call.ite_ok, Call.pure_ok, Call.publish_ok, clear_ok, MInt.le_def, MInt.lt_def,
    MInt.val_zero, not_le, not_lt, MInt.checkedAdd_eq_some]
  constructor
  · rintro ⟨_, _, ⟨hauth, e₁⟩, d, _, ⟨_, hd, e₂⟩, _, _, ⟨hopen, e₃⟩, _, _, ⟨hdeadline, e₄⟩, _, _, e₅, _, _, ⟨hflag, e₆⟩,
      amount, _, hclaimable, _, _, ⟨hpos, e₇⟩, _, _, e₈, _, _, ⟨x, hx, e₉⟩, hrest⟩
    cases e₁; cases e₂; cases e₃; cases e₄; cases e₅; cases e₆
    obtain ⟨hdue, hsame⟩ := claimable_pos.1 ⟨hclaimable, hpos⟩
    dsimp only at hsame
    subst hsame
    cases e₇; cases e₈; cases e₉
    obtain ⟨distributed, _, ⟨_, hdistributed, e₁⟩, _, _, ⟨hle, e₂⟩, hrest⟩ := hrest
    cases e₁; cases e₂
    refine ⟨hauth, d, hd, by simpa using hopen, by simpa using hdeadline, amount, hdue, x, hx, distributed,
      hdistributed, hle, ?_⟩
    rcases hrest with ⟨hall, _, _, e₃, _, _, e₄, _, _, e₅, hr⟩ | ⟨hpart, _, _, e₃, _, _, e₄, hr⟩
    · cases e₃; cases e₄; cases e₅
      simpa [State.written, State.marked, Distribution.claimed, MInt.le_def, hall] using hr
    · cases e₃; cases e₄
      simpa [State.written, State.marked, Distribution.claimed, MInt.le_def, not_le.2 hpart, hopen] using hr
  · rintro ⟨hauth, d, hd, hopen, hdeadline, amount, hdue, x, hx, distributed, hdistributed, hle, hr⟩
    obtain ⟨hclaimable, hpos⟩ := claimable_pos (r := (amount, h)) |>.2 ⟨hdue, rfl⟩
    have hflag := hdue.unclaimed
    refine ⟨_, _, ⟨hauth, rfl⟩, d, _, ⟨_, hd, rfl⟩, _, _, ⟨by simp [hopen], rfl⟩, _, _, ⟨by simpa using hdeadline, rfl⟩,
      _, _, rfl, _, _, ⟨by simp [hflag], rfl⟩, amount, _, hclaimable, _, _, ⟨hpos, rfl⟩, _, _, rfl, _, _, ⟨x, hx, rfl⟩,
      distributed, _, ⟨_, hdistributed, rfl⟩, _, _, ⟨hle, rfl⟩, ?_⟩
    by_cases hall : d.totalAmount.val ≤ distributed.val
    · refine .inl ⟨hall, _, _, rfl, _, _, rfl, _, _, rfl, ?_⟩
      simpa [State.written, State.marked, Distribution.claimed, MInt.le_def, hall] using hr
    · refine .inr ⟨not_le.1 hall, _, _, rfl, _, _, rfl, ?_⟩
      simpa [State.written, State.marked, Distribution.claimed, MInt.le_def, hall, hopen] using hr

/-! ## Reclaiming and cancelling -/

theorem reclaimUnclaimed_ok {admin : Address} {id : U64} {r : I128 × Contract Address X} :
    (reclaimUnclaimed w this env admin id : M Address X I128) h = .ok r ↔
      h.storage.roles.admin = some admin ∧ env.authorized admin = true ∧
      ∃ d, h.storage.dist.get id = some d ∧ d.deadline ≠ 0 ∧ d.deadline.val < env.sequence.val ∧ d.completed = false ∧
      ∃ remaining : I128, remaining.val = d.totalAmount.val - d.distributed.val ∧ 0 < remaining.val ∧
      ∃ x, w.transfer h.outside d.paymentToken this admin remaining = some x ∧
        (remaining, { h with
          storage := h.storage.written id { d with distributed := d.totalAmount, completed := true }
          outside := x
          events := h.events ++ [.reclaim admin id remaining] }) = r := by
  simp [reclaimUnclaimed, State.written, MInt.le_def, and_assoc]

theorem cancelDistribution_ok {admin : Address} {id : U64} {r : Unit × Contract Address X} :
    (cancelDistribution w this env admin id : M Address X Unit) h = .ok r ↔
      h.storage.roles.admin = some admin ∧ env.authorized admin = true ∧
      ∃ d, h.storage.dist.get id = some d ∧ d.distributed.val ≤ 0 ∧ d.completed = false ∧
      ∃ x, w.transfer h.outside d.paymentToken this admin d.totalAmount = some x ∧
        ((), { h with
          storage := h.storage.written id { d with completed := true, cancelled := true }
          outside := x
          events := h.events ++ [.cancel admin id] }) = r := by
  simp [cancelDistribution, State.written, MInt.lt_def, and_assoc]

/-! ## All entry points -/

/-- The terms that a creation asks for. -/
structure Offer (Address : Type) where
  assetToken : Address
  paymentToken : Address
  totalAmount : I128
  eligible : List (Address × I128)
  deadline : U32
deriving DecidableEq

namespace Op

/-- The funder and the terms of a creation. -/
def offer : Op Address → Option (Address × Offer Address)
  | .createDistribution admin assetToken paymentToken totalAmount eligible =>
    some (admin, ⟨assetToken, paymentToken, totalAmount, eligible, 0⟩)
  | .createDistributionDeadline admin assetToken paymentToken totalAmount eligible deadline =>
    some (admin, ⟨assetToken, paymentToken, totalAmount, eligible, deadline⟩)
  | _ => none

/-- The distribution that a call sweeps back to the admin. -/
def sweeps : Op Address → Option U64
  | .reclaimUnclaimed _ id => some id
  | .cancelDistribution _ id => some id
  | _ => none

/-- The distribution on whose behalf a call takes money out of escrow. -/
def spends : Op Address → Option U64
  | .claim id _ => some id
  | op => op.sweeps

/-- The functions of the admin handover. -/
def Handover : Op Address → Prop
  | .proposeAdmin _ _ => True
  | .cancelAdminProposal _ => True
  | .acceptAdmin _ => True
  | _ => False

omit [DecidableEq Address] in
theorem Handover.offer {op : Op Address} (h : op.Handover) : op.offer = none := by
  cases op <;> first | rfl | cases h

omit [DecidableEq Address] in
theorem Handover.spends {op : Op Address} (h : op.Handover) : op.spends = none := by
  cases op <;> first | rfl | cases h

omit [DecidableEq Address] in
/-- A creation does not spend. -/
theorem spends_of_offer {op : Op Address} {p : Address × Offer Address} (h : op.offer = some p) : op.spends = none := by
  cases op <;> first | rfl | cases h

end Op

/-- The record that a creation opens. -/
def Offer.record (o : Offer Address) (id : U64) (createdAt : U32) : Distribution Address :=
  ⟨id, o.assetToken, o.paymentToken, o.totalAmount, 0, createdAt, false, o.deadline, false⟩

/-- What an answered call does to the storage and to the other contracts. -/
inductive Effect (w : World Address X A) (this : Address) (env : Env Address) (s : State Address) (x : X) :
    Op Address → Ret → State Address → X → Prop
  | handover {op : Op Address} {r : Roles Address} (hop : op.Handover) (hadmin : s.roles.admin ≠ none)
    (hadmin' : r.admin = s.roles.admin ∨ ∃ a, op = .acceptAdmin a ∧ r.admin = some a) :
    Effect w this env s x op .unit { s with roles := r } x
  | initialized {admin : Address} (hadmin : s.roles.admin = none) :
    Effect w this env s x (.initializeDividend admin) .unit
      { s with roles := { s.roles with admin := some admin }, counter := some 0 } x
  | opened {op : Op Address} {admin : Address} {o : Offer Address} {sum : I128} {id : U64} {x' : X}
    (hop : op.offer = some (admin, o)) (hsigned : SignedFor w env s x admin o.assetToken)
    (hpos : 0 < o.totalAmount.val) (hdeadline : o.deadline ≠ 0 → env.sequence.val ≤ o.deadline.val)
    (hne : o.eligible ≠ []) (hlisted : Listed o.eligible sum) (hid : id.val = (s.counter.getD 0).val + 1)
    (htransfer : w.transfer x o.paymentToken admin this o.totalAmount = some x') :
    Effect w this env s x op (.id id) (s.opened (o.record id env.sequence) o.eligible sum) x'
  | claimed {id : U64} {holder : Address} {d : Distribution Address} {amount distributed : I128} {x' : X}
    (hsigned : env.authorized holder = true) (hd : s.dist.get id = some d) (hopen : d.completed = false)
    (hdeadline : d.deadline ≠ 0 → env.sequence.val ≤ d.deadline.val) (hdue : Due s id holder amount)
    (hdistributed : distributed.val = d.distributed.val + amount.val) (hle : distributed.val ≤ d.totalAmount.val)
    (htransfer : w.transfer x d.paymentToken this holder amount = some x') :
    Effect w this env s x (.claim id holder) .unit ((s.marked id holder).written id (d.claimed distributed)) x'
  | reclaimed {id : U64} {admin : Address} {d : Distribution Address} {remaining : I128} {x' : X}
    (hadmin : s.roles.admin = some admin) (hsigned : env.authorized admin = true) (hd : s.dist.get id = some d)
    (hopen : d.completed = false) (hdeadline : d.deadline ≠ 0 ∧ d.deadline.val < env.sequence.val)
    (hremaining : remaining.val = d.totalAmount.val - d.distributed.val)
    (htransfer : w.transfer x d.paymentToken this admin remaining = some x') :
    Effect w this env s x (.reclaimUnclaimed admin id) (.amount remaining)
      (s.written id { d with distributed := d.totalAmount, completed := true }) x'
  | cancelled {id : U64} {admin : Address} {d : Distribution Address} {x' : X}
    (hadmin : s.roles.admin = some admin) (hsigned : env.authorized admin = true) (hd : s.dist.get id = some d)
    (hopen : d.completed = false) (hnone : d.distributed.val ≤ 0)
    (htransfer : w.transfer x d.paymentToken this admin d.totalAmount = some x') :
    Effect w this env s x (.cancelDistribution admin id) .unit
      (s.written id { d with completed := true, cancelled := true }) x'

omit [DecidableEq Address] in
theorem SignedFor.admin_ne {s : State Address} {x : X} {admin assetToken : Address}
    (hs : SignedFor w env s x admin assetToken) : s.roles.admin ≠ none := by
  obtain ⟨⟨stored, hstored, -⟩, -⟩ := hs
  simp [hstored]

theorem call_effect {op : Op Address} {r : Ret} (hrun : call w this env op h = .ok (r, h')) :
    Effect w this env h.storage h.outside op r h'.storage h'.outside := by
  cases op <;> simp only [call, Call.bind_ok, Call.pure_ok] at hrun <;> obtain ⟨u, h₁, hop, hr⟩ := hrun <;> cases hr
  case initializeDividend =>
    obtain ⟨hadmin, -, hr⟩ := initializeDividend_ok.1 hop
    cases hr
    exact .initialized hadmin
  case createDistribution admin assetToken paymentToken totalAmount eligible =>
    obtain ⟨hsigned, hpos, hdeadline, _, -, -, hne, sum, hlisted, x, hx, id, hid, hr⟩ :=
      createDistributionDeadline_ok.1 hop
    cases hr
    exact .opened (o := ⟨assetToken, paymentToken, totalAmount, eligible, 0⟩) rfl hsigned hpos hdeadline hne hlisted
      hid hx
  case createDistributionDeadline admin assetToken paymentToken totalAmount eligible deadline =>
    obtain ⟨hsigned, hpos, hdeadline, _, -, -, hne, sum, hlisted, x, hx, id, hid, hr⟩ :=
      createDistributionDeadline_ok.1 hop
    cases hr
    exact .opened (o := ⟨assetToken, paymentToken, totalAmount, eligible, deadline⟩) rfl hsigned hpos hdeadline hne
      hlisted hid hx
  case claim =>
    obtain ⟨hsigned, d, hd, hopen, hdeadline, amount, hdue, x, hx, distributed, hdistributed, hle, hr⟩ :=
      claim_ok.1 hop
    cases hr
    exact .claimed hsigned hd hopen hdeadline hdue hdistributed hle hx
  case reclaimUnclaimed =>
    obtain ⟨hadmin, hsigned, d, hd, hdeadline, hpast, hopen, remaining, hremaining, -, x, hx, hr⟩ :=
      reclaimUnclaimed_ok.1 hop
    cases hr
    exact .reclaimed hadmin hsigned hd hopen ⟨hdeadline, hpast⟩ hremaining hx
  case cancelDistribution =>
    obtain ⟨hadmin, hsigned, d, hd, hnone, hopen, x, hx, hr⟩ := cancelDistribution_ok.1 hop
    cases hr
    exact .cancelled hadmin hsigned hd hopen hnone hx
  case proposeAdmin =>
    obtain ⟨hadmin, -, hr⟩ := Administered.proposeAdmin_ok.1 hop
    cases hr
    exact .handover trivial (by simp at hadmin; simp [hadmin]) (.inl rfl)
  case cancelAdminProposal =>
    obtain ⟨hadmin, -, -, hr⟩ := Administered.cancelAdminProposal_ok.1 hop
    cases hr
    exact .handover trivial (by simp at hadmin; simp [hadmin]) (.inl rfl)
  case acceptAdmin newAdmin =>
    obtain ⟨-, -, oldAdmin, hadmin, hr⟩ := Administered.acceptAdmin_ok.1 hop
    cases hr
    exact .handover trivial (by simp at hadmin; simp [hadmin]) (.inr ⟨newAdmin, rfl, rfl⟩)

end StellarRwa.Dividend
