import StellarRwa.Lib.Numbering
import StellarRwa.Lib.Shares
import StellarRwa.Dividend.Spec

/-!
# The life of a distribution

The terms of a distribution are fixed by the call that created it (`Created`, `Terms`). From then on its record is
open, paid or cancelled (`Stage`): while it is open the frozen list is stored and `distributed` is the sum of the
shares of the holders marked as paid. `Lifecycle` relates the storage to the history of answered calls in this way,
and every run keeps it (`run_lifecycle`).
-/

namespace StellarRwa.Dividend

open Lib

variable {Address X A : Type}

/-- The record of an answered call. -/
abbrev Answered (Address X A : Type) := Done (Contract Address X) (Label Address A) Ret

/-! ## What a history says -/

namespace Label

/-- The terms that a creation asks for. -/
def offer : Label Address A → Option (Offer Address)
  | .call _ op => op.offer.map Prod.snd
  | .others _ => none

/-- The distribution that a call sweeps back to the admin. -/
def sweeps : Label Address A → Option U64
  | .call _ op => op.sweeps
  | .others _ => none

/-- The distribution on whose behalf a call takes money out of escrow. -/
def spends : Label Address A → Option U64
  | .call _ op => op.spends
  | .others _ => none

end Label

/-- The distribution `id` was created with the terms `o`. -/
def Created (tr : List (Answered Address X A)) (id : U64) (o : Offer Address) : Prop :=
  ∃ r ∈ tr, r.result = .id id ∧ r.label.offer = some o

/-- The distribution `id` was reclaimed or cancelled. -/
def Swept (tr : List (Answered Address X A)) (id : U64) : Prop := ∃ r ∈ tr, r.label.sweeps = some id

section History

variable {tr : List (Answered Address X A)} {r : Answered Address X A} {id : U64} {o : Offer Address}

theorem not_created_nil : ¬ Created ([] : List (Answered Address X A)) id o := by simp [Created]

theorem created_concat : Created (tr ++ [r]) id o ↔ Created tr id o ∨ r.result = .id id ∧ r.label.offer = some o := by
  simp [Created, or_and_right, exists_or]

theorem created_concat_of_none (h : r.label.offer = none) : Created (tr ++ [r]) id o ↔ Created tr id o := by
  simp [created_concat, h]

theorem swept_concat : Swept (tr ++ [r]) id ↔ Swept tr id ∨ r.label.sweeps = some id := by
  simp [Swept, or_and_right, exists_or]

end History

/-! ## Terms -/

/-- The sum of the listed balances. -/
def Offer.sum (o : Offer Address) : Int := (o.eligible.map fun e => e.2.val).sum

/-- `floor(total_amount * balance / sum)`. -/
def Offer.share (o : Offer Address) (balance : I128) : Int := o.totalAmount.val * balance.val / o.sum

/-- Terms that creation has accepted. -/
structure Terms (Address : Type) extends Offer Address where
  createdAt : U32
  supply : I128
  pos : 0 < totalAmount.val
  listed : Listed eligible supply

namespace Terms

variable (t : Terms Address) {b : I128}

/-- The frozen list as weights. -/
def weights : Weights Address where
  entries := t.eligible.map fun e => (e.1, e.2.val)
  distinct := by simpa [List.map_map, Function.comp_def] using t.listed.distinct
  nonneg e he := by
    obtain ⟨e', he', rfl⟩ := List.mem_map.1 he
    exact t.listed.nonneg e' he'

/-- The record of a distribution with these terms. -/
def record (id : U64) (distributed : I128) (completed cancelled : Bool) : Distribution Address :=
  ⟨id, t.assetToken, t.paymentToken, t.totalAmount, distributed, t.createdAt, completed, t.deadline, cancelled⟩

/-- The sum of the shares of the holders marked by `f`. -/
def paid (f : Address → Bool) : Int := t.weights.paid t.totalAmount.val f

theorem weights_total : t.weights.total = t.supply.val := by
  simp [Weights.total, weights, t.listed.sum, Function.comp_def]

theorem sum_eq : t.sum = t.supply.val := t.listed.sum.symm

theorem share_eq : t.share b = t.weights.share t.totalAmount.val b.val := by
  rw [Offer.share, Weights.share, weights_total, sum_eq]

variable {t} {a : Address} {f f' : Address → Bool}

theorem exact_iff :
    t.weights.Exact t.totalAmount.val ↔ ∀ e ∈ t.eligible, t.supply.val ∣ t.totalAmount.val * e.2.val := by
  rw [Weights.Exact, weights_total]
  exact List.forall_mem_map

theorem mem_weights (h : (a, b) ∈ t.eligible) : (a, b.val) ∈ t.weights.entries := List.mem_map.2 ⟨(a, b), h, rfl⟩

theorem paid_nonneg : 0 ≤ t.paid f := Weights.paid_nonneg t.pos.le

theorem share_le_paid (hmem : (a, b) ∈ t.eligible) (hf : f a = true) : t.share b ≤ t.paid f := by
  rw [share_eq]
  exact Weights.share_le_paid t.pos.le (mem_weights hmem) hf

theorem paid_mark (hmem : (a, b) ∈ t.eligible) (hf : f a = false) (hf' : f' a = true)
    (hrest : ∀ c, c ≠ a → f' c = f c) : t.paid f' = t.paid f + t.share b := by
  rw [paid, Weights.paid_mark (mem_weights hmem) hf hf' hrest, share_eq, paid]

theorem paid_add_le [DecidableEq Address] (hmem : (a, b) ∈ t.eligible) (hf : f a = false) :
    t.paid f + t.share b ≤ t.totalAmount.val := by
  rw [share_eq]
  exact Weights.paid_add_le t.pos.le (mem_weights hmem) hf

/-- A positive share needs a positive balance. -/
theorem pos_of_share_pos (h : 0 < t.share b) : 0 < t.supply.val ∧ 0 < b.val := by
  rw [share_eq] at h
  have := Weights.pos_of_share_pos t.pos.le h
  rwa [weights_total] at this

end Terms

/-! ## The balance in a list -/

section Balance

variable [DecidableEq Address] {l : List (Address × I128)} {a : Address} {b : I128}

theorem mem_of_balanceIn_pos (h : 0 < (balanceIn l a).val) : (a, balanceIn l a) ∈ l := by
  cases hfind : l.find? fun e => e.1 = a with
  | none =>
    rw [balanceIn, hfind] at h
    exact absurd h (lt_irrefl _)
  | some e =>
    have ha : e.1 = a := by simpa using List.find?_some hfind
    have he : balanceIn l a = e.2 := by rw [balanceIn, hfind]; rfl
    rw [he, ← ha]
    exact List.mem_of_find?_eq_some hfind

theorem balanceIn_of_mem (hnd : (l.map Prod.fst).Nodup) (h : (a, b) ∈ l) : balanceIn l a = b := by
  induction l with
  | nil => cases h
  | cons e l ih =>
    rw [List.map_cons, List.nodup_cons] at hnd
    rcases List.mem_cons.1 h with rfl | h
    · simp [balanceIn]
    · have hne : e.1 ≠ a := by
        rintro rfl
        exact hnd.1 (List.mem_map.2 ⟨_, h, rfl⟩)
      have := ih hnd.2 h
      simpa [balanceIn, List.find?_cons, hne] using this

end Balance

/-! ## What is due -/

section Due

variable [DecidableEq Address] {s : State Address} {t : Terms Address} {d : Distribution Address} {id : U64}
  {holder : Address} {amount b : I128}

/-- While the frozen list is stored, what is due is the holder's share of it. -/
theorem Due.share (hdue : Due s id holder amount) (hd : s.dist.get id = some d) (htotal : d.totalAmount = t.totalAmount)
    (hsnapshot : s.snapshot.get id = some t.eligible) (hsupply : s.supply.get id = some t.supply) :
    ∃ b, (holder, b) ∈ t.eligible ∧ amount.val = t.share b ∧ 0 < t.share b := by
  obtain ⟨d', hd', -, hpos, snap, hsnap, hbasis, product, hproduct, hdiv, hamount⟩ := hdue
  obtain rfl : d = d' := Option.some.inj (hd.symm.trans hd')
  obtain rfl : t.eligible = snap := Option.some.inj (hsnapshot.symm.trans hsnap)
  rw [loadSupply, hsupply, Option.getD_some] at hpos hdiv
  have hnonneg : 0 ≤ product.val := by
    rw [hproduct, htotal]
    exact mul_nonneg t.pos.le hbasis.le
  have hshare : amount.val = t.share (balanceIn t.eligible holder) := by
    rw [(MInt.checkedDiv_eq_some_of_nonneg hnonneg hpos).1 hdiv, hproduct, htotal, Offer.share, t.sum_eq]
  exact ⟨_, mem_of_balanceIn_pos hbasis, hshare, hshare ▸ hamount⟩

/-- What is due was computed without overflow. -/
theorem Due.fits (hdue : Due s id holder amount) (hd : s.dist.get id = some d) (htotal : d.totalAmount = t.totalAmount)
    (hsnapshot : s.snapshot.get id = some t.eligible) (hmem : (holder, b) ∈ t.eligible) :
    t.totalAmount.val * b.val ≤ 2 ^ 127 - 1 := by
  obtain ⟨d', hd', -, -, snap, hsnap, -, product, hproduct, -, -⟩ := hdue
  obtain rfl : d = d' := Option.some.inj (hd.symm.trans hd')
  obtain rfl : t.eligible = snap := Option.some.inj (hsnapshot.symm.trans hsnap)
  rw [htotal, balanceIn_of_mem t.listed.distinct hmem] at hproduct
  exact hproduct ▸ product.le_hi

/-- A positive share whose product fits is due to every listed holder that was not paid. -/
theorem due_of_share (hd : s.dist.get id = some d) (htotal : d.totalAmount = t.totalAmount)
    (hsnapshot : s.snapshot.get id = some t.eligible) (hsupply : s.supply.get id = some t.supply)
    (hflag : hasClaimed s id holder = false) (hmem : (holder, b) ∈ t.eligible) (hshare : 0 < t.share b)
    (hfits : t.totalAmount.val * b.val ≤ 2 ^ 127 - 1) :
    ∃ amount, Due s id holder amount ∧ amount.val = t.share b := by
  obtain ⟨hpos, hb⟩ := Terms.pos_of_share_pos hshare
  have hbalance : balanceIn t.eligible holder = b := balanceIn_of_mem t.listed.distinct hmem
  have hload : loadSupply s id = t.supply := by rw [loadSupply, hsupply, Option.getD_some]
  have hnonneg : 0 ≤ t.totalAmount.val * b.val := mul_nonneg t.pos.le hb.le
  have hlo : -170141183460469231731687303715884105728 ≤ t.totalAmount.val * b.val := le_trans (by decide) hnonneg
  obtain ⟨amount, hdiv, hamount⟩ :=
    MInt.checkedDiv_isSome_of_nonneg (a := (⟨t.totalAmount.val * b.val, hlo, hfits⟩ : I128)) (by decide) hnonneg hpos
  have hval : amount.val = t.share b := by rw [hamount, Offer.share, t.sum_eq]
  refine ⟨amount,
    ⟨d, hd, hflag, hload ▸ hpos, t.eligible, hsnapshot, hbalance ▸ hb, _, ?_, hload ▸ hdiv, hval ▸ hshare⟩,
    hval⟩
  rw [htotal, hbalance]

end Due

/-! ## Stages -/

section Stages

variable [DecidableEq Address]

/-- The state of a distribution with the terms `t`: open, paid out (by claims or with the reclaimed rest), or
cancelled. -/
inductive Stage (t : Terms Address) (id : U64) (s : State Address) : Distribution Address → Prop
  | opened {distributed : I128} (hsnapshot : s.snapshot.get id = some t.eligible)
    (hsupply : s.supply.get id = some t.supply) (hdistributed : distributed.val = t.paid (hasClaimed s id))
    (hlt : distributed.val < t.totalAmount.val) : Stage t id s (t.record id distributed false false)
  | paid (hsnapshot : s.snapshot.get id = none) (hsupply : s.supply.get id = none) :
    Stage t id s (t.record id t.totalAmount true false)
  | cancelled (hsnapshot : s.snapshot.get id = none) (hsupply : s.supply.get id = none)
    (hnone : ∀ a, hasClaimed s id a = false) : Stage t id s (t.record id 0 true true)

/-- The stage of a distribution, who was paid, and that only a sweep ends it before its money is paid out. -/
structure Standing (tr : List (Answered Address X A)) (t : Terms Address) (id : U64) (s : State Address)
    (d : Distribution Address) : Prop where
  stage : Stage t id s d
  marked : ∀ a, hasClaimed s id a = true → ∃ b, (a, b) ∈ t.eligible ∧ 0 < t.share b
  unswept : ¬ Swept tr id → d.cancelled = false ∧ d.distributed.val = t.paid (hasClaimed s id)

/-- The two storages say the same about the distribution `id`. -/
structure Same (id : U64) (s s' : State Address) : Prop where
  dist : s'.dist.get id = s.dist.get id
  snapshot : s'.snapshot.get id = s.snapshot.get id
  supply : s'.supply.get id = s.supply.get id
  claimed : ∀ a, hasClaimed s' id a = hasClaimed s id a

variable {tr : List (Answered Address X A)} {r : Answered Address X A} {t : Terms Address} {id : U64}
  {s s' : State Address} {d : Distribution Address}

theorem Stage.terms (h : Stage t id s d) :
    d.totalAmount = t.totalAmount ∧ d.paymentToken = t.paymentToken ∧ d.deadline = t.deadline := by
  cases h <;> exact ⟨rfl, rfl, rfl⟩

/-- The facts about an open distribution. -/
theorem Stage.of_open (h : Stage t id s d) (hopen : d.completed = false) :
    s.snapshot.get id = some t.eligible ∧ s.supply.get id = some t.supply ∧
      d.distributed.val = t.paid (hasClaimed s id) ∧ d.distributed.val < t.totalAmount.val := by
  cases h with
  | opened h₁ h₂ h₃ h₄ => exact ⟨h₁, h₂, h₃, h₄⟩
  | paid _ _ => cases hopen
  | cancelled _ _ _ => cases hopen

theorem Stage.same (h : Stage t id s d) (hs : Same id s s') : Stage t id s' d := by
  have hflags : hasClaimed s' id = hasClaimed s id := funext hs.claimed
  cases h with
  | opened h₁ h₂ h₃ h₄ => exact .opened (hs.snapshot.trans h₁) (hs.supply.trans h₂) (by rw [hflags, h₃]) h₄
  | paid h₁ h₂ => exact .paid (hs.snapshot.trans h₁) (hs.supply.trans h₂)
  | cancelled h₁ h₂ h₃ => exact .cancelled (hs.snapshot.trans h₁) (hs.supply.trans h₂) (by rwa [hflags])

theorem Standing.same (h : Standing tr t id s d) (hs : Same id s s') : Standing (tr ++ [r]) t id s' d := by
  have hflags : hasClaimed s' id = hasClaimed s id := funext hs.claimed
  refine ⟨h.stage.same hs, hflags ▸ h.marked, fun hno => hflags ▸ h.unswept fun hswept => hno ?_⟩
  exact swept_concat.2 (.inl hswept)

/-! ## What a call does to one distribution -/

theorem hasClaimed_marked (s : State Address) (id id' : U64) (holder a : Address) :
    hasClaimed (s.marked id holder) id' a = if id' = id ∧ a = holder then true else hasClaimed s id' a := by
  simp only [hasClaimed, State.marked, Storage.get_set, Prod.mk.injEq]
  split <;> rfl

@[simp] theorem hasClaimed_written (s : State Address) (d : Distribution Address) (id' : U64) (a : Address) :
    hasClaimed (s.written id d) id' a = hasClaimed s id' a := rfl

/-- Writing a record leaves the other distributions alone. -/
theorem same_written (s : State Address) (d : Distribution Address) {id' : U64} (h : id' ≠ id) :
    Same id' s (s.written id d) := by
  refine ⟨by rw [written_dist, if_neg h], ?_, ?_, fun a => rfl⟩
  · unfold State.written
    dsimp only
    split
    · exact Storage.get_remove_of_ne _ h
    · rfl
  · unfold State.written
    dsimp only
    split
    · exact Storage.get_remove_of_ne _ h
    · rfl

theorem same_marked_written (s : State Address) (d : Distribution Address) (holder : Address) {id' : U64}
    (h : id' ≠ id) : Same id' s ((s.marked id holder).written id d) := by
  have hs := same_written (s.marked id holder) d h
  refine ⟨hs.dist, hs.snapshot, hs.supply, fun a => (hs.claimed a).trans ?_⟩
  rw [hasClaimed_marked, if_neg (fun e => h e.1)]

/-- A claim pays a share of the frozen list; the last one completes the distribution. -/
theorem Standing.claimed {holder : Address} {amount distributed : I128} (h : Standing tr t id s d)
    (hd : s.dist.get id = some d) (hopen : d.completed = false) (hdue : Due s id holder amount)
    (hdistributed : distributed.val = d.distributed.val + amount.val) (hle : distributed.val ≤ d.totalAmount.val) :
    Standing (tr ++ [r]) t id ((s.marked id holder).written id (d.claimed distributed)) (d.claimed distributed) := by
  obtain ⟨hstage, hmarked, -⟩ := h
  cases hstage with
  | paid _ _ => cases hopen
  | cancelled _ _ _ => cases hopen
  | @opened before hsnapshot hsupply hbefore hlt =>
    obtain ⟨b, hmem, hshare, hpos⟩ := hdue.share hd rfl hsnapshot hsupply
    have hflag : hasClaimed s id holder = false := hdue.unclaimed
    have hpaid : distributed.val =
        t.paid
          (hasClaimed ((s.marked id holder).written id ((t.record id before false false).claimed distributed)) id) := by
      rw [Terms.paid_mark hmem hflag (by simp [hasClaimed_marked]) fun c hc => by simp [hasClaimed_marked, hc]]
      rw [hdistributed, hshare, ← hbefore]
      rfl
    refine ⟨?_, ?_, fun _ => ⟨rfl, hpaid⟩⟩
    · by_cases hall : t.totalAmount.val ≤ distributed.val
      · obtain rfl : distributed = t.totalAmount := MInt.val_inj.1 (le_antisymm hle hall)
        have hcompleted : ((t.record id before false false).claimed t.totalAmount).completed = true :=
          decide_eq_true hall
        have hgone := written_completed id (s.marked id holder) hcompleted
        have hrecord :
            (t.record id before false false).claimed t.totalAmount = t.record id t.totalAmount true false := by
          simp [Distribution.claimed, Terms.record]
        rw [hrecord] at hgone ⊢
        exact .paid hgone.1 hgone.2
      · have hrecord : (t.record id before false false).claimed distributed = t.record id distributed false false := by
          simp [Distribution.claimed, Terms.record, MInt.le_def, hall]
        rw [hrecord] at hpaid ⊢
        obtain ⟨h₁, h₂⟩ := written_open id (s.marked id holder) (d := t.record id distributed false false) rfl
        exact .opened (h₁ ▸ hsnapshot) (h₂ ▸ hsupply) hpaid (not_le.1 hall)
    · intro a ha
      rw [hasClaimed_written, hasClaimed_marked] at ha
      split at ha
      · rename_i he
        exact ⟨b, he.2 ▸ hmem, hpos⟩
      · exact hmarked a ha

theorem Standing.reclaimed (h : Standing tr t id s d) (hopen : d.completed = false)
    (hsweeps : r.label.sweeps = some id) :
    Standing (tr ++ [r]) t id (s.written id { d with distributed := d.totalAmount, completed := true })
      { d with distributed := d.totalAmount, completed := true } := by
  obtain ⟨hstage, hmarked, -⟩ := h
  cases hstage with
  | paid _ _ => cases hopen
  | cancelled _ _ _ => cases hopen
  | opened _ _ _ _ =>
    refine ⟨.paid ?_ ?_, hmarked, fun hno => absurd (swept_concat.2 (.inr hsweeps)) hno⟩
    · exact (written_completed id s rfl).1
    · exact (written_completed id s rfl).2

/-- Nothing was paid out when a distribution is cancelled, so nobody has claimed. -/
theorem Standing.cancelled (h : Standing tr t id s d) (hopen : d.completed = false) (hnone : d.distributed.val ≤ 0)
    (hsweeps : r.label.sweeps = some id) :
    Standing (tr ++ [r]) t id (s.written id { d with completed := true, cancelled := true })
      { d with completed := true, cancelled := true } := by
  obtain ⟨hstage, hmarked, -⟩ := h
  cases hstage with
  | paid _ _ => cases hopen
  | cancelled _ _ _ => cases hopen
  | @opened distributed _ _ hdistributed _ =>
    have hzero : distributed = 0 := by
      rw [MInt.eq_zero_iff, hdistributed]
      refine le_antisymm ?_ Terms.paid_nonneg
      rw [← hdistributed]
      exact hnone
    have hunclaimed : ∀ a, hasClaimed s id a = false := by
      intro a
      by_contra hne
      have ha : hasClaimed s id a = true := by simpa using hne
      obtain ⟨b, hmem, hpos⟩ := hmarked a ha
      have hshare := Terms.share_le_paid hmem ha
      rw [← hdistributed, hzero, MInt.val_zero] at hshare
      omega
    subst hzero
    refine ⟨.cancelled ?_ ?_ hunclaimed, hmarked, fun hno => absurd (swept_concat.2 (.inr hsweeps)) hno⟩
    · exact (written_completed id s rfl).1
    · exact (written_completed id s rfl).2

theorem same_opened (s : State Address) {d : Distribution Address} (eligible : List (Address × I128)) (sum : I128)
    {id' : U64} (h : id' ≠ d.id) : Same id' s (s.opened d eligible sum) :=
  ⟨Storage.get_set_of_ne _ _ h, Storage.get_set_of_ne _ _ h, Storage.get_set_of_ne _ _ h, fun _ => rfl⟩

/-- A distribution is open when it is created, with nothing paid. -/
theorem standing_opened (h : ∀ a, hasClaimed s id a = false) :
    Standing tr t id (s.opened (t.record id 0 false false) t.eligible t.supply) (t.record id 0 false false) := by
  have hpaid : t.paid (hasClaimed (s.opened (t.record id 0 false false) t.eligible t.supply) id) = 0 :=
    Weights.paid_eq_zero h
  refine ⟨.opened ?_ ?_ hpaid.symm t.pos, ?_, fun _ => ⟨rfl, hpaid.symm⟩⟩
  · exact Storage.get_set_self _ _ _
  · exact Storage.get_set_self _ _ _
  · intro a ha
    cases (h a).symm.trans ha

end Stages

/-! ## The invariant -/

section Invariant

variable [DecidableEq Address]

/-- The storage, against the history of answered calls: the ids in use are `1..=Counter`, each was created, and each
created distribution stands as its only terms allow. -/
structure Lifecycle (tr : List (Answered Address X A)) (s : State Address) : Prop where
  ids : Numbered s.dist (s.counter.getD 0)
  unopened : s.roles.admin = none → s.dist = ∅
  created : ∀ id d, s.dist.get id = some d → ∃ o, Created tr id o
  claimed : ∀ id a, hasClaimed s id a = true → ∃ d, s.dist.get id = some d
  unique : ∀ id o o', Created tr id o → Created tr id o' → o = o'
  standing : ∀ id o, Created tr id o →
    ∃ t : Terms Address, t.toOffer = o ∧ ∃ d, s.dist.get id = some d ∧ Standing tr t id s d

variable {tr : List (Answered Address X A)} {r : Answered Address X A} {s s' : State Address} {id : U64}

theorem lifecycle_fresh : Lifecycle ([] : List (Answered Address X A)) (State.fresh Address) where
  ids := numbered_empty rfl
  unopened _ := rfl
  created id d h := by simp [State.fresh] at h
  claimed id a h := by simp [State.fresh, hasClaimed] at h
  unique id o o' h := absurd h not_created_nil
  standing id o h := absurd h not_created_nil

/-- Every record stands under some terms. -/
theorem Lifecycle.exists_terms {d : Distribution Address} (hl : Lifecycle tr s) (hd : s.dist.get id = some d) :
    ∃ t : Terms Address, Created tr id t.toOffer ∧ Standing tr t id s d := by
  obtain ⟨o, ho⟩ := hl.created id d hd
  obtain ⟨t, rfl, d', hd', hst⟩ := hl.standing id o ho
  obtain rfl : d = d' := Option.some.inj (hd.symm.trans hd')
  exact ⟨t, ho, hst⟩

/-- A call that neither creates nor spends leaves every distribution as it is. -/
theorem Lifecycle.kept (hl : Lifecycle tr s) (hoffer : r.label.offer = none)
    (hids : Numbered s.dist (s'.counter.getD 0))
    (hunopened : s'.roles.admin = none → s'.dist = ∅) (hdist : s'.dist = s.dist)
    (hsame : ∀ id, Same id s s') : Lifecycle (tr ++ [r]) s' := by
  refine ⟨hdist ▸ hids, hunopened, ?_, ?_, ?_, ?_⟩
  · intro id d hd
    obtain ⟨o, ho⟩ := hl.created id d (hdist ▸ hd)
    exact ⟨o, created_concat.2 (.inl ho)⟩
  · intro id a ha
    rw [hdist]
    exact hl.claimed id a ((hsame id).claimed a ▸ ha)
  · intro id o o' ho ho'
    exact hl.unique id o o' ((created_concat_of_none hoffer).1 ho) ((created_concat_of_none hoffer).1 ho')
  · intro id o ho
    obtain ⟨t, hto, d, hd, hst⟩ := hl.standing id o ((created_concat_of_none hoffer).1 ho)
    exact ⟨t, hto, d, hdist ▸ hd, hst.same (hsame id)⟩

/-- A call that writes the record of one distribution. -/
theorem Lifecycle.settled {d d' : Distribution Address} (hl : Lifecycle tr s) (hoffer : r.label.offer = none)
    (hd : s.dist.get id = some d) (hcounter : s'.counter = s.counter) (hroles : s'.roles = s.roles)
    (hwritten : s'.dist = s.dist.set id d') (hsame : ∀ id', id' ≠ id → Same id' s s')
    (hstanding : ∀ t, Standing tr t id s d → Standing (tr ++ [r]) t id s' d') : Lifecycle (tr ++ [r]) s' := by
  have hdist : ∀ id', s'.dist.get id' = if id' = id then some d' else s.dist.get id' := by
    intro id'
    rw [hwritten, Storage.get_set]
  refine ⟨?_, ?_, ?_, ?_, ?_, ?_⟩
  · rw [hcounter, hwritten]
    exact hl.ids.replace hd d'
  · intro hadmin
    rw [hroles] at hadmin
    rw [hl.unopened hadmin] at hd
    cases hd
  · intro id' d₁ hd₁
    have hbefore : ∃ d, s.dist.get id' = some d := by
      rw [hdist] at hd₁
      split at hd₁
      · rename_i he
        exact ⟨d, he ▸ hd⟩
      · exact ⟨d₁, hd₁⟩
    obtain ⟨d₂, hd₂⟩ := hbefore
    obtain ⟨o, ho⟩ := hl.created id' d₂ hd₂
    exact ⟨o, created_concat.2 (.inl ho)⟩
  · intro id' a ha
    rw [hdist]
    split
    · exact ⟨d', rfl⟩
    · rename_i hne
      exact hl.claimed id' a ((hsame id' hne).claimed a ▸ ha)
  · intro id' o o' ho ho'
    exact hl.unique id' o o' ((created_concat_of_none hoffer).1 ho) ((created_concat_of_none hoffer).1 ho')
  · intro id' o ho
    obtain ⟨t, hto, d₁, hd₁, hst⟩ := hl.standing id' o ((created_concat_of_none hoffer).1 ho)
    refine ⟨t, hto, ?_⟩
    by_cases he : id' = id
    · subst he
      obtain rfl : d = d₁ := Option.some.inj (hd.symm.trans hd₁)
      exact ⟨d', by rw [hdist, if_pos rfl], hstanding t hst⟩
    · exact ⟨d₁, by rw [hdist, if_neg he, hd₁], hst.same (hsame id' he)⟩

/-- Nobody has claimed the next id. -/
theorem Lifecycle.unclaimed_next (hl : Lifecycle tr s) (hid : id.val = (s.counter.getD 0).val + 1) (a : Address) :
    hasClaimed s id a = false := by
  by_contra hne
  obtain ⟨d, hd⟩ := hl.claimed id a (by simpa using hne)
  cases (hl.ids.get_next hid).symm.trans hd

/-- A creation adds a record under the next id. -/
theorem Lifecycle.opened (hl : Lifecycle tr s) (t : Terms Address) (hid : id.val = (s.counter.getD 0).val + 1)
    (hadmin : s.roles.admin ≠ none) (hresult : r.result = .id id) (hoffer : r.label.offer = some t.toOffer) :
    Lifecycle (tr ++ [r]) (s.opened (t.record id 0 false false) t.eligible t.supply) := by
  have hnew := hl.ids.get_next hid
  have hunclaimed := hl.unclaimed_next hid
  have hdist : ∀ id', (s.opened (t.record id 0 false false) t.eligible t.supply).dist.get id' =
      if id' = id then some (t.record id 0 false false) else s.dist.get id' := fun id' => Storage.get_set _ _ _ _
  have hfirst : ∀ o, ¬ Created tr id o := by
    intro o ho
    obtain ⟨-, -, d, hd, -⟩ := hl.standing id o ho
    cases hnew.symm.trans hd
  refine ⟨hl.ids.push hid _, fun h => absurd h hadmin, ?_, ?_, ?_, ?_⟩
  · intro id' d hd
    rw [hdist] at hd
    split at hd
    · rename_i he
      exact ⟨t.toOffer, created_concat.2 (.inr ⟨he ▸ hresult, hoffer⟩)⟩
    · obtain ⟨o, ho⟩ := hl.created id' d hd
      exact ⟨o, created_concat.2 (.inl ho)⟩
  · intro id' a ha
    rw [hdist]
    split
    · exact ⟨_, rfl⟩
    · exact hl.claimed id' a ha
  · intro id' o o' ho ho'
    rcases created_concat.1 ho with ho | ⟨hid₁, ho⟩ <;> rcases created_concat.1 ho' with ho' | ⟨hid₂, ho'⟩
    · exact hl.unique id' o o' ho ho'
    · exact absurd ho (Ret.id.inj (hresult.symm.trans hid₂) ▸ hfirst o)
    · exact absurd ho' (Ret.id.inj (hresult.symm.trans hid₁) ▸ hfirst o')
    · exact Option.some.inj (ho.symm.trans ho')
  · intro id' o ho
    rcases created_concat.1 ho with ho | ⟨hresult', hoffer'⟩
    · obtain ⟨t', hto, d, hd, hst⟩ := hl.standing id' o ho
      have hne : id' ≠ id := by
        rintro rfl
        cases hnew.symm.trans hd
      exact ⟨t', hto, d, by rw [hdist, if_neg hne, hd], hst.same (same_opened _ _ _ hne)⟩
    · obtain rfl : id = id' := Ret.id.inj (hresult.symm.trans hresult')
      obtain rfl : t.toOffer = o := Option.some.inj (hoffer.symm.trans hoffer')
      exact ⟨t, rfl, _, by rw [hdist, if_pos rfl], standing_opened hunclaimed⟩

/-! ## Runs -/

variable {w : World Address X A} {this : Address} {h h' : Contract Address X} {l : Label Address A} {u : Ret}

theorem Lifecycle.call {env : Env Address} {op : Op Address} (hl : Lifecycle tr h.storage)
    (heffect : Effect w this env h.storage h.outside op u h'.storage h'.outside) :
    Lifecycle (tr ++ [⟨h, .call env op, u, h'⟩]) h'.storage := by
  obtain ⟨s', x', events'⟩ := h'
  cases heffect with
  | handover hop hadmin hadmin' =>
    have hsome : ∀ r : Roles Address, r.admin = h.storage.roles.admin ∨ (∃ a, op = .acceptAdmin a ∧ r.admin = some a) →
        r.admin ≠ none := by
      rintro r (hr | ⟨a, -, hr⟩)
      · rwa [hr]
      · simp [hr]
    exact hl.kept (by simp [Label.offer, hop.offer]) hl.ids (fun h => absurd h (hsome _ hadmin')) rfl
      fun _ => ⟨rfl, rfl, rfl, fun _ => rfl⟩
  | initialized hadmin =>
    have hempty := hl.unopened hadmin
    refine hl.kept rfl ?_ (fun h => by cases h) rfl fun _ => ⟨rfl, rfl, rfl, fun _ => rfl⟩
    rw [hempty]
    exact numbered_empty rfl
  | @opened _ admin o sum id _ hop hsigned hpos hdeadline hne hlisted hid htransfer =>
    exact hl.opened ⟨o, env.sequence, sum, hpos, hlisted⟩ hid hsigned.admin_ne rfl (by simp [Label.offer, hop])
  | claimed hsigned hd hopen hdeadline hdue hdistributed hle htransfer =>
    exact hl.settled rfl hd rfl rfl rfl (fun _ => same_marked_written _ _ _)
      fun t hst => hst.claimed hd hopen hdue hdistributed hle
  | reclaimed hadmin hsigned hd hopen hdeadline hremaining htransfer =>
    exact hl.settled rfl hd rfl rfl rfl (fun _ => same_written _ _)
      fun t hst => hst.reclaimed hopen rfl
  | cancelled hadmin hsigned hd hopen hnone htransfer =>
    exact hl.settled rfl hd rfl rfl rfl (fun _ => same_written _ _)
      fun t hst => hst.cancelled hopen hnone rfl

/-- **One answered call** keeps the invariant. -/
theorem Lifecycle.step (hl : Lifecycle tr h.storage) (hstep : (dividend w this).step h l = some (u, h')) :
    Lifecycle (tr ++ [⟨h, l, u, h'⟩]) h'.storage := by
  cases l with
  | call env op => exact hl.call (call_effect (Call.returned_eq_some.1 hstep))
  | others a =>
    obtain ⟨x, -, hx⟩ := Option.map_eq_some_iff.1 hstep
    cases hx
    exact hl.kept rfl hl.ids hl.unopened rfl fun _ => ⟨rfl, rfl, rfl, fun _ => rfl⟩

omit [DecidableEq Address] in
/-- What a history has created, a longer one has. -/
theorem Created.later {o : Offer Address} (ho : Created tr id o) (tr' : List (Answered Address X A)) :
    Created (tr ++ tr') id o := by
  obtain ⟨r, hr, hcreated⟩ := ho
  exact ⟨r, List.mem_append_left _ hr, hcreated⟩

/-- A part of a run keeps the invariant. -/
theorem Lifecycle.run (hl : Lifecycle tr h.storage) (ls : List (Label Address A)) :
    Lifecycle (tr ++ (dividend w this).trace h ls) ((dividend w this).run h ls).storage := by
  refine System.run_rule (P := fun tr' (h' : Contract Address X) => Lifecycle (tr ++ tr') h'.storage) ?_ ?_ ls
  · simpa using hl
  · intro tr' h₁ l u h₂ hl₁ hstep
    simpa using hl₁.step hstep

/-- **Every run** keeps the invariant. -/
theorem run_lifecycle (w : World Address X A) (this : Address) (x : X) (ls : List (Label Address A)) :
    Lifecycle ((dividend w this).trace (Contract.fresh Address x) ls)
      ((dividend w this).run (Contract.fresh Address x) ls).storage :=
  System.run_rule (P := fun tr (h : Contract Address X) => Lifecycle tr h.storage) lifecycle_fresh
    (fun _ _ _ _ _ hl hstep => hl.step hstep) ls

end Invariant

end StellarRwa.Dividend
