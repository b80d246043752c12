import StellarRwa.Compliance.Model

/-!
# What the compliance calls do

One lemma for each function that writes: when it returns, and the storage and events it leaves. Later files cite these
and never unfold the functions. For the gate, `isAllowed_cases` lists how it ends and `isAllowed_ok` gives its answer,
which is `Allowed`.
-/

namespace StellarRwa.Compliance

open Lib

variable {Address : Type}

@[simp] theorem administered_roles : (administered Address).roles = State.roles := rfl

@[simp] theorem administered_setRoles (r : Roles Address) (s : State Address) :
    (administered Address).setRoles r s = { s with roles := r } := rfl

variable [DecidableEq Address] {env : Env Address} {h : Contract Address}

/-! ## Pages -/

/-- The next address goes to page `p`, whose recorded length becomes `n`. -/
def NextSlot (s : State Address) (p n : U32) : Prop :=
  (200 ≤ (allowlistMeta s).2.val ∧ p.val = (allowlistMeta s).1.val + 1 ∧ n.val = 1) ∨
    ((allowlistMeta s).2.val < 200 ∧ p = (allowlistMeta s).1 ∧ n.val = (allowlistMeta s).2.val + 1)

/-- `a` appended to page `p`. -/
def State.appended (s : State Address) (a : Address) (p n count : U32) : State Address :=
  { s with
    allowlistPage := s.allowlistPage.set p (page s p ++ [a])
    allowlistPageOf := s.allowlistPageOf.set a p
    allowlistMeta := some (p, n)
    allowlistCount := some count }

omit [DecidableEq Address] in
theorem openPage_ok {cursor : U32 × U32} {r : (U32 × U32) × Contract Address} :
    openPage cursor h = .ok r ↔
      (200 ≤ cursor.2.val ∧ ∃ p : U32, p.val = cursor.1.val + 1 ∧ ((p, 0), h) = r) ∨
        (cursor.2.val < 200 ∧ (cursor, h) = r) := by
  simp [openPage, Call.ite_ok, allowlistPageSize]

theorem appendToAllowlist_ok {a : Address} {r : Unit × Contract Address} :
    appendToAllowlist a h = .ok r ↔ ∃ p n count, NextSlot h.storage p n ∧
      count.val = (getAllowlistCount h.storage).val + 1 ∧
      ((), { h with storage := h.storage.appended a p n count }) = r := by
  simp only [appendToAllowlist, NextSlot, State.appended, openPage_ok, Call.bind_ok, Call.storage_ok, Call.update_ok,
    Call.orTrap_ok, MInt.checkedAdd_eq_some, MInt.val_one]
  constructor
  · rintro ⟨_, _, hs, cursor, _, hslot, _, _, hu₁, _, _, hu₂, n, _, ⟨_, hn, hu₃⟩, _, _, hu₄, _, _, hu₅, c, _,
      ⟨_, hc, hu₆⟩, hr⟩
    cases hs
    cases hu₁; cases hu₂; cases hu₃; cases hu₄; cases hu₅; cases hu₆
    rcases hslot with ⟨hfull, q, hq, e⟩ | ⟨hroom, e⟩
    · cases e
      exact ⟨_, n, c, .inl ⟨hfull, hq, by simpa using hn⟩, hc, hr⟩
    · obtain ⟨rfl, rfl⟩ := Prod.mk.inj e
      exact ⟨_, n, c, .inr ⟨hroom, rfl, hn⟩, hc, hr⟩
  · rintro ⟨p, n, c, hslot, hc, hr⟩
    rcases hslot with ⟨hfull, hp, hn⟩ | ⟨hroom, rfl, hn⟩
    · exact ⟨_, _, rfl, (p, 0), h, .inl ⟨hfull, p, hp, rfl⟩, _, _, rfl, _, _, rfl, _, _, ⟨n, by simpa using hn, rfl⟩,
        _, _, rfl, _, _, rfl, _, _, ⟨c, hc, rfl⟩, hr⟩
    · exact ⟨_, _, rfl, allowlistMeta h.storage, h, .inr ⟨hroom, rfl⟩, _, _, rfl, _, _, rfl, _, _, ⟨n, hn, rfl⟩,
        _, _, rfl, _, _, rfl, _, _, ⟨c, hc, rfl⟩, hr⟩

/-- `a` deleted from page `p`. -/
def State.detached (s : State Address) (a : Address) (p : U32) : State Address :=
  { s with
    allowlistPage := s.allowlistPage.set p ((page s p).filter (· ≠ a))
    allowlistPageOf := s.allowlistPageOf.remove a
    allowlistCount := some ((getAllowlistCount s).saturatingSub 1) }

theorem removeFromAllowlist_ok {a : Address} {r : Unit × Contract Address} :
    removeFromAllowlist a h = .ok r ↔
      (h.storage.allowlistPageOf.get a = none ∧ ((), h) = r) ∨
      (∃ p, h.storage.allowlistPageOf.get a = some p ∧
        ((), { h with storage := h.storage.detached a p }) = r) := by
  unfold removeFromAllowlist
  rw [Call.bind_ok]
  cases hp : h.storage.allowlistPageOf.get a with
  | none => simp [hp]
  | some p => simp [hp, State.detached, getAllowlistCount]

/-! ## Records -/

/-- The record that approving `a` writes. -/
def approvedRecord (now : U32) (a : Address) (j : Bytes) (e : U32) : KycRecord Address :=
  ⟨a, .approved, canon j, now, e⟩

/-- The event of an approval over the record `prev`. -/
def approvedEvent (a : Address) (j : Bytes) (e : U32) : Option (KycRecord Address) → Event Address
  | some r => .approved a (canon j) e r.jurisdiction r.expiresAt (r.status = ComplianceStatus.suspended)
  | none => .approved a (canon j) e (canon j) 0 false

/-- The storage with the record of `a` written. -/
def State.withRecord (s : State Address) (a : Address) (r : KycRecord Address) : State Address :=
  { s with record := s.record.set a r }

theorem approveAddress_ok {now : U32} {a : Address} {j : Bytes} {e : U32} {r : Unit × Contract Address} :
    approveAddress now a j e h = .ok r ↔
      ¬ (e ≠ 0 ∧ e ≤ now) ∧ TwoLetters j ∧ ∃ s : State Address,
        ((h.storage.record.get a = none ∧ ∃ p n count, NextSlot h.storage p n ∧
            count.val = (getAllowlistCount h.storage).val + 1 ∧
            s = (h.storage.withRecord a (approvedRecord now a j e)).appended a p n count) ∨
          (∃ prev, h.storage.record.get a = some prev ∧
            s = h.storage.withRecord a (approvedRecord now a j e))) ∧
        ((), { h with
          storage := s
          events := h.events ++ [approvedEvent a j e (h.storage.record.get a)] }) = r := by
  simp only [approveAddress, approvedRecord, approvedEvent, State.withRecord, Call.bind_ok, Call.panicIf_ok,
    Call.lift_ok, Call.storage_ok, Call.update_ok, Call.onlyIf_ok, normalizeJurisdiction_ok, appendToAllowlist_ok]
  constructor
  · rintro ⟨_, _, ⟨he, hu₁⟩, _, _, ⟨_, ⟨hj, rfl⟩, hu₂⟩, _, _, hu₃, _, _, hu₄, _, _, happ, hpub⟩
    cases hu₁; cases hu₂; cases hu₃; cases hu₄
    refine ⟨he, hj, ?_⟩
    cases hprev : h.storage.record.get a with
    | none =>
      rw [hprev] at happ hpub
      obtain ⟨-, p, n, c, hslot, hc, hu₅⟩ | ⟨hno, -⟩ := happ
      · cases hu₅
        exact ⟨_, .inl ⟨rfl, p, n, c, hslot, hc, rfl⟩, by simpa using hpub⟩
      · exact absurd rfl hno
    | some prev =>
      rw [hprev] at happ hpub
      obtain ⟨hno, -⟩ | ⟨-, hu₅⟩ := happ
      · cases hno
      · cases hu₅
        exact ⟨_, .inr ⟨prev, rfl, rfl⟩, by simpa using hpub⟩
  · rintro ⟨he, hj, s, hs, hr⟩
    refine ⟨_, _, ⟨he, rfl⟩, _, _, ⟨_, ⟨hj, rfl⟩, rfl⟩, _, _, rfl, _, _, rfl, (), { h with storage := s }, ?_, ?_⟩
    · rcases hs with ⟨hnone, p, n, c, hslot, hc, rfl⟩ | ⟨prev, hsome, rfl⟩
      · exact .inl ⟨hnone, p, n, c, hslot, hc, rfl⟩
      · exact .inr ⟨by simp [hsome], rfl⟩
    · cases hprev : h.storage.record.get a with
      | none => rw [hprev] at hr; simpa using hr
      | some prev => rw [hprev] at hr; simpa using hr

theorem suspend_ok {admin a : Address} {r : Unit × Contract Address} :
    suspend env admin a h = .ok r ↔ h.storage.roles.admin = some admin ∧ env.authorized admin = true ∧
      ∃ rec, h.storage.record.get a = some rec ∧
      ((), { h with
        storage := h.storage.withRecord a { rec with status := .suspended }
        events := h.events ++ [.suspend a] }) = r := by
  simp [suspend, loadRecord, State.withRecord, and_assoc]

theorem reinstate_ok {admin a : Address} {r : Unit × Contract Address} :
    reinstate env admin a h = .ok r ↔ h.storage.roles.admin = some admin ∧ env.authorized admin = true ∧
      ∃ rec, h.storage.record.get a = some rec ∧ rec.status = .suspended ∧
      ((), { h with
        storage := h.storage.withRecord a { rec with status := .approved }
        events := h.events ++ [.reinstat a] }) = r := by
  simp [reinstate, loadRecord, State.withRecord, and_assoc]

/-- The storage without the record of `a`. -/
def State.withoutRecord (s : State Address) (a : Address) : State Address :=
  { s with record := s.record.remove a }

theorem remove_ok {admin a : Address} {r : Unit × Contract Address} :
    remove env admin a h = .ok r ↔ h.storage.roles.admin = some admin ∧ env.authorized admin = true ∧
      (∃ rec, h.storage.record.get a = some rec) ∧ ∃ s : State Address,
        ((h.storage.allowlistPageOf.get a = none ∧ s = h.storage.withoutRecord a) ∨
          (∃ p, h.storage.allowlistPageOf.get a = some p ∧ s = (h.storage.withoutRecord a).detached a p)) ∧
        ((), { h with storage := s, events := h.events ++ [.removed a] }) = r := by
  simp only [remove, State.withoutRecord, Call.bind_ok, Administered.requireAdmin_ok, administered_roles,
    Call.storage_ok, Call.panicIf_ok, Bool.not_eq_false, Storage.has_iff, Call.update_ok, removeFromAllowlist_ok,
    Call.publish_ok]
  constructor
  · rintro ⟨_, _, ⟨ha, hauth, hu₁⟩, _, _, hu₂, _, _, ⟨hrec, hu₃⟩, _, _, hu₄, _, _, hdet, hr⟩
    cases hu₁; cases hu₂; cases hu₃; cases hu₄
    refine ⟨ha, hauth, hrec, ?_⟩
    rcases hdet with ⟨hnone, hu₅⟩ | ⟨p, hsome, hu₅⟩
    · cases hu₅
      exact ⟨_, .inl ⟨hnone, rfl⟩, hr⟩
    · cases hu₅
      exact ⟨_, .inr ⟨p, hsome, rfl⟩, hr⟩
  · rintro ⟨ha, hauth, hrec, s, hs, hr⟩
    refine ⟨_, _, ⟨ha, hauth, rfl⟩, _, _, rfl, _, _, ⟨hrec, rfl⟩, _, _, rfl, (), { h with storage := s }, ?_, hr⟩
    rcases hs with ⟨hnone, rfl⟩ | ⟨p, hsome, rfl⟩
    · exact .inl ⟨hnone, rfl⟩
    · exact .inr ⟨p, hsome, rfl⟩

theorem addToAllowlist_ok {admin a : Address} {j : Bytes} {e : U32} {r : Unit × Contract Address} :
    addToAllowlist env admin a j e h = .ok r ↔ h.storage.roles.admin = some admin ∧ env.authorized admin = true ∧
      approveAddress env.sequence a j e h = .ok r := by
  simp [addToAllowlist, and_assoc]

theorem addToAllowlistBatch_ok {admin : Address} {entries : List (AllowlistEntry Address)}
    {r : Unit × Contract Address} :
    addToAllowlistBatch env admin entries h = .ok r ↔
      h.storage.roles.admin = some admin ∧ env.authorized admin = true ∧
      Call.forEach entries (fun entry => approveAddress env.sequence entry.address entry.jurisdiction entry.expiresAt)
        h = .ok r := by
  simp [addToAllowlistBatch, and_assoc]

/-! ## Jurisdictions -/

omit [DecidableEq Address] in
theorem isJurisdictionBlocked_ok {s : State Address} {j : Bytes} {b : Bool} :
    isJurisdictionBlocked s j = .ok b ↔ TwoLetters j ∧ (s.blocked.get (canon j)).getD false = b := by
  rw [isJurisdictionBlocked, normalizeJurisdiction_eq]
  split
  · rename_i hj
    split at hj
    · cases hj
    · rename_i h2; simp [h2]
  · rename_i hj
    split at hj
    · rename_i h2; cases hj; simp [h2]
    · cases hj

theorem blockJurisdiction_ok {admin : Address} {j : Bytes} {r : Unit × Contract Address} :
    blockJurisdiction env admin j h = .ok r ↔ h.storage.roles.admin = some admin ∧ env.authorized admin = true ∧
      TwoLetters j ∧
      ((), { h with
        storage := { h.storage with
          blocked := h.storage.blocked.set (canon j) true
          blockedList :=
            if (h.storage.blocked.get (canon j)).getD false = false then some (blockedList h.storage ++ [canon j])
            else h.storage.blockedList }
        events := h.events ++ [.blockjur (canon j)] }) = r := by
  cases hb : (h.storage.blocked.get (canon j)).getD false <;>
    simp [blockJurisdiction, normalizeJurisdiction_ok, hb, and_assoc, blockedList]

theorem unblockJurisdiction_ok {admin : Address} {j : Bytes} {r : Unit × Contract Address} :
    unblockJurisdiction env admin j h = .ok r ↔ h.storage.roles.admin = some admin ∧ env.authorized admin = true ∧
      TwoLetters j ∧
      ((), { h with
        storage := { h.storage with
          blocked := h.storage.blocked.remove (canon j)
          blockedList := some ((blockedList h.storage).filter (· ≠ canon j)) }
        events := h.events ++ [.unblkjur (canon j)] }) = r := by
  simp [unblockJurisdiction, normalizeJurisdiction_ok, and_assoc, blockedList]

/-! ## The gate -/

/-- A holding period of `a` that has not elapsed at ledger `t`, in unbounded integers. -/
def Locked (s : State Address) (t : U32) (a : Address) : Prop :=
  ∃ m f : U64, s.minHoldingPeriod.get a = some m ∧ s.firstAcquiredLedger.get a = some f ∧ m ≠ 0 ∧
    t.val < f.val + m.val

/-- What the gate says of `a` at ledger `t`: an approved, unexpired record in a jurisdiction that is not blocked, and
no holding period still running. -/
def Allowed (s : State Address) (t : U32) (a : Address) : Prop :=
  ∃ rec, s.record.get a = some rec ∧ rec.status = .approved ∧ (rec.expiresAt = 0 ∨ t.val < rec.expiresAt.val) ∧
    (s.blocked.get (canon rec.jurisdiction)).getD false = false ∧ ¬ Locked s t a

/-- Saturation at `u64::MAX` is never reached by a ledger sequence. -/
theorem lt_saturatingAdd {t : U32} {f m : U64} : t.toU64 < f.saturatingAdd m ↔ t.val < f.val + m.val := by
  have h₁ := t.le_hi
  have h₂ := f.lo_le
  have h₃ := m.lo_le
  rw [MInt.lt_def, MInt.val_saturatingAdd, U32.val_toU64]
  omega

/-- The holding period is over, or it runs and the call says so in an event. -/
theorem holdingPeriodOver_cases {a : Address} {b : Bool} {h' : Contract Address}
    (hrun : holdingPeriodOver env a h = .ok (b, h')) :
    (¬ Locked h.storage env.sequence a ∧ b = true ∧ h' = h) ∨
      (Locked h.storage env.sequence a ∧ b = false ∧
        ∃ m f : U64, h' = { h with events := h.events ++ [.hldfail a f m env.sequence.toU64] }) := by
  rw [holdingPeriodOver, Call.bind_ok] at hrun
  obtain ⟨_, _, hs, hrun⟩ := hrun
  cases hs
  unfold Locked
  cases hm : h.storage.minHoldingPeriod.get a with
  | none =>
    simp only [hm, Call.pure_ok] at hrun
    cases hrun
    simp
  | some m =>
    cases hf : h.storage.firstAcquiredLedger.get a with
    | none =>
      simp only [hm, hf, Call.pure_ok] at hrun
      cases hrun
      simp
    | some f =>
      have hpos : (0 : U64) < m ↔ m ≠ 0 := by
        have := m.lo_le
        rw [MInt.lt_def, MInt.val_zero, ne_eq, MInt.eq_zero_iff]
        omega
      simp only [hm, hf, Call.ite_ok, Call.bind_ok, Call.publish_ok, Call.pure_ok, lt_saturatingAdd, hpos] at hrun
      rcases hrun with ⟨hlock, _, _, hu, hr⟩ | ⟨hlock, hr⟩
      · cases hu
        cases hr
        exact .inr ⟨⟨m, f, rfl, rfl, hlock⟩, rfl, m, f, rfl⟩
      · cases hr
        exact .inl ⟨by simpa using hlock, rfl, rfl⟩

theorem holdingPeriodOver_ok {a : Address} {b : Bool} {h' : Contract Address}
    (hrun : holdingPeriodOver env a h = .ok (b, h')) :
    h'.storage = h.storage ∧ (b = true ↔ ¬ Locked h.storage env.sequence a) := by
  obtain ⟨hlock, rfl, rfl⟩ | ⟨hlock, rfl, m, f, rfl⟩ := holdingPeriodOver_cases hrun
  · exact ⟨rfl, iff_of_true rfl hlock⟩
  · exact ⟨rfl, by simpa using hlock⟩

theorem holdingPeriodOver_total (env : Env Address) (h : Contract Address) (a : Address) :
    ∃ b h', holdingPeriodOver env a h = .ok (b, h') := by
  simp only [holdingPeriodOver, Call.bind_ok, Call.storage_ok]
  cases hm : h.storage.minHoldingPeriod.get a with
  | none => exact ⟨true, h, _, _, rfl, by simp [hm]⟩
  | some m =>
    cases hf : h.storage.firstAcquiredLedger.get a with
    | none => exact ⟨true, h, _, _, rfl, by simp [hm, hf]⟩
    | some f =>
      by_cases hlock : 0 < m ∧ env.sequence.toU64 < f.saturatingAdd m
      · exact ⟨false, _, _, _, rfl, by rw [hm, hf]; simp only [if_pos hlock, Call.bind_ok]; exact ⟨_, _, rfl, rfl⟩⟩
      · exact ⟨true, h, _, _, rfl, by rw [hm, hf]; simp only [if_neg hlock]; rfl⟩

/-- How the gate ends: it refuses without a word, it refuses an expired record, or the holding period decides. -/
theorem isAllowed_cases {a : Address} {b : Bool} {h' : Contract Address} (hrun : isAllowed env a h = .ok (b, h')) :
    (¬ Allowed h.storage env.sequence a ∧ b = false ∧ h' = h) ∨
      (∃ rec, h.storage.record.get a = some rec ∧ rec.expiresAt ≠ 0 ∧ rec.expiresAt ≤ env.sequence ∧ b = false ∧
        h' = { h with events := h.events ++ [.expired a rec.expiresAt] }) ∨
      ∃ rec, h.storage.record.get a = some rec ∧ rec.status = .approved ∧
        (rec.expiresAt = 0 ∨ env.sequence.val < rec.expiresAt.val) ∧ TwoLetters rec.jurisdiction ∧
        (h.storage.blocked.get (canon rec.jurisdiction)).getD false = false ∧
        holdingPeriodOver env a h = .ok (b, h') := by
  rw [isAllowed, Call.bind_ok] at hrun
  obtain ⟨_, _, hs, hrun⟩ := hrun
  cases hs
  unfold Allowed
  cases hr : h.storage.record.get a with
  | none =>
    simp only [hr, Call.pure_ok] at hrun
    cases hrun
    simp
  | some rec =>
    simp only [hr, Call.ite_ok, Call.bind_ok, Call.lift_ok, isJurisdictionBlocked_ok, Call.pure_ok,
      Call.publish_ok] at hrun
    rcases hrun with ⟨hst, e⟩ | ⟨hst, ⟨hexp, _, _, hu, e⟩ | ⟨hexp, blocked, _, ⟨_, ⟨hcode, hbl⟩, hu⟩, hrest⟩⟩
    · cases e
      exact .inl ⟨by simp [hst], rfl, rfl⟩
    · cases hu
      cases e
      exact .inr (.inl ⟨rec, rfl, hexp.1, hexp.2, rfl, rfl⟩)
    · cases hu
      rcases hrest with ⟨hb, e⟩ | ⟨hb, hhold⟩
      · cases e
        exact .inl ⟨by simp [hbl.trans hb], rfl, rfl⟩
      · have hfresh : rec.expiresAt = 0 ∨ env.sequence.val < rec.expiresAt.val := by
          by_cases h0 : rec.expiresAt = 0
          · exact .inl h0
          · exact .inr (not_le.1 fun hle => hexp ⟨h0, hle⟩)
        exact .inr (.inr ⟨rec, rfl, not_not.1 hst, hfresh, hcode, hbl.trans (Bool.not_eq_true _ ▸ hb), hhold⟩)

/-- **The gate answers `Allowed`** and reads the storage only. -/
theorem isAllowed_ok {a : Address} {b : Bool} {h' : Contract Address} (hrun : isAllowed env a h = .ok (b, h')) :
    h'.storage = h.storage ∧ (b = true ↔ Allowed h.storage env.sequence a) := by
  obtain ⟨hno, rfl, rfl⟩ | ⟨rec, hrec, hne, hle, rfl, rfl⟩ | ⟨rec, hrec, hst, hfresh, -, hblk, hhold⟩ :=
    isAllowed_cases hrun
  · exact ⟨rfl, by simpa using hno⟩
  · refine ⟨rfl, by simp, ?_⟩
    rintro ⟨rec', hrec', -, hfresh, -⟩
    rw [hrec] at hrec'
    cases hrec'
    rw [MInt.le_def] at hle
    rcases hfresh with h0 | hlt
    · exact absurd h0 hne
    · omega
  · obtain ⟨hsto, hiff⟩ := holdingPeriodOver_ok hhold
    refine ⟨hsto, hiff.trans ⟨fun hlock => ⟨rec, hrec, hst, hfresh, hblk, hlock⟩, ?_⟩⟩
    rintro ⟨_, _, -, -, -, hlock⟩
    exact hlock

/-- The gate answers whenever the stored jurisdiction is a code. -/
theorem isAllowed_total (env : Env Address) {a : Address}
    (hcode : ∀ rec, h.storage.record.get a = some rec → TwoLetters rec.jurisdiction) :
    ∃ b h', isAllowed env a h = .ok (b, h') := by
  simp only [isAllowed, Call.bind_ok, Call.storage_ok]
  cases hr : h.storage.record.get a with
  | none => exact ⟨false, h, _, _, rfl, by simp [hr]⟩
  | some rec =>
    by_cases hst : rec.status ≠ .approved
    · exact ⟨false, h, _, _, rfl, by rw [hr]; simp only [if_pos hst]; rfl⟩
    by_cases hexp : rec.expiresAt ≠ 0 ∧ rec.expiresAt ≤ env.sequence
    · exact ⟨false, _, _, _, rfl, by
        rw [hr]; simp only [if_neg hst, if_pos hexp, Call.bind_ok]; exact ⟨_, _, rfl, rfl⟩⟩
    have hblk : ∀ b, (h.storage.blocked.get (canon rec.jurisdiction)).getD false = b →
        (Call.lift (isJurisdictionBlocked h.storage rec.jurisdiction) : M Address Bool) h = .ok (b, h) := fun b hb =>
      Call.lift_ok.2 ⟨b, isJurisdictionBlocked_ok.2 ⟨hcode rec hr, hb⟩, rfl⟩
    cases hb : (h.storage.blocked.get (canon rec.jurisdiction)).getD false with
    | true =>
      exact ⟨false, h, _, _, rfl, by
        rw [hr]; simp only [if_neg hst, if_neg hexp, Call.bind_ok]; exact ⟨true, h, hblk true hb, rfl⟩⟩
    | false =>
      obtain ⟨b, h', hhold⟩ := holdingPeriodOver_total env h a
      exact ⟨b, h', _, _, rfl, by
        rw [hr]; simp only [if_neg hst, if_neg hexp, Call.bind_ok]
        exact ⟨false, h, hblk false hb, hhold⟩⟩

/-- A yes presupposes a record in a jurisdiction that is a code. -/
theorem isAllowed_code {a : Address} {h' : Contract Address} (hrun : isAllowed env a h = .ok (true, h')) :
    ∀ rec, h.storage.record.get a = some rec → TwoLetters rec.jurisdiction := by
  intro rec hrec
  obtain ⟨-, hb, -⟩ | ⟨_, -, -, -, hb, -⟩ | ⟨rec', hrec', -, -, hcode, -, -⟩ := isAllowed_cases hrun
  · cases hb
  · cases hb
  · rw [hrec] at hrec'
    cases hrec'
    exact hcode

/-- The gate says yes exactly to the allowed; the event log does not matter. -/
theorem isAllowed_true_iff {a : Address} :
    (∃ h', isAllowed env a h = .ok (true, h')) ↔ Allowed h.storage env.sequence a ∧
      ∀ rec, h.storage.record.get a = some rec → TwoLetters rec.jurisdiction := by
  constructor
  · rintro ⟨h', hrun⟩
    exact ⟨(isAllowed_ok hrun).2.1 rfl, isAllowed_code hrun⟩
  · rintro ⟨hallowed, hcode⟩
    obtain ⟨b, h', hrun⟩ := isAllowed_total env hcode
    have hb : b = true := (isAllowed_ok hrun).2.2 hallowed
    exact ⟨h', hb ▸ hrun⟩

/-! ## Administration and holding periods -/

omit [DecidableEq Address] in
theorem initializeContract_ok {admin : Address} {r : Unit × Contract Address} :
    initializeContract env admin h = .ok r ↔ h.storage.roles.admin = none ∧ env.authorized admin = true ∧
      ((), { h with
        storage := { h.storage with roles := { h.storage.roles with admin := some admin } }
        events := h.events ++ [.init admin] }) = r := by
  simp [initializeContract]

theorem setMinHoldingPeriod_ok {admin holder : Address} {m : U64} {r : Unit × Contract Address} :
    setMinHoldingPeriod env admin holder m h = .ok r ↔
      h.storage.roles.admin = some admin ∧ env.authorized admin = true ∧
      ((), { h with
        storage := { h.storage with
          minHoldingPeriod :=
            if m = 0 then h.storage.minHoldingPeriod.remove holder else h.storage.minHoldingPeriod.set holder m }
        events := h.events ++ [.minhld holder m] }) = r := by
  simp [setMinHoldingPeriod, and_assoc]

theorem recordAcquisition_ok {admin holder : Address} {r : Unit × Contract Address} :
    recordAcquisition env admin holder h = .ok r ↔
      h.storage.roles.admin = some admin ∧ env.authorized admin = true ∧
      ((h.storage.firstAcquiredLedger.get holder = none ∧
          ((), { h with
            storage := { h.storage with
              firstAcquiredLedger := h.storage.firstAcquiredLedger.set holder env.sequence.toU64 }
            events := h.events ++ [.acquired holder env.sequence.toU64] }) = r) ∨
        (h.storage.firstAcquiredLedger.get holder ≠ none ∧ ((), h) = r)) := by
  simp [recordAcquisition, and_assoc, Storage.has_eq_false]

theorem proposeAdmin_ok {admin newAdmin : Address} {r : Unit × Contract Address} :
    proposeAdmin env admin newAdmin h = .ok r ↔ h.storage.roles.admin = some admin ∧ env.authorized admin = true ∧
      ((), { h with
        storage := { h.storage with roles := { h.storage.roles with pendingAdmin := some newAdmin } }
        events := h.events ++ [.proposed admin newAdmin] }) = r := by
  simp [proposeAdmin, administered]

theorem cancelAdminProposal_ok {admin : Address} {r : Unit × Contract Address} :
    cancelAdminProposal env admin h = .ok r ↔ h.storage.roles.admin = some admin ∧ env.authorized admin = true ∧
      h.storage.roles.pendingAdmin ≠ none ∧
      ((), { h with
        storage := { h.storage with roles := { h.storage.roles with pendingAdmin := none } }
        events := h.events ++ [.cancelled admin] }) = r := by
  simp [cancelAdminProposal, administered]

theorem acceptAdmin_ok {newAdmin : Address} {r : Unit × Contract Address} :
    acceptAdmin env newAdmin h = .ok r ↔ env.authorized newAdmin = true ∧
      h.storage.roles.pendingAdmin = some newAdmin ∧ ∃ oldAdmin, h.storage.roles.admin = some oldAdmin ∧
      ((), { h with
        storage := { h.storage with roles := ⟨some newAdmin, none⟩ }
        events := h.events ++ [.setAdmin oldAdmin newAdmin] }) = r := by
  simp [acceptAdmin, administered]

/-- The calls that concern the offices only. -/
def Op.administrative : Op Address → Bool
  | .initializeContract .. | .proposeAdmin .. | .cancelAdminProposal .. | .acceptAdmin .. => true
  | _ => false

/-- The events of these calls. -/
def Event.administrative : Event Address → Bool
  | .init .. | .proposed .. | .cancelled .. | .setAdmin .. => true
  | _ => false

/-- **The administration** writes the offices and nothing else, and publishes one event. -/
theorem call_administrative {op : Op Address} {r : Ret} {h' : Contract Address} (hop : op.administrative = true)
    (hrun : call env op h = .ok (r, h')) : ∃ roles e, Event.administrative e = true ∧
      h' = { h with storage := { h.storage with roles := roles }, events := h.events ++ [e] } := by
  cases op <;> first | (cases hop; done) | skip
  all_goals
    simp only [call, Call.bind_ok, Call.pure_ok] at hrun
    obtain ⟨x, h₁, hrun, hr⟩ := hrun
    cases hr
  case initializeContract =>
    obtain ⟨-, -, hr⟩ := initializeContract_ok.1 hrun
    cases hr
    exact ⟨_, _, rfl, rfl⟩
  case proposeAdmin =>
    obtain ⟨-, -, hr⟩ := proposeAdmin_ok.1 hrun
    cases hr
    exact ⟨_, _, rfl, rfl⟩
  case cancelAdminProposal =>
    obtain ⟨-, -, -, hr⟩ := cancelAdminProposal_ok.1 hrun
    cases hr
    exact ⟨_, _, rfl, rfl⟩
  case acceptAdmin =>
    obtain ⟨-, -, _, -, hr⟩ := acceptAdmin_ok.1 hrun
    cases hr
    exact ⟨_, _, rfl, rfl⟩

end StellarRwa.Compliance
